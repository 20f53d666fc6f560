/-!
# Programs that ask

A `Program` is a finite tree: it is done, or it asks a request and goes on in a way that
depends on the answer. `interpret` answers the requests of one program by another program,
and `Program.Child` is the relation between a program and its continuations, by which every
program is accessible.
-/

namespace CollectiveTuner

/-- A computation that may ask requests before it ends. -/
inductive Program (Request : Type) (Answer : Request → Type) (α : Type) : Type
  | done (value : α)
  | ask (request : Request) (next : Answer request → Program Request Answer α)

namespace Program

variable {Request : Type} {Answer : Request → Type} {α β γ : Type}

/-- Goes on with the value that the first program ends with. -/
def bind (program : Program Request Answer α) (next : α → Program Request Answer β) :
    Program Request Answer β :=
  match program with
  | done value => next value
  | ask request rest => ask request fun answer => (rest answer).bind next

instance : Monad (Program Request Answer) where
  pure := done
  bind := bind

/-- A program that goes on with nothing is that program. -/
theorem bind_done (program : Program Request Answer α) : program.bind done = program := by
  induction program with
  | done => rfl
  | ask request rest ih => simp only [bind, ih]

/-- It does not matter how three programs in sequence are grouped. -/
theorem bind_assoc (program : Program Request Answer α) (first : α → Program Request Answer β)
    (second : β → Program Request Answer γ) :
    (program.bind first).bind second = program.bind fun value => (first value).bind second := by
  induction program with
  | done => rfl
  | ask request rest ih => simp only [bind, ih]

instance : LawfulMonad (Program Request Answer) :=
  LawfulMonad.mk' (Program Request Answer)
    (fun program => bind_done program)
    (fun _ _ => rfl)
    (fun program first second => bind_assoc program first second)

/-- Asks one request and ends with its answer. -/
def request (request : Request) : Program Request Answer (Answer request) :=
  ask request done

/-- Answers every request of a program by a program of another kind. -/
def interpret {Request' : Type} {Answer' : Request' → Type}
    (handle : (request : Request) → Program Request' Answer' (Answer request)) :
    Program Request Answer α → Program Request' Answer' α
  | done value => done value
  | ask request rest => (handle request).bind fun answer => interpret handle (rest answer)

/-- Programs in sequence are interpreted in sequence. -/
theorem interpret_bind {Request' : Type} {Answer' : Request' → Type}
    (handle : (request : Request) → Program Request' Answer' (Answer request))
    (program : Program Request Answer α) (next : α → Program Request Answer β) :
    (program.bind next).interpret handle =
      (program.interpret handle).bind fun value => (next value).interpret handle := by
  induction program with
  | done => rfl
  | ask request rest ih => simp only [bind, interpret, ih, bind_assoc]

/-- A program that another one may go on as. -/
inductive Child : Program Request Answer α → Program Request Answer α → Prop
  | answered (request : Request) (next : Answer request → Program Request Answer α)
    (answer : Answer request) : Child (next answer) (ask request next)

/-- A program goes on only finitely often, whatever the answers are. -/
theorem acc_child (program : Program Request Answer α) : Acc Child program := by
  induction program with
  | done value => exact ⟨_, fun _ hchild => nomatch hchild⟩
  | ask request rest ih =>
    refine ⟨_, fun _ hchild => ?_⟩
    cases hchild with
    | answered _ _ answer => exact ih answer

end Program

end CollectiveTuner
