import CollectiveTuner.Error

/-!
# Parts of buffers

Messages move whole blocks of bytes. `span` reads a block of a buffer, `overwrite` replaces
one, and a block that leaves its buffer is an error that names both lengths.
-/

namespace CollectiveTuner

/-- An element count or displacement that a message header can carry, which has 32 bits. -/
def toCount (n : Nat) : Except Error Nat :=
  if n < UInt32.size then pure n else throw (.invalidMessageSize n)

namespace Bytes

/-- Fails when the block of `length` bytes at `start` leaves a buffer of `size` bytes. -/
def checkBlock (size start length : Nat) : Except Error Unit :=
  if start + length ≤ size then pure () else throw (.bufferSizeMismatch (start + length) size)

/-- The block of `length` bytes at `start`. -/
def span (buffer : Bytes) (start length : Nat) : Except Error Bytes := do
  checkBlock buffer.length start length
  pure ((buffer.drop start).take length)

/-- The buffer with the bytes from `start` on replaced by `block`. -/
def overwrite (buffer : Bytes) (start : Nat) (block : Bytes) : Bytes :=
  buffer.take start ++ block ++ buffer.drop (start + block.length)

/-- The value of little-endian bytes. -/
def toNatLE : Bytes → Nat
  | [] => 0
  | byte :: rest => byte.toNat + 256 * toNatLE rest

/-- The `size` low bytes of a number, least significant first. -/
def ofNatLE : Nat → Nat → Bytes
  | 0, _ => []
  | size + 1, value => UInt8.ofNat value :: ofNatLE size (value / 256)

/-- An encoding has the asked number of bytes. -/
@[simp] theorem length_ofNatLE (size value : Nat) : (ofNatLE size value).length = size := by
  induction size generalizing value with
  | zero => rfl
  | succ size ih => simp [ofNatLE, ih]

/-- Writing a block inside a buffer keeps its length. -/
theorem length_overwrite {buffer block : Bytes} {start : Nat}
    (hblock : start + block.length ≤ buffer.length) :
    (buffer.overwrite start block).length = buffer.length := by
  simp [overwrite]
  omega

/-- A span inside the buffer is cut out of it. -/
theorem span_eq_ok {buffer : Bytes} {start length : Nat} (hblock : start + length ≤ buffer.length) :
    buffer.span start length = .ok ((buffer.drop start).take length) := by
  simp [span, checkBlock, hblock, bind, Except.bind, pure, Except.pure]

/-- Encoding the number that bytes stand for gives the bytes back. -/
theorem ofNatLE_toNatLE (bytes : Bytes) : ofNatLE bytes.length (toNatLE bytes) = bytes := by
  induction bytes with
  | nil => rfl
  | cons byte rest ih =>
    have hbyte := byte.toNat_lt
    have hhead : UInt8.ofNat (byte.toNat + 256 * toNatLE rest) = byte := by
      apply UInt8.toNat_inj.mp
      simp only [UInt8.toNat_ofNat']
      omega
    have htail : (byte.toNat + 256 * toNatLE rest) / 256 = toNatLE rest := by omega
    simp only [List.length_cons, toNatLE, ofNatLE, hhead, htail, ih]

end Bytes

end CollectiveTuner
