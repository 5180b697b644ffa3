/-!
# Reading UTF-8

A machine reads one byte at a time.  Between characters it is at `start`; inside one it knows how
many bytes are still owed and between which bounds the next one has to lie, so overlong forms,
surrogates and code points above U+10FFFF are refused at the first byte that rules them out.  A
refusal says how many bytes before it are valid and how many bytes the broken piece has.
-/

namespace Offside.Text.Utf8

inductive Defect where
  /-- `length` bytes from `validUpTo` on begin no character. -/
  | invalid (validUpTo length : Nat)
  /-- The bytes from `validUpTo` on begin a character that the end cuts off. -/
  | incomplete (validUpTo : Nat)
  deriving DecidableEq, Repr

namespace Defect

def message : Defect → String
  | .invalid validUpTo length =>
    "invalid utf-8 sequence of " ++ toString length ++ " bytes from index " ++ toString validUpTo
  | .incomplete validUpTo =>
    "incomplete utf-8 byte sequence from index " ++ toString validUpTo

end Defect

/-- What a first byte announces: the bytes still owed, the bounds of the next one, and its own
part of the code point. -/
structure Lead where
  owed : Nat
  low : Nat
  high : Nat
  payload : Nat
  deriving DecidableEq, Repr

/-- The announcement of a first byte; `none` for a byte that begins no character. -/
def lead? (b : Nat) : Option Lead :=
  if b < 0x80 then some ⟨0, 0x80, 0xbf, b⟩
  else if b < 0xc2 then none
  else if b < 0xe0 then some ⟨1, 0x80, 0xbf, b - 0xc0⟩
  else if b = 0xe0 then some ⟨2, 0xa0, 0xbf, 0⟩
  else if b = 0xed then some ⟨2, 0x80, 0x9f, 0xd⟩
  else if b < 0xf0 then some ⟨2, 0x80, 0xbf, b - 0xe0⟩
  else if b = 0xf0 then some ⟨3, 0x90, 0xbf, 0⟩
  else if b < 0xf4 then some ⟨3, 0x80, 0xbf, b - 0xf0⟩
  else if b = 0xf4 then some ⟨3, 0x80, 0x8f, 4⟩
  else none

inductive Tail where
  /-- All are there: the code point and the bytes behind it. -/
  | complete (codePoint : Nat) (rest : List UInt8)
  | cutOff
  /-- After `seen` bytes one comes that does not go on. -/
  | broken (seen : Nat)

/-- Reads `owed` more bytes, the first of them within bounds; `seen` bytes of the character have
been read. -/
def readTail (low high codePoint seen : Nat) : (owed : Nat) → List UInt8 → Tail
  | 0, rest => .complete codePoint rest
  | _ + 1, [] => .cutOff
  | owed + 1, b :: rest =>
    if low ≤ b.toNat ∧ b.toNat ≤ high then
      readTail 0x80 0xbf (codePoint * 64 + b.toNat % 64) (seen + 1) owed rest
    else .broken seen

/-- What is left behind a character is no longer than what stood before its further bytes. -/
theorem length_le_of_readTail {low high codePoint seen owed n : Nat} {bytes rest : List UInt8}
    (h : readTail low high codePoint seen owed bytes = .complete n rest) :
    rest.length ≤ bytes.length := by
  induction owed generalizing low high codePoint seen bytes with
  | zero =>
    simp only [readTail, Tail.complete.injEq] at h
    exact h.2 ▸ Nat.le_refl _
  | succ owed ih =>
    cases bytes with
    | nil => simp [readTail] at h
    | cons b bytes =>
      simp only [readTail] at h
      split at h
      · exact Nat.le_succ_of_le (ih h)
      · simp at h

/-- The characters of `bytes`, in front of which `offset` bytes have been read. -/
def decodeFrom (offset : Nat) : List UInt8 → Except Defect (List Char)
  | [] => .ok []
  | b :: bytes =>
    match lead? b.toNat with
    | none => .error (.invalid offset 1)
    | some lead =>
      match h : readTail lead.low lead.high lead.payload 1 lead.owed bytes with
      | .cutOff => .error (.incomplete offset)
      | .broken seen => .error (.invalid offset seen)
      | .complete codePoint rest =>
        (decodeFrom (offset + 1 + lead.owed) rest).map (Char.ofNat codePoint :: ·)
termination_by bytes => bytes.length
decreasing_by
  exact Nat.lt_succ_of_le (length_le_of_readTail h)

def decode (bytes : List UInt8) : Except Defect (List Char) := decodeFrom 0 bytes

end Offside.Text.Utf8
