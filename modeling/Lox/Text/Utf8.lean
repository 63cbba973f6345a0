import Lox.Diagnostic

/-!
# Bytes as text

- `Utf8.decode` reads bytes as UTF-8 text.
- A failure says how many bytes before it are well formed, and how long the malformed sequence is:
  the bytes that a well-formed character could begin with, before the first that does not fit. If
  the bytes end inside such a beginning, there is no length.
-/

namespace Lox.Utf8

/-- The first malformed sequence. -/
structure EncodingError where
  index : Nat
  length : Option Nat
  deriving DecidableEq, Repr

/-- The wording of the error. -/
def EncodingError.message (e : EncodingError) : String :=
  match e.length with
  | some n =>
    "invalid utf-8 sequence of " ++ toString n ++ " bytes from index " ++ toString e.index
  | none => "incomplete utf-8 byte sequence from index " ++ toString e.index

/-- An encoding error as a diagnostic. -/
def EncodingError.toDiagnostic (e : EncodingError) : Diagnostic := .encoding e.message

/-- A range of byte values, both ends included. -/
structure ByteRange where
  first : Nat
  last : Nat

/-- The bytes that continue a character. -/
def continuation : ByteRange := ⟨0x80, 0xBF⟩

/-- The bits that a first byte gives to its character, and the ranges of the bytes that have to
follow. The second byte is limited where a shorter form, a surrogate or a number that is too
large would arise. -/
def lead? (b : Nat) : Option (Nat × List ByteRange) :=
  if b < 0x80 then some (b, [])
  else if b < 0xC2 then none
  else if b < 0xE0 then some (b - 0xC0, [continuation])
  else if b = 0xE0 then some (0, [⟨0xA0, 0xBF⟩, continuation])
  else if b = 0xED then some (0xD, [⟨0x80, 0x9F⟩, continuation])
  else if b < 0xF0 then some (b - 0xE0, [continuation, continuation])
  else if b = 0xF0 then some (0, [⟨0x90, 0xBF⟩, continuation, continuation])
  else if b < 0xF4 then some (b - 0xF0, [continuation, continuation, continuation])
  else if b = 0xF4 then some (4, [⟨0x80, 0x8F⟩, continuation, continuation])
  else none

/-- Reads the bytes that follow a first byte; `taken` bytes came before. The error is the length of
the malformed sequence. -/
def follow : List ByteRange → Nat → Nat → List UInt8 → Except (Option Nat) (Nat × List UInt8)
  | [], _, value, bytes => .ok (value, bytes)
  | _ :: _, _, _, [] => .error none
  | r :: rs, taken, value, b :: bytes =>
    if r.first ≤ b.toNat ∧ b.toNat ≤ r.last then
      follow rs (taken + 1) (64 * value + (b.toNat - 0x80)) bytes
    else .error (some taken)

theorem length_follow_le {rs : List ByteRange} {taken value v : Nat} {bytes rest : List UInt8}
    (h : follow rs taken value bytes = .ok (v, rest)) : rest.length ≤ bytes.length := by
  fun_induction follow rs taken value bytes with
  | case1 => cases h; exact Nat.le_refl _
  | case2 => cases h
  | case3 _ _ _ _ _ _ _ ih => exact Nat.le_succ_of_le (ih h)
  | case4 => cases h

/-- Reads the first character of `b :: bytes`. -/
def first (b : UInt8) (bytes : List UInt8) : Except (Option Nat) (Nat × List UInt8) :=
  match lead? b.toNat with
  | none => .error (some 1)
  | some (bits, ranges) => follow ranges 1 bits bytes

theorem length_first_le {b : UInt8} {bytes rest : List UInt8} {v : Nat}
    (h : first b bytes = .ok (v, rest)) : rest.length ≤ bytes.length := by
  unfold first at h
  split at h
  · cases h
  · exact length_follow_le h

/-- Reads the characters of bytes that begin at `index`, after those in `before`, which are in
reverse order. -/
def decodeFrom (index : Nat) (before : List Char) (bytes : List UInt8) :
    Except EncodingError (List Char) :=
  match bytes with
  | [] => .ok before.reverse
  | b :: bytes =>
    match h : first b bytes with
    | .error length => .error ⟨index, length⟩
    | .ok (value, rest) =>
      decodeFrom (index + (bytes.length + 1 - rest.length)) (Char.ofNat value :: before) rest
termination_by bytes.length
decreasing_by exact Nat.lt_succ_of_le (length_first_le h)

/-- Reads bytes as UTF-8 text. -/
def decode (bytes : List UInt8) : Except EncodingError String :=
  (decodeFrom 0 [] bytes).map String.ofList

end Lox.Utf8
