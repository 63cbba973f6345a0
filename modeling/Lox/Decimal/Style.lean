import Lox.Decimal.Shortest

/-!
# Writing a double

- `Style` holds the decisions of one output format.
- `Style.write` writes a double in that format.

Every format takes its digits from the same two sources: the exact expansion of
a whole number, or the shortest decimal that reads back.
-/

namespace Lox.Decimal

/-- The decisions of an output format for numbers. -/
structure Style where
  /-- Whether a whole number is written with all its digits, not with the shortest ones. -/
  exactIntegers : Bool
  /-- Whether a whole number ends in `.0`. -/
  pointZero : Bool
  /-- Which of two equally near shortest decimals is written. -/
  tie : Tie
  /-- Outside this range of first-digit exponents (lower end included, upper end not) a
  number is written with an exponent; without a range it never is. -/
  positional : Option (Int × Int)
  /-- Whether negative zero keeps its sign. -/
  signedZero : Bool
  /-- The text of positive infinity, and with a minus sign of negative infinity. -/
  infinity : String
  nan : String

/-- The digits of `n`, most significant first. -/
def digitChars (n : Nat) : List Char := Nat.toDigits 10 n

/-- `digits · 10^exponent` written positionally, without a fraction if it is whole. -/
def Scientific.positional (x : Scientific) : List Char :=
  let ds := digitChars x.digits
  let places := (-x.exponent).toNat
  if places = 0 then ds ++ List.replicate x.exponent.toNat '0'
  else if ds.length ≤ places then
    '0' :: '.' :: List.replicate (places - ds.length) '0' ++ ds
  else ds.take (ds.length - places) ++ '.' :: ds.drop (ds.length - places)

/-- The decimal exponent of the first digit. -/
def Scientific.firstDigitExponent (x : Scientific) : Int :=
  x.exponent + digitCount x.digits - 1

/-- `digits · 10^exponent` written with one digit before the point, and a signed exponent. -/
def Scientific.withExponent (x : Scientific) : List Char :=
  let ds := digitChars x.digits
  let e := x.firstDigitExponent
  let fraction := if ds.length ≤ 1 then [] else '.' :: ds.drop 1
  let sign := if e < 0 then '-' else '+'
  ds.take 1 ++ fraction ++ 'e' :: sign :: digitChars e.natAbs

/-- The digits that a style takes for a number other than zero. -/
def Style.digits (style : Style) (v : Dyadic) : Scientific :=
  if style.exactIntegers && v.isIntegral then ⟨v.floor, 0⟩ else v.shortest style.tie

/-- A finite number without its sign. -/
def Style.magnitude (style : Style) (v : Dyadic) : List Char :=
  let x : Scientific := if v.mantissa = 0 then ⟨0, 0⟩ else style.digits v
  let e := x.firstDigitExponent
  let positional := match style.positional with
    | none => true
    | some (least, beyond) => v.mantissa = 0 || (least ≤ e && e < beyond)
  if positional then
    x.positional ++ if style.pointZero && v.isIntegral then ['.', '0'] else []
  else x.withExponent

/-- A double as text. -/
def Style.write (style : Style) (x : Float) : String :=
  match decode x with
  | .nan => style.nan
  | .infinite negative => if negative then "-" ++ style.infinity else style.infinity
  | .finite negative v =>
    let signed := negative && (style.signedZero || v.mantissa != 0)
    String.ofList ((if signed then ['-'] else []) ++ style.magnitude v)

end Lox.Decimal
