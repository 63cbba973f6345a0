import Lox.Decimal.Binary

/-!
# Reading numerals

- `ofDigits` reads `whole.fraction`, the form that numbers have in programs.
- `ofNumeral?` reads any decimal numeral: with a sign, a power of ten, or one of the words for
  infinity and not-a-number.

Both give the double nearest to the number that is written.
-/

namespace Lox.Decimal

/-- The value of a sequence of decimal digits. -/
def digitsValue (ds : List Char) : Nat :=
  ds.foldl (fun n c => 10 * n + (c.toNat - '0'.toNat)) 0

/-- The number with these digits before and after the point. -/
def ofDigits (whole fraction : List Char) : Float :=
  roundRatio (digitsValue (whole ++ fraction)) (Nat.pow 10 fraction.length)

/-- The double nearest to `n · 10^e`. Beyond 310 digits before the point every
number is infinite, and with 330 zeros after it every number is zero, so larger
powers are never computed. -/
def ofScaled (n : Nat) (e : Int) : Float :=
  let first := e + (Nat.toDigits 10 n).length
  if n = 0 || first < -330 then 0
  else if 310 < first then Float.ofBits (UInt64.ofNat infinityBits)
  else roundRatio (n * Nat.pow 10 e.toNat) (Nat.pow 10 (-e).toNat)

/-- A whole number with an optional sign. -/
def signedInteger? (cs : List Char) : Option Int :=
  let (negative, ds) := match cs with
    | '-' :: r => (true, r)
    | '+' :: r => (false, r)
    | r => (false, r)
  if ds.isEmpty || !ds.all Char.isDigit then none
  else if negative then some (-(digitsValue ds : Int)) else some (digitsValue ds)

/-- An unsigned numeral in lower case: digits with at most one point, and perhaps an exponent. -/
def unsigned? (cs : List Char) : Option Float :=
  let whole := cs.takeWhile Char.isDigit
  let (fraction, rest) := match cs.dropWhile Char.isDigit with
    | '.' :: r => (r.takeWhile Char.isDigit, r.dropWhile Char.isDigit)
    | r => ([], r)
  if whole.isEmpty && fraction.isEmpty then none
  else
    let exponent? := match rest with
      | [] => some 0
      | 'e' :: r => signedInteger? r
      | _ => none
    exponent?.map fun e => ofScaled (digitsValue (whole ++ fraction)) (e - fraction.length)

/-- Reads a numeral; `none` if the text is not one. -/
def ofNumeral? (text : String) : Option Float :=
  let (negative, cs) := match text.toList.map Char.toLower with
    | '-' :: r => (true, r)
    | '+' :: r => (false, r)
    | r => (false, r)
  let magnitude? :=
    if cs = "inf".toList || cs = "infinity".toList then some (1.0 / 0.0)
    else if cs = "nan".toList then some (0.0 / 0.0)
    else unsigned? cs
  magnitude?.map fun x => if negative then -x else x

end Lox.Decimal
