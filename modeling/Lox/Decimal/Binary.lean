/-!
# Doubles as exact numbers

- `decode` reads a double as not-a-number, an infinity, or a sign and a dyadic number `m · 2^q`.
- `roundRatio` is the double nearest to a fraction, a tie going to the even mantissa.

Both work on natural numbers only, so a text read from a number and a number
read from a text can be compared exactly.
-/

namespace Lox.Decimal

/-- The non-negative number `mantissa · 2^exponent`. -/
structure Dyadic where
  mantissa : Nat
  exponent : Int
  deriving DecidableEq, Repr

/-- What a double stands for. -/
inductive Decoded where
  | nan
  | infinite (negative : Bool)
  | finite (negative : Bool) (magnitude : Dyadic)
  deriving DecidableEq, Repr

/-- The number of explicit mantissa bits of a double. -/
def mantissaBits : Nat := 52

/-- The exponent of the last bit of the smallest positive double. -/
def leastExponent : Int := -1074

/-- The bits of positive infinity. -/
def infinityBits : Nat := 0x7FF * Nat.pow 2 mantissaBits

/-- The dyadic number with the bits `n` of a non-negative finite double: the
lowest exponent is shared by the subnormal numbers, which have no hidden bit. -/
def Dyadic.ofBits (n : Nat) : Dyadic :=
  if n / Nat.pow 2 mantissaBits = 0 then ⟨n, leastExponent⟩
  else ⟨n % Nat.pow 2 mantissaBits + Nat.pow 2 mantissaBits,
    (n / Nat.pow 2 mantissaBits : Nat) + leastExponent - 1⟩

/-- The exact meaning of a double. -/
def decode (x : Float) : Decoded :=
  let bits := x.toBits.toNat
  let negative := decide (Nat.pow 2 63 ≤ bits)
  let magnitude := bits % Nat.pow 2 63
  if infinityBits < magnitude then .nan
  else if magnitude = infinityBits then .infinite negative
  else .finite negative (Dyadic.ofBits magnitude)

/-- Whether the number has no fractional part. -/
def Dyadic.isIntegral (v : Dyadic) : Bool :=
  v.mantissa % Nat.pow 2 (-v.exponent).toNat = 0

/-- The largest whole number that is not above `v`. -/
def Dyadic.floor (v : Dyadic) : Nat :=
  v.mantissa * Nat.pow 2 v.exponent.toNat / Nat.pow 2 (-v.exponent).toNat

/-- The quotient `num / den` rounded to the nearest natural number, a tie to the even one. -/
def divRoundEven (num den : Nat) : Nat :=
  let q := num / den
  let r := num % den
  if 2 * r < den then q
  else if den < 2 * r then q + 1
  else if q % 2 = 0 then q else q + 1

/-- The exponent of the leading bit of `num / den`, a positive fraction. -/
def leadingExponent (num den : Nat) : Int :=
  let l : Int := (num.log2 : Int) - den.log2
  if den * Nat.pow 2 l.toNat ≤ num * Nat.pow 2 (-l).toNat then l else l - 1

/-- The bits of the non-negative double nearest to `num / den`. A mantissa that
rounds up to the next power of two carries into the exponent, and beyond the
largest double lies infinity. -/
def roundRatioBits (num den : Nat) : Nat :=
  if num = 0 then 0
  else
    let q := max (leadingExponent num den - mantissaBits) leastExponent
    let m := divRoundEven (num * Nat.pow 2 (-q).toNat) (den * Nat.pow 2 q.toNat)
    min ((q - leastExponent).toNat * Nat.pow 2 mantissaBits + m) infinityBits

/-- The double nearest to `num / den`. -/
def roundRatio (num den : Nat) : Float :=
  Float.ofBits (UInt64.ofNat (roundRatioBits num den))

end Lox.Decimal
