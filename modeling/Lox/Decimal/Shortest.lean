import Lox.Decimal.Binary

/-!
# The shortest decimal that reads back

- `RoundingInterval` is the interval of numbers that round to a double.
- `shortest` gives the decimal `digits · 10^exponent` with the fewest digits in that interval and,
  among those, the nearest to the double; a tie is settled by a `Tie` rule.

A grid `10^e` has a point in the interval only if one of the two neighbours of
the double on that grid is in it, so only these two are tried, from the coarsest
grid to the finest. On the finest grid the double itself is a point.
-/

namespace Lox.Decimal

/-- The number `digits · 10^exponent`. -/
structure Scientific where
  digits : Nat
  exponent : Int
  deriving DecidableEq, Repr

/-- Which of two equally near candidates is taken. -/
inductive Tie where
  | up
  | toEven
  deriving DecidableEq, Repr

/-- The numbers that round to a double, in units of `2^unit`: from `lower` to
`upper` around `value`, the ends themselves included if `closed`. -/
structure RoundingInterval where
  lower : Nat
  value : Nat
  upper : Nat
  unit : Int
  closed : Bool
  deriving Repr

/-- The interval of a positive double. Below a power of two the doubles lie
twice as dense, so the lower half of the interval is half as long there; the
ends belong to the even mantissas. -/
def Dyadic.roundingInterval (v : Dyadic) : RoundingInterval where
  lower :=
    if v.mantissa = Nat.pow 2 mantissaBits ∧ leastExponent < v.exponent then 4 * v.mantissa - 1
    else 4 * v.mantissa - 2
  value := 4 * v.mantissa
  upper := 4 * v.mantissa + 2
  unit := v.exponent - 2
  closed := v.mantissa % 2 = 0

/-- The factors that compare a multiple of `10^e` with a multiple of `2^unit`:
`d · 10^e` stands to `t · 2^unit` as `d · grid.1` to `t · grid.2`. -/
def grid (e unit : Int) : Nat × Nat :=
  (Nat.pow 10 e.toNat * Nat.pow 2 (-unit).toNat, Nat.pow 2 unit.toNat * Nat.pow 10 (-e).toNat)

/-- Whether `d · 10^e` lies in the interval. -/
def RoundingInterval.contains (i : RoundingInterval) (e : Int) (d : Nat) : Bool :=
  let (a, b) := grid e i.unit
  if i.closed then i.lower * b ≤ d * a && d * a ≤ i.upper * b
  else i.lower * b < d * a && d * a < i.upper * b

/-- Of the two neighbours `d` and `d + 1` of the value on the grid `10^e`, the nearer. -/
def RoundingInterval.nearer (i : RoundingInterval) (tie : Tie) (e : Int) (d : Nat) : Nat :=
  let (a, b) := grid e i.unit
  let below := i.value * b - d * a
  let above := (d + 1) * a - i.value * b
  if below < above then d
  else if above < below then d + 1
  else match tie with
    | .up => d + 1
    | .toEven => if d % 2 = 0 then d else d + 1

/-- The multiple of `10^e` in the interval that is nearest to the value, if there is one. -/
def RoundingInterval.hit? (i : RoundingInterval) (tie : Tie) (e : Int) : Option Nat :=
  let (a, b) := grid e i.unit
  let d := i.value * b / a
  match i.contains e d, i.contains e (d + 1) with
  | true, true => some (i.nearer tie e d)
  | true, false => some d
  | false, true => some (d + 1)
  | false, false => none

/-- The exact decimal expansion of a dyadic number. -/
def Dyadic.toScientific (v : Dyadic) : Scientific :=
  ⟨v.mantissa * Nat.pow 2 v.exponent.toNat * Nat.pow 5 (-v.exponent).toNat, min v.exponent 0⟩

/-- The coarsest of `n` grids from `10^e` down that has a point in the interval; the exact
expansion if none has. -/
def Dyadic.search (v : Dyadic) (tie : Tie) : Nat → Int → Scientific
  | 0, _ => v.toScientific
  | n + 1, e =>
    match v.roundingInterval.hit? tie e with
    | some d => ⟨d, e⟩
    | none => v.search tie n (e - 1)

/-- The number of decimal digits of `n`. -/
def digitCount (n : Nat) : Nat := (Nat.toDigits 10 n).length

/-- The decimal exponent of the first digit of a positive number. -/
def Dyadic.firstDigitExponent (v : Dyadic) : Int :=
  if 0 < v.floor then digitCount v.floor - 1
  else
    -- the least `j` with `1 ≤ v · 10^j`
    - (digitCount ((Nat.pow 2 (-v.exponent).toNat - 1) / v.mantissa) : Int)

/-- The decimal with the fewest digits that rounds to the positive number `v`. The
first grid is the power of ten above `v`, which may itself round to `v`; so the
last digit found is never a zero. -/
def Dyadic.shortest (v : Dyadic) (tie : Tie) : Scientific :=
  let e := v.firstDigitExponent + 1
  v.search tie (e - min v.exponent 0).toNat e

end Lox.Decimal
