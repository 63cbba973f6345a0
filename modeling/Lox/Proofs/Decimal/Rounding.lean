import Mathlib
import Lox.Decimal.Numeral
import Lox.Decimal.Shortest

/-!
# Rounding to a double

The exact meaning of a dyadic number is `Dyadic.value`, a rational number, and a rounding interval
is a set of rational numbers.

* `leadingExponent_spec`, `divRoundEven_eq`: the two parts of rounding;
* `Dyadic.Canonical`: the form of the numbers that doubles are;
* `roundRatioBits_eq`: a fraction rounds to the double in whose interval it lies, the ends included
  where ties go to it;
* `roundRatio_eq`: and so does the double that is made from these bits.
-/

namespace Lox.Decimal

/-! ## Powers -/

/-- A power is a fraction of which one side is one. -/
theorem zpow_eq_div (b : ℚ) (e : ℤ) : b ^ e = b ^ e.toNat / b ^ (-e).toNat := by
  by_cases h : 0 ≤ e
  · have h' : (-e).toNat = 0 := by omega
    rw [h', pow_zero, div_one, ← zpow_natCast, Int.toNat_of_nonneg h]
  · have h' : e.toNat = 0 := by omega
    have hneg : ((-e).toNat : ℤ) = -e := Int.toNat_of_nonneg (by omega)
    rw [h', pow_zero, ← zpow_natCast, hneg, zpow_neg, one_div, inv_inv]

theorem two_zpow_pos (e : ℤ) : (0 : ℚ) < 2 ^ e := zpow_pos two_pos e

/-- A fraction in units of `2^q`, the unit being put on the side where it is whole. -/
theorem ratio_eq_mul_zpow {num den : ℕ} (hden : den ≠ 0) (q : ℤ) :
    (num / den : ℚ) =
      (num * Nat.pow 2 (-q).toNat : ℕ) / (den * Nat.pow 2 q.toNat : ℕ) * 2 ^ q := by
  have hd : (den : ℚ) ≠ 0 := by exact_mod_cast hden
  rw [zpow_eq_div 2 q]
  simp only [Nat.pow_eq, Nat.cast_mul, Nat.cast_pow, Nat.cast_ofNat]
  field_simp

/-! ## The exponent -/

theorem leadingExponent_spec {num den : ℕ} (hnum : num ≠ 0) (hden : den ≠ 0) :
    (2 : ℚ) ^ leadingExponent num den ≤ num / den ∧
      (num / den : ℚ) < 2 ^ (leadingExponent num den + 1) := by
  have hd : (0 : ℚ) < den := by exact_mod_cast Nat.pos_of_ne_zero hden
  have hnum_lo : (2 : ℚ) ^ (num.log2 : ℤ) ≤ num := by exact_mod_cast Nat.log2_self_le hnum
  have hnum_hi : (num : ℚ) < 2 ^ ((num.log2 : ℤ) + 1) := by
    exact_mod_cast (Nat.lt_log2_self : num < 2 ^ (num.log2 + 1))
  have hden_lo : (2 : ℚ) ^ (den.log2 : ℤ) ≤ den := by exact_mod_cast Nat.log2_self_le hden
  have hden_hi : (den : ℚ) < 2 ^ ((den.log2 : ℤ) + 1) := by
    exact_mod_cast (Nat.lt_log2_self : den < 2 ^ (den.log2 + 1))
  -- the logarithms leave two candidates, and the comparison decides between them
  have hbelow (l : ℤ) (hl : l = num.log2 - den.log2) : (2 : ℚ) ^ (l - 1) ≤ num / den := by
    rw [le_div_iff₀ hd]
    calc (2 : ℚ) ^ (l - 1) * den ≤ 2 ^ (l - 1) * 2 ^ ((den.log2 : ℤ) + 1) :=
          mul_le_mul_of_nonneg_left hden_hi.le (two_zpow_pos _).le
      _ = 2 ^ (num.log2 : ℤ) := by
          rw [← zpow_add₀ two_ne_zero]
          congr 1
          omega
      _ ≤ num := hnum_lo
  have habove (l : ℤ) (hl : l = num.log2 - den.log2) : (num / den : ℚ) < 2 ^ (l + 1) := by
    rw [div_lt_iff₀ hd]
    calc (num : ℚ) < 2 ^ ((num.log2 : ℤ) + 1) := hnum_hi
      _ = 2 ^ (l + 1) * 2 ^ (den.log2 : ℤ) := by
          rw [← zpow_add₀ two_ne_zero]
          congr 1
          omega
      _ ≤ 2 ^ (l + 1) * den := mul_le_mul_of_nonneg_left hden_lo (two_zpow_pos _).le
  have hcompare (l : ℤ) : (2 : ℚ) ^ l ≤ num / den ↔
      den * Nat.pow 2 l.toNat ≤ num * Nat.pow 2 (-l).toNat := by
    have hpos : (0 : ℚ) < (den * Nat.pow 2 l.toNat : ℕ) := by
      exact_mod_cast Nat.mul_pos (Nat.pos_of_ne_zero hden) (Nat.pow_pos Nat.two_pos)
    rw [ratio_eq_mul_zpow hden l, le_mul_iff_one_le_left (two_zpow_pos l), one_le_div hpos,
      Nat.cast_le]
  unfold leadingExponent
  dsimp only
  split
  · next h => exact ⟨(hcompare _).mpr h, habove _ rfl⟩
  · next h =>
    refine ⟨hbelow _ rfl, ?_⟩
    rw [sub_add_cancel]
    exact not_le.mp (mt (hcompare _).mp h)

/-! ## The mantissa -/

/-- Whether `m` is the natural number nearest to `x`, and the even one of two. -/
def RoundsTo (x : ℚ) (m : ℕ) : Prop :=
  if m % 2 = 0 then m - 1 / 2 ≤ x ∧ x ≤ m + 1 / 2 else m - 1 / 2 < x ∧ x < m + 1 / 2

theorem divRoundEven_eq {num den m : ℕ} (hden : 0 < den) (h : RoundsTo (num / den) m) :
    divRoundEven num den = m := by
  have hd : (0 : ℚ) < den := by exact_mod_cast hden
  -- twice the distance to `m`, compared with the divisor
  have hle : 2 * (den * m) ≤ 2 * num + den ∧ 2 * num ≤ 2 * (den * m) + den ∧
      (m % 2 = 1 → 2 * (den * m) ≠ 2 * num + den ∧ 2 * num ≠ 2 * (den * m) + den) := by
    unfold RoundsTo at h
    split at h
    · next hm =>
      rw [le_div_iff₀ hd, div_le_iff₀ hd] at h
      refine ⟨?_, ?_, by omega⟩
      · exact_mod_cast (by linarith [h.1] : (2 * (den * m) : ℚ) ≤ 2 * num + den)
      · exact_mod_cast (by linarith [h.2] : (2 * num : ℚ) ≤ 2 * (den * m) + den)
    · rw [lt_div_iff₀ hd, div_lt_iff₀ hd] at h
      have hlow : 2 * (den * m) < 2 * num + den := by
        exact_mod_cast (by linarith [h.1] : (2 * (den * m) : ℚ) < 2 * num + den)
      have hhigh : 2 * num < 2 * (den * m) + den := by
        exact_mod_cast (by linarith [h.2] : (2 * num : ℚ) < 2 * (den * m) + den)
      omega
  have hdiv := Nat.div_add_mod num den
  have hmod := Nat.mod_lt num hden
  have hq : m = num / den ∨ m = num / den + 1 := by
    have h1 : den * m < den * (num / den + 2) := by
      rw [Nat.mul_add]
      omega
    have h2 : den * (num / den) < den * (m + 1) := by
      rw [Nat.mul_add]
      omega
    have := Nat.lt_of_mul_lt_mul_left h1
    have := Nat.lt_of_mul_lt_mul_left h2
    omega
  unfold divRoundEven
  dsimp only
  generalize num / den = q at hdiv hq ⊢
  generalize num % den = r at hdiv hmod ⊢
  rcases hq with rfl | rfl
  · split_ifs <;> omega
  · rw [Nat.mul_add, Nat.mul_one] at hle
    split_ifs <;> omega

/-! ## The doubles -/

/-- The number that a dyadic number stands for. -/
def Dyadic.value (v : Dyadic) : ℚ := v.mantissa * 2 ^ v.exponent

/-- The form that the numbers of doubles have: with a hidden bit, unless the exponent is the
least. -/
structure Dyadic.Canonical (v : Dyadic) : Prop where
  lt : v.mantissa < 2 ^ 53
  least : leastExponent ≤ v.exponent
  hidden : 2 ^ 52 ≤ v.mantissa ∨ v.exponent = leastExponent

/-- The bits of a number in canonical form. -/
def Dyadic.bits (v : Dyadic) : ℕ := (v.exponent - leastExponent).toNat * 2 ^ 52 + v.mantissa

theorem Dyadic.canonical_ofBits (n : ℕ) : (Dyadic.ofBits n).Canonical := by
  unfold ofBits
  have hp : Nat.pow 2 mantissaBits = 2 ^ 52 := rfl
  rw [hp]
  split
  · next h => exact ⟨by dsimp only; omega, Int.le_refl _, .inr rfl⟩
  · next h => exact ⟨by dsimp only; omega, by dsimp only; omega, .inl (by dsimp only; omega)⟩

theorem Dyadic.bits_ofBits (n : ℕ) : (Dyadic.ofBits n).bits = n := by
  unfold ofBits bits
  have hp : Nat.pow 2 mantissaBits = 2 ^ 52 := rfl
  rw [hp]
  split
  · dsimp only
    omega
  · dsimp only
    omega

/-! ## Intervals -/

/-- A rounding interval as a set of numbers. -/
instance : Membership ℚ RoundingInterval where
  mem i x :=
    if i.closed then i.lower * 2 ^ i.unit ≤ x ∧ x ≤ i.upper * 2 ^ i.unit
    else i.lower * 2 ^ i.unit < x ∧ x < i.upper * 2 ^ i.unit

theorem RoundingInterval.mem_iff {i : RoundingInterval} {x : ℚ} : x ∈ i ↔
    if i.closed then i.lower * 2 ^ i.unit ≤ x ∧ x ≤ i.upper * 2 ^ i.unit
    else i.lower * 2 ^ i.unit < x ∧ x < i.upper * 2 ^ i.unit := Iff.rfl

namespace Dyadic

variable {v : Dyadic}

theorem zpow_unit (v : Dyadic) : (2 : ℚ) ^ v.roundingInterval.unit = 2 ^ v.exponent / 4 := by
  show (2 : ℚ) ^ (v.exponent - 2) = _
  rw [zpow_sub₀ two_ne_zero]
  norm_num

/-- Numbers in the interval of `v` are those that round to its mantissa, in units of its last place,
but for some below a power of two. -/
theorem roundsTo_of_mem {x : ℚ} (h : x ∈ v.roundingInterval) :
    RoundsTo (x / 2 ^ v.exponent) v.mantissa := by
  have hu := two_zpow_pos v.exponent
  have hunit := zpow_unit v
  have hlower : (4 * v.mantissa - 2 : ℚ) ≤ v.roundingInterval.lower := by
    have hl : 4 * v.mantissa ≤ v.roundingInterval.lower + 2 := by
      unfold roundingInterval
      dsimp only
      split <;> omega
    have : (4 * v.mantissa : ℚ) ≤ v.roundingInterval.lower + 2 := by exact_mod_cast hl
    linarith
  have hupper : (v.roundingInterval.upper : ℚ) = 4 * v.mantissa + 2 := by
    show ((4 * v.mantissa + 2 : ℕ) : ℚ) = _
    push_cast
    rfl
  have hclosed : v.roundingInterval.closed = true ↔ v.mantissa % 2 = 0 := decide_eq_true_iff
  have hlow := mul_le_mul_of_nonneg_right hlower (by linarith : 0 ≤ (2 : ℚ) ^ v.exponent / 4)
  rw [RoundingInterval.mem_iff, hunit, hupper] at h
  unfold RoundsTo
  by_cases hm : v.mantissa % 2 = 0
  · rw [if_pos (hclosed.mpr hm)] at h
    rw [if_pos hm, le_div_iff₀ hu, div_le_iff₀ hu]
    exact ⟨by linarith, by linarith⟩
  · rw [if_neg (mt hclosed.mp hm)] at h
    rw [if_neg hm, lt_div_iff₀ hu, div_lt_iff₀ hu]
    exact ⟨by linarith, by linarith⟩

/-- Below a power of two the interval reaches only half as far. -/
theorem le_of_mem_of_power (hm : v.mantissa = 2 ^ 52) (he : leastExponent < v.exponent) {x : ℚ}
    (h : x ∈ v.roundingInterval) : (2 ^ 52 - 1 / 4 : ℚ) * 2 ^ v.exponent ≤ x := by
  have hlower : v.roundingInterval.lower = 4 * 2 ^ 52 - 1 := by
    unfold roundingInterval
    rw [if_pos ⟨hm, he⟩, hm]
  have hunit : (2 : ℚ) ^ v.roundingInterval.unit = 2 ^ v.exponent / 4 := zpow_unit v
  have hlow : (v.roundingInterval.lower : ℚ) * 2 ^ v.roundingInterval.unit ≤ x := by
    rw [RoundingInterval.mem_iff] at h
    split at h
    · exact h.1
    · exact h.1.le
  rw [hlower, hunit] at hlow
  push_cast at hlow
  linarith

end Dyadic

/-! ## Rounding -/

/-- The mantissa that is found when `q` is the exponent. -/
theorem divRoundEven_scaled {num den m : ℕ} (hden : den ≠ 0) {q : ℤ}
    (h : RoundsTo (num / den / 2 ^ q) m) :
    divRoundEven (num * Nat.pow 2 (-q).toNat) (den * Nat.pow 2 q.toNat) = m := by
  refine divRoundEven_eq (Nat.mul_pos (Nat.pos_of_ne_zero hden) (Nat.pow_pos Nat.two_pos)) ?_
  rwa [ratio_eq_mul_zpow hden q, mul_div_cancel_right₀ _ (two_zpow_pos q).ne'] at h

theorem RoundsTo.lt_two_mul {x : ℚ} {m n : ℕ} (h : RoundsTo x m) (hm : m < 2 * n) :
    x < 2 * n := by
  unfold RoundsTo at h
  split at h
  · have : (m + 2 : ℚ) ≤ 2 * n := by exact_mod_cast (by omega : m + 2 ≤ 2 * n)
    linarith [h.2]
  · have : (m + 1 : ℚ) ≤ 2 * n := by exact_mod_cast hm
    linarith [h.2]

theorem RoundsTo.bounds {x : ℚ} {m : ℕ} (h : RoundsTo x m) :
    (m - 1 / 2 : ℚ) ≤ x ∧ x ≤ m + 1 / 2 := by
  unfold RoundsTo at h
  split at h
  · exact h
  · exact ⟨h.1.le, h.2.le⟩

theorem RoundsTo.le_of_le {x : ℚ} {m n : ℕ} (h : RoundsTo x m) (hx : x ≤ n) : m ≤ n := by
  have hlow := h.bounds.1
  have : m < n + 1 := by exact_mod_cast (by linarith : (m : ℚ) < n + 1)
  omega

theorem two_zpow_add (n : ℕ) (e : ℤ) : (2 : ℚ) ^ (n + e) = 2 ^ n * 2 ^ e := by
  rw [zpow_add₀ two_ne_zero, zpow_natCast]

theorem lt_of_two_zpow_lt {a b : ℤ} (h : (2 : ℚ) ^ a < 2 ^ b) : a < b :=
  (zpow_lt_zpow_iff_right₀ one_lt_two).mp h

namespace Dyadic.Canonical

variable {v : Dyadic} {x : ℚ} {l : ℤ}

/-- A number in the interval of `v` has no bit in front of the mantissa of `v`. -/
theorem exponent_lt (hv : v.Canonical) (h : x ∈ v.roundingInterval) (hl : 2 ^ l ≤ x) :
    l < 53 + v.exponent := by
  have hx := (v.roundsTo_of_mem h).lt_two_mul (n := 2 ^ 52) hv.lt
  rw [div_lt_iff₀ (two_zpow_pos v.exponent)] at hx
  refine lt_of_two_zpow_lt (hl.trans_lt ?_)
  have := two_zpow_add 53 v.exponent
  push_cast at hx this
  linarith

/-- A number in the interval of `v` whose own last place is below that of `v` lies just below a
power of two. Its own mantissa is one bit longer, and rounds up to the power. -/
theorem roundsTo_power (hv : v.Canonical) (h : x ∈ v.roundingInterval) (hr : x < 2 ^ (l + 1))
    (hle : max (l - 52) leastExponent < v.exponent) :
    v.mantissa = 2 ^ 52 ∧ max (l - 52) leastExponent = v.exponent - 1 ∧
      RoundsTo (x / 2 ^ (v.exponent - 1)) (2 ^ 53) := by
  have hu := two_zpow_pos v.exponent
  have hx : x < 2 ^ (52 + v.exponent) :=
    hr.trans_le ((zpow_le_zpow_iff_right₀ one_lt_two).mpr (by omega))
  have hm : v.mantissa = 2 ^ 52 := by
    refine Nat.le_antisymm ((v.roundsTo_of_mem h).le_of_le (n := 2 ^ 52) ?_)
      (hv.hidden.resolve_right (by omega))
    rw [div_le_iff₀ hu]
    exact_mod_cast (hx.trans_eq (two_zpow_add 52 _)).le
  have hlow := v.le_of_mem_of_power hm (by omega) h
  have hl : 51 + v.exponent < l + 1 := by
    refine lt_of_two_zpow_lt (lt_of_lt_of_le ?_ (hlow.trans hr.le))
    have := two_zpow_add 51 v.exponent
    push_cast at this
    linarith
  refine ⟨hm, by omega, ?_⟩
  have hhalf : (2 : ℚ) ^ (v.exponent - 1) = 2 ^ v.exponent / 2 := by
    rw [zpow_sub₀ two_ne_zero, zpow_one]
  have hscale := two_zpow_add 52 v.exponent
  unfold RoundsTo
  rw [if_pos (by norm_num), hhalf, le_div_iff₀ (by linarith), div_le_iff₀ (by linarith)]
  push_cast at hscale ⊢
  exact ⟨by linarith, by linarith⟩

end Dyadic.Canonical

/-- A fraction rounds to the double in whose interval it lies. -/
theorem roundRatioBits_eq {num den : ℕ} (hden : den ≠ 0) {v : Dyadic} (hv : v.Canonical)
    (hb : v.bits ≤ infinityBits) (h : (num / den : ℚ) ∈ v.roundingInterval) :
    roundRatioBits num den = v.bits := by
  have hrounds := v.roundsTo_of_mem h
  have hleast := hv.least
  by_cases hnum : num = 0
  · have hm : v.mantissa ≤ 0 := hrounds.le_of_le (n := 0) (by simp [hnum])
    have he := hv.hidden.resolve_left (by omega)
    rw [roundRatioBits, if_pos hnum, Dyadic.bits, he]
    omega
  obtain ⟨hl, hr⟩ := leadingExponent_spec hnum hden
  have hlv := hv.exponent_lt h hl
  rw [roundRatioBits, if_neg hnum]
  generalize leadingExponent num den = l at hl hr hlv ⊢
  dsimp only
  have hm52 : (mantissaBits : ℤ) = 52 := rfl
  have hp52 : Nat.pow 2 mantissaBits = 2 ^ 52 := rfl
  rw [hm52, hp52]
  by_cases hq : max (l - 52) leastExponent = v.exponent
  · rw [hq, divRoundEven_scaled hden hrounds]
    exact Nat.min_eq_left hb
  · obtain ⟨hm, hq', hup⟩ := hv.roundsTo_power h hr (by omega)
    rw [hq', divRoundEven_scaled hden hup]
    have hbits : (v.exponent - 1 - leastExponent).toNat * 2 ^ 52 + 2 ^ 53 = v.bits := by
      unfold Dyadic.bits
      omega
    rw [hbits]
    exact Nat.min_eq_left hb

/-- The bits of a rounded fraction are not beyond those of infinity. -/
theorem roundRatioBits_le (num den : ℕ) : roundRatioBits num den ≤ infinityBits := by
  unfold roundRatioBits
  split
  · exact Nat.zero_le _
  · exact Nat.min_le_right _ _

/-! ## Doubles and their bits -/

section

open Float.Model

/-- Only bits beyond those of infinity are not a number. -/
theorem valid_of_le {bits : UInt64} (h : bits.toNat ≤ infinityBits) :
    Format.binary64.Valid bits.toBitVec := by
  refine ⟨fun he hm => absurd ?_ hm⟩
  have hexponent := congrArg BitVec.toNat he
  have hinfinity : infinityBits = 2047 * 2 ^ 52 := rfl
  have hbits : bits.toBitVec.toNat = bits.toNat := rfl
  refine BitVec.eq_of_toNat_eq ?_
  simp [UnpackedFloat.unpackExponent, UnpackedFloat.unpackMantissa,
    Nat.shiftRight_eq_div_pow] at hexponent ⊢
  omega

/-- A double has the bits that it is made from. -/
theorem toNat_toBits_ofBits {n : ℕ} (h : n ≤ infinityBits) :
    (Float.ofBits (UInt64.ofNat n)).toBits.toNat = n := by
  have hn : (UInt64.ofNat n).toNat = n :=
    UInt64.toNat_ofNat_of_lt' (Nat.lt_of_le_of_lt h (by decide))
  have hv : Format.binary64.Valid (UInt64.ofNat n).toBitVec := valid_of_le (by rwa [hn])
  show (UInt64.ofBitVec (UnpackedFloat.pack Format.binary64
    (UnpackedFloat.unpack Format.binary64 (UInt64.ofNat n).toBitVec))).toNat = n
  rw [UnpackedFloat.pack_unpack_of_valid hv]
  exact hn

end

theorem lt_of_isFinite {n : ℕ} (h : n ≤ infinityBits)
    (hf : (Float.ofBits (UInt64.ofNat n)).isFinite) : n < infinityBits := by
  refine Nat.lt_of_le_of_ne h fun he => ?_
  subst he
  revert hf
  decide +kernel

theorem decode_ofBits {n : ℕ} (h : n < infinityBits) :
    decode (Float.ofBits (UInt64.ofNat n)) = .finite false (Dyadic.ofBits n) := by
  have h63 : n < Nat.pow 2 63 := h.trans (by decide)
  simp only [decode, toNat_toBits_ofBits h.le]
  rw [Nat.mod_eq_of_lt h63, if_neg h.le.not_gt, if_neg h.ne, decide_eq_false h63.not_ge]

/-- What a double without sign is made from. -/
theorem eq_ofBits_of_decode {x : Float} {v : Dyadic} (h : decode x = .finite false v) :
    v.Canonical ∧ v.bits < infinityBits ∧ x = Float.ofBits (UInt64.ofNat v.bits) := by
  unfold decode at h
  dsimp only at h
  split at h
  · cases h
  split at h
  · cases h
  next hnan hinf =>
    obtain ⟨hsign, rfl⟩ := Decoded.finite.inj h
    have hlt : x.toBits.toNat < Nat.pow 2 63 := not_le.mp (of_decide_eq_false hsign)
    rw [Nat.mod_eq_of_lt hlt] at hnan hinf ⊢
    refine ⟨Dyadic.canonical_ofBits _, ?_, ?_⟩
    · rw [Dyadic.bits_ofBits]
      omega
    · rw [Dyadic.bits_ofBits, UInt64.ofNat_toNat, Float.ofBits_toBits]

/-- A fraction that rounds to a finite double. -/
theorem exists_decode_roundRatio {num den : ℕ} (h : (roundRatio num den).isFinite) :
    ∃ v, decode (roundRatio num den) = .finite false v :=
  ⟨_, decode_ofBits (lt_of_isFinite (roundRatioBits_le num den) h)⟩

/-- The double nearest to a fraction in the interval of `x` is `x`. -/
theorem roundRatio_eq {num den : ℕ} (hden : den ≠ 0) {x : Float} {v : Dyadic}
    (hx : decode x = .finite false v) (h : (num / den : ℚ) ∈ v.roundingInterval) :
    roundRatio num den = x := by
  obtain ⟨hv, hb, rfl⟩ := eq_ofBits_of_decode hx
  rw [roundRatio, roundRatioBits_eq hden hv hb.le h]

end Lox.Decimal
