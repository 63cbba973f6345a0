import Lox.Decimal.Style
import Lox.Proofs.Decimal.Rounding

/-!
# The decimals that are written

Every decimal that a style takes for a double lies in the rounding interval of that double
(`Style.decimal_mem`): it was found there, or it is the exact expansion. For a whole number it is a
whole number too (`Style.exponent_decimal`).
-/

namespace Lox.Decimal

/-- The number that a decimal stands for. -/
def Scientific.value (x : Scientific) : ℚ := x.digits * 10 ^ x.exponent

/-! ## Exact numbers -/

/-- A double lies in its own interval. -/
theorem Dyadic.value_mem (v : Dyadic) : v.value ∈ v.roundingInterval := by
  have hu : (0 : ℚ) < 2 ^ v.exponent / 4 := div_pos (two_zpow_pos _) four_pos
  have hvalue : v.value = (4 * v.mantissa : ℕ) * (2 ^ v.exponent / 4) := by
    unfold value
    push_cast
    ring
  have hlower : v.roundingInterval.lower ≤ 4 * v.mantissa ∧
      (v.mantissa % 2 ≠ 0 → v.roundingInterval.lower < 4 * v.mantissa) := by
    unfold roundingInterval
    dsimp only
    split <;> omega
  have hupper : 4 * v.mantissa < v.roundingInterval.upper := Nat.lt_add_of_pos_right Nat.two_pos
  have hclosed : v.roundingInterval.closed = true ↔ v.mantissa % 2 = 0 := decide_eq_true_iff
  rw [RoundingInterval.mem_iff, zpow_unit, hvalue]
  simp only [mul_le_mul_iff_left₀ hu, mul_lt_mul_iff_left₀ hu, Nat.cast_le, Nat.cast_lt]
  split
  · exact ⟨hlower.1, hupper.le⟩
  · next hm => exact ⟨hlower.2 (mt hclosed.mpr hm), hupper⟩

theorem Dyadic.value_toScientific (v : Dyadic) : v.toScientific.value = v.value := by
  unfold toScientific Scientific.value value
  dsimp only
  by_cases h : 0 ≤ v.exponent
  · have hzero : (-v.exponent).toNat = 0 := by omega
    rw [min_eq_right h, hzero, zpow_zero, mul_one, zpow_eq_div 2 v.exponent, hzero]
    simp
  · have hzero : v.exponent.toNat = 0 := by omega
    have hten : (10 : ℚ) ^ v.exponent =
        1 / (2 ^ (-v.exponent).toNat * 5 ^ (-v.exponent).toNat) := by
      rw [zpow_eq_div 10 v.exponent, hzero, pow_zero, ← mul_pow]
      norm_num
    rw [min_eq_left (by omega), hten, zpow_eq_div 2 v.exponent, hzero]
    simp only [Nat.pow_eq, pow_zero, mul_one, Nat.cast_mul, Nat.cast_pow, Nat.cast_ofNat]
    field_simp

/-- A number without a fractional part is its floor. -/
theorem Dyadic.value_eq_floor {v : Dyadic} (h : v.isIntegral) : v.value = v.floor := by
  have hdvd : Nat.pow 2 (-v.exponent).toNat ∣ v.mantissa * Nat.pow 2 v.exponent.toNat :=
    Dvd.dvd.mul_right (Nat.dvd_of_mod_eq_zero (of_decide_eq_true h)) _
  have hpos : ((Nat.pow 2 (-v.exponent).toNat : ℕ) : ℚ) ≠ 0 := by
    exact_mod_cast (Nat.pow_pos Nat.two_pos).ne'
  rw [floor, Nat.cast_div hdvd hpos, value, zpow_eq_div 2 v.exponent]
  simp only [Nat.pow_eq, Nat.cast_mul, Nat.cast_pow, Nat.cast_ofNat]
  rw [mul_div_assoc]

/-! ## Grids -/

/-- A multiple of `10^e` and a multiple of `2^unit` are compared in a common unit. -/
theorem exists_grid_eq (e unit : ℤ) :
    ∃ c : ℚ, 0 < c ∧ ((grid e unit).1 : ℚ) = 10 ^ e * c ∧ ((grid e unit).2 : ℚ) = 2 ^ unit * c := by
  refine ⟨10 ^ (-e).toNat * 2 ^ (-unit).toNat, by positivity, ?_, ?_⟩
  · rw [zpow_eq_div 10 e]
    simp only [grid, Nat.pow_eq, Nat.cast_mul, Nat.cast_pow, Nat.cast_ofNat]
    field_simp
  · rw [zpow_eq_div 2 unit]
    simp only [grid, Nat.pow_eq, Nat.cast_mul, Nat.cast_pow, Nat.cast_ofNat]
    field_simp

namespace RoundingInterval

variable {i : RoundingInterval} {tie : Tie} {e : ℤ} {d : ℕ}

theorem contains_iff : i.contains e d = true ↔ (d * 10 ^ e : ℚ) ∈ i := by
  obtain ⟨c, hc, ha, hb⟩ := exists_grid_eq e i.unit
  have hle (t : ℕ) : t * (grid e i.unit).2 ≤ d * (grid e i.unit).1 ↔
      (t * 2 ^ i.unit : ℚ) ≤ d * 10 ^ e := by
    rw [← mul_le_mul_iff_left₀ hc, mul_assoc, mul_assoc, ← ha, ← hb]
    exact_mod_cast Iff.rfl
  have hge (t : ℕ) : d * (grid e i.unit).1 ≤ t * (grid e i.unit).2 ↔
      (d * 10 ^ e : ℚ) ≤ t * 2 ^ i.unit := by
    rw [← mul_le_mul_iff_left₀ hc, mul_assoc, mul_assoc, ← ha, ← hb]
    exact_mod_cast Iff.rfl
  rw [mem_iff]
  unfold contains
  dsimp only
  split
  · rw [Bool.and_eq_true, decide_eq_true_iff, decide_eq_true_iff, hle, hge]
  · rw [Bool.and_eq_true, decide_eq_true_iff, decide_eq_true_iff, ← not_le, ← not_le, hle, hge,
      not_le, not_le]

/-- What is found on a grid lies in the interval. -/
theorem mem_of_hit? (h : i.hit? tie e = some d) : (d * 10 ^ e : ℚ) ∈ i := by
  rw [← contains_iff]
  unfold hit? at h
  dsimp only at h
  split at h
  · next hbelow habove =>
    cases h
    unfold nearer
    dsimp only
    split
    · exact hbelow
    split
    · exact habove
    split
    · exact habove
    split
    · exact hbelow
    · exact habove
  · next hbelow _ =>
    cases h
    exact hbelow
  · next _ habove =>
    cases h
    exact habove
  · cases h

end RoundingInterval

/-- On a grid that a double lies on, something is found. -/
theorem Dyadic.isSome_hit? {v : Dyadic} {e : ℤ} {d : ℕ} (h : (d * 10 ^ e : ℚ) = v.value)
    (tie : Tie) : (v.roundingInterval.hit? tie e).isSome := by
  obtain ⟨c, hc, ha, hb⟩ := exists_grid_eq e v.roundingInterval.unit
  have hpos : 0 < (grid e v.roundingInterval.unit).1 := by
    have : (0 : ℚ) < (grid e v.roundingInterval.unit).1 := by
      rw [ha]
      positivity
    exact_mod_cast this
  have hd : v.roundingInterval.value * (grid e v.roundingInterval.unit).2 =
      d * (grid e v.roundingInterval.unit).1 := by
    have : ((4 * v.mantissa : ℕ) : ℚ) * (grid e v.roundingInterval.unit).2 =
        d * (grid e v.roundingInterval.unit).1 := by
      rw [ha, hb, ← mul_assoc, ← mul_assoc, h, zpow_unit, value]
      push_cast
      ring
    exact_mod_cast this
  have hcontains : v.roundingInterval.contains e d = true := by
    rw [RoundingInterval.contains_iff, h]
    exact v.value_mem
  unfold RoundingInterval.hit?
  dsimp only
  rw [hd, Nat.mul_div_cancel _ hpos, hcontains]
  split <;> first | rfl | contradiction

/-! ## The search -/

theorem Dyadic.search_mem (v : Dyadic) (tie : Tie) (n : ℕ) (e : ℤ) :
    (v.search tie n e).value ∈ v.roundingInterval := by
  induction n generalizing e with
  | zero =>
    rw [search, value_toScientific]
    exact v.value_mem
  | succ n ih =>
    rw [search]
    split
    · next d h => exact RoundingInterval.mem_of_hit? h
    · exact ih (e - 1)

/-- For a whole number the search ends at whole numbers at the latest. -/
theorem Dyadic.exponent_search {v : Dyadic} (hv : v.isIntegral) (tie : Tie) (n : ℕ) (e : ℤ)
    (he : 0 ≤ e) (hn : e - min v.exponent 0 ≤ n) : 0 ≤ (v.search tie n e).exponent := by
  induction n generalizing e with
  | zero =>
    have : 0 ≤ min v.exponent 0 := by omega
    exact this
  | succ n ih =>
    rw [search]
    split
    · exact he
    · next hmiss =>
      have hzero : e ≠ 0 := by
        rintro rfl
        have hfound := v.isSome_hit? (e := 0) (d := v.floor)
          (by rw [zpow_zero, mul_one, value_eq_floor hv]) tie
        rw [hmiss] at hfound
        cases hfound
      exact ih (e - 1) (by omega) (by omega)

theorem Dyadic.exponent_shortest {v : Dyadic} (hv : v.isIntegral) (hpos : 0 < v.mantissa)
    (tie : Tie) : 0 ≤ (v.shortest tie).exponent := by
  have hvalue : 0 < v.value := by
    have : (0 : ℚ) < v.mantissa := by exact_mod_cast hpos
    exact mul_pos this (two_zpow_pos _)
  have hfloor : 0 < v.floor := by
    rw [value_eq_floor hv] at hvalue
    exact_mod_cast hvalue
  refine exponent_search hv tie _ _ ?_ (Int.self_le_toNat _)
  rw [firstDigitExponent, if_pos hfloor]
  omega

/-! ## Styles -/

namespace Style

variable (style : Style) {v : Dyadic}

theorem digits_mem (v : Dyadic) : (style.digits v).value ∈ v.roundingInterval := by
  unfold digits
  split
  · next h =>
    have hv := (Bool.and_eq_true_iff.mp h).2
    have hvalue : (⟨v.floor, 0⟩ : Scientific).value = v.value := by
      rw [Scientific.value, zpow_zero, mul_one, Dyadic.value_eq_floor hv]
    rw [hvalue]
    exact v.value_mem
  · exact v.search_mem _ _ _

/-- The decimal that a style writes, which is zero for zero. -/
def decimal (v : Dyadic) : Scientific := if v.mantissa = 0 then ⟨0, 0⟩ else style.digits v

theorem decimal_mem (v : Dyadic) : (style.decimal v).value ∈ v.roundingInterval := by
  unfold decimal
  split
  · next hm =>
    have hzero : (⟨0, 0⟩ : Scientific).value = v.value := by
      simp [Scientific.value, Dyadic.value, hm]
    rw [hzero]
    exact v.value_mem
  · exact style.digits_mem v

/-- A whole number is written with a whole number of units. -/
theorem exponent_decimal (hv : v.isIntegral) : 0 ≤ (style.decimal v).exponent := by
  unfold decimal digits
  split
  · exact Int.le_refl 0
  split
  · exact Int.le_refl 0
  · next hm _ => exact Dyadic.exponent_shortest hv (Nat.pos_of_ne_zero hm) _

theorem magnitude_eq {style : Style} (hs : style.positional = none) (v : Dyadic) :
    style.magnitude v = (style.decimal v).positional ++
      if style.pointZero && v.isIntegral then ['.', '0'] else [] := by
  rw [magnitude, hs]
  rfl

/-- Whole numbers are written exactly where all of them are doubles. -/
theorem value_decimal (hc : v.Canonical) (hv : v.isIntegral) (hlt : v.floor < 2 ^ 53) :
    (style.decimal v).value = v.value := by
  have hvalue := Dyadic.value_eq_floor hv
  have hu := two_zpow_pos v.exponent
  -- the last place of the mantissa is not above one
  have hunit : (2 : ℚ) ^ v.exponent ≤ 1 := by
    rw [← zpow_zero (2 : ℚ), zpow_le_zpow_iff_right₀ one_lt_two]
    by_contra hexp
    have hmin : 2 ^ 52 ≤ v.mantissa := hc.hidden.resolve_right fun he => by
      have : leastExponent = -1074 := rfl
      omega
    have htwo : (2 : ℚ) ^ (1 : ℤ) ≤ 2 ^ v.exponent :=
      (zpow_le_zpow_iff_right₀ one_lt_two).mpr (by omega)
    have hmin' : (2 ^ 52 : ℚ) ≤ v.mantissa := by exact_mod_cast hmin
    have hlt' : (v.floor : ℚ) < 2 ^ 53 := by exact_mod_cast hlt
    rw [← hvalue, Dyadic.value] at hlt'
    rw [zpow_one] at htwo
    nlinarith
  -- so two whole numbers lie at a distance of one half at most
  obtain ⟨n, hn⟩ : ∃ n : ℕ, (style.decimal v).value = n := by
    refine ⟨(style.decimal v).digits * 10 ^ (style.decimal v).exponent.toNat, ?_⟩
    have hexp : (-(style.decimal v).exponent).toNat = 0 := by
      have := style.exponent_decimal hv
      omega
    rw [Scientific.value, zpow_eq_div 10, hexp]
    push_cast
    rw [pow_zero, div_one]
  have hbounds := (v.roundsTo_of_mem (style.decimal_mem v)).bounds
  rw [hn, le_div_iff₀ hu, div_le_iff₀ hu] at hbounds
  have hfloor : (v.mantissa * 2 ^ v.exponent : ℚ) = v.floor := hvalue
  have h1 : n < v.floor + 1 := by exact_mod_cast (by linarith : (n : ℚ) < v.floor + 1)
  have h2 : v.floor < n + 1 := by exact_mod_cast (by linarith : (v.floor : ℚ) < n + 1)
  rw [hn, hvalue, (by omega : n = v.floor)]

end Style

end Lox.Decimal
