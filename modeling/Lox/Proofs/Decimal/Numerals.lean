import Lox.Proofs.Decimal.Shortest
import Lox.Proofs.Token.Lexemes

/-!
# Written numbers as numerals

A `Numeral` is a text of digits, perhaps with a point and further digits, and the number that it
denotes. Every style that writes no exponents writes a finite double as a numeral, and the number
that this numeral denotes rounds to the double again (`Style.numeral_write`). So the text is the
lexeme of that double (`Numeral.lexeme`).
-/

namespace Lox.Decimal

/-! ## Digits -/

theorem digitsValue_eq (ds : List Char) : digitsValue ds = Nat.ofDigitChars 10 ds 0 :=
  Nat.ofDigitChars_eq_foldl.symm

theorem digitsValue_append (ds es : List Char) :
    digitsValue (ds ++ es) = 10 ^ es.length * digitsValue ds + digitsValue es := by
  rw [digitsValue_eq, digitsValue_eq, digitsValue_eq, Nat.ofDigitChars_append,
    Nat.ofDigitChars_eq_ofDigitChars_zero]

theorem digitsValue_replicate_zero (n : ℕ) : digitsValue (List.replicate n '0') = 0 := by
  rw [digitsValue_eq, Nat.ofDigitChars_replicate_zero, Nat.mul_zero]

theorem digitsValue_digitChars (n : ℕ) : digitsValue (digitChars n) = n := by
  rw [digitsValue_eq, digitChars, Nat.ofDigitChars_ten_toDigits]

theorem isDigits_digitChars (n : ℕ) : IsDigits (digitChars n) :=
  ⟨Nat.toDigits_ne_nil, fun _ hc => Nat.isDigit_of_mem_toDigits (by decide) (by decide) hc⟩

/-- Zeros behind the digits of a positive number. -/
theorem digitChars_append_zeros {d : ℕ} (hd : 0 < d) (n : ℕ) :
    digitChars d ++ List.replicate n '0' = digitChars (d * 10 ^ n) := by
  induction n with
  | zero => simp
  | succ n ih =>
    have hpos : 0 < d * 10 ^ n := Nat.mul_pos hd (Nat.pow_pos (by decide))
    have hzero := Nat.toDigits_append_toDigits (b := 10) (d := 0) (by decide) hpos (by decide)
    rw [Nat.toDigits_zero, Nat.add_zero] at hzero
    rw [List.replicate_succ', ← List.append_assoc, ih, Nat.pow_succ, digitChars, hzero, digitChars]
    congr 1
    ring

theorem isDigit_of_mem_zeros {n : ℕ} {c : Char} (h : c ∈ List.replicate n '0') : c.isDigit := by
  rw [(List.mem_replicate.mp h).2]
  rfl

theorem isDigits_zero : IsDigits ['0'] :=
  ⟨List.cons_ne_nil _ _, fun _ hc => isDigit_of_mem_zeros (n := 1) hc⟩

/-! ## Numerals -/

/-- A text of digits, perhaps with a point and further digits, and the number that it denotes. -/
inductive Numeral : List Char → ℚ → Prop where
  | whole {digits : List Char} (h : IsDigits digits) : Numeral digits (digitsValue digits)
  | fraction {whole digits : List Char} (h : IsDigits whole) (hd : IsDigits digits) :
    Numeral (whole ++ '.' :: digits) (digitsValue (whole ++ digits) / 10 ^ digits.length)

/-- A numeral for a number that rounds to `x` is a lexeme of `x`. -/
theorem Numeral.lexeme {text : List Char} {q : ℚ} (h : Numeral text q) {x : Float} {v : Dyadic}
    (hx : decode x = .finite false v) (hq : q ∈ v.roundingInterval) :
    Lexeme (.number x) text := by
  cases h with
  | whole h =>
    have hround : ofDigits text [] = x := by
      refine roundRatio_eq (Nat.pow_pos (by decide)).ne' hx ?_
      simpa using hq
    rw [← hround]
    exact .whole h
  | @fraction whole digits h hd =>
    have hround : ofDigits whole digits = x := by
      refine roundRatio_eq (Nat.pow_pos (by decide)).ne' hx ?_
      simpa using hq
    rw [← hround]
    exact .fraction h hd

/-- A zero behind the point changes no whole number. -/
theorem Numeral.pointZero {digits : List Char} (h : IsDigits digits) :
    Numeral (digits ++ ['.', '0']) (digitsValue digits) := by
  have hvalue : (digitsValue (digits ++ ['0']) / 10 ^ ['0'].length : ℚ) = digitsValue digits := by
    have h0 : digitsValue ['0'] = 0 := digitsValue_replicate_zero 1
    rw [digitsValue_append, h0]
    simp
  rw [← hvalue]
  exact .fraction h isDigits_zero

namespace Scientific

variable {x : Scientific}

/-- A number without places behind the point is written as a whole number. -/
theorem positional_of_nonneg (h : 0 ≤ x.exponent) :
    IsDigits x.positional ∧ (digitsValue x.positional : ℚ) = x.value := by
  have hplaces : (-x.exponent).toNat = 0 := by omega
  have ht : x.positional = digitChars x.digits ++ List.replicate x.exponent.toNat '0' := by
    unfold positional
    dsimp only
    rw [if_pos hplaces]
  obtain ⟨hne, hd⟩ := isDigits_digitChars x.digits
  rw [ht]
  refine ⟨⟨List.append_ne_nil_of_left_ne_nil hne _, fun c hc => ?_⟩, ?_⟩
  · rcases List.mem_append.mp hc with hc | hc
    · exact hd c hc
    · exact isDigit_of_mem_zeros hc
  · rw [digitsValue_append, digitsValue_digitChars, digitsValue_replicate_zero, value,
      zpow_eq_div 10 x.exponent, hplaces]
    simp [mul_comm]

/-- The digits of a number that has places behind the point, divided in two at the point. -/
theorem numeral_of_append (h : x.exponent < 0) {whole digits : List Char} (hw : IsDigits whole)
    (hd : IsDigits digits) (hl : digits.length = (-x.exponent).toNat)
    (hv : digitsValue (whole ++ digits) = x.digits) : Numeral (whole ++ '.' :: digits) x.value := by
  have hwhole : x.exponent.toNat = 0 := by omega
  have hvalue : (digitsValue (whole ++ digits) / 10 ^ digits.length : ℚ) = x.value := by
    rw [hv, hl, value, zpow_eq_div 10 x.exponent, hwhole, pow_zero, mul_one_div]
  rw [← hvalue]
  exact .fraction hw hd

theorem numeral_positional (x : Scientific) : Numeral x.positional x.value := by
  by_cases h : 0 ≤ x.exponent
  · obtain ⟨hd, hvalue⟩ := positional_of_nonneg h
    rw [← hvalue]
    exact .whole hd
  obtain ⟨hne, hd⟩ := isDigits_digitChars x.digits
  have hplaces : (-x.exponent).toNat ≠ 0 := by omega
  unfold positional
  dsimp only
  rw [if_neg hplaces]
  split
  · next hlength =>
    -- a zero in front of the point, and zeros between it and the digits
    generalize hz : List.replicate ((-x.exponent).toNat - (digitChars x.digits).length) '0' = zeros
    have hdigits : IsDigits (zeros ++ digitChars x.digits) := by
      refine ⟨List.append_ne_nil_of_right_ne_nil _ hne, fun c hc => ?_⟩
      rcases List.mem_append.mp hc with hc | hc
      · rw [← hz] at hc
        exact isDigit_of_mem_zeros hc
      · exact hd c hc
    have hl : (zeros ++ digitChars x.digits).length = (-x.exponent).toNat := by
      rw [List.length_append, ← hz, List.length_replicate]
      omega
    have hsum : digitsValue (['0'] ++ (zeros ++ digitChars x.digits)) = x.digits := by
      have h0 : digitsValue (['0'] ++ zeros) = 0 := by
        rw [← hz]
        exact digitsValue_replicate_zero (_ + 1)
      rw [← List.append_assoc, digitsValue_append, h0, digitsValue_digitChars]
      omega
    exact numeral_of_append (not_le.mp h) isDigits_zero hdigits hl hsum
  · next hlength =>
    generalize hk : (digitChars x.digits).length - (-x.exponent).toNat = k
    have htake : IsDigits ((digitChars x.digits).take k) :=
      ⟨fun he => (List.take_eq_nil_iff.mp he).elim (by omega) hne,
        fun c hc => hd c (List.mem_of_mem_take hc)⟩
    have hdrop : IsDigits ((digitChars x.digits).drop k) :=
      ⟨fun he => absurd (List.drop_eq_nil_iff.mp he) (by omega),
        fun c hc => hd c (List.mem_of_mem_drop hc)⟩
    have hl : ((digitChars x.digits).drop k).length = (-x.exponent).toNat := by
      rw [List.length_drop]
      omega
    have hsum : digitsValue ((digitChars x.digits).take k ++ (digitChars x.digits).drop k) =
        x.digits := by
      rw [List.take_append_drop, digitsValue_digitChars]
    exact numeral_of_append (not_le.mp h) htake hdrop hl hsum

end Scientific

/-! ## Styles -/

namespace Style

variable {style : Style} {x : Float} {v : Dyadic}

theorem toList_write (style : Style) (hx : decode x = .finite false v) :
    (style.write x).toList = style.magnitude v := by
  rw [write, hx]
  simp

/-- Without exponents a style writes a finite double as a numeral for a number that rounds to
it. -/
theorem numeral_write (hs : style.positional = none) (hx : decode x = .finite false v) :
    ∃ q ∈ v.roundingInterval, Numeral (style.write x).toList q := by
  refine ⟨(style.decimal v).value, style.decimal_mem v, ?_⟩
  rw [toList_write style hx, magnitude_eq hs]
  split
  · next hpoint =>
    have hwhole := style.exponent_decimal (Bool.and_eq_true_iff.mp hpoint).2
    obtain ⟨hdigits, hvalue⟩ := Scientific.positional_of_nonneg hwhole
    rw [← hvalue]
    exact .pointZero hdigits
  · rw [List.append_nil]
    exact (style.decimal v).numeral_positional

/-- Whole numbers are written with all their digits where all of them are doubles, whether a style
takes the exact digits or the shortest ones. -/
theorem write_of_isIntegral (hs : style.positional = none) (hx : decode x = .finite false v)
    (hv : v.isIntegral) (hlt : v.floor < 2 ^ 53) :
    style.write x = toString v.floor ++ if style.pointZero then ".0" else "" := by
  have hvalue := style.value_decimal (eq_ofBits_of_decode hx).1 hv hlt
  have hwhole := style.exponent_decimal hv
  have hplaces : (-(style.decimal v).exponent).toNat = 0 := by omega
  have hdigits : (style.decimal v).digits * 10 ^ (style.decimal v).exponent.toNat = v.floor := by
    rw [Dyadic.value_eq_floor hv, Scientific.value, zpow_eq_div 10, hplaces, pow_zero,
      div_one] at hvalue
    exact_mod_cast hvalue
  have htext : (style.decimal v).positional = digitChars v.floor := by
    unfold Scientific.positional
    dsimp only
    rw [if_pos hplaces, ← hdigits]
    by_cases hpos : 0 < (style.decimal v).digits
    · exact digitChars_append_zeros hpos _
    · -- zero has one digit only
      have hfloor : v.floor = 0 := by
        rw [← hdigits, Nat.eq_zero_of_not_pos hpos, Nat.zero_mul]
      have hm : v.mantissa = 0 := by
        have hzero := Dyadic.value_eq_floor hv
        rw [hfloor, Nat.cast_zero, Dyadic.value, mul_eq_zero] at hzero
        exact_mod_cast hzero.resolve_right (two_zpow_pos _).ne'
      have hd : style.decimal v = ⟨0, 0⟩ := if_pos hm
      rw [hd]
      rfl
  refine String.toList_inj.mp ?_
  rw [toList_write style hx, magnitude_eq hs, htext, hv, Bool.and_true, String.toList_append,
    Nat.toString_eq_ofList_toDigits, String.toList_ofList]
  cases style.pointZero <;> rfl

end Style

end Lox.Decimal
