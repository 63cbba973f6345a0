import Lox.Token.Lexer
import Mathlib.Data.List.TakeWhile

/-!
# When a piece is cut

`p.Fits tail` says when `p` is the first piece of a source that begins with its
text and goes on with `tail`: its characters are those of its kind, and `tail`
does not begin with what would make the piece a longer or another one.

* `Piece.fits_cut`: what is cut fits;
* `Piece.Fits.exists_cut`: what fits is cut;
* `pieces_flatMap_text_iff`: so a list of pieces is what their joined texts are
  cut into if and only if each of them fits before those that follow.
-/

namespace Lox

/-! ## What follows a piece -/

/-- The next character, if there is one, is none of these. -/
def NotNext (p : Char → Bool) (tail : List Char) : Prop := ∀ c ∈ tail.head?, p c = false

theorem notNext_dropWhile (p : Char → Bool) (l : List Char) : NotNext p (l.dropWhile p) := by
  have h := List.head?_dropWhile_not p l
  intro c hc
  rw [Option.mem_def] at hc
  rwa [hc] at h

theorem takeWhile_append_of_notNext {p : Char → Bool} {w tail : List Char} (hw : ∀ c ∈ w, p c)
    (h : NotNext p tail) : (w ++ tail).takeWhile p = w := by
  rw [List.takeWhile_append_of_pos hw]
  cases tail with
  | nil => exact List.append_nil w
  | cons c r => rw [List.takeWhile_cons, h c rfl, if_neg Bool.false_ne_true, List.append_nil]

theorem dropWhile_append_of_notNext {p : Char → Bool} {w tail : List Char} (hw : ∀ c ∈ w, p c)
    (h : NotNext p tail) : (w ++ tail).dropWhile p = tail := by
  rw [List.dropWhile_append_of_pos hw]
  cases tail with
  | nil => rfl
  | cons c r => rw [List.dropWhile_cons, h c rfl, if_neg Bool.false_ne_true]

/-! ## Kinds of characters -/

/-- A letter or underscore, and then letters, digits and underscores. -/
def IsWord (text : List Char) : Prop := text.head?.any isWordStart ∧ text.all isWordPart

instance (text : List Char) : Decidable (IsWord text) := inferInstanceAs (Decidable (_ ∧ _))

/-- Digits, at least one. -/
def IsDigits (text : List Char) : Prop := text ≠ [] ∧ ∀ d ∈ text, d.isDigit

theorem isWordPart_of_isWordStart {c : Char} (h : isWordStart c) : isWordPart c := by
  simp only [isWordStart, isWordPart, Char.isAlphanum, Bool.or_eq_true] at h ⊢
  exact h.imp .inl id

theorem IsWord.exists_cons {text : List Char} (h : IsWord text) :
    ∃ c cs, text = c :: cs ∧ isWordStart c ∧ ∀ d ∈ cs, isWordPart d := by
  cases text with
  | nil => exact absurd h.1 Bool.false_ne_true
  | cons c cs =>
    have ha := List.all_eq_true.mp h.2
    exact ⟨c, cs, rfl, h.1, fun d hd => ha d (List.mem_cons_of_mem c hd)⟩

theorem isWord_cons {c : Char} {cs : List Char} (hc : isWordStart c) (hs : ∀ d ∈ cs, isWordPart d) :
    IsWord (c :: cs) := by
  refine ⟨hc, List.all_eq_true.mpr fun d hd => ?_⟩
  rcases List.mem_cons.mp hd with rfl | hd
  · exact isWordPart_of_isWordStart hc
  · exact hs d hd

theorem eq_of_isBlank {c : Char} (h : isBlank c) : c = ' ' ∨ c = '\r' ∨ c = '\t' ∨ c = '\n' := by
  simpa [isBlank, or_assoc] using h

theorem isDigit_eq_false_of_isBlank {c : Char} (h : isBlank c) : c.isDigit = false := by
  rcases eq_of_isBlank h with rfl | rfl | rfl | rfl <;> decide

theorem isWordStart_eq_false_of_isBlank {c : Char} (h : isBlank c) : isWordStart c = false := by
  rcases eq_of_isBlank h with rfl | rfl | rfl | rfl <;> decide

theorem isDigit_eq_false_of_isWordStart {c : Char} (h : isWordStart c) : c.isDigit = false := by
  by_contra hd
  rw [Bool.not_eq_false, Char.isDigit_iff_toNat] at hd
  have h : (decide (c.val ≥ 'A'.val ∧ c.val ≤ 'Z'.val) ||
      (decide (c.val ≥ 'a'.val) && decide (c.val ≤ 'z'.val)) || c == '_') = true := h
  simp only [Bool.or_eq_true, Bool.and_eq_true, decide_eq_true_eq, beq_iff_eq, ge_iff_le,
    UInt32.le_iff_toNat_le] at h
  have hc : c.val.toNat = c.toNat := rfl
  have hn : '9'.toNat = 57 := rfl
  have ha : 'A'.val.toNat = 65 := rfl
  have hl : 'a'.val.toNat = 97 := rfl
  rcases h with (h | h) | rfl
  · omega
  · omega
  · exact absurd hd.2 (by decide)

/-! ## The cut, kind by kind -/

section

variable {c : Char} (rest : List Char)

theorem cut_blank (h : isBlank c) : cut c rest = (.blank c, rest) := if_pos h

theorem cut_comment :
    cut '/' ('/' :: rest) = (.comment (rest.takeWhile (· != '\n')), rest.dropWhile (· != '\n')) :=
  rfl

theorem cut_quote : cut '"' rest = cutString rest := rfl

theorem cut_digit (h : c.isDigit) :
    cut c rest =
      cutFraction (c :: rest.takeWhile Char.isDigit) (rest.dropWhile Char.isDigit) := by
  have hb : ¬ isBlank c := fun hb => by simp [isDigit_eq_false_of_isBlank hb] at h
  have hs : c ≠ '/' := by
    rintro rfl
    exact absurd h (by decide)
  have hq : c ≠ '"' := by
    rintro rfl
    exact absurd h (by decide)
  simp [cut, hb, hs, hq, h]

theorem cut_word (h : isWordStart c) :
    cut c rest = (.word (c :: rest.takeWhile isWordPart), rest.dropWhile isWordPart) := by
  have hb : ¬ isBlank c := fun hb => by simp [isWordStart_eq_false_of_isBlank hb] at h
  have hs : c ≠ '/' := by
    rintro rfl
    exact absurd h (by decide)
  have hq : c ≠ '"' := by
    rintro rfl
    exact absurd h (by decide)
  simp [cut, hb, hs, hq, isDigit_eq_false_of_isWordStart h, h]

theorem cut_stray (hb : isBlank c = false) (hq : c ≠ '"') (hd : c.isDigit = false)
    (hw : isWordStart c = false) (h : Symbol.ofChar? c = none) : cut c rest = (.stray c, rest) := by
  have hs : c ≠ '/' := by
    rintro rfl
    cases h
  simp [cut, hb, hs, hq, hd, hw, h]

theorem cut_symbol {s : Symbol} (h : Symbol.ofChar? c = some s)
    (hc : c = '/' → rest.head? ≠ some '/') : cut c rest = cutSymbol s rest := by
  have hs : ¬ (c == '/' && rest.head? == some '/') := by
    simpa using hc
  have hk : isBlank c = false ∧ c ≠ '"' ∧ c.isDigit = false ∧ isWordStart c = false := by
    unfold Symbol.ofChar? at h
    split at h <;> first | decide | cases h
  simp [cut, hs, hk, h]

end

/-- A symbol is cut from its one character, or it is that of one character and an equals sign. -/
theorem Symbol.exists_ofChar? (s : Symbol) :
    (∃ c, s.text.toList = [c] ∧ Symbol.ofChar? c = some s) ∨
      ∃ c short, s.text.toList = [c, '='] ∧ Symbol.ofChar? c = some short ∧
        short.withEqual? = some s := by
  cases s
  case bangEqual => exact .inr ⟨'!', .bang, rfl, rfl, rfl⟩
  case equalEqual => exact .inr ⟨'=', .equal, rfl, rfl, rfl⟩
  case greaterEqual => exact .inr ⟨'>', .greater, rfl, rfl, rfl⟩
  case lessEqual => exact .inr ⟨'<', .less, rfl, rfl, rfl⟩
  all_goals exact .inl ⟨_, rfl, rfl⟩

/-- A symbol that ends in an equals sign is not a slash, and another sign adds nothing to it. -/
theorem Symbol.ends_of_withEqual? {s long : Symbol} (h : s.withEqual? = some long) :
    long ≠ .slash ∧ long.withEqual? = none := by
  cases s <;> cases h <;> decide

/-! ## Pieces that fit -/

/-- When this piece is the first one of its text and what follows. -/
def Piece.Fits : Piece → List Char → Prop
  | .blank c, _ => isBlank c
  | .comment body, tail => (∀ d ∈ body, d != '\n') ∧ NotNext (· != '\n') tail
  | .symbol s, tail =>
    (s = .slash → NotNext (· == '/') tail) ∧ (s.withEqual?.isSome → NotNext (· == '=') tail)
  | .word text, tail => IsWord text ∧ NotNext isWordPart tail
  | .number whole [], tail =>
    IsDigits whole ∧ NotNext Char.isDigit tail ∧ ∀ r, tail = '.' :: r → NotNext Char.isDigit r
  | .number whole (d :: ds), tail =>
    IsDigits whole ∧ IsDigits (d :: ds) ∧ NotNext Char.isDigit tail
  | .string body, _ => ∀ d ∈ body, d != '"'
  | .stray c, _ =>
    isBlank c = false ∧ c ≠ '"' ∧ c.isDigit = false ∧ isWordStart c = false ∧
      Symbol.ofChar? c = none
  | .unclosed body, tail => (∀ d ∈ body, d != '"') ∧ tail = []

theorem Piece.fits_cutSymbol {c : Char} {s : Symbol} (h : Symbol.ofChar? c = some s)
    {rest : List Char} (hc : c = '/' → rest.head? ≠ some '/') :
    (cutSymbol s rest).1.Fits (cutSymbol s rest).2 := by
  have single (hn : s.withEqual?.isSome → NotNext (· == '=') rest) :
      Piece.Fits (.symbol s) rest := by
    refine ⟨?_, hn⟩
    rintro rfl d hd
    have hs : ['/'] = [c] := Symbol.text_of_ofChar? h
    have hc := hc (List.cons.inj hs).1.symm
    exact beq_eq_false_iff_ne.mpr fun hd' => hc (hd' ▸ hd)
  unfold cutSymbol
  split
  · split
    · next long hl =>
      obtain ⟨hs, he⟩ := Symbol.ends_of_withEqual? hl
      exact ⟨fun h => absurd h hs, fun h => by simp [he] at h⟩
    · next hl => exact single fun hs => by simp [hl] at hs
  · next hn =>
    refine single fun _ d hd => beq_eq_false_iff_ne.mpr fun hd' => ?_
    cases rest with
    | nil => cases hd
    | cons e rest =>
      cases hd
      exact hn rest (congrArg (· :: rest) hd')

theorem Piece.fits_cutFraction {whole rest : List Char} (hw : IsDigits whole)
    (h : NotNext Char.isDigit rest) :
    (cutFraction whole rest).1.Fits (cutFraction whole rest).2 := by
  unfold cutFraction
  split
  · next d rest =>
    split
    · next hd =>
      refine ⟨hw, ⟨List.cons_ne_nil d _, fun e he => ?_⟩, notNext_dropWhile _ rest⟩
      rcases List.mem_cons.mp he with rfl | he
      · exact hd
      · exact List.mem_takeWhile_imp he
    · next hd =>
      refine ⟨hw, h, fun r hr e he => ?_⟩
      cases hr
      cases he
      exact Bool.eq_false_iff.mpr hd
  · next hn =>
    refine ⟨hw, h, fun r hr e he => ?_⟩
    subst hr
    cases r with
    | nil => cases he
    | cons d r => exact absurd rfl (hn d r)

theorem Piece.fits_cutString (rest : List Char) :
    (cutString rest).1.Fits (cutString rest).2 := by
  unfold cutString
  split
  · next h =>
    refine ⟨fun d hd => ?_, rfl⟩
    exact List.dropWhile_eq_nil_iff.mp h d hd
  · exact fun d hd => List.mem_takeWhile_imp (p := (· != '"')) hd

/-- What is cut fits. -/
theorem Piece.fits_cut (c : Char) (rest : List Char) : (cut c rest).1.Fits (cut c rest).2 := by
  by_cases hb : isBlank c
  · rw [cut_blank rest hb]
    exact hb
  by_cases hs : c = '/' ∧ rest.head? = some '/'
  · obtain ⟨rfl, hs⟩ := hs
    cases rest with
    | nil => cases hs
    | cons d rest =>
      cases hs
      rw [cut_comment]
      exact ⟨fun d hd => List.mem_takeWhile_imp (p := (· != '\n')) hd, notNext_dropWhile _ rest⟩
  by_cases hq : c = '"'
  · subst hq
    rw [cut_quote]
    exact fits_cutString rest
  by_cases hd : c.isDigit
  · rw [cut_digit rest hd]
    refine fits_cutFraction ⟨List.cons_ne_nil c _, fun e he => ?_⟩ (notNext_dropWhile _ rest)
    rcases List.mem_cons.mp he with rfl | he
    · exact hd
    · exact List.mem_takeWhile_imp he
  by_cases hw : isWordStart c
  · rw [cut_word rest hw]
    exact ⟨isWord_cons hw fun d hd => List.mem_takeWhile_imp hd, notNext_dropWhile _ rest⟩
  cases ho : Symbol.ofChar? c with
  | some s =>
    have hc : c = '/' → rest.head? ≠ some '/' := fun hc hr => hs ⟨hc, hr⟩
    rw [cut_symbol rest ho hc]
    exact fits_cutSymbol ho hc
  | none =>
    rw [Bool.not_eq_true] at hb hd hw
    rw [cut_stray rest hb hq hd hw ho]
    exact ⟨hb, hq, hd, hw, ho⟩

theorem Piece.Fits.exists_cut_symbol {s : Symbol} {tail : List Char}
    (h : Piece.Fits (.symbol s) tail) :
    ∃ c rest, s.text.toList ++ tail = c :: rest ∧ cut c rest = (.symbol s, tail) := by
  obtain ⟨hslash, hequal⟩ := h
  rcases s.exists_ofChar? with ⟨c, hs, ho⟩ | ⟨c, short, hs, ho, hl⟩
  · refine ⟨c, tail, by rw [hs]; rfl, ?_⟩
    have hc : c = '/' → tail.head? ≠ some '/' := by
      rintro rfl hr
      cases ho
      exact absurd (hslash rfl '/' hr) (by decide)
    rw [cut_symbol tail ho hc]
    unfold cutSymbol
    split
    · next rest =>
      cases hl : s.withEqual? with
      | none => rfl
      | some long =>
        have hn := hequal (by rw [hl]; rfl) '=' rfl
        exact absurd hn (by decide)
    · rfl
  · refine ⟨c, '=' :: tail, by rw [hs]; rfl, ?_⟩
    have hc : c = '/' → ('=' :: tail).head? ≠ some '/' := fun _ he => by cases he
    rw [cut_symbol _ ho hc, cutSymbol, hl]

theorem Piece.Fits.exists_cut_number {whole fraction tail : List Char}
    (h : Piece.Fits (.number whole fraction) tail) :
    ∃ c rest, (Piece.number whole fraction).text ++ tail = c :: rest ∧
      cut c rest = (.number whole fraction, tail) := by
  cases fraction with
  | nil =>
    obtain ⟨⟨hne, hw⟩, hn, hp⟩ := h
    obtain ⟨c, cs, rfl⟩ := List.exists_cons_of_ne_nil hne
    have hs : ∀ d ∈ cs, d.isDigit := fun d hd => hw d (List.mem_cons_of_mem c hd)
    refine ⟨c, cs ++ tail, rfl, ?_⟩
    rw [cut_digit _ (hw c List.mem_cons_self), takeWhile_append_of_notNext hs hn,
      dropWhile_append_of_notNext hs hn]
    unfold cutFraction
    split
    · next d r => rw [hp (d :: r) rfl d rfl, if_neg Bool.false_ne_true]
    · rfl
  | cons d ds =>
    obtain ⟨⟨hne, hw⟩, ⟨-, hf⟩, hn⟩ := h
    obtain ⟨c, cs, rfl⟩ := List.exists_cons_of_ne_nil hne
    have hs : ∀ d ∈ cs, d.isDigit := fun d hd => hw d (List.mem_cons_of_mem c hd)
    have hds : ∀ d ∈ ds, d.isDigit := fun e he => hf e (List.mem_cons_of_mem d he)
    have hpoint : NotNext Char.isDigit ('.' :: d :: (ds ++ tail)) := by
      intro e he
      cases he
      rfl
    refine ⟨c, cs ++ '.' :: d :: (ds ++ tail), by simp [text], ?_⟩
    rw [cut_digit _ (hw c List.mem_cons_self), takeWhile_append_of_notNext hs hpoint,
      dropWhile_append_of_notNext hs hpoint]
    simp only [cutFraction, hf d List.mem_cons_self, if_true]
    rw [takeWhile_append_of_notNext hds hn, dropWhile_append_of_notNext hds hn]

/-- What fits is cut. -/
theorem Piece.Fits.exists_cut {p : Piece} {tail : List Char} (h : p.Fits tail) :
    ∃ c rest, p.text ++ tail = c :: rest ∧ cut c rest = (p, tail) := by
  cases p with
  | blank c => exact ⟨c, tail, rfl, cut_blank tail h⟩
  | comment body =>
    refine ⟨'/', '/' :: (body ++ tail), rfl, ?_⟩
    rw [cut_comment, takeWhile_append_of_notNext h.1 h.2, dropWhile_append_of_notNext h.1 h.2]
  | symbol s => exact h.exists_cut_symbol
  | word text =>
    obtain ⟨hw, hn⟩ := h
    obtain ⟨c, cs, rfl, hc, hs⟩ := hw.exists_cons
    refine ⟨c, cs ++ tail, rfl, ?_⟩
    rw [cut_word _ hc, takeWhile_append_of_notNext hs hn, dropWhile_append_of_notNext hs hn]
  | number whole fraction => exact h.exists_cut_number
  | string body =>
    have hq : NotNext (· != '"') ('"' :: tail) := by
      intro c hc
      cases hc
      rfl
    refine ⟨'"', body ++ '"' :: tail, by simp [text], ?_⟩
    rw [cut_quote, cutString, dropWhile_append_of_notNext h hq]
    rw [takeWhile_append_of_notNext h hq]
  | stray c =>
    obtain ⟨hb, hq, hd, hw, ho⟩ := h
    exact ⟨c, tail, rfl, cut_stray tail hb hq hd hw ho⟩
  | unclosed body =>
    obtain ⟨hb, rfl⟩ := h
    refine ⟨'"', body, by simp [text], ?_⟩
    rw [cut_quote, cutString, List.dropWhile_eq_nil_iff.mpr hb]

/-! ## Lists of pieces -/

/-- Each piece fits before the texts of those that follow it. -/
def Piece.FitAll : List Piece → Prop
  | [] => True
  | p :: ps => p.Fits (ps.flatMap Piece.text) ∧ Piece.FitAll ps

theorem Piece.fitAll_pieces (source : List Char) : Piece.FitAll (pieces source) := by
  fun_induction pieces source with
  | case1 => trivial
  | case2 c rest ih =>
    have hf := fits_cut c rest
    refine ⟨?_, ih⟩
    rwa [flatMap_text_pieces]

/-- The pieces of a source are those that fit one before the other. -/
theorem pieces_flatMap_text_iff (ps : List Piece) :
    pieces (ps.flatMap Piece.text) = ps ↔ Piece.FitAll ps := by
  constructor
  · intro h
    have hf := Piece.fitAll_pieces (ps.flatMap Piece.text)
    rwa [h] at hf
  · intro h
    induction ps with
    | nil => rw [List.flatMap_nil, pieces]
    | cons p ps ih =>
      obtain ⟨c, rest, ht, hc⟩ := h.1.exists_cut
      rw [List.flatMap_cons, ht, pieces, hc, ih h.2]

end Lox
