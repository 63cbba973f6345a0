import Lox.Proofs.Renaming.Sentences

/-!
# Sources of respelled programs

To spell a name anew is to replace words of the source by another word
(`Piece.Respells`). What follows a piece matters to how it is cut, but which word
follows does not: up to the place where both go on with a word, the old and the
new source are alike (`Alike`). So the new source is cut into the new pieces, and
all but these words stays as it was, the lines included.

* `Piece.FitAll.respell`: pieces in their new spelling are the pieces of a source;
* `exists_source_of_respells`: respelled tokens are the tokens of such a source.
-/

namespace Lox

/-! ## Texts that begin alike -/

/-- Two texts that are the same up to a place where they end or both go on with a word. -/
inductive Alike : List Char → List Char → Prop
  | nil : Alike [] []
  | same (c : Char) {a b : List Char} (h : Alike a b) : Alike (c :: a) (c :: b)
  | word {c d : Char} (a b : List Char) (hc : isWordStart c) (hd : isWordStart d) :
    Alike (c :: a) (d :: b)

theorem Alike.append {a b : List Char} (h : Alike a b) (text : List Char) :
    Alike (text ++ a) (text ++ b) := by
  induction text with
  | nil => exact h
  | cons c text ih => exact .same c ih

theorem Alike.of_isWord {v w : List Char} (hv : IsWord v) (hw : IsWord w) (a b : List Char) :
    Alike (v ++ a) (w ++ b) := by
  obtain ⟨c, cs, rfl, hc, -⟩ := hv.exists_cons
  obtain ⟨d, ds, rfl, hd, -⟩ := hw.exists_cons
  exact .word _ _ hc hd

/-- A test with one answer for all characters that begin a word does not tell the next ones apart. -/
theorem NotNext.alike {p : Char → Bool} {q : Bool} (hp : ∀ c, isWordStart c → p c = q)
    {a b : List Char} (hn : NotNext p a) (h : Alike a b) : NotNext p b := by
  cases h with
  | nil => exact hn
  | same c h => exact hn
  | word a b hc hd =>
    intro e he
    cases he
    rw [hp _ hd, ← hp _ hc]
    exact hn _ rfl

theorem NotNext.alike_of_ne {d : Char} (hd : isWordStart d = false) {a b : List Char}
    (hn : NotNext (· == d) a) (h : Alike a b) : NotNext (· == d) b := by
  refine hn.alike (fun c hc => beq_eq_false_iff_ne.mpr ?_) h
  rintro rfl
  exact absurd hc (Bool.eq_false_iff.mp hd)

theorem Piece.Fits.alike {p : Piece} {a b : List Char} (hf : p.Fits a) (h : Alike a b) :
    p.Fits b := by
  cases p with
  | blank c => exact hf
  | comment body =>
    refine ⟨hf.1, hf.2.alike (fun c hc => bne_iff_ne.mpr ?_) h⟩
    rintro rfl
    exact absurd hc (by decide)
  | symbol s =>
    exact ⟨fun hs => (hf.1 hs).alike_of_ne (by decide) h,
      fun hs => (hf.2 hs).alike_of_ne (by decide) h⟩
  | word text => exact ⟨hf.1, hf.2.alike (fun c hc => isWordPart_of_isWordStart hc) h⟩
  | number whole fraction =>
    have hd {a b : List Char} (hn : NotNext Char.isDigit a) (h : Alike a b) :
        NotNext Char.isDigit b := hn.alike (fun c hc => isDigit_eq_false_of_isWordStart hc) h
    cases fraction with
    | nil =>
      obtain ⟨hw, hn, hp⟩ := hf
      refine ⟨hw, hd hn h, ?_⟩
      rintro r rfl
      -- a point begins no word, so the characters after it are alike as well
      cases h with
      | same _ h => exact hd (hp _ rfl) h
      | word _ _ _ hc => exact absurd hc (by decide)
    | cons d ds => exact ⟨hf.1, hf.2.1, hd hf.2.2 h⟩
  | string body => exact hf
  | stray c => exact hf
  | unclosed body =>
    obtain ⟨hb, rfl⟩ := hf
    cases h
    exact ⟨hb, rfl⟩

/-! ## Pieces -/

/-- A piece, or the new name in the place of the old one. -/
inductive Piece.Respells (ρ : Renaming) : Piece → Piece → Prop
  | same (p : Piece) : Respells ρ p p
  | renamed : Respells ρ (.word ρ.old.toList) (.word ρ.new.toList)

section

variable {ρ : Renaming}

theorem Piece.Respells.alike {p p' : Piece} (h : p.Respells ρ p') {a b : List Char}
    (ha : Alike a b) : Alike (p.text ++ a) (p'.text ++ b) := by
  cases h with
  | same => exact ha.append p.text
  | renamed => exact .of_isWord ρ.isWord_old ρ.isWord_new a b

theorem alike_of_respells {ps ps' : List Piece} (h : List.Forall₂ (Piece.Respells ρ) ps ps') :
    Alike (ps.flatMap Piece.text) (ps'.flatMap Piece.text) := by
  induction h with
  | nil => exact .nil
  | cons hp _ ih => exact hp.alike ih

theorem Piece.Fits.respell {p p' : Piece} {a b : List Char} (hf : p.Fits a)
    (h : p.Respells ρ p') (ha : Alike a b) : p'.Fits b := by
  cases h with
  | same => exact hf.alike ha
  | renamed => exact ⟨ρ.isWord_new, (hf.alike ha).2⟩

/-- Pieces in their new spelling fit one before the other. -/
theorem Piece.FitAll.respell {ps ps' : List Piece} (hf : Piece.FitAll ps)
    (h : List.Forall₂ (Piece.Respells ρ) ps ps') : Piece.FitAll ps' := by
  induction h with
  | nil => trivial
  | cons hp hps ih => exact ⟨hf.1.respell hp (alike_of_respells hps), ih hf.2⟩

/-- The pieces of the respelled source are the respelled pieces. -/
theorem pieces_of_respells {source : List Char} {ps : List Piece}
    (h : List.Forall₂ (Piece.Respells ρ) (pieces source) ps) :
    pieces (ps.flatMap Piece.text) = ps :=
  (pieces_flatMap_text_iff ps).mpr ((Piece.fitAll_pieces source).respell h)

/-! ## Tokens -/

/-- The tokens that are parsed, if the pieces follow this line. -/
def parsedTokens (line : Nat) (ps : List Piece) : List Token :=
  (TokenSequence.ofTokens (tokensOf (itemsFrom .skip line ps))).tokens

/-- A token of a piece is neither a comment nor an end marker. -/
theorem Piece.kept_of_item? {line : Nat} {p : Piece} {t : Token}
    (h : p.item? .skip line = some (.token t)) : t.isComment = false ∧ t.isEof = false := by
  have hw (text : String) : (Kind.ofWord text).sameAs .comment = false ∧
      (Kind.ofWord text).sameAs .eof = false := by
    unfold Kind.ofWord
    split <;> exact ⟨rfl, rfl⟩
  cases p <;> cases h
  case word text => exact hw _
  all_goals exact ⟨rfl, rfl⟩

theorem parsedTokens_cons {line : Nat} {p : Piece} {ps : List Piece} {t : Token}
    (h : p.item? .skip (line + p.lineBreaks) = some (.token t)) :
    parsedTokens line (p :: ps) = t :: parsedTokens (line + p.lineBreaks) ps := by
  obtain ⟨hc, he⟩ := Piece.kept_of_item? h
  simp [parsedTokens, TokenSequence.ofTokens, itemsFrom, h, tokensOf, hc, he]

theorem parsedTokens_cons_of_none {line : Nat} {p : Piece} {ps : List Piece}
    (h : p.item? .skip (line + p.lineBreaks) = none) :
    parsedTokens line (p :: ps) = parsedTokens (line + p.lineBreaks) ps := by
  simp [parsedTokens, itemsFrom, h]

theorem parsedTokens_cons_of_error {line : Nat} {p : Piece} {ps : List Piece} {e : LexicalError}
    (h : p.item? .skip (line + p.lineBreaks) = some (.error e)) :
    parsedTokens line (p :: ps) = parsedTokens (line + p.lineBreaks) ps := by
  simp [parsedTokens, itemsFrom, h, tokensOf]

/-- An identifier is a word of the source. -/
theorem Piece.eq_word_of_item? {line : Nat} {p : Piece} {t : Token}
    (h : p.item? .skip line = some (.token t)) (hk : t.kind = .identifier) :
    p = .word t.lexeme.toList ∧ t.line = line := by
  cases p <;> cases h
  case word text => exact ⟨congrArg Piece.word (String.toList_ofList (l := text)).symm, rfl⟩
  all_goals cases hk

theorem IsWord.lineBreaks_eq {text : List Char} (h : IsWord text) :
    (Piece.word text).lineBreaks = 0 := by
  refine List.count_eq_zero.mpr fun hm => ?_
  exact absurd (List.all_eq_true.mp h.2 _ hm) (by decide)

theorem Piece.Respells.lineBreaks_eq {p p' : Piece} (h : p.Respells ρ p') :
    p'.lineBreaks = p.lineBreaks := by
  cases h with
  | same => rfl
  | renamed => rw [ρ.isWord_old.lineBreaks_eq, ρ.isWord_new.lineBreaks_eq]

/-- A respelled token is that of a respelled piece. -/
theorem Piece.exists_respells {line : Nat} {p : Piece} {t t' : Token}
    (h : p.item? .skip line = some (.token t)) (hr : t.Respells ρ t') :
    ∃ p', p.Respells ρ p' ∧ p'.item? .skip line = some (.token t') := by
  cases hr with
  | same => exact ⟨p, .same p, h⟩
  | renamed hk ho =>
    obtain ⟨rfl, hl⟩ := Piece.eq_word_of_item? h hk
    refine ⟨.word ρ.new.toList, ?_, ?_⟩
    · rw [ho]
      exact .renamed
    · have hn : Kind.ofWord ρ.new = .identifier := by rw [Kind.ofWord, ρ.isIdentifier_new]
      simp only [Piece.item?, Piece.text, String.ofList_toList, hn, hl]

/-- Respelled tokens are those of respelled pieces, in which nothing else is wrong. -/
theorem exists_pieces_of_respells {ps : List Piece} {line : Nat} {ts : List Token}
    (h : List.Forall₂ (Token.Respells ρ) (parsedTokens line ps) ts) :
    ∃ ps', List.Forall₂ (Piece.Respells ρ) ps ps' ∧ parsedTokens line ps' = ts ∧
      errorsOf (itemsFrom .skip line ps') = errorsOf (itemsFrom .skip line ps) := by
  induction ps generalizing line ts with
  | nil =>
    cases h
    exact ⟨[], .nil, rfl, rfl⟩
  | cons p ps ih =>
    cases hi : p.item? .skip (line + p.lineBreaks) with
    | none =>
      rw [parsedTokens_cons_of_none hi] at h
      obtain ⟨ps', hps, ht, he⟩ := ih h
      refine ⟨p :: ps', .cons (.same p) hps, ?_, ?_⟩
      · rw [parsedTokens_cons_of_none hi, ht]
      · simp only [itemsFrom, hi, he]
    | some item =>
      cases item with
      | error e =>
        rw [parsedTokens_cons_of_error hi] at h
        obtain ⟨ps', hps, ht, he⟩ := ih h
        refine ⟨p :: ps', .cons (.same p) hps, ?_, ?_⟩
        · rw [parsedTokens_cons_of_error hi, ht]
        · simp only [itemsFrom, hi]
          exact congrArg (e :: ·) he
      | token t =>
        rw [parsedTokens_cons hi] at h
        cases h with
        | cons hr h =>
          obtain ⟨ps', hps, ht, he⟩ := ih h
          obtain ⟨p', hp, hi'⟩ := Piece.exists_respells hi hr
          have hl := hp.lineBreaks_eq
          rw [← hl] at hi'
          refine ⟨p' :: ps', .cons hp hps, ?_, ?_⟩
          · rw [parsedTokens_cons hi', hl, ht]
          · simp only [itemsFrom, hi, hi']
            rw [hl]
            exact he

/-- Respelled tokens are those of a source in which some words are replaced. -/
theorem exists_source_of_respells {source : String} {ts : List Token}
    (h : List.Forall₂ (Token.Respells ρ)
      (TokenSequence.ofTokens (tokensOf (scan .skip source))).tokens ts) :
    ∃ source', List.Forall₂ (Piece.Respells ρ) (pieces source.toList) (pieces source'.toList) ∧
      (TokenSequence.ofTokens (tokensOf (scan .skip source'))).tokens = ts ∧
      errorsOf (scan .skip source') = errorsOf (scan .skip source) := by
  obtain ⟨ps, hps, ht, he⟩ := exists_pieces_of_respells h
  have hp : pieces (String.ofList (ps.flatMap Piece.text)).toList = ps := by
    rw [String.toList_ofList, pieces_of_respells hps]
  refine ⟨String.ofList (ps.flatMap Piece.text), ?_, ?_, ?_⟩
  · rwa [hp]
  · rw [scan, hp]
    exact ht
  · rw [scan, hp]
    exact he

end

end Lox
