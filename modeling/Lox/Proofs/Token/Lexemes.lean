import Lox.Proofs.Syntax.Pieces

/-!
# Lexemes

`Lexeme kind text` says which texts are lexemes, class by class, and which kind
of token each of them is. It says nothing of how a source is cut.

* `Lexeme.kind_unique`: a text is of one kind at most;
* `Piece.Fits.lexeme`: a piece that is cut as a token or a comment is a lexeme of that kind;
* `Lexeme.cutsLexeme`: where a lexeme begins a source, the first piece is a lexeme too, and
  not a shorter one.
-/

namespace Lox

/-! ## The classes of lexemes -/

/-- The lexemes and their kinds. A word is reserved if it is in the table of reserved words. A string
carries what is between its quotes, and a number the value of its digits. -/
inductive Lexeme : Kind → List Char → Prop where
  | symbol (s : Symbol) : Lexeme (.symbol s) s.text.toList
  | keyword (k : Keyword) : Lexeme (.keyword k) k.text.toList
  | identifier {text : List Char} (h : IsWord text) (hk : ∀ k : Keyword, k.text.toList ≠ text) :
    Lexeme .identifier text
  | whole {digits : List Char} (h : IsDigits digits) :
    Lexeme (.number (Decimal.ofDigits digits [])) digits
  | fraction {whole digits : List Char} (h : IsDigits whole) (hd : IsDigits digits) :
    Lexeme (.number (Decimal.ofDigits whole digits)) (whole ++ '.' :: digits)
  | string {body : List Char} (h : '"' ∉ body) :
    Lexeme (.string (String.ofList body)) ('"' :: body ++ ['"'])
  | comment {body : List Char} (h : '\n' ∉ body) : Lexeme .comment ('/' :: '/' :: body)

/-- Reserved words are words. -/
theorem Keyword.isWord_text (k : Keyword) : IsWord k.text.toList := by
  cases k <;> decide

/-- The kind of a word is the one in the table of reserved words. -/
theorem lexeme_ofWord {text : List Char} (h : IsWord text) :
    Lexeme (Kind.ofWord (String.ofList text)) text := by
  unfold Kind.ofWord
  cases hk : Keyword.ofText? (String.ofList text) with
  | none =>
    refine .identifier h fun k e => ?_
    have hn := List.find?_eq_none.mp hk k k.mem_all
    exact hn (by simp [← e])
  | some k =>
    have ht : k.text = String.ofList text := by simpa using List.find?_some hk
    have hl := Lexeme.keyword k
    rwa [ht, String.toList_ofList] at hl

/-! ## Pieces that are lexemes -/

/-- The kind of the token, or of the comment, that a piece is. -/
def Piece.kind? : Piece → Option Kind
  | .comment _ => some .comment
  | .symbol s => some (.symbol s)
  | .word text => some (Kind.ofWord (String.ofList text))
  | .number whole fraction => some (.number (Decimal.ofDigits whole fraction))
  | .string body => some (.string (String.ofList body))
  | .blank _ | .stray _ | .unclosed _ => none

theorem forall_bne_iff_notMem {c : Char} {body : List Char} : (∀ d ∈ body, d != c) ↔ c ∉ body := by
  simp only [bne_iff_ne]
  exact ⟨fun h hc => h c hc rfl, fun h d hd e => h (e ▸ hd)⟩

/-- A piece that is cut as a token or a comment is a lexeme. -/
theorem Piece.Fits.lexeme {p : Piece} {tail : List Char} (h : p.Fits tail) {kind : Kind}
    (hk : p.kind? = some kind) : Lexeme kind p.text := by
  cases p with
  | blank | stray | unclosed => cases hk
  | comment body =>
    cases hk
    exact .comment (forall_bne_iff_notMem.mp h.1)
  | symbol s =>
    cases hk
    exact .symbol s
  | word text =>
    cases hk
    exact lexeme_ofWord h.1
  | number whole fraction =>
    cases hk
    cases fraction with
    | nil => exact .whole h.1
    | cons d ds => exact .fraction h.1 h.2.1
  | string body =>
    cases hk
    exact .string (forall_bne_iff_notMem.mp h)

/-- A lexeme with nothing behind it is one piece. -/
theorem Lexeme.exists_piece {kind : Kind} {text : List Char} (h : Lexeme kind text) :
    ∃ p : Piece, p.kind? = some kind ∧ p.text = text ∧ p.Fits [] := by
  have hend (q : Char → Bool) : NotNext q [] := fun _ hc => by cases hc
  cases h with
  | symbol s => exact ⟨.symbol s, rfl, rfl, fun _ => hend _, fun _ => hend _⟩
  | keyword k => exact ⟨.word k.text.toList, by cases k <;> rfl, rfl, k.isWord_text, hend _⟩
  | identifier h hk =>
    refine ⟨.word text, ?_, rfl, h, hend _⟩
    have hn : Keyword.ofText? (String.ofList text) = none :=
      List.find?_eq_none.mpr fun k _ e => hk k (by simp [eq_of_beq e])
    simp [Piece.kind?, Kind.ofWord, hn]
  | whole h => exact ⟨.number text [], rfl, rfl, h, hend _, fun r hr => by cases hr⟩
  | @fraction whole digits h hd =>
    obtain ⟨d, ds, rfl⟩ := List.exists_cons_of_ne_nil hd.1
    exact ⟨.number whole (d :: ds), rfl, rfl, h, hd, hend _⟩
  | @string body h => exact ⟨.string body, rfl, rfl, forall_bne_iff_notMem.mpr h⟩
  | @comment body h => exact ⟨.comment body, rfl, rfl, forall_bne_iff_notMem.mpr h, hend _⟩

/-- A text is a lexeme of one kind at most. -/
theorem Lexeme.kind_unique {k k' : Kind} {text : List Char} (h : Lexeme k text)
    (h' : Lexeme k' text) : k = k' := by
  obtain ⟨p, hk, rfl, hf⟩ := h.exists_piece
  obtain ⟨q, hk', ht, hf'⟩ := h'.exists_piece
  obtain ⟨c, rest, hc, hcut⟩ := hf.exists_cut
  obtain ⟨c', rest', hc', hcut'⟩ := hf'.exists_cut
  rw [ht, hc] at hc'
  obtain ⟨rfl, rfl⟩ := List.cons.inj hc'
  obtain ⟨rfl, -⟩ := Prod.mk.inj (hcut.symm.trans hcut')
  exact Option.some.inj (hk.symm.trans hk')

/-! ## What is cut is the longest -/

/-- The first piece of a source is a lexeme of at least this length. -/
def CutsLexeme (source : List Char) (length : Nat) : Prop :=
  ∃ c rest, source = c :: rest ∧ (cut c rest).1.kind?.isSome ∧
    length ≤ (cut c rest).1.text.length

theorem length_le_cutFraction (whole rest : List Char) :
    (cutFraction whole rest).1.kind?.isSome ∧
      whole.length ≤ (cutFraction whole rest).1.text.length := by
  unfold cutFraction
  split
  · split
    · exact ⟨rfl, by simp [Piece.text]⟩
    · exact ⟨rfl, Nat.le_refl _⟩
  · exact ⟨rfl, Nat.le_refl _⟩

theorem isSome_kind?_cutSymbol (s : Symbol) (rest : List Char) :
    (cutSymbol s rest).1.kind?.isSome := by
  unfold cutSymbol
  split
  · split <;> rfl
  · rfl

theorem cutsLexeme_word {text : List Char} (h : IsWord text) (tail : List Char) :
    CutsLexeme (text ++ tail) text.length := by
  obtain ⟨c, cs, rfl, hc, hs⟩ := h.exists_cons
  refine ⟨c, cs ++ tail, rfl, ?_⟩
  rw [cut_word _ hc, List.takeWhile_append_of_pos hs]
  exact ⟨rfl, by simp [Piece.text]⟩

theorem cutsLexeme_whole {digits : List Char} (h : IsDigits digits) (tail : List Char) :
    CutsLexeme (digits ++ tail) digits.length := by
  obtain ⟨hne, hd⟩ := h
  obtain ⟨c, cs, rfl⟩ := List.exists_cons_of_ne_nil hne
  have hs : ∀ d ∈ cs, d.isDigit := fun d h => hd d (List.mem_cons_of_mem c h)
  refine ⟨c, cs ++ tail, rfl, ?_⟩
  rw [cut_digit _ (hd c List.mem_cons_self), List.takeWhile_append_of_pos hs]
  obtain ⟨hk, hl⟩ := length_le_cutFraction (c :: (cs ++ tail.takeWhile Char.isDigit))
    ((cs ++ tail).dropWhile Char.isDigit)
  refine ⟨hk, Nat.le_trans ?_ hl⟩
  simp

theorem cutsLexeme_fraction {whole digits : List Char} (h : IsDigits whole) (hd : IsDigits digits)
    (tail : List Char) :
    CutsLexeme (whole ++ '.' :: digits ++ tail) (whole ++ '.' :: digits).length := by
  obtain ⟨hne, hw⟩ := h
  obtain ⟨c, cs, rfl⟩ := List.exists_cons_of_ne_nil hne
  obtain ⟨hne, hd⟩ := hd
  obtain ⟨d, ds, rfl⟩ := List.exists_cons_of_ne_nil hne
  have hs : ∀ e ∈ cs, e.isDigit := fun e h => hw e (List.mem_cons_of_mem c h)
  have hds : ∀ e ∈ ds, e.isDigit := fun e h => hd e (List.mem_cons_of_mem d h)
  have hpoint : NotNext Char.isDigit ('.' :: d :: (ds ++ tail)) := by
    intro e he
    cases he
    rfl
  refine ⟨c, cs ++ '.' :: d :: (ds ++ tail), by simp, ?_⟩
  rw [cut_digit _ (hw c List.mem_cons_self), takeWhile_append_of_notNext hs hpoint,
    dropWhile_append_of_notNext hs hpoint]
  simp only [cutFraction, hd d List.mem_cons_self, if_true]
  rw [List.takeWhile_append_of_pos hds]
  exact ⟨rfl, by simp [Piece.text]⟩

theorem cutsLexeme_string {body : List Char} (h : '"' ∉ body) (tail : List Char) :
    CutsLexeme ('"' :: body ++ ['"'] ++ tail) ('"' :: body ++ ['"']).length := by
  have hb := forall_bne_iff_notMem.mpr h
  have hq : NotNext (· != '"') ('"' :: tail) := by
    intro c hc
    cases hc
    rfl
  refine ⟨'"', body ++ '"' :: tail, by simp, ?_⟩
  rw [cut_quote, cutString, dropWhile_append_of_notNext hb hq]
  dsimp only
  rw [takeWhile_append_of_notNext hb hq]
  exact ⟨rfl, Nat.le_refl _⟩

theorem cutsLexeme_comment {body : List Char} (h : '\n' ∉ body) (tail : List Char) :
    CutsLexeme ('/' :: '/' :: body ++ tail) ('/' :: '/' :: body).length := by
  refine ⟨'/', '/' :: (body ++ tail), rfl, ?_⟩
  rw [cut_comment, List.takeWhile_append_of_pos (forall_bne_iff_notMem.mpr h)]
  exact ⟨rfl, by simp [Piece.text]⟩

/-- Two slashes begin a comment, which is longer than a slash. -/
theorem cutsLexeme_symbol (s : Symbol) (tail : List Char) :
    CutsLexeme (s.text.toList ++ tail) s.text.toList.length := by
  rcases s.exists_ofChar? with ⟨c, hs, ho⟩ | ⟨c, short, hs, ho, hl⟩
  · refine ⟨c, tail, by rw [hs]; rfl, ?_, ?_⟩
    · by_cases hc : c = '/' ∧ tail.head? = some '/'
      · obtain ⟨rfl, ht⟩ := hc
        obtain ⟨rest, rfl⟩ := List.head?_eq_some_iff.mp ht
        rfl
      · rw [cut_symbol tail ho fun h ht => hc ⟨h, ht⟩]
        exact isSome_kind?_cutSymbol s tail
    · rw [hs]
      exact List.length_pos_iff.mpr (Piece.text_cut_ne_nil c tail)
  · refine ⟨c, '=' :: tail, by rw [hs]; rfl, ?_⟩
    have hc : c = '/' → ('=' :: tail).head? ≠ some '/' := fun _ he => by cases he
    rw [cut_symbol _ ho hc, cutSymbol, hl]
    exact ⟨rfl, Nat.le_refl _⟩

/-- Where a lexeme begins a source, the first piece is a lexeme too, and not a shorter one. -/
theorem Lexeme.cutsLexeme {kind : Kind} {text : List Char} (h : Lexeme kind text)
    (tail : List Char) : CutsLexeme (text ++ tail) text.length := by
  cases h with
  | symbol s => exact cutsLexeme_symbol s tail
  | keyword k => exact cutsLexeme_word k.isWord_text tail
  | identifier h => exact cutsLexeme_word h tail
  | whole h => exact cutsLexeme_whole h tail
  | fraction h hd => exact cutsLexeme_fraction h hd tail
  | string h => exact cutsLexeme_string h tail
  | comment h => exact cutsLexeme_comment h tail

end Lox
