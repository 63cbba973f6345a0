import Lox.Proofs.Token.Lexemes
import Lox.Token.Stream

/-!
# The spans of a source

`Span.Splits source spans` says what it is to split a source into spans: they
cover it, and each of them stands where it may stand. A lexeme is the longest
that begins there, and a fault begins where neither a lexeme nor a blank does.

* `Span.Proper.exists_piece`, `Piece.Fits.proper`: the pieces of a source are such spans;
* `Span.splits_iff`: a source is split in one way only;
* `scanner_splits_by_longest_match`: and the scanner gives the items of its spans in turn.
-/

namespace Lox

/-! ## Spans -/

/-- A part of a source. -/
inductive Span where
  | blank (c : Char)
  | lexeme (kind : Kind) (text : List Char)
  | fault (fault : LexicalFault) (text : List Char)

namespace Span

/-- The part as it stands in the source. -/
def text : Span → List Char
  | .blank c => [c]
  | .lexeme _ text => text
  | .fault _ text => text

/-- When a span may stand in front of what follows it. A fault is one character, or a quote and all
that follows it. -/
inductive Proper : Span → List Char → Prop where
  | blank {c : Char} {tail : List Char} (hc : isBlank c) : Proper (.blank c) tail
  | lexeme {kind : Kind} {text tail : List Char} (h : Lexeme kind text)
    (longest : ∀ k w, Lexeme k w → w <+: text ++ tail → w.length ≤ text.length) :
    Proper (.lexeme kind text) tail
  | unexpected {c : Char} {tail : List Char} (hb : ¬ isBlank c) (hq : c ≠ '"')
    (hn : ∀ k w, Lexeme k w → ¬ w <+: c :: tail) :
    Proper (.fault (.unexpectedCharacter c) [c]) tail
  | unclosed {body : List Char} (hq : '"' ∉ body) (hn : ∀ k w, Lexeme k w → ¬ w <+: '"' :: body) :
    Proper (.fault .unterminatedString ('"' :: body)) []

/-- When spans are those of a source: one after another they cover it, and each may stand where it
stands. -/
structure Splits (source : List Char) (spans : List Span) : Prop where
  cover : spans.flatMap text = source
  proper (before : List Span) (span : Span) (after : List Span)
    (h : spans = before ++ span :: after) : span.Proper (after.flatMap text)

/-- What a span contributes, given the line on which it ends. -/
def item? (mode : CommentMode) (line : Nat) : Span → Option Item
  | .blank _ => none
  | .lexeme .comment text =>
    if mode = .keep then some (.token ⟨.comment, String.ofList text, line⟩) else none
  | .lexeme kind text => some (.token ⟨kind, String.ofList text, line⟩)
  | .fault f _ => some (.error ⟨f, line⟩)

/-- What spans that follow line `line` contribute. -/
def items (mode : CommentMode) (line : Nat) : List Span → List Item
  | [] => []
  | span :: spans =>
    let line' := line + span.text.count '\n'
    (span.item? mode line').toList ++ items mode line' spans

end Span

/-! ## The pieces of a source are its spans -/

/-- A piece as a span. -/
def Piece.span : Piece → Span
  | .blank c => .blank c
  | .comment body => .lexeme .comment ('/' :: '/' :: body)
  | .symbol s => .lexeme (.symbol s) s.text.toList
  | .word text => .lexeme (Kind.ofWord (String.ofList text)) text
  | .number whole fraction =>
    .lexeme (.number (Decimal.ofDigits whole fraction)) (Piece.number whole fraction).text
  | .string body => .lexeme (.string (String.ofList body)) ('"' :: body ++ ['"'])
  | .stray c => .fault (.unexpectedCharacter c) [c]
  | .unclosed body => .fault .unterminatedString ('"' :: body)

@[simp] theorem Piece.text_span (p : Piece) : p.span.text = p.text := by
  cases p <;> rfl

theorem Piece.span_of_kind? {p : Piece} {kind : Kind} (h : p.kind? = some kind) :
    p.span = .lexeme kind p.text := by
  cases p <;> cases h <;> rfl

theorem Piece.item?_span (mode : CommentMode) (line : Nat) (p : Piece) :
    p.span.item? mode line = p.item? mode line := by
  cases p with
  | word text =>
    have hk : ∀ t, Kind.ofWord t ≠ .comment := fun t => by
      unfold Kind.ofWord
      split <;> exact nofun
    simp only [span, item?]
    cases h : Kind.ofWord (String.ofList text) <;>
      first | exact absurd h (hk _) | rfl
  | _ => rfl

/-- Where a piece is cut, a lexeme can only begin if the piece is a lexeme, and then it is not a
longer one. -/
theorem Piece.Fits.longest {p : Piece} {tail : List Char} (h : p.Fits tail) {kind : Kind}
    {text : List Char} (hl : Lexeme kind text) (hp : text <+: p.text ++ tail) :
    p.kind?.isSome ∧ text.length ≤ p.text.length := by
  obtain ⟨rest', ht⟩ := hp
  obtain ⟨c, rest, hs, hcut⟩ := h.exists_cut
  obtain ⟨c', rest'', hs', hk, hle⟩ := hl.cutsLexeme rest'
  rw [ht, hs] at hs'
  obtain ⟨rfl, rfl⟩ := List.cons.inj hs'
  rw [hcut] at hk hle
  exact ⟨hk, hle⟩

/-- A piece that is cut is a span that may stand there. -/
theorem Piece.Fits.proper {p : Piece} {tail : List Char} (h : p.Fits tail) :
    p.span.Proper tail := by
  cases hk : p.kind? with
  | some kind =>
    rw [Piece.span_of_kind? hk]
    exact .lexeme (h.lexeme hk) fun k w hl hw => (h.longest hl hw).2
  | none =>
    have hn : ∀ k w, Lexeme k w → ¬ w <+: p.text ++ tail := fun k w hl hw => by
      have hs := (h.longest hl hw).1
      rw [hk] at hs
      cases hs
    cases p with
    | blank c => exact .blank h
    | stray c => exact .unexpected (by simp [h.1]) h.2.1 hn
    | unclosed body =>
      obtain ⟨hb, rfl⟩ := h
      rw [List.append_nil] at hn
      exact .unclosed (forall_bne_iff_notMem.mp hb) hn
    | _ => cases hk

/-- A span that may stand somewhere is the piece that is cut there. -/
theorem Span.Proper.exists_piece {span : Span} {tail : List Char} (h : span.Proper tail) :
    ∃ p : Piece, p.span = span ∧ p.Fits tail := by
  cases h with
  | @blank c _ hc => exact ⟨.blank c, rfl, hc⟩
  | @lexeme kind text _ hl longest =>
    obtain ⟨c, rest, hs, hk, hle⟩ := hl.cutsLexeme tail
    obtain ⟨kind', hk⟩ := Option.isSome_iff_exists.mp hk
    have hf := Piece.fits_cut c rest
    have ht := text_cut c rest
    have hl' := hf.lexeme hk
    have hge := longest kind' _ hl' ⟨(cut c rest).2, ht.trans hs.symm⟩
    obtain ⟨htext, htail⟩ := List.append_inj (ht.trans hs.symm) (Nat.le_antisymm hge hle)
    rw [htail] at hf
    refine ⟨(cut c rest).1, ?_, hf⟩
    rw [htext] at hl'
    rw [Piece.span_of_kind? hk, htext, hl'.kind_unique hl]
  | @unexpected c _ hb hq hn =>
    have none_begins {kind : Kind} : ¬ Lexeme kind [c] := fun hl => hn _ _ hl ⟨tail, rfl⟩
    refine ⟨.stray c, rfl, Bool.eq_false_iff.mpr hb, hq, ?_, ?_, ?_⟩
    · exact Bool.eq_false_iff.mpr fun hd => none_begins (.whole ⟨List.cons_ne_nil c [], by simpa using hd⟩)
    · exact Bool.eq_false_iff.mpr fun hw => none_begins (lexeme_ofWord (isWord_cons hw (by simp)))
    · cases ho : Symbol.ofChar? c with
      | none => rfl
      | some s =>
        have hl := Lexeme.symbol s
        rw [Symbol.text_of_ofChar? ho] at hl
        exact absurd hl none_begins
  | @unclosed body hq hn => exact ⟨.unclosed body, rfl, forall_bne_iff_notMem.mpr hq, rfl⟩

/-! ## A source is split in one way -/

theorem flatMap_text_map_span (ps : List Piece) :
    (ps.map Piece.span).flatMap Span.text = ps.flatMap Piece.text := by
  simp [List.flatMap_map]

theorem Piece.FitAll.proper {ps : List Piece} (h : Piece.FitAll ps) {before after : List Span}
    {span : Span} (hs : ps.map Piece.span = before ++ span :: after) :
    span.Proper (after.flatMap Span.text) := by
  induction ps generalizing before with
  | nil => simp at hs
  | cons p ps ih =>
    cases before with
    | nil =>
      obtain ⟨rfl, rfl⟩ := List.cons.inj hs
      rw [flatMap_text_map_span]
      exact h.1.proper
    | cons b before => exact ih h.2 (List.cons.inj hs).2

theorem Span.exists_pieces {spans : List Span}
    (h : ∀ before span after, spans = before ++ span :: after →
      span.Proper (after.flatMap Span.text)) :
    ∃ ps : List Piece, ps.map Piece.span = spans ∧ Piece.FitAll ps := by
  induction spans with
  | nil => exact ⟨[], rfl, trivial⟩
  | cons span spans ih =>
    obtain ⟨ps, rfl, hps⟩ := ih fun before s after e => h (span :: before) s after (by rw [e]; rfl)
    obtain ⟨p, rfl, hp⟩ := (h [] span (ps.map Piece.span) rfl).exists_piece
    rw [flatMap_text_map_span] at hp
    exact ⟨p :: ps, rfl, hp, hps⟩

/-- Spans are those of a source if and only if they are its pieces. -/
theorem Span.splits_iff (source : List Char) (spans : List Span) :
    Span.Splits source spans ↔ spans = (pieces source).map Piece.span := by
  constructor
  · intro h
    obtain ⟨ps, rfl, hps⟩ := Span.exists_pieces h.proper
    have hc := h.cover
    rw [flatMap_text_map_span] at hc
    rw [← hc, (pieces_flatMap_text_iff ps).mpr hps]
  · rintro rfl
    refine ⟨by rw [flatMap_text_map_span, flatMap_text_pieces], fun before span after e => ?_⟩
    exact (Piece.fitAll_pieces source).proper e

/-! ## The items of a source -/

theorem itemsFrom_eq_items (mode : CommentMode) (line : Nat) (ps : List Piece) :
    itemsFrom mode line ps = Span.items mode line (ps.map Piece.span) ++
      [.token ⟨.eof, "", line + (ps.flatMap Piece.text).count '\n'⟩] := by
  induction ps generalizing line with
  | nil => rfl
  | cons p ps ih =>
    rw [itemsFrom, List.map_cons, Span.items, List.flatMap_cons, List.count_append,
      ← Nat.add_assoc, Piece.item?_span, Piece.text_span]
    cases h : p.item? mode (line + p.text.count '\n') <;> simp [Piece.lineBreaks, h, ih]

/-- No piece is the end of its source. -/
theorem Piece.isEof_of_item? {mode : CommentMode} {line : Nat} {p : Piece} {t : Token}
    (h : p.item? mode line = some (.token t)) : t.isEof = false := by
  cases p with
  | blank | stray | unclosed => cases h
  | comment body =>
    simp only [item?] at h
    split at h <;> cases h
    rfl
  | word text =>
    cases h
    unfold Token.isEof Kind.ofWord
    dsimp only
    split <;> rfl
  | _ =>
    cases h
    rfl

theorem all_not_isEof_items (mode : CommentMode) (line : Nat) (ps : List Piece) :
    (tokensOf (Span.items mode line (ps.map Piece.span))).all fun t => !t.isEof := by
  induction ps generalizing line with
  | nil => rfl
  | cons p ps ih =>
    rw [List.map_cons, Span.items, Piece.item?_span]
    cases h : p.item? mode (line + p.span.text.count '\n') with
    | none => exact ih _
    | some item =>
      cases item with
      | error e => exact ih _
      | token t =>
        have ht := Piece.isEof_of_item? h
        exact List.all_eq_true.mpr fun t' ht' => by
          rcases List.mem_cons.mp ht' with rfl | ht'
          · simp [ht]
          · exact List.all_eq_true.mp (ih _) t' ht'

/-- Reading a source is lossless, and every lexeme is the longest. A source is split in one way into
spans that cover it: blanks, lexemes that are the longest where they begin, each of the kind that its
text determines, and faults, where neither a lexeme nor a blank begins. The items, asked for one
after another, are those of its lexemes (comments if they are kept) and of its faults, in turn, then
one end marker, and then nothing for ever. -/
theorem scanner_splits_by_longest_match (mode : CommentMode) (source : String) :
    ∃ spans, (∀ other, Span.Splits source.toList other ↔ other = spans) ∧
      (tokensOf (Span.items mode 1 spans)).all (fun t => !t.isEof) ∧
      let items := Span.items mode 1 spans ++
        [.token ⟨.eof, "", 1 + source.toList.count '\n'⟩]
      scan mode source = items ∧ ∀ n, (Scanner.start mode source).answer n = items[n]? := by
  have hscan : scan mode source = Span.items mode 1 ((pieces source.toList).map Piece.span) ++
      [.token ⟨.eof, "", 1 + source.toList.count '\n'⟩] := by
    rw [scan, itemsFrom_eq_items, flatMap_text_pieces]
  refine ⟨(pieces source.toList).map Piece.span, Span.splits_iff source.toList,
    all_not_isEof_items mode 1 _, hscan, fun n => ?_⟩
  rw [Scanner.answer_eq, hscan]

end Lox
