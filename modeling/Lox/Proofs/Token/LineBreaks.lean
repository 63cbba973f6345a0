import Lox.Proofs.Syntax.Recoding
import Lox.Proofs.Token.Spans

/-!
# Texts with a line break between them

Before a line break a piece is what it is at the end of a source, unless it is an unclosed string.
So a line break can be put behind a text, and further text behind that, and what was cut before is
cut again.

* `pieces_append_line`: the pieces of two texts with a line break between them;
* `Span.items_append`, `Span.items_relocate`: the items of spans that follow others, and of spans
  further down;
* `scan_joined_lexemes`: so the lexemes of a source, one on a line, are read as the same tokens.
-/

namespace Lox

/-! ## Before a line break -/

theorem notNext_nil (p : Char → Bool) : NotNext p [] := nofun

theorem NotNext.append_line {p : Char → Bool} {tail : List Char} (h : NotNext p tail)
    (hp : p '\n' = false) (rest : List Char) : NotNext p (tail ++ '\n' :: rest) := by
  cases tail with
  | nil =>
    intro c hc
    cases hc
    exact hp
  | cons d tail => exact h

namespace Piece

variable {p : Piece} {tail : List Char}

/-- What is cut somewhere is cut at the end too. -/
theorem Fits.at_end (h : p.Fits tail) : p.Fits [] := by
  cases p with
  | blank | string | stray => exact h
  | comment body => exact ⟨h.1, notNext_nil _⟩
  | symbol s => exact ⟨fun _ => notNext_nil _, fun _ => notNext_nil _⟩
  | word text => exact ⟨h.1, notNext_nil _⟩
  | number whole fraction =>
    cases fraction with
    | nil => exact ⟨h.1, notNext_nil _, nofun⟩
    | cons d ds => exact ⟨h.1, h.2.1, notNext_nil _⟩
  | unclosed body => exact ⟨h.1, rfl⟩

/-- A string that is not closed takes what follows it, and nothing else takes a line break. -/
theorem Fits.append_line (h : p.Fits tail) (hp : ∀ body, p ≠ .unclosed body) (rest : List Char) :
    p.Fits (tail ++ '\n' :: rest) := by
  cases p with
  | blank | string | stray => exact h
  | comment body => exact ⟨h.1, h.2.append_line rfl rest⟩
  | symbol s =>
    exact ⟨fun hs => (h.1 hs).append_line rfl rest, fun hs => (h.2 hs).append_line rfl rest⟩
  | word text => exact ⟨h.1, h.2.append_line rfl rest⟩
  | number whole fraction =>
    cases fraction with
    | nil =>
      obtain ⟨hw, hn, hpoint⟩ := h
      refine ⟨hw, hn.append_line rfl rest, fun r hr => ?_⟩
      cases tail with
      | nil => cases hr
      | cons d tail =>
        obtain ⟨rfl, rfl⟩ := List.cons.inj hr
        exact (hpoint tail rfl).append_line rfl rest
    | cons d ds => exact ⟨h.1, h.2.1, h.2.2.append_line rfl rest⟩
  | unclosed body => exact absurd rfl (hp body)

theorem FitAll.append_line {ps qs : List Piece} (hp : FitAll ps)
    (hc : ∀ body, .unclosed body ∉ ps) (hq : FitAll qs) : FitAll (ps ++ .blank '\n' :: qs) := by
  induction ps with
  | nil => exact ⟨rfl, hq⟩
  | cons p ps ih =>
    refine ⟨?_, ih hp.2 fun body hm => hc body (List.mem_cons_of_mem p hm)⟩
    rw [List.append_eq, List.flatMap_append, List.flatMap_cons]
    exact hp.1.append_line (fun body hb => hc body (hb ▸ List.mem_cons_self)) _

end Piece

/-- With a line break between them, two texts are cut by themselves. -/
theorem pieces_append_line {source : List Char} (h : ∀ body, .unclosed body ∉ pieces source)
    (rest : List Char) : pieces (source ++ '\n' :: rest) = pieces source ++ .blank '\n' :: pieces rest := by
  have hf := (Piece.fitAll_pieces source).append_line h (Piece.fitAll_pieces rest)
  have ht := (pieces_flatMap_text_iff _).mpr hf
  rw [List.flatMap_append, List.flatMap_cons, flatMap_text_pieces, flatMap_text_pieces] at ht
  exact ht

/-! ## Items further down -/

/-- An item on another line. -/
def Item.relocate (ℓ : Nat → Nat) : Item → Item
  | .token t => .token (t.relocate ℓ)
  | .error e => .error { e with line := ℓ e.line }

theorem tokensOf_append (as bs : List Item) : tokensOf (as ++ bs) = tokensOf as ++ tokensOf bs :=
  List.filterMap_append

theorem errorsOf_append (as bs : List Item) : errorsOf (as ++ bs) = errorsOf as ++ errorsOf bs :=
  List.filterMap_append

theorem tokensOf_map_token (ts : List Token) : tokensOf (ts.map .token) = ts := by
  induction ts with
  | nil => rfl
  | cons t ts ih => exact congrArg (t :: ·) ih

theorem tokensOf_map_relocate (ℓ : Nat → Nat) (items : List Item) :
    tokensOf (items.map (Item.relocate ℓ)) = (tokensOf items).map (Token.relocate ℓ) := by
  induction items with
  | nil => rfl
  | cons item items ih => cases item <;> simpa [tokensOf, Item.relocate] using ih

/-- Items without faults are tokens. -/
theorem map_token_tokensOf {items : List Item} (h : errorsOf items = []) :
    (tokensOf items).map .token = items := by
  induction items with
  | nil => rfl
  | cons item items ih =>
    cases item with
    | token t => exact congrArg (Item.token t :: ·) (ih h)
    | error e => cases h

namespace Span

theorem items_append (mode : CommentMode) (line : Nat) (as bs : List Span) :
    items mode line (as ++ bs) =
      items mode line as ++ items mode (line + (as.flatMap text).count '\n') bs := by
  induction as generalizing line with
  | nil => rfl
  | cons span as ih =>
    rw [List.cons_append, items, items, ih, List.flatMap_cons, List.count_append, Nat.add_assoc,
      List.append_assoc]

theorem item?_relocate (mode : CommentMode) (ℓ : Nat → Nat) (line : Nat) (span : Span) :
    span.item? mode (ℓ line) = (span.item? mode line).map (Item.relocate ℓ) := by
  cases span with
  | blank c => rfl
  | lexeme kind text =>
    cases kind with
    | comment => cases mode <;> rfl
    | _ => rfl
  | fault f text => rfl

/-- The items of spans that begin on a later line. -/
theorem items_relocate (mode : CommentMode) (line k : Nat) (spans : List Span) :
    items mode (line + k) spans = (items mode line spans).map (Item.relocate (· + k)) := by
  induction spans generalizing line with
  | nil => rfl
  | cons span spans ih =>
    rw [items, items, Nat.add_right_comm, ih, List.map_append, item?_relocate mode (· + k)]
    cases span.item? mode (line + span.text.count '\n') <;> rfl

end Span

/-- The items of pieces, and of those that follow them. -/
theorem itemsFrom_append (mode : CommentMode) (line : Nat) (ps qs : List Piece) :
    itemsFrom mode line (ps ++ qs) = Span.items mode line (ps.map Piece.span) ++
      itemsFrom mode (line + (ps.flatMap Piece.text).count '\n') qs := by
  rw [itemsFrom_eq_items, itemsFrom_eq_items, List.map_append, Span.items_append,
    flatMap_text_map_span, List.flatMap_append, List.count_append, List.append_assoc, Nat.add_assoc]

/-- The items of the pieces of a text that begins on a later line. -/
theorem itemsFrom_relocate (mode : CommentMode) (line k : Nat) (ps : List Piece) :
    itemsFrom mode (line + k) ps = (itemsFrom mode line ps).map (Item.relocate (· + k)) := by
  rw [itemsFrom_eq_items, itemsFrom_eq_items, Span.items_relocate, List.map_append,
    Nat.add_right_comm]
  rfl

/-! ## Lexemes one on a line -/

/-- A token without its line. -/
def Token.content (t : Token) : Kind × String := (t.kind, t.lexeme)

namespace Piece

/-- What a piece that is a lexeme is as a token, but for its line. -/
def content? (p : Piece) : Option (Kind × String) := p.kind?.map fun kind => (kind, String.ofList p.text)

theorem content_tokensOf_item? (line : Nat) (p : Piece) :
    (tokensOf (p.item? .keep line).toList).map Token.content = p.content?.toList := by
  cases p <;> rfl

theorem content_tokensOf_items (line : Nat) (ps : List Piece) :
    (tokensOf (Span.items .keep line (ps.map span))).map Token.content = ps.filterMap content? := by
  induction ps generalizing line with
  | nil => rfl
  | cons p ps ih =>
    rw [List.map_cons, Span.items, item?_span, tokensOf_append, List.map_append, ih,
      content_tokensOf_item?, List.filterMap_cons]
    cases p.content? <;> rfl

/-- Blanks and lexemes are no faults. -/
theorem errorsOf_items {ps : List Piece} (h : ∀ p ∈ ps, p.kind?.isSome ∨ p = .blank '\n')
    (mode : CommentMode) (line : Nat) : errorsOf (Span.items mode line (ps.map span)) = [] := by
  induction ps generalizing line with
  | nil => rfl
  | cons p ps ih =>
    have hp : errorsOf (p.item? mode (line + p.text.count '\n')).toList = [] := by
      rcases h p List.mem_cons_self with hk | rfl
      · cases p with
        | stray | unclosed => cases hk
        | comment body => cases mode <;> rfl
        | _ => rfl
      · rfl
    rw [List.map_cons, Span.items, item?_span, text_span, errorsOf_append, hp,
      ih fun q hq => h q (List.mem_cons_of_mem p hq)]
    rfl

/-- Pieces that are lexemes, one on a line. -/
def lines (ps : List Piece) : List Piece := ps.intersperse (.blank '\n')

theorem lines_cons_cons (p q : Piece) (ps : List Piece) :
    lines (p :: q :: ps) = p :: .blank '\n' :: lines (q :: ps) := rfl

theorem fitAll_lines : ∀ {ps : List Piece}, (∀ p ∈ ps, p.kind?.isSome ∧ p.Fits []) →
    FitAll (lines ps)
  | [], _ => trivial
  | [p], h => ⟨(h p List.mem_cons_self).2, trivial⟩
  | p :: q :: ps, h => by
    obtain ⟨hk, hp⟩ := h p List.mem_cons_self
    have hne : ∀ body, p ≠ .unclosed body := by
      rintro body rfl
      cases hk
    exact ⟨hp.append_line hne _, rfl, fitAll_lines fun r hr => h r (List.mem_cons_of_mem p hr)⟩

theorem flatMap_text_lines : ∀ ps : List Piece,
    (lines ps).flatMap text = ['\n'].intercalate (ps.map text)
  | [] => rfl
  | [p] => by simp [lines]
  | p :: q :: ps => by
    have ih := flatMap_text_lines (q :: ps)
    rw [List.map_cons] at ih
    rw [lines_cons_cons, List.flatMap_cons, List.flatMap_cons, ih, List.map_cons, List.map_cons,
      List.intercalate_cons_cons]
    simp [text]

theorem filterMap_content?_lines : ∀ ps : List Piece,
    (lines ps).filterMap content? = ps.filterMap content?
  | [] => rfl
  | [_] => rfl
  | p :: q :: ps => by
    have ih := filterMap_content?_lines (q :: ps)
    have hn : content? (.blank '\n') = none := rfl
    rw [lines_cons_cons, List.filterMap_cons (a := p), List.filterMap_cons_none hn, ih]
    exact (List.filterMap_cons (a := p)).symm

theorem forall_mem_lines : ∀ {ps : List Piece} {P : Piece → Prop}, (∀ p ∈ ps, P p) →
    P (.blank '\n') → ∀ p ∈ lines ps, P p
  | [], _, _, _ => nofun
  | [_], _, h, _ => h
  | p :: q :: ps, P, h, hb => by
    rw [lines_cons_cons, List.forall_mem_cons, List.forall_mem_cons]
    exact ⟨h p List.mem_cons_self, hb,
      forall_mem_lines (fun r hr => h r (List.mem_cons_of_mem p hr)) hb⟩

end Piece

namespace Piece

theorem FitAll.fits_nil {ps : List Piece} (h : FitAll ps) : ∀ p ∈ ps, p.Fits [] := by
  induction ps with
  | nil => exact nofun
  | cons p ps ih => exact List.forall_mem_cons.mpr ⟨h.1.at_end, ih h.2⟩

/-- The pieces that are lexemes. -/
def lexemes (ps : List Piece) : List Piece := ps.filter fun p => p.kind?.isSome

theorem filterMap_content?_lexemes (ps : List Piece) :
    (lexemes ps).filterMap content? = ps.filterMap content? := by
  rw [lexemes, List.filterMap_filter]
  congr 1
  funext p
  cases hk : p.kind? <;> simp [content?, hk]

theorem map_text_filterMap_content? (ps : List Piece) :
    (ps.filterMap content?).map Prod.snd = (lexemes ps).map fun p => String.ofList p.text := by
  induction ps with
  | nil => rfl
  | cons p ps ih => cases hk : p.kind? <;> simpa [lexemes, content?, hk] using ih

end Piece

/-- The lexemes of a source, one on a line, are cut as they were. -/
theorem pieces_joined_lexemes (source : List Char) :
    pieces ("\n".intercalate ((Piece.lexemes (pieces source)).map fun p => String.ofList p.text)).toList =
      Piece.lines (Piece.lexemes (pieces source)) := by
  have hfit : Piece.FitAll (Piece.lines (Piece.lexemes (pieces source))) :=
    Piece.fitAll_lines fun p hp =>
      have hp := List.mem_filter.mp hp
      ⟨hp.2, (Piece.fitAll_pieces source).fits_nil p hp.1⟩
  have hbreak : "\n".toList = ['\n'] := by simp
  have htexts : ((Piece.lexemes (pieces source)).map fun p => String.ofList p.text).map String.toList =
      (Piece.lexemes (pieces source)).map Piece.text := by
    rw [List.map_map]
    exact List.map_congr_left fun p _ => String.toList_ofList
  rw [String.toList_intercalate, hbreak, htexts, ← Piece.flatMap_text_lines,
    (pieces_flatMap_text_iff _).mpr hfit]

theorem scan_eq_items (mode : CommentMode) (source : String) :
    scan mode source = Span.items mode 1 ((pieces source.toList).map Piece.span) ++
      [.token ⟨.eof, "", 1 + source.toList.count '\n'⟩] := by
  rw [scan, itemsFrom_eq_items, flatMap_text_pieces]

/-- The tokens of a source, comments among them, without the end marker. -/
def lexemeTokens (source : String) : List Token :=
  (tokensOf (scan .keep source)).filter fun t => !t.isEof

theorem lexemeTokens_eq (source : String) : lexemeTokens source =
    tokensOf (Span.items .keep 1 ((pieces source.toList).map Piece.span)) := by
  have hall := all_not_isEof_items .keep 1 (pieces source.toList)
  rw [lexemeTokens, scan_eq_items, tokensOf_append, List.filter_append,
    List.filter_eq_self.mpr (List.all_eq_true.mp hall)]
  exact List.append_nil _

theorem map_content_lexemeTokens (source : String) : (lexemeTokens source).map Token.content =
    (pieces source.toList).filterMap Piece.content? := by
  rw [lexemeTokens_eq, Piece.content_tokensOf_items]

theorem map_lexeme_lexemeTokens (source : String) : (lexemeTokens source).map Token.lexeme =
    (Piece.lexemes (pieces source.toList)).map fun p => String.ofList p.text := by
  rw [← Piece.map_text_filterMap_content?, ← map_content_lexemeTokens, List.map_map]
  rfl

/-- The lexemes of a source, comments among them, one on a line, are read as the same tokens: of the
same kinds, with the same literals and the same texts, in the same order, and without a fault. -/
theorem scan_joined_lexemes (source : String) :
    ∃ (ts : List Token) (line : Nat),
      scan .keep ("\n".intercalate ((lexemeTokens source).map Token.lexeme)) =
        ts.map .token ++ [.token ⟨.eof, "", line⟩] ∧
      ts.map Token.content = (lexemeTokens source).map Token.content := by
  let joined := "\n".intercalate ((lexemeTokens source).map Token.lexeme)
  let spans := (Piece.lines (Piece.lexemes (pieces source.toList))).map Piece.span
  have hscan : scan .keep joined =
      Span.items .keep 1 spans ++ [.token ⟨.eof, "", 1 + joined.toList.count '\n'⟩] := by
    have hpieces := pieces_joined_lexemes source.toList
    rw [← map_lexeme_lexemeTokens] at hpieces
    rw [scan_eq_items, hpieces]
  have hclean : errorsOf (Span.items .keep 1 spans) = [] :=
    Piece.errorsOf_items (Piece.forall_mem_lines (fun p hp => .inl (List.mem_filter.mp hp).2)
      (.inr rfl)) .keep 1
  have hread : (tokensOf (Span.items .keep 1 spans)).map Token.content =
      (lexemeTokens source).map Token.content := by
    rw [Piece.content_tokensOf_items, Piece.filterMap_content?_lines,
      Piece.filterMap_content?_lexemes, map_content_lexemeTokens]
  rw [← map_token_tokensOf hclean] at hscan
  exact ⟨_, _, hscan, hread⟩

end Lox
