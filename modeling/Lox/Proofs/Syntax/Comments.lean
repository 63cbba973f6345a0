import Lox.Proofs.Syntax.Cursors
import Lox.Proofs.Syntax.Drawn
import Lox.Proofs.Token.Spans

/-!
# Comments

A scanner that leaves comments out stands, at each place of a source, where one that keeps them does.
The parser takes comments out of its tokens before it looks at anything else, also at the last one.

* `Scanner.pending_skip`: from each place on, the items without comments are those that are kept, but
  for the comments;
* `Commented.filter_isComment`: comments that are put between tokens are taken out again;
* `comment_modes_agree`: so comments change neither the other items nor the tree.
-/

namespace Lox

/-- Whether an item is a comment. -/
def Item.isComment : Item → Bool
  | .token t => t.isComment
  | .error _ => false

/-- The items that are no comments. -/
def withoutComments (items : List Item) : List Item := items.filter fun item => !item.isComment

/-! ## Scanning -/

theorem Kind.ofWord_sameAs_comment (text : String) : (ofWord text).sameAs .comment = false := by
  unfold ofWord
  split <;> rfl

/-- What is not kept of a piece is the comment that it is. -/
theorem Piece.item?_skip (line : Nat) (p : Piece) :
    p.item? .skip line = (p.item? .keep line).filter fun item => !item.isComment := by
  cases p with
  | word text =>
    simp [item?, Option.filter, Item.isComment, Token.isComment, Kind.ofWord_sameAs_comment]
  | _ => rfl

theorem itemsFrom_skip (line : Nat) (ps : List Piece) :
    itemsFrom .skip line ps = withoutComments (itemsFrom .keep line ps) := by
  induction ps generalizing line with
  | nil => rfl
  | cons p ps ih =>
    rw [itemsFrom, itemsFrom, Piece.item?_skip, ih]
    cases p.item? .keep (line + p.lineBreaks) with
    | none => rfl
    | some item =>
      rw [withoutComments, withoutComments, List.filter_cons, Option.filter_some]
      cases item.isComment <;> rfl

theorem scan_skip (source : String) : scan .skip source = withoutComments (scan .keep source) :=
  itemsFrom_skip 1 (pieces source.toList)

/-- From each place of a source on, a scanner that leaves comments out still has to give what one that
keeps them has, but for the comments. -/
theorem Scanner.pending_skip (s : Scanner) :
    { s with mode := .skip }.pending = withoutComments { s with mode := .keep }.pending := by
  cases hf : s.finished with
  | true => simp [pending, withoutComments]
  | false => simpa [pending, hf] using itemsFrom_skip s.line (pieces s.rest)

theorem tokensOf_withoutComments (items : List Item) :
    tokensOf (withoutComments items) = (tokensOf items).filter fun t => !t.isComment := by
  induction items with
  | nil => rfl
  | cons item items ih =>
    cases item with
    | token t => cases hc : t.isComment <;> simpa [withoutComments, tokensOf, Item.isComment, hc] using ih
    | error e => simpa [withoutComments, tokensOf, Item.isComment] using ih

theorem errorsOf_withoutComments (items : List Item) :
    errorsOf (withoutComments items) = errorsOf items := by
  induction items with
  | nil => rfl
  | cons item items ih =>
    cases item with
    | token t => cases hc : t.isComment <;> simpa [withoutComments, errorsOf, Item.isComment, hc] using ih
    | error e => simpa [withoutComments, errorsOf, Item.isComment] using ih

/-! ## Parsing -/

/-- `Commented ts ts'`: the tokens `ts'` are `ts` and comments between them, before them or behind
them. -/
inductive Commented : List Token → List Token → Prop where
  | nil : Commented [] []
  | token {ts ts' : List Token} (t : Token) (h : Commented ts ts') : Commented (t :: ts) (t :: ts')
  | comment {ts ts' : List Token} {c : Token} (hc : c.isComment = true) (h : Commented ts ts') :
    Commented ts (c :: ts')

theorem Commented.filter_isComment {ts ts' : List Token} (h : Commented ts ts') :
    (ts'.filter fun t => !t.isComment) = ts.filter fun t => !t.isComment := by
  induction h with
  | nil => rfl
  | token t _ ih => rw [List.filter_cons, List.filter_cons, ih]
  | comment hc _ ih => rw [List.filter_cons, hc, ih]; rfl

/-- Each list of tokens is the list of those that are no comments, and comments between them. -/
theorem commented_filter (ts : List Token) : Commented (ts.filter fun t => !t.isComment) ts := by
  induction ts with
  | nil => exact .nil
  | cons t ts ih =>
    cases hc : t.isComment with
    | true => simpa [hc] using ih.comment hc
    | false => simpa [hc] using ih.token t

namespace Commented

variable {ts ts' : List Token} (h : Commented ts ts')

include h

theorem tokenVector_eq : tokenVector ts' = tokenVector ts := by
  rw [tokenVector, tokenVector, h.filter_isComment]

theorem ofTokens_eq : TokenSequence.ofTokens ts' = TokenSequence.ofTokens ts := by
  rw [TokenSequence.ofTokens, TokenSequence.ofTokens, h.filter_isComment]

theorem parse_eq : parse ts' = parse ts := by
  rw [parse, parse, h.ofTokens_eq]

end Commented

/-- What is parsed does not depend on whether comments were kept. -/
theorem ofTokens_scan (mode : CommentMode) (source : String) :
    TokenSequence.ofTokens (tokensOf (scan mode source)) =
      TokenSequence.ofTokens (tokensOf (scan .skip source)) := by
  cases mode with
  | skip => rfl
  | keep =>
    rw [scan_skip, tokensOf_withoutComments]
    exact (commented_filter _).ofTokens_eq

/-- Comments change nothing but themselves.

* The items of a scanner that leaves comments out are those of one that keeps them, but for the
  comments: the same tokens and the same faults on the same lines and in the same order, asked for all
  at once or one after another.
* With comments put anywhere between tokens, also before or behind an end marker, a parser has the same
  vector before it. It reads the same statements, with the same errors and the same line at the end;
  and whatever numbers it gives to the nodes, they are the same but for the numbers.
* So a source is read as the same tree whether its comments are kept or not. -/
theorem comment_modes_agree :
    (∀ source, scan .skip source = withoutComments (scan .keep source) ∧
      ∀ n, (Scanner.start .skip source).answer n = (withoutComments (scan .keep source))[n]?) ∧
    (∀ ts ts', Commented ts ts' →
      tokenVector ts' = tokenVector ts ∧ parse ts' = parse ts ∧
      ∀ k k', ((readDrawing ts').run k').1.parsed = ((readDrawing ts).run k).1.parsed) ∧
    ∀ source, errorsOf (scan .keep source) = errorsOf (scan .skip source) ∧
      parse (tokensOf (scan .keep source)) = parse (tokensOf (scan .skip source)) := by
  refine ⟨fun source => ⟨scan_skip source, fun n => ?_⟩, fun ts ts' h => ?_, fun source => ⟨?_, ?_⟩⟩
  · rw [Scanner.answer_eq, scan_skip]
  · refine ⟨h.tokenVector_eq, h.parse_eq, fun k k' => ?_⟩
    rw [parsed_readDrawing, parsed_readDrawing, h.parse_eq]
  · rw [scan_skip, errorsOf_withoutComments]
  · rw [parse, parse, ofTokens_scan .keep]

/-- The semicolon is missing at the end of the source, with comments on both sides of it. -/
theorem parse_comments_around_end :
    let comment : Token := ⟨.comment, "//", 1⟩
    let print : Token := ⟨.keyword .print, "print", 2⟩
    let x : Token := ⟨.identifier, "x", 3⟩
    let last : Token := ⟨.eof, "", 4⟩
    let ts' := [comment, print, comment, x, comment, last, comment]
    Commented [print, x, last] ts' ∧ parse ts' = parse [print, x, last] ∧
      (parse ts').errors = [⟨.missingSymbol .semicolon .afterValue, none⟩] := by
  intro comment print x last ts'
  have h : Commented [print, x, last] ts' :=
    .comment rfl (.token print (.comment rfl (.token x (.comment rfl (.token last
      (.comment rfl .nil))))))
  exact ⟨h, (comment_modes_agree.2.1 _ _ h).2.1, by decide +kernel⟩

end Lox
