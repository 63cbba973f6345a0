import Lox.Proofs.Decimal.Numerals
import Lox.Proofs.Syntax.WellFormed
import Lox.Proofs.Token.Spans
import Lox.Store
import Lox.Syntax.Printer
import Lox.Token.Listing

/-!
# Numbers that are written and read again

A number is written in three places: by `print`, in a listing of tokens, and in a tree.

* `lexeme_of_mem_scan`: every token of a source but the end marker is a lexeme of its kind;
* `scan_lexeme`: a lexeme that is a whole source is read as one token;
* `numbers_scan_back`: so each of the three texts is read as the number that was written.
-/

namespace Lox

/-! ## Lexemes and tokens -/

theorem Span.eq_of_item? {mode : CommentMode} {line : Nat} {kind : Kind} {text : List Char}
    {t : Token} (h : (Span.lexeme kind text).item? mode line = some (.token t)) :
    t = ⟨kind, String.ofList text, line⟩ := by
  unfold Span.item? at h
  split at h
  · cases h
  · next he =>
    cases he
    split at h <;> cases h
    rfl
  · next he =>
    cases he
    cases h
    rfl
  · cases h

theorem Piece.Fits.lexeme_of_item? {p : Piece} {tail : List Char} (hf : p.Fits tail)
    {mode : CommentMode} {line : Nat} {t : Token} (h : p.item? mode line = some (.token t)) :
    Lexeme t.kind t.lexeme.toList := by
  cases hk : p.kind? with
  | none => cases p <;> cases hk <;> cases h
  | some kind =>
    rw [← Piece.item?_span, Piece.span_of_kind? hk] at h
    rw [Span.eq_of_item? h, String.toList_ofList]
    exact hf.lexeme hk

theorem Piece.FitAll.exists_fits {ps : List Piece} (h : Piece.FitAll ps) {p : Piece}
    (hp : p ∈ ps) : ∃ tail, p.Fits tail := by
  induction ps with
  | nil => cases hp
  | cons q ps ih =>
    rcases List.mem_cons.mp hp with rfl | hp
    · exact ⟨_, h.1⟩
    · exact ih h.2 hp

/-- A token of a source is the end marker or a lexeme of its kind. -/
theorem lexeme_of_mem_scan {mode : CommentMode} {source : String} {t : Token}
    (h : t ∈ tokensOf (scan mode source)) : t.kind = .eof ∨ Lexeme t.kind t.lexeme.toList := by
  obtain ⟨item, hi, ht⟩ := List.mem_filterMap.mp h
  obtain rfl : item = .token t := by
    cases item with
    | token t' => exact congrArg Item.token (Option.some.inj ht)
    | error e => cases ht
  obtain ⟨last, he⟩ | ⟨p, hp, l, hi⟩ := mem_itemsFrom hi
  · cases he
    exact .inl rfl
  · obtain ⟨tail, hf⟩ := (Piece.fitAll_pieces source.toList).exists_fits hp
    exact .inr (hf.lexeme_of_item? hi)

/-- A lexeme that is a whole source is read as one token. -/
theorem scan_lexeme {kind : Kind} {text : String} (h : Lexeme kind text.toList)
    (hk : kind ≠ .comment) (mode : CommentMode) :
    scan mode text = [.token ⟨kind, text, 1 + text.toList.count '\n'⟩,
      .token ⟨.eof, "", 1 + text.toList.count '\n'⟩] := by
  obtain ⟨p, hp, ht, hf⟩ := h.exists_piece
  have hpieces : pieces text.toList = [p] := by
    have := (pieces_flatMap_text_iff [p]).mpr ⟨hf, trivial⟩
    rwa [List.flatMap_singleton, ht] at this
  have hitem (line : Nat) : p.item? mode line = some (.token ⟨kind, text, line⟩) := by
    rw [← Piece.item?_span, Piece.span_of_kind? hp, ht]
    unfold Span.item?
    split
    · next he => cases he
    · next he =>
      cases he
      exact absurd rfl hk
    · next he =>
      cases he
      rw [String.ofList_toList]
    · next he => cases he
  rw [scan, hpieces, itemsFrom, hitem, itemsFrom, Piece.lineBreaks, ht]

/-! ## Numbers -/

theorem Lexeme.exists_decode {x : Float} {text : List Char} (h : Lexeme (.number x) text)
    (hx : x.isFinite) : ∃ v, Decimal.decode x = .finite false v := by
  cases h with
  | whole => exact Decimal.exists_decode_roundRatio hx
  | fraction => exact Decimal.exists_decode_roundRatio hx

theorem Lexeme.line_free {x : Float} {text : List Char} (h : Lexeme (.number x) text) :
    text.count '\n' = 0 := by
  have hdigits {ds : List Char} (hd : IsDigits ds) : '\n' ∉ ds := fun hn =>
    absurd (hd.2 '\n' hn) (by decide)
  rw [List.count_eq_zero]
  cases h with
  | whole h => exact hdigits h
  | fraction h hd =>
    intro hn
    rcases List.mem_append.mp hn with hn | hn
    · exact hdigits h hn
    · rcases List.mem_cons.mp hn with hn | hn
      · exact absurd hn (by decide)
      · exact hdigits hd hn

theorem scan_number {x : Float} {text : String} (h : Lexeme (.number x) text.toList)
    (mode : CommentMode) :
    scan mode text = [.token ⟨.number x, text, 1⟩, .token ⟨.eof, "", 1⟩] := by
  rw [scan_lexeme h nofun, h.line_free]

/-- Without exponents every style writes a number that has a lexeme as a lexeme of that number. -/
theorem Lexeme.write {style : Decimal.Style} (hs : style.positional = none) {x : Float}
    {text : List Char} (h : Lexeme (.number x) text) (hx : x.isFinite) :
    Lexeme (.number x) (style.write x).toList := by
  obtain ⟨v, hv⟩ := h.exists_decode hx
  obtain ⟨q, hq, hn⟩ := Decimal.Style.numeral_write hs hv
  exact hn.lexeme hv hq

/-- Numbers that are written scan back. Let a source have a token for a finite number. The text that
`print` writes for it, the literal in the listing of the token, and its text in a tree are each the
text of one token for the same number, with nothing but the end marker behind it. -/
theorem numbers_scan_back {mode : CommentMode} {source : String} {t : Token} {x : Float}
    (ht : t ∈ tokensOf (scan mode source)) (hk : t.kind = .number x) (hx : x.isFinite)
    (s : Store) (again : CommentMode) :
    ∀ text ∈ [s.display (.number x), t.kind.literalText, (Literal.number x).text],
      scan again text = [.token ⟨.number x, text, 1⟩, .token ⟨.eof, "", 1⟩] := by
  have hl : Lexeme (.number x) t.lexeme.toList := by
    rcases lexeme_of_mem_scan ht with he | hl
    · rw [hk] at he
      cases he
    · rwa [hk] at hl
  intro text htext
  simp only [List.mem_cons, List.not_mem_nil, or_false] at htext
  rcases htext with rfl | rfl | rfl
  · exact scan_number (hl.write rfl hx) again
  · rw [hk]
    exact scan_number (hl.write rfl hx) again
  · exact scan_number (hl.write rfl hx) again

/-- A number that a source, `print` and a tree write with three different texts. -/
theorem numbers_scan_back_from_other_digits :
    let source := "100000000000000000000001"
    let x := Decimal.ofDigits source.toList []
    let printed := "100000000000000010000000"
    let text := "100000000000000008388608.0"
    scan .skip printed = [.token ⟨.number x, printed, 1⟩, .token ⟨.eof, "", 1⟩] ∧
      scan .skip text = [.token ⟨.number x, text, 1⟩, .token ⟨.eof, "", 1⟩] := by
  intro source x printed text
  have hd : source.toList.all Char.isDigit := by decide +kernel
  have hl : Lexeme (.number x) source.toList := .whole ⟨by decide, List.all_eq_true.mp hd⟩
  have ht : ⟨.number x, source, 1⟩ ∈ tokensOf (scan .skip source) := by
    rw [scan_number hl]
    exact .head _
  have h := numbers_scan_back ht rfl (by decide +kernel) .empty .skip
  have hprinted : Store.empty.display (.number x) = printed := by decide +kernel
  have htext : (Literal.number x).text = text := by decide +kernel
  rw [hprinted, htext] at h
  exact ⟨h printed (by simp), h text (by simp)⟩

end Lox
