import Mathlib
import Lox.Proofs.Syntax.Pieces
import Lox.Token.Stream

/-!
# The lines of items

A scanner counts the line breaks of what it has read (`Scanner.Counts`), whether they stand between
lexemes, inside a string, behind a comment or behind a fault. So the line of an item is the line on
which the text of the item ends.

* `Scanner.exists_advance`, `Scanner.Counts.exists_next`: what one step reads, and the line that it gives;
* `Scanner.Counts.after`: the count along all steps;
* `items_are_on_their_lines`: the lines of all items.
-/

namespace Lox

/-! ## What the line of an item is -/

/-- The line that an item carries. -/
def Item.line : Item → Nat
  | .token t => t.line
  | .error e => e.line

/-- Whether an item carries the right line, if it stands for `text` and `before` is what stands
before that in the source. A token counts the line breaks up to its end, an unexpected character
those before it, and an unclosed string and the end marker those of the whole source. -/
def Item.OnLine (source before text : List Char) : Item → Prop
  | .token t =>
    t.lexeme = String.ofList text ∧ t.line = 1 + (before ++ text).count '\n' ∧
      (t.isEof → t.line = 1 + source.count '\n')
  | .error ⟨.unexpectedCharacter c, line⟩ => text = [c] ∧ line = 1 + before.count '\n'
  | .error ⟨.unterminatedString, line⟩ =>
    text.head? = some '"' ∧ line = 1 + source.count '\n'

/-- The item of a piece carries the line on which the piece ends. -/
theorem Item.OnLine.of_piece {mode : CommentMode} {line : Nat} {p : Piece} {item : Item}
    {source before rest : List Char} (hi : p.item? mode line = some item) (hf : p.Fits rest)
    (hs : source = before ++ (p.text ++ rest)) (hl : line = 1 + (before ++ p.text).count '\n') :
    item.OnLine source before p.text := by
  have token {kind : Kind} (hk : kind.sameAs .eof = false) :
      OnLine source before p.text (.token ⟨kind, String.ofList p.text, line⟩) :=
    ⟨rfl, hl, fun he => absurd he (by simp [Token.isEof, hk])⟩
  cases p with
  | blank c => cases hi
  | comment body =>
    obtain ⟨-, rfl⟩ : mode = .keep ∧ _ = item := by simpa [Piece.item?] using hi
    exact token rfl
  | symbol s =>
    cases hi
    exact token rfl
  | word text =>
    cases hi
    refine token ?_
    unfold Kind.ofWord
    split <;> rfl
  | number whole fraction =>
    cases hi
    exact token rfl
  | string body =>
    cases hi
    exact token rfl
  | stray c =>
    cases hi
    -- a line break is a blank, so the character adds none
    have hc : c ≠ '\n' := by
      rintro rfl
      exact absurd hf.1 (by decide)
    exact ⟨rfl, by simpa [Piece.text, hc] using hl⟩
  | unclosed body =>
    cases hi
    obtain ⟨-, rfl⟩ := hf
    exact ⟨rfl, by rw [hl, hs, List.append_nil]⟩

namespace Scanner

/-! ## One step -/

/-- A scanner in this source that has counted the line breaks of what it has read. -/
def Counts (source : List Char) (s : Scanner) : Prop :=
  ∃ read, source = read ++ s.rest ∧ s.line = 1 + read.count '\n'

/-- One step goes past some text that is no item, and then past the text of an item. -/
theorem exists_advance (mode : CommentMode) (line : Nat) (rest : List Char) {source : List Char} :
    ∀ read, source = read ++ rest → line = 1 + read.count '\n' → ∃ gap text,
      rest = gap ++ (text ++ (advance mode line rest).2.rest) ∧
        (advance mode line rest).1.OnLine source (read ++ gap) text ∧
        (advance mode line rest).2.Counts source := by
  fun_induction advance mode line rest with
  | case1 line =>
    intro read hs hl
    rw [List.append_nil] at hs
    subst hs
    exact ⟨[], [], rfl, ⟨rfl, by simpa using hl, fun _ => hl⟩, source, (List.append_nil _).symm, hl⟩
  | case2 line c rest line' item h =>
    intro read hs hl
    have ht := text_cut c rest
    have hline : line' = 1 + (read ++ (cut c rest).1.text).count '\n' := by
      rw [List.count_append, ← Nat.add_assoc, ← hl]
      rfl
    have hsplit : source = read ++ ((cut c rest).1.text ++ (cut c rest).2) := by rw [ht, hs]
    refine ⟨[], (cut c rest).1.text, ht.symm, ?_, read ++ (cut c rest).1.text, ?_, hline⟩
    · rw [List.append_nil]
      exact .of_piece h (Piece.fits_cut c rest) hsplit hline
    · rw [hsplit, List.append_assoc]
  | case3 line c rest line' h ih =>
    intro read hs hl
    have ht := text_cut c rest
    have hline : line' = 1 + (read ++ (cut c rest).1.text).count '\n' := by
      rw [List.count_append, ← Nat.add_assoc, ← hl]
      rfl
    obtain ⟨gap, text, hrest, hitem, hcounts⟩ :=
      ih (read ++ (cut c rest).1.text) (by rw [List.append_assoc, ht, hs]) hline
    refine ⟨(cut c rest).1.text ++ gap, text, ?_, ?_, hcounts⟩
    · rw [List.append_assoc, ← hrest, ht]
    · rwa [← List.append_assoc]

/-- The next item carries its line, and the count goes on. -/
theorem Counts.exists_next {source : List Char} {s : Scanner} (h : s.Counts source) :
    s.next.2.Counts source ∧ ∀ item, s.next.1 = some item →
      ∃ read gap text, source = read ++ s.rest ∧ s.rest = gap ++ (text ++ s.next.2.rest) ∧
        item.OnLine source (read ++ gap) text := by
  obtain ⟨read, hs, hl⟩ := h
  cases hf : s.finished with
  | true =>
    simp only [next, hf, if_true]
    exact ⟨⟨read, hs, hl⟩, fun item hi => by cases hi⟩
  | false =>
    obtain ⟨gap, text, hrest, hitem, hcounts⟩ := exists_advance s.mode s.line s.rest read hs hl
    simp only [next, hf, Bool.false_eq_true, if_false]
    refine ⟨hcounts, fun item hi => ?_⟩
    cases hi
    exact ⟨read, gap, text, hs, hrest, hitem⟩

/-! ## All steps -/

/-- The place after `n` items were asked for. -/
def after (s : Scanner) : Nat → Scanner
  | 0 => s
  | n + 1 => s.next.2.after n

theorem after_succ (s : Scanner) (n : Nat) : s.after (n + 1) = (s.after n).next.2 := by
  induction n generalizing s with
  | zero => rfl
  | succ n ih => exact ih s.next.2

theorem answer_eq_next (s : Scanner) (n : Nat) : s.answer n = (s.after n).next.1 := by
  induction n generalizing s with
  | zero => rfl
  | succ n ih => exact ih s.next.2

theorem Counts.after {source : List Char} {s : Scanner} (h : s.Counts source) (n : Nat) :
    (s.after n).Counts source := by
  induction n with
  | zero => exact h
  | succ n ih =>
    rw [after_succ]
    exact ih.exists_next.1

theorem counts_start (mode : CommentMode) (source : String) :
    (start mode source).Counts source.toList :=
  ⟨[], rfl, rfl⟩

end Scanner

/-! ## Lines along the items -/

theorem Piece.line_of_item? {mode : CommentMode} {line : Nat} {p : Piece} {item : Item}
    (h : p.item? mode line = some item) : item.line = line := by
  cases p with
  | blank c => cases h
  | comment body =>
    obtain ⟨-, rfl⟩ : mode = .keep ∧ _ = item := by simpa [Piece.item?] using h
    rfl
  | _ =>
    cases h
    rfl

/-- No item lies before the line on which its pieces begin. -/
theorem le_line_of_mem_itemsFrom {mode : CommentMode} {ps : List Piece} {line : Nat} {item : Item}
    (h : item ∈ itemsFrom mode line ps) : line ≤ item.line := by
  induction ps generalizing line with
  | nil =>
    obtain rfl := List.mem_singleton.mp h
    exact Nat.le_refl line
  | cons p ps ih =>
    have hlater : item ∈ itemsFrom mode (line + p.lineBreaks) ps → line ≤ item.line :=
      fun h => Nat.le_trans (Nat.le_add_right line _) (ih h)
    rw [itemsFrom] at h
    split at h
    · next hp =>
      rcases List.mem_cons.mp h with rfl | h
      · rw [Piece.line_of_item? hp]
        exact Nat.le_add_right line _
      · exact hlater h
    · exact hlater h

/-- Lines do not decrease along the items. -/
theorem pairwise_line_itemsFrom (mode : CommentMode) (line : Nat) (ps : List Piece) :
    (itemsFrom mode line ps).Pairwise fun first second => first.line ≤ second.line := by
  induction ps generalizing line with
  | nil => exact List.pairwise_singleton _ _
  | cons p ps ih =>
    rw [itemsFrom]
    split
    · next hp =>
      refine List.pairwise_cons.mpr ⟨fun later hl => ?_, ih _⟩
      rw [Piece.line_of_item? hp]
      exact le_line_of_mem_itemsFrom hl
    · exact ih _

/-! ## The property -/

/-- Every item is on its line. The scanner gives the items of a source one after another. With each
it goes from where it stood past a gap and past the text of the item, which is the lexeme of a
token, the character or the unclosed string that is at fault, or nothing at the end marker. The item
then carries the line that `Item.OnLine` counts from the beginning of the source to that place. And
lines do not decrease from item to item. -/
theorem items_are_on_their_lines (mode : CommentMode) (source : String) :
    (∀ n, (Scanner.start mode source).answer n = (scan mode source)[n]?) ∧
    (∀ n item, (scan mode source)[n]? = some item →
      ∃ read gap text,
        source.toList = read ++ ((Scanner.start mode source).after n).rest ∧
        ((Scanner.start mode source).after n).rest =
          gap ++ (text ++ ((Scanner.start mode source).after (n + 1)).rest) ∧
        item.OnLine source.toList (read ++ gap) text) ∧
    (scan mode source).Pairwise fun first second => first.line ≤ second.line := by
  refine ⟨Scanner.answer_eq mode source, fun n item hi => ?_, pairwise_line_itemsFrom mode 1 _⟩
  rw [← Scanner.answer_eq, Scanner.answer_eq_next] at hi
  rw [Scanner.after_succ]
  exact ((Scanner.counts_start mode source).after n).exists_next.2 item hi

/-- A string over two lines, a comment, a stray character, and then a string that is not closed: its
error is on the last line. -/
theorem items_are_on_their_lines_up_to_open_string :
    let source := "\"a\nb\" //\n@ \"\n"
    let s := Scanner.start .keep source
    let item : Item := .error ⟨.unterminatedString, 4⟩
    (scan .keep source)[3]? = some item ∧
      ∃ read gap text, source.toList = read ++ (s.after 3).rest ∧
        (s.after 3).rest = gap ++ (text ++ (s.after 4).rest) ∧
        item.OnLine source.toList (read ++ gap) text := by
  intro source s item
  have hi : (scan .keep source)[3]? = some item := by cbv
  exact ⟨hi, (items_are_on_their_lines .keep source).2.1 3 item hi⟩

end Lox
