import Lox.Token.Lexer

/-!
# Tokens one at a time

- A `Scanner` stands somewhere in a source. `Scanner.next` gives the next item and moves on: past
  blanks, past comments that are not kept, and past the item.
- The end marker is an item too. After it there is nothing more.
- `Scanner.answer_eq` says that the answers are the items that `scan` lists.
-/

namespace Lox

/-- A place in a source: what is left of it, the line, and whether the end marker was given. -/
structure Scanner where
  mode : CommentMode
  rest : List Char
  line : Nat
  finished : Bool

namespace Scanner

/-- The beginning of a source. -/
def start (mode : CommentMode) (source : String) : Scanner := ⟨mode, source.toList, 1, false⟩

/-- The first item from here on, and the place behind it. -/
def advance (mode : CommentMode) (line : Nat) : List Char → Item × Scanner
  | [] => (.token ⟨.eof, "", line⟩, ⟨mode, [], line, true⟩)
  | c :: rest =>
    let line' := line + (cut c rest).1.lineBreaks
    match (cut c rest).1.item? mode line' with
    | some item => (item, ⟨mode, (cut c rest).2, line', false⟩)
    | none => advance mode line' (cut c rest).2
termination_by source => source.length
decreasing_by exact length_cut_lt c rest

/-- The next item, if there is one, and the place behind it. -/
def next (s : Scanner) : Option Item × Scanner :=
  if s.finished then (none, s)
  else ((advance s.mode s.line s.rest).1, (advance s.mode s.line s.rest).2)

/-- What is answered when `next` is called after `n` calls before. -/
def answer (s : Scanner) : Nat → Option Item
  | 0 => s.next.1
  | n + 1 => s.next.2.answer n

/-- The items that are still to come. -/
def pending (s : Scanner) : List Item :=
  if s.finished then [] else itemsFrom s.mode s.line (pieces s.rest)

theorem itemsFrom_eq_advance (mode : CommentMode) (line : Nat) (rest : List Char) :
    itemsFrom mode line (pieces rest) =
      (advance mode line rest).1 :: (advance mode line rest).2.pending := by
  fun_induction advance mode line rest with
  | case1 line => simp [pieces, itemsFrom, pending]
  | case2 line c rest line' item h =>
    have hi : (cut c rest).1.item? mode (line + (cut c rest).1.lineBreaks) = some item := h
    rw [pieces, itemsFrom]
    simp only [hi]
    rfl
  | case3 line c rest line' h ih =>
    have hi : (cut c rest).1.item? mode (line + (cut c rest).1.lineBreaks) = none := h
    rw [pieces, itemsFrom]
    simp only [hi]
    exact ih

/-- The next item is the first that is still to come, and the others come after it. -/
theorem next_pending (s : Scanner) : s.next.1 = s.pending.head? ∧ s.next.2.pending = s.pending.tail := by
  cases hf : s.finished with
  | true => simp [next, pending, hf]
  | false =>
    have h := itemsFrom_eq_advance s.mode s.line s.rest
    have hp : s.pending = itemsFrom s.mode s.line (pieces s.rest) := by simp [pending, hf]
    rw [hp, h]
    simp [next, hf]

theorem answer_eq_pending (s : Scanner) (n : Nat) : s.answer n = s.pending[n]? := by
  induction n generalizing s with
  | zero => rw [answer, s.next_pending.1, List.head?_eq_getElem?]
  | succ n ih => rw [answer, ih, s.next_pending.2, List.getElem?_tail]

/-- The answers are the items of the source in turn, and none after the last one. -/
theorem answer_eq (mode : CommentMode) (source : String) (n : Nat) :
    (start mode source).answer n = (scan mode source)[n]? :=
  answer_eq_pending (start mode source) n

end Scanner

end Lox
