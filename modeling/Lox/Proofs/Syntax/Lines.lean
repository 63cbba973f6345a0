import Lox.Proofs.Syntax.Recoding
import Lox.Syntax.Parser

/-!
# Tokens on other lines

What a parser does with a single token depends on the kind of the token; its text and line only
come back in what was read and in errors. So on tokens whose lines are under some `ℓ` a step comes to
the same answer, with lines under `ℓ` (`Step.run_map_relocate`).
-/

namespace Lox

/-! ## Answers -/

/-- An error on another line. -/
def SyntaxError.relocate (ℓ : Nat → Nat) (e : SyntaxError) : SyntaxError :=
  { e with found := e.found.map (Name.relocate ℓ) }

theorem Token.map_relocate_id (ts : List Token) : ts.map (relocate id) = ts := List.map_id ts

theorem SyntaxError.map_relocate_id (es : List SyntaxError) : es.map (relocate id) = es := by
  have hid : relocate id = id := by
    funext e
    obtain ⟨fault, found⟩ := e
    exact congrArg (SyntaxError.mk fault) (congrFun Option.map_id found)
  rw [hid, List.map_id]

/-- An answer on other lines. -/
def Reply.relocate {α β : Type} (ℓ : Nat → Nat) (h : β → α) : Reply β → Reply α
  | .ok value rest noted =>
    .ok (h value) (rest.map (Token.relocate ℓ)) (noted.map (SyntaxError.relocate ℓ))
  | .fail error rest noted =>
    .fail (error.relocate ℓ) (rest.map (Token.relocate ℓ)) (noted.map (SyntaxError.relocate ℓ))
  | .exhausted => .exhausted

/-! ## Single tokens -/

namespace Parse

variable (ℓ : Nat → Nat) (ts : List Token)

theorem found_map_relocate :
    found (ts.map (Token.relocate ℓ)) = (found ts).map (Name.relocate ℓ) := by
  cases ts <;> rfl

theorem noteHere_map_relocate (fault : SyntaxFault) :
    noteHere fault (ts.map (Token.relocate ℓ)) = (noteHere fault ts).relocate ℓ id := by
  rw [noteHere, noteHere, found_map_relocate]
  rfl

theorem atEnd_map_relocate : atEnd (ts.map (Token.relocate ℓ)) = (atEnd ts).relocate ℓ id := by
  cases ts <;> rfl

theorem nextIs_map_relocate (kind : Kind) :
    nextIs kind (ts.map (Token.relocate ℓ)) = (nextIs kind ts).relocate ℓ id := by
  cases ts <;> rfl

theorem acceptAny_map_relocate (kinds : List Kind) :
    acceptAny kinds (ts.map (Token.relocate ℓ)) =
      (acceptAny kinds ts).relocate ℓ (Option.map (Token.relocate ℓ)) := by
  cases ts with
  | nil => rfl
  | cons t rest =>
    by_cases hk : kinds.any t.kind.sameAs = true
    · have hk' : kinds.any (t.relocate ℓ).kind.sameAs = true := hk
      rw [List.map_cons, acceptAny, acceptAny, if_pos hk, if_pos hk']
      rfl
    · have hk' : ¬ kinds.any (t.relocate ℓ).kind.sameAs = true := hk
      rw [List.map_cons, acceptAny, acceptAny, if_neg hk, if_neg hk']
      rfl

theorem synchronize_map_relocate :
    synchronize (ts.map (Token.relocate ℓ)) = (synchronize ts).map (Token.relocate ℓ) := by
  induction ts with
  | nil => rfl
  | cons t rest ih =>
    have hnext : (rest.map (Token.relocate ℓ)).head?.any beginsStatement =
        rest.head?.any beginsStatement := by
      cases rest <;> rfl
    have hkind : (t.relocate ℓ).kind.sameAs (.symbol .semicolon) =
        t.kind.sameAs (.symbol .semicolon) := rfl
    rw [List.map_cons, synchronize, synchronize, hnext, hkind, ih]
    split <;> rfl

end Parse

/-! ## Steps -/

/-- A step that notes what it finds on another line. -/
def Step.relocate {α : Type} (ℓ : Nat → Nat) : Step α → Step α
  | .note error => .note (error.relocate ℓ)
  | .noteHere fault => .noteHere fault
  | .atEnd => .atEnd
  | .nextIs kind => .nextIs kind
  | .take kinds => .take kinds

/-- What a step gives, on other lines. -/
def Step.relocated {α : Type} (ℓ : Nat → Nat) : Step α → α → α
  | .take _, t => t.map (Token.relocate ℓ)
  | _, a => a

theorem Step.run_map_relocate {α : Type} (ℓ : Nat → Nat) (s : Step α) (ts : List Token) :
    (s.relocate ℓ).run (ts.map (Token.relocate ℓ)) = (s.run ts).relocate ℓ (s.relocated ℓ) := by
  cases s with
  | note error => rfl
  | noteHere fault => exact Parse.noteHere_map_relocate ℓ ts fault
  | atEnd => exact Parse.atEnd_map_relocate ℓ ts
  | nextIs kind => exact Parse.nextIs_map_relocate ℓ ts kind
  | take kinds => exact Parse.acceptAny_map_relocate ℓ ts kinds

/-! ## Sources -/

theorem TokenSequence.tokens_ofTokens_map_relocate (ℓ : Nat → Nat) (ts : List Token) :
    (ofTokens (ts.map (Token.relocate ℓ))).tokens =
      (ofTokens ts).tokens.map (Token.relocate ℓ) := by
  simp only [ofTokens, List.filter_map, List.takeWhile_map]
  rfl

end Lox
