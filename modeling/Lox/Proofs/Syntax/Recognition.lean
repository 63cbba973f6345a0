import Lox.Proofs.Syntax.Completeness
import Lox.Proofs.Syntax.DanglingElse
import Lox.Proofs.Syntax.Depth
import Lox.Proofs.Syntax.Soundness

/-!
# The parser and the grammar

What is read without errors is in the grammar, what is in the grammar is read
without errors, and the depth of the calls is always enough. So the parser
accepts the sentences of the grammar and no others.

* `Grammar.Declarations.unique`: with every `else` at the nearest `if`, the
  grammar is unambiguous.
* `parse_recognizes_grammar`: the programs without errors are the sentences, and
  their statements are the one derivation with every `else` at the nearest `if`.
-/

namespace Lox

open Grammar

theorem Rule.program_ne_exhausted (ts : List Token) :
    program.read (Parse.depth ts.length) ts ≠ .exhausted := by
  have hd : program.rank + 20 * ts.length ≤ Parse.depth ts.length := by
    simp only [rank, Parse.depth]
    omega
  have he := ends_rule program hd
  intro h
  rw [h] at he
  exact he

/-- The parser finds every derivation by the rule `nearest`. -/
theorem Rule.program_of_declarations {ts : List Token} {ss : List (Stmt Unit)}
    (h : Declarations .nearest ts ss) : program.read (Parse.depth ts.length) ts = .ok ss [] [] :=
  (h.gives_program _).resolve_left (program_ne_exhausted ts)

/-- No program has two derivations with every `else` at the nearest `if`. -/
theorem Grammar.Declarations.unique {ts : List Token} {ss ss' : List (Stmt Unit)}
    (h : Declarations .nearest ts ss) (h' : Declarations .nearest ts ss') : ss = ss' := by
  have hp := Rule.program_of_declarations h
  rw [Rule.program_of_declarations h'] at hp
  injection hp with hs
  exact hs.symm

theorem parse_of_declarations {ts : List Token} {ss : List (Stmt Unit)}
    (h : Declarations .nearest (TokenSequence.ofTokens ts).tokens ss) :
    (parse ts).errors = [] ∧ ss = (parse ts).statements := by
  have hp := Rule.program_of_declarations h
  simp only [parse, hp]
  exact ⟨trivial, trivial⟩

theorem declarations_of_parse {ts : List Token} (h : (parse ts).errors = []) :
    Declarations .any (TokenSequence.ofTokens ts).tokens (parse ts).statements := by
  have hn := Rule.program_ne_exhausted (TokenSequence.ofTokens ts).tokens
  simp only [parse] at h ⊢
  split at h
  · next ss rest noted hp =>
    have hnoted : noted = [] := h
    rw [hnoted] at hp
    exact Parse.declarations_of_program hp
  · next error rest noted hp =>
    exact absurd h (List.append_ne_nil_of_right_ne_nil noted (List.cons_ne_nil error []))
  · next hp => exact absurd hp hn

/-- Without comments and up to the first end marker, the tokens that are read without errors are
those that derive from `program`, where no parameter list and no argument list is longer than
`maxArity`. The statements are then the tree of the derivation in which every `else` belongs to the
nearest `if` before it that has none; there is exactly one such derivation. -/
theorem parse_recognizes_grammar (ts : List Token) :
    let tokens := (ts.filter fun t => !t.isComment).takeWhile fun t => !t.isEof
    ((parse ts).errors = [] ↔ IsProgram tokens) ∧
      ∀ ss, Declarations .nearest tokens ss ↔
        (parse ts).errors = [] ∧ ss = (parse ts).statements := by
  intro tokens
  have htokens : (TokenSequence.ofTokens ts).tokens = tokens := rfl
  rw [← htokens]
  have hnearest : IsProgram (TokenSequence.ofTokens ts).tokens →
      ∃ ss, Declarations .nearest (TokenSequence.ofTokens ts).tokens ss := by
    rintro ⟨ss, hs⟩
    exact hs.nearest
  refine ⟨⟨fun h => ⟨_, declarations_of_parse h⟩, fun h => ?_⟩, fun ss => ⟨?_, ?_⟩⟩
  · obtain ⟨ss, hs⟩ := hnearest h
    exact (parse_of_declarations hs).1
  · exact parse_of_declarations
  · rintro ⟨he, rfl⟩
    obtain ⟨ss, hs⟩ := hnearest ⟨_, declarations_of_parse he⟩
    rwa [← (parse_of_declarations hs).2]

end Lox
