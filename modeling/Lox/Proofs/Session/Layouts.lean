import Lox.Proofs.Session.Correspondence
import Lox.Proofs.Syntax.Drawn

/-!
# Programs that are laid out differently

Two lists of tokens may differ in nothing but the lines of their tokens. With all tokens on one line
(`unlined`) they are the same list. Other lines are a recoding, which every stage keeps, so what the
two lists mean is the same but for lines.

* `statements_parse_unlined`, `errors_parse_unlined`: they have the same tree and the same errors;
* `Labeling.errors_unlined`, `Labeling.forall₂_references`: the trees have the same scoping errors,
  and their nodes the same distances, one by one;
* `Session.Corresponds.interpret`: and they run in the same way in sessions that correspond.
-/

namespace Lox

/-- Two tokens that differ in their lines at most. -/
def Token.SameButLine (t t' : Token) : Prop := t'.kind = t.kind ∧ t'.lexeme = t.lexeme

/-- Puts everything on one line. -/
abbrev unlined (_ : Nat) : Nat := 0

theorem Token.map_unlined_eq {ts ts' : List Token} (h : List.Forall₂ SameButLine ts ts') :
    ts'.map (relocate unlined) = ts.map (relocate unlined) := by
  induction h with
  | nil => rfl
  | @cons t t' rest rest' ht _ ih =>
    have hline : t'.relocate unlined = t.relocate unlined := by
      rw [relocate, relocate, ht.1, ht.2]
    rw [List.map_cons, List.map_cons, hline, ih]

section

variable {ts ts' : List Token} (h : List.Forall₂ Token.SameButLine ts ts')

include h

theorem statements_parse_unlined :
    Stmt.recodeAll ⟨id, unlined⟩ (parse ts').statements =
      Stmt.recodeAll ⟨id, unlined⟩ (parse ts).statements := by
  rw [← (parse_map_relocate unlined ts').1, ← (parse_map_relocate unlined ts).1,
    Token.map_unlined_eq h]

theorem errors_parse_unlined :
    (parse ts').errors.map (SyntaxError.relocate unlined) =
      (parse ts).errors.map (SyntaxError.relocate unlined) := by
  rw [← (parse_map_relocate unlined ts').2, ← (parse_map_relocate unlined ts).2,
    Token.map_unlined_eq h]

end

/-! ## Scopes -/

section

variable {statements statements' : List (Stmt Unit)} {first first' next next' : NodeId}
  {program program' : List (Stmt NodeId)}

/-- Two references of one kind to one name, with one distance. -/
structure Reference.Agree (program program' : List (Stmt NodeId)) (r r' : Reference) : Prop where
  kind : r'.kind = r.kind
  text : r'.name.text = r.name.text
  distance? : (resolve program').table.get? r'.id = (resolve program).table.get? r.id

/-- With levels in place of numbers, a labeling is the same whatever its numbers. -/
theorem Labeling.recodeAll_own_level (h : Labeling statements first next program) (ℓ : Nat → Nat) :
    Stmt.recodeAll ⟨(resolve program).table.level, ℓ⟩ program =
      leveled (Stmt.recodeAll ⟨id, ℓ⟩ statements) :=
  h.recodeAll_level ℓ fun id _ => DistanceTable.get?_empty_eq_none id

variable {ℓ : Nat → Nat}

/-- The nodes of programs that differ in their lines have the same distances, one by one. -/
theorem Labeling.forall₂_references (h : Labeling statements first next program)
    (h' : Labeling statements' first' next' program')
    (hlines : Stmt.recodeAll ⟨id, ℓ⟩ statements' = Stmt.recodeAll ⟨id, ℓ⟩ statements) :
    List.Forall₂ (Reference.Agree program program') (Stmt.referencesAll program)
      (Stmt.referencesAll program') := by
  have hlevels : Stmt.recodeAll ⟨(resolve program').table.level, ℓ⟩ program' =
      Stmt.recodeAll ⟨(resolve program).table.level, ℓ⟩ program := by
    rw [h.recodeAll_own_level, h'.recodeAll_own_level, hlines]
  have hreferences := congrArg Stmt.referencesAll hlevels
  rw [Stmt.referencesAll_recodeAll, Stmt.referencesAll_recodeAll] at hreferences
  have hall := List.forall₂_eq_eq_eq.symm ▸ hreferences
  rw [List.forall₂_map_left_iff, List.forall₂_map_right_iff] at hall
  refine hall.flip.imp fun r r' hr => ?_
  obtain ⟨hkind, hlevel, hname⟩ := Reference.mk.inj hr
  refine ⟨hkind, (congrArg Name.text hname :), ?_⟩
  have hdistance := congrArg levelDistance? hlevel
  rwa [levelDistance?_level, levelDistance?_level] at hdistance

theorem Labeling.errors_unlined (h : Labeling statements first next program)
    (h' : Labeling statements' first' next' program')
    (hlines : Stmt.recodeAll ⟨id, ℓ⟩ statements' = Stmt.recodeAll ⟨id, ℓ⟩ statements) :
    (resolve program').errors.map (ScopeError.relocate ℓ) =
      (resolve program).errors.map (ScopeError.relocate ℓ) := by
  rw [h.errors_resolve, h'.errors_resolve, hlines]

end

/-! ## The property -/

/-- Meaning does not depend on layout. Take two lists of tokens that agree one by one in kind, which
includes the value of a literal, and in text, and look at no line. Then both have the same tree and
the same syntax errors. Whatever numbers the nodes of the two trees have, both have the same scoping
errors, and their references agree one by one and have the same distances. And in sessions that
correspond, as all fresh ones do, either both programs use up some fuel or none does, and then they
print the same, give the same result or the same failure, and leave sessions that correspond. -/
theorem meaning_is_independent_of_layout {ts ts' : List Token}
    (h : List.Forall₂ Token.SameButLine ts ts') :
    (Stmt.recodeAll ⟨id, unlined⟩ (parse ts').statements =
        Stmt.recodeAll ⟨id, unlined⟩ (parse ts).statements ∧
      (parse ts').errors.map (SyntaxError.relocate unlined) =
        (parse ts).errors.map (SyntaxError.relocate unlined)) ∧
    (∀ first first' next next' program program',
      Labeling (parse ts).statements first next program →
      Labeling (parse ts').statements first' next' program' →
        (resolve program').errors.map (ScopeError.relocate unlined) =
          (resolve program).errors.map (ScopeError.relocate unlined) ∧
        List.Forall₂ (Reference.Agree program program') (Stmt.referencesAll program)
          (Stmt.referencesAll program')) ∧
    (∀ maxDepth sink (first first' : NodeId),
      Session.Corresponds unlined { Session.start maxDepth sink with nextId := first }
        { Session.start maxDepth sink with nextId := first' }) ∧
    ∀ (s s' : Session) next next' program program' fuel, s.Corresponds unlined s' →
      Labeling (parse ts).statements s.nextId next program →
      Labeling (parse ts').statements s'.nextId next' program' →
        Option.Rel
          (fun r r' => r'.1.relocate unlined = r.1.relocate unlined ∧
            r.2.Corresponds unlined r'.2)
          ({ s with nextId := next }.interpret fuel program (resolve program).distances)
          ({ s' with nextId := next' }.interpret fuel program' (resolve program').distances) := by
  have hlines := statements_parse_unlined h
  refine ⟨⟨hlines, errors_parse_unlined h⟩, ?_, Session.Corresponds.start unlined, ?_⟩
  · intro first first' next next' program program' hp hp'
    exact ⟨hp.errors_unlined hp' hlines, hp.forall₂_references hp' hlines⟩
  · intro s s' next next' program program' fuel hs hp hp'
    exact hs.interpret hp hp' hlines fuel

/-- On one line and on five a program prints the same, and fails on the line of the name it reads. -/
theorem meaning_is_independent_of_layout_over_five_lines :
    let ts : List Token := [⟨.keyword .print, "print", 1⟩, ⟨.keyword .nil, "nil", 1⟩,
      ⟨.symbol .semicolon, ";", 1⟩, ⟨.identifier, "x", 1⟩, ⟨.symbol .semicolon, ";", 1⟩]
    let ts' : List Token := [⟨.keyword .print, "print", 1⟩, ⟨.keyword .nil, "nil", 2⟩,
      ⟨.symbol .semicolon, ";", 2⟩, ⟨.identifier, "x", 4⟩, ⟨.symbol .semicolon, ";", 5⟩]
    let run (ts : List Token) : Option (Ran Unit × Session) :=
      let numbered := (Stmt.numberAll (parse ts).statements).run 0
      { Session.start 1 .open with nextId := numbered.2 }.interpret 9 numbered.1
        (resolve numbered.1).distances
    List.Forall₂ Token.SameButLine ts ts' ∧
      ((run ts).map fun r => (r.1.output, r.1.report.reports)) =
        some ("nil\n", [.runtime 1 "Undefined variable 'x'."]) ∧
      ((run ts').map fun r => (r.1.output, r.1.report.reports)) =
        some ("nil\n", [.runtime 4 "Undefined variable 'x'."]) ∧
      Option.Rel (fun r r' => r'.1.relocate unlined = r.1.relocate unlined ∧
        r.2.Corresponds unlined r'.2) (run ts) (run ts') := by
  intro ts ts' run
  have h : List.Forall₂ Token.SameButLine ts ts' :=
    .cons ⟨rfl, rfl⟩ <| .cons ⟨rfl, rfl⟩ <| .cons ⟨rfl, rfl⟩ <| .cons ⟨rfl, rfl⟩ <|
      .cons ⟨rfl, rfl⟩ .nil
  have hsame := meaning_is_independent_of_layout h
  exact ⟨h, by decide +kernel, by decide +kernel,
    hsame.2.2.2 (.start 1 .open) (.start 1 .open) _ _ _ _ 9 (hsame.2.2.1 1 .open 0 0)
      (labeling_numberAll _ 0) (labeling_numberAll _ 0)⟩

end Lox
