import Lox.Proofs.Scope.Batches
import Lox.Proofs.Syntax.Labeling

/-!
# The walk through a recoded program

The walk never looks at the number or the line of a node: it records a distance for the number,
and an error at the line. So its findings in a recoded program are those in the program, recoded.

* `errors_resolve_recodeAll`: a recoded program has the same errors, on other lines;
* `get?_table_recodeAll`: and the same distances, if no two labels become one;
* `Stmt.visits_recode`: the walk visits the nodes of a recoded statement in the same scopes;
* `DistanceTable.level`: the distance of a node as a label. With levels in place of its
  numbers a labeling no longer depends on which node has which number
  (`Labeling.recodeAll_level`).
-/

namespace Lox

/-! ## Findings -/

/-- An error on another line. -/
def ScopeError.relocate (ℓ : Nat → Nat) (e : ScopeError) : ScopeError :=
  { e with found := e.found.relocate ℓ }

/-- A finding about a recoded node. -/
def Finding.recode (ρ : Recoding NodeId NodeId) : Finding → Finding
  | .distance id d => .distance (ρ.label id) d
  | .error e => .error (e.relocate ρ.line)

section

variable (ρ : Recoding NodeId NodeId)

theorem distanceFindings_recode (scopes : Scopes) (id : NodeId) (name : Name) :
    distanceFindings scopes (ρ.label id) (name.relocate ρ.line) =
      (distanceFindings scopes id name).map (Finding.recode ρ) := by
  rw [distanceFindings, distanceFindings, Name.text_relocate]
  split <;> rfl

theorem declarationFindings_recode (scopes : Scopes) (name : Name) :
    declarationFindings scopes (name.relocate ρ.line) =
      (declarationFindings scopes name).map (Finding.recode ρ) := by
  cases scopes with
  | nil => rfl
  | cons inner outer =>
    rw [declarationFindings, declarationFindings, Name.text_relocate]
    split <;> rfl

theorem returnFindings_recode (context : Context) (keyword : Name) (hasValue : Bool) :
    returnFindings context (keyword.relocate ρ.line) hasValue =
      (returnFindings context keyword hasValue).map (Finding.recode ρ) := by
  rw [returnFindings, returnFindings, List.map_append]
  congr 1 <;> split <;> rfl

theorem superclassFindings_recode (name : Name) (e : Expr NodeId) :
    superclassFindings (name.relocate ρ.line) (e.recode ρ) =
      (superclassFindings name e).map (Finding.recode ρ) := by
  cases e with
  | «variable» label superclass =>
    rw [Expr.recode, superclassFindings, superclassFindings, Name.text_relocate, Name.text_relocate]
    split <;> rfl
  | _ => rfl

theorem methodContext_recode (context : Context) (f : FunDecl NodeId) :
    methodContext context (f.recode ρ) = methodContext context f := by
  rw [methodContext, FunDecl.isInitializer_recode]
  rfl

theorem resolveParams_recode (scopes : Scopes) (params : List Name) :
    resolveParams scopes (params.map (Name.relocate ρ.line)) =
      (resolveParams scopes params).map id (List.map (Finding.recode ρ)) := by
  induction params generalizing scopes with
  | nil => rfl
  | cons p ps ih =>
    simp only [List.map_cons, resolveParams, Name.text_relocate, ih, declarationFindings_recode,
      Prod.map_apply, Prod.map_fst, Prod.map_snd, id, List.map_append]

/-! ## The walk -/

mutual

theorem Expr.resolve_recode (context : Context) (scopes : Scopes) : (e : Expr NodeId) →
    (e.recode ρ).resolve context scopes = (e.resolve context scopes).map (Finding.recode ρ)
  | .literal _ => rfl
  | .group inner => by
    rw [Expr.recode, Expr.resolve, Expr.resolve, inner.resolve_recode context scopes]
  | .unary _ right => by
    rw [Expr.recode, Expr.resolve, Expr.resolve, right.resolve_recode context scopes]
  | .binary left _ right => by
    rw [Expr.recode, Expr.resolve, Expr.resolve, List.map_append,
      left.resolve_recode context scopes, right.resolve_recode context scopes]
  | .logical left _ right => by
    rw [Expr.recode, Expr.resolve, Expr.resolve, List.map_append,
      left.resolve_recode context scopes, right.resolve_recode context scopes]
  | .variable id name => by
    rw [Expr.recode, Expr.resolve, Expr.resolve, List.map_append, distanceFindings_recode,
      Name.text_relocate]
    split <;> rfl
  | .assign id name value => by
    rw [Expr.recode, Expr.resolve, Expr.resolve, List.map_append, distanceFindings_recode,
      value.resolve_recode context scopes]
  | .call callee _ arguments => by
    rw [Expr.recode, Expr.resolve, Expr.resolve, List.map_append,
      callee.resolve_recode context scopes, Expr.resolveAll_recodeAll context scopes arguments]
  | .get object _ => by
    rw [Expr.recode, Expr.resolve, Expr.resolve, object.resolve_recode context scopes]
  | .set object _ value => by
    rw [Expr.recode, Expr.resolve, Expr.resolve, List.map_append,
      value.resolve_recode context scopes, object.resolve_recode context scopes]
  | .this id keyword => by
    rw [Expr.recode, Expr.resolve, Expr.resolve, distanceFindings_recode]
    split <;> rfl
  | .super id keyword _ => by
    rw [Expr.recode, Expr.resolve, Expr.resolve, List.map_append, distanceFindings_recode]
    split <;> rfl

theorem Expr.resolveAll_recodeAll (context : Context) (scopes : Scopes) :
    (es : List (Expr NodeId)) → Expr.resolveAll context scopes (Expr.recodeAll ρ es) =
      (Expr.resolveAll context scopes es).map (Finding.recode ρ)
  | [] => rfl
  | e :: es => by
    rw [Expr.recodeAll, Expr.resolveAll, Expr.resolveAll, List.map_append,
      e.resolve_recode context scopes, Expr.resolveAll_recodeAll context scopes es]

end

theorem Expr.resolve?_map_recode (context : Context) (scopes : Scopes) (o : Option (Expr NodeId)) :
    Expr.resolve? context scopes (o.map (Expr.recode ρ)) =
      (Expr.resolve? context scopes o).map (Finding.recode ρ) := by
  cases o with
  | none => rfl
  | some e => exact e.resolve_recode ρ context scopes

mutual

/-- The walk through a recoded statement leaves the same scopes, and its findings are those of the
statement, recoded. -/
theorem Stmt.resolve_recode (context : Context) (scopes : Scopes) : (s : Stmt NodeId) →
    (s.recode ρ).resolve context scopes =
      (s.resolve context scopes).map id (List.map (Finding.recode ρ))
  | .expression e => by
    rw [Stmt.recode, Stmt.resolve, Stmt.resolve, e.resolve_recode ρ context scopes]
    rfl
  | .print e => by
    rw [Stmt.recode, Stmt.resolve, Stmt.resolve, e.resolve_recode ρ context scopes]
    rfl
  | .var name initializer => by
    simp only [Stmt.recode, Stmt.resolve, Prod.map_apply, id, List.map_append,
      Expr.resolve?_map_recode, declarationFindings_recode, Name.text_relocate]
  | .block body => by
    rw [Stmt.recode, Stmt.resolve, Stmt.resolve, Stmt.resolveAll_recodeAll context _ body]
    rfl
  | .ifElse condition thenBranch elseBranch => by
    rw [Stmt.recode, Stmt.resolve_ifElse, Stmt.resolve_ifElse,
      condition.resolve_recode ρ context scopes, thenBranch.resolve_recode context scopes]
    simp only [Prod.map_apply, Prod.map_fst, Prod.map_snd, id, List.map_append,
      Stmt.resolve?_recode? context _ elseBranch]
  | .while condition body => by
    rw [Stmt.recode, Stmt.resolve_while, Stmt.resolve_while,
      condition.resolve_recode ρ context scopes, body.resolve_recode context scopes]
    simp only [Prod.map_apply, Prod.map_fst, Prod.map_snd, id, List.map_append]
  | .function declaration => by
    simp only [Stmt.recode, Stmt.resolve, FunDecl.name_recode, Prod.map_apply, id,
      List.map_append, declaration.resolve_recode, declarationFindings_recode, Name.text_relocate]
  | .return keyword value => by
    simp only [Stmt.recode, Stmt.resolve, Option.isSome_map, Prod.map_apply, id,
      List.map_append, Expr.resolve?_map_recode, returnFindings_recode]
  | .class name none methods => by
    simp only [Stmt.recode, Stmt.resolve, Option.map_none, Prod.map_apply, id, List.map_append,
      List.map_nil, FunDecl.resolveMethods_recodeAll _ _ methods, declarationFindings_recode,
      Name.text_relocate]
  | .class name (some e) methods => by
    simp only [Stmt.recode, Stmt.resolve, Option.map_some, Option.isSome_some, Prod.map_apply, id,
      List.map_append, superclassFindings_recode, e.resolve_recode ρ,
      FunDecl.resolveMethods_recodeAll _ _ methods, declarationFindings_recode, Name.text_relocate]

theorem Stmt.resolve?_recode? (context : Context) (scopes : Scopes) : (o : Option (Stmt NodeId)) →
    Stmt.resolve? context scopes (Stmt.recode? ρ o) =
      (Stmt.resolve? context scopes o).map id (List.map (Finding.recode ρ))
  | none => by
    rw [Stmt.recode?, Stmt.resolve?]
    rfl
  | some s => by rw [Stmt.recode?, Stmt.resolve?, Stmt.resolve?, s.resolve_recode context scopes]

theorem Stmt.resolveAll_recodeAll (context : Context) (scopes : Scopes) :
    (ss : List (Stmt NodeId)) → Stmt.resolveAll context scopes (Stmt.recodeAll ρ ss) =
      (Stmt.resolveAll context scopes ss).map id (List.map (Finding.recode ρ))
  | [] => by
    rw [Stmt.recodeAll, Stmt.resolveAll]
    rfl
  | s :: ss => by
    rw [Stmt.recodeAll, Stmt.resolveAll_cons, Stmt.resolveAll_cons,
      s.resolve_recode context scopes]
    simp only [Prod.map_apply, Prod.map_fst, Prod.map_snd, id, List.map_append,
      Stmt.resolveAll_recodeAll context _ ss]

theorem FunDecl.resolve_recode (context : Context) (scopes : Scopes) : (f : FunDecl NodeId) →
    (f.recode ρ).resolve context scopes = (f.resolve context scopes).map (Finding.recode ρ)
  | .mk name params body => by
    rw [FunDecl.recode, FunDecl.resolve_mk, FunDecl.resolve_mk, List.map_append,
      resolveParams_recode ρ _ params]
    simp only [Prod.map_fst, Prod.map_snd, id, Stmt.resolveAll_recodeAll context _ body]

theorem FunDecl.resolveMethods_recodeAll (context : Context) (scopes : Scopes) :
    (fs : List (FunDecl NodeId)) →
      FunDecl.resolveMethods context scopes (FunDecl.recodeAll ρ fs) =
        (FunDecl.resolveMethods context scopes fs).map (Finding.recode ρ)
  | [] => by
    rw [FunDecl.recodeAll, FunDecl.resolveMethods]
    rfl
  | f :: fs => by
    rw [FunDecl.recodeAll, FunDecl.resolveMethods, FunDecl.resolveMethods, List.map_append,
      methodContext_recode, f.resolve_recode _ scopes,
      FunDecl.resolveMethods_recodeAll context scopes fs]

end

/-! ## Programs -/

variable (program : List (Stmt NodeId))

/-- A recoded program breaks the same rules, at the same names on other lines. -/
theorem errors_resolve_recodeAll :
    (resolve (Stmt.recodeAll ρ program)).errors =
      (resolve program).errors.map (ScopeError.relocate ρ.line) := by
  simp only [resolve, Resolution.ofFindings, Stmt.resolveAll_recodeAll, Prod.map_snd,
    List.filterMap_map, List.map_filterMap]
  refine List.filterMap_congr fun f _ => ?_
  cases f <;> rfl

theorem distances_resolve_recodeAll :
    (resolve (Stmt.recodeAll ρ program)).distances =
      (resolve program).distances.map (Prod.map ρ.label id) := by
  simp only [resolve, Resolution.ofFindings, Stmt.resolveAll_recodeAll, Prod.map_snd,
    List.filterMap_map, List.map_filterMap]
  refine List.filterMap_congr fun f _ => ?_
  cases f <;> rfl

variable {ρ} in
/-- The nodes of a recoded program have the same distances. -/
theorem get?_table_recodeAll (hc : Function.Injective ρ.label) (i : NodeId) :
    (resolve (Stmt.recodeAll ρ program)).table.get? (ρ.label i) =
      (resolve program).table.get? i := by
  simp only [Resolution.table, DistanceTable.get?_merge_empty, distances_resolve_recodeAll,
    List.findSomeRev?_eq_findSome?_reverse, ← List.map_reverse, List.findSome?_map]
  refine congrArg (List.findSome? · _) (funext fun entry => ?_)
  simp only [Function.comp_apply, Prod.map_fst, Prod.map_snd, id, beq_iff_eq, hc.eq_iff]

end

/-! ## Visits -/

section

/-- A visit of a node with another label and line. -/
def Visit.recode (ρ : Recoding NodeId NodeId) (v : Visit) : Visit := ⟨v.reference.recode ρ, v.scopes⟩

@[simp] theorem Stmt.declares_recode {ι κ : Type} (ρ : Recoding ι κ) (s : Stmt ι) :
    (s.recode ρ).declares = s.declares := by
  cases s with
  | function declaration => cases declaration; rfl
  | _ => rfl

variable (ρ : Recoding NodeId NodeId)

mutual

theorem Expr.visits_recode (scopes : Scopes) : (e : Expr NodeId) →
    (e.recode ρ).visits scopes = (e.visits scopes).map (Visit.recode ρ)
  | .literal _ | .variable _ _ | .this _ _ | .super _ _ _ => rfl
  | .group inner => inner.visits_recode scopes
  | .unary _ right => right.visits_recode scopes
  | .binary left _ right => by
    rw [Expr.recode, Expr.visits, Expr.visits, List.map_append, left.visits_recode scopes,
      right.visits_recode scopes]
  | .logical left _ right => by
    rw [Expr.recode, Expr.visits, Expr.visits, List.map_append, left.visits_recode scopes,
      right.visits_recode scopes]
  | .assign _ _ value => by
    rw [Expr.recode, Expr.visits, Expr.visits, List.map_append, value.visits_recode scopes]
    rfl
  | .call callee _ arguments => by
    rw [Expr.recode, Expr.visits, Expr.visits, List.map_append, callee.visits_recode scopes,
      Expr.visitsAll_recodeAll scopes arguments]
  | .get object _ => object.visits_recode scopes
  | .set object _ value => by
    rw [Expr.recode, Expr.visits, Expr.visits, List.map_append, object.visits_recode scopes,
      value.visits_recode scopes]

theorem Expr.visitsAll_recodeAll (scopes : Scopes) : (es : List (Expr NodeId)) →
    Expr.visitsAll scopes (Expr.recodeAll ρ es) = (Expr.visitsAll scopes es).map (Visit.recode ρ)
  | [] => rfl
  | e :: es => by
    rw [Expr.recodeAll, Expr.visitsAll, Expr.visitsAll, List.map_append, e.visits_recode scopes,
      Expr.visitsAll_recodeAll scopes es]

end

theorem Expr.visits?_map_recode (scopes : Scopes) (o : Option (Expr NodeId)) :
    Expr.visits? scopes (o.map (Expr.recode ρ)) = (Expr.visits? scopes o).map (Visit.recode ρ) := by
  cases o with
  | none => rfl
  | some e => exact e.visits_recode ρ scopes

mutual

theorem Stmt.visits_recode (scopes : Scopes) : (s : Stmt NodeId) →
    (s.recode ρ).visits scopes = (s.visits scopes).map (Visit.recode ρ)
  | .expression e | .print e => by
    rw [Stmt.recode, Stmt.visits, Stmt.visits, e.visits_recode ρ]
  | .var name o => by
    rw [Stmt.recode, Stmt.visits, Stmt.visits, Expr.visits?_map_recode, Name.text_relocate]
  | .return _ o => by
    rw [Stmt.recode, Stmt.visits, Stmt.visits, Expr.visits?_map_recode]
  | .block body => by
    rw [Stmt.recode, Stmt.visits, Stmt.visits, Stmt.visitsAll_recodeAll _ body]
  | .ifElse condition thenBranch elseBranch => by
    rw [Stmt.recode, Stmt.visits, Stmt.visits, List.map_append, List.map_append,
      condition.visits_recode ρ, thenBranch.visits_recode scopes, Stmt.visits?_recode? scopes elseBranch]
  | .while condition body => by
    rw [Stmt.recode, Stmt.visits, Stmt.visits, List.map_append, condition.visits_recode ρ,
      body.visits_recode scopes]
  | .function declaration => by
    rw [Stmt.recode, Stmt.visits, Stmt.visits, FunDecl.name_recode, Name.text_relocate,
      declaration.visits_recode _]
  | .class name superclass methods => by
    rw [Stmt.recode, Stmt.visits, Stmt.visits, List.map_append, Name.text_relocate, Option.isSome_map,
      Expr.visits?_map_recode, FunDecl.visitsAll_recodeAll _ methods]

theorem Stmt.visits?_recode? (scopes : Scopes) : (o : Option (Stmt NodeId)) →
    Stmt.visits? scopes (Stmt.recode? ρ o) = (Stmt.visits? scopes o).map (Visit.recode ρ)
  | none => rfl
  | some s => by
    rw [Stmt.recode?, Stmt.visits?, Stmt.visits?, s.visits_recode scopes]

theorem Stmt.visitsAll_recodeAll (scopes : Scopes) : (ss : List (Stmt NodeId)) →
    Stmt.visitsAll scopes (Stmt.recodeAll ρ ss) = (Stmt.visitsAll scopes ss).map (Visit.recode ρ)
  | [] => rfl
  | s :: ss => by
    rw [Stmt.recodeAll, Stmt.visitsAll, Stmt.visitsAll, List.map_append, s.visits_recode scopes,
      Stmt.declares_recode, Stmt.visitsAll_recodeAll _ ss]

theorem FunDecl.visits_recode (scopes : Scopes) : (f : FunDecl NodeId) →
    (f.recode ρ).visits scopes = (f.visits scopes).map (Visit.recode ρ)
  | .mk _ params body => by
    rw [FunDecl.recode, FunDecl.visits, FunDecl.visits, Name.map_text_map_relocate,
      Stmt.visitsAll_recodeAll _ body]

theorem FunDecl.visitsAll_recodeAll (scopes : Scopes) : (fs : List (FunDecl NodeId)) →
    FunDecl.visitsAll scopes (FunDecl.recodeAll ρ fs) =
      (FunDecl.visitsAll scopes fs).map (Visit.recode ρ)
  | [] => rfl
  | f :: fs => by
    rw [FunDecl.recodeAll, FunDecl.visitsAll, FunDecl.visitsAll, List.map_append,
      f.visits_recode scopes, FunDecl.visitsAll_recodeAll scopes fs]

end

end

/-! ## Levels -/

/-- The distance of a node as a label: zero for a global name, and one more than its distance for
any other. -/
def DistanceTable.level (table : DistanceTable) (id : NodeId) : NodeId :=
  match table.get? id with
  | none => 0
  | some d => d + 1

/-- The distance for which a level stands. -/
def levelDistance? : NodeId → Option Nat
  | 0 => none
  | d + 1 => some d

theorem levelDistance?_level (table : DistanceTable) (id : NodeId) :
    levelDistance? (table.level id) = table.get? id := by
  unfold DistanceTable.level
  cases table.get? id <;> rfl

/-- A program with levels in place of numbers, which it has from zero on. -/
def leveled (statements : List (Stmt Unit)) : List (Stmt NodeId) :=
  let numbered := ((Stmt.numberAll statements).run 0).1
  Stmt.recodeAll ⟨(resolve numbered).table.level, id⟩ numbered

section

variable {statements : List (Stmt Unit)} {first next : NodeId} {program : List (Stmt NodeId)}

/-- A labeling on other lines, with levels in place of its numbers, does not depend on these
numbers, nor on what the table held before for other nodes. -/
theorem Labeling.recodeAll_level (h : Labeling statements first next program) (ℓ : Nat → Nat)
    {table : DistanceTable} (hfree : ∀ id, first ≤ id → table.get? id = none) :
    Stmt.recodeAll ⟨(table.merge (resolve program).distances).level, ℓ⟩ program =
      leveled (Stmt.recodeAll ⟨id, ℓ⟩ statements) := by
  obtain ⟨φ, hinj, hle, hφ⟩ := (h.recodeAll ℓ).exists_recodeAll
  let level := (table.merge (resolve program).distances).level
  let numbered := ((Stmt.numberAll (Stmt.recodeAll ⟨id, ℓ⟩ statements)).run 0).1
  have hdistances : (resolve (Stmt.recodeAll ⟨id, ℓ⟩ program)).distances =
      (resolve program).distances := by
    rw [distances_resolve_recodeAll]
    exact List.map_id _
  have hlevel : level ∘ φ = (resolve numbered).table.level := by
    funext i
    have hget : (table.merge (resolve program).distances).get? (φ i) =
        (resolve numbered).table.get? i := by
      rw [← hdistances, DistanceTable.get?_merge, hfree _ (hle i), Option.or_none, ← hφ]
      exact get?_table_recodeAll (ρ := ⟨φ, id⟩) numbered hinj i
    simp only [Function.comp_apply, level, DistanceTable.level, hget]
  calc Stmt.recodeAll ⟨level, ℓ⟩ program
      = Stmt.recodeAll ⟨level, id⟩ (Stmt.recodeAll ⟨id, ℓ⟩ program) :=
        (Stmt.recodeAll_recodeAll ⟨id, ℓ⟩ ⟨level, id⟩ program).symm
    _ = Stmt.recodeAll ⟨level ∘ φ, id⟩ numbered := by
        rw [← hφ]
        exact Stmt.recodeAll_recodeAll ⟨φ, id⟩ ⟨level, id⟩ numbered
    _ = leveled (Stmt.recodeAll ⟨id, ℓ⟩ statements) := by
        rw [hlevel]
        rfl

/-- The errors of a labeling do not depend on its numbers. -/
theorem Labeling.errors_resolve (h : Labeling statements first next program) (ℓ : Nat → Nat) :
    (resolve program).errors.map (ScopeError.relocate ℓ) =
      (resolve ((Stmt.numberAll (Stmt.recodeAll ⟨id, ℓ⟩ statements)).run 0).1).errors := by
  obtain ⟨φ, -, -, hφ⟩ := (h.recodeAll ℓ).exists_recodeAll
  have herrors := errors_resolve_recodeAll ⟨id, ℓ⟩ program
  rw [← herrors, ← hφ, errors_resolve_recodeAll]
  exact List.map_id _

/-- Labelings of one program have the same errors. -/
theorem Labeling.errors_eq {first' next' : NodeId} {program' : List (Stmt NodeId)}
    (h : Labeling statements first next program) (h' : Labeling statements first' next' program') :
    (resolve program').errors = (resolve program).errors := by
  have hid (es : List ScopeError) : es.map (ScopeError.relocate id) = es := List.map_id es
  rw [← hid (resolve program').errors, h'.errors_resolve, ← h.errors_resolve, hid]

end

end Lox
