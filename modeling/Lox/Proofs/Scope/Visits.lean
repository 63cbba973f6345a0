import Lox.Proofs.Syntax.Numbering
import Lox.Scope
import Mathlib.Data.List.Nodup

/-!
# The visits of the walk

A `Visit` is a node that names a binding, with the scopes that are open when the
walk of `resolve` comes to it. `Stmt.visits` lists the visits of a statement in
the order of the walk; the scopes after a statement are those before it with the
names that it declares (`Stmt.fst_resolve`).

* `Stmt.references_visits_perm`: the walk visits each reference once;
* `Stmt.entries_resolve`: the distances that the walk finds are those at which
  its visits find their name (`Visit.distance?`), in the same order;
* `DistanceTable.get?_merge_of_mem`: if no two visits are of one node, the table
  of distances holds for each node exactly what its visit finds.
-/

namespace Lox

/-! ## Scopes and names -/

namespace Bindings

variable {α : Type}

@[simp] theorem contains_empty (name : String) : (∅ : Bindings α).contains name = false := rfl

theorem contains_insert (b : Bindings α) (name other : String) (value : α) :
    (b.insert name value).contains other = (decide (name = other) || b.contains other) := by
  unfold contains
  rw [get?_insert]
  by_cases h : name = other <;> simp [h]

end Bindings

namespace Scopes

/-- The scopes after these names are declared in turn. -/
def bindAll (scopes : Scopes) (names : List String) : Scopes := names.foldl bind scopes

@[simp] theorem bindAll_nil (scopes : Scopes) : scopes.bindAll [] = scopes := rfl

@[simp] theorem bindAll_cons (scopes : Scopes) (name : String) (names : List String) :
    scopes.bindAll (name :: names) = (scopes.bind name).bindAll names := rfl

/-- No scope declares the name. -/
def Lack (scopes : Scopes) (name : String) : Prop := ∀ scope ∈ scopes, scope.contains name = false

theorem Lack.nil (name : String) : Lack [] name := by simp [Lack]

theorem Lack.push {scopes : Scopes} {name : String} (h : scopes.Lack name) :
    Lack (∅ :: scopes) name := by
  intro scope hs
  rcases List.mem_cons.mp hs with rfl | hs
  · rfl
  · exact h scope hs

theorem Lack.declare {scopes : Scopes} {name other : String} (h : scopes.Lack name)
    (hne : other ≠ name) : (scopes.declare other).Lack name := by
  cases scopes with
  | nil => exact h
  | cons inner outer =>
    intro scope hs
    rcases List.mem_cons.mp hs with rfl | hs
    · rw [Bindings.contains_insert, h inner List.mem_cons_self]
      simpa using hne
    · exact h scope (List.mem_cons_of_mem _ hs)

theorem Lack.bind {scopes : Scopes} {name other : String} (h : scopes.Lack name)
    (hne : other ≠ name) : (scopes.bind other).Lack name := by
  cases scopes with
  | nil => exact h
  | cons inner outer =>
    intro scope hs
    rcases List.mem_cons.mp hs with rfl | hs
    · rw [Bindings.contains_insert, Bindings.contains_insert, h inner List.mem_cons_self]
      simpa using hne
    · exact h scope (List.mem_cons_of_mem _ hs)

theorem Lack.bindAll {scopes : Scopes} {name : String} {names : List String}
    (h : scopes.Lack name) (hne : ∀ other ∈ names, other ≠ name) :
    (scopes.bindAll names).Lack name := by
  induction names generalizing scopes with
  | nil => exact h
  | cons other names ih =>
    exact ih (h.bind (hne other List.mem_cons_self)) fun o ho => hne o (List.mem_cons_of_mem _ ho)

theorem Lack.distance?_eq_none {scopes : Scopes} {name : String} (h : scopes.Lack name) :
    scopes.distance? name = none := by
  rw [distance?, List.findIdx?_eq_none_iff]
  exact h

end Scopes

/-! ## Visits -/

/-- A node that names a binding, and the scopes that are open there. -/
structure Visit where
  reference : Reference
  scopes : Scopes

/-- How many scopes out the walk finds the name. -/
def Visit.distance? (v : Visit) : Option Nat := v.scopes.distance? v.reference.name.text

/-- What the walk records. -/
def Visit.entry? (v : Visit) : Option (NodeId × Nat) := v.distance?.map (v.reference.id, ·)

mutual

/-- The visits of an expression. -/
def Expr.visits (scopes : Scopes) : Expr NodeId → List Visit
  | .literal _ => []
  | .group inner => inner.visits scopes
  | .unary _ right => right.visits scopes
  | .binary left _ right => left.visits scopes ++ right.visits scopes
  | .logical left _ right => left.visits scopes ++ right.visits scopes
  | .variable id name => [⟨⟨.variable, id, name⟩, scopes⟩]
  | .assign id name value => value.visits scopes ++ [⟨⟨.assign, id, name⟩, scopes⟩]
  | .call callee _ arguments => callee.visits scopes ++ Expr.visitsAll scopes arguments
  | .get object _ => object.visits scopes
  | .set object _ value => value.visits scopes ++ object.visits scopes
  | .this id keyword => [⟨⟨.this, id, keyword⟩, scopes⟩]
  | .super id keyword _ => [⟨⟨.super, id, keyword⟩, scopes⟩]

/-- The visits of several expressions. -/
def Expr.visitsAll (scopes : Scopes) : List (Expr NodeId) → List Visit
  | [] => []
  | e :: es => e.visits scopes ++ Expr.visitsAll scopes es

end

/-- The visits of an expression, if there is one. -/
def Expr.visits? (scopes : Scopes) : Option (Expr NodeId) → List Visit
  | none => []
  | some e => e.visits scopes

mutual

/-- The visits of a statement. -/
def Stmt.visits (scopes : Scopes) : Stmt NodeId → List Visit
  | .expression e => e.visits scopes
  | .print e => e.visits scopes
  | .var name initializer => Expr.visits? (scopes.declare name.text) initializer
  | .block body => Stmt.visitsAll (∅ :: scopes) body
  | .ifElse condition thenBranch elseBranch =>
    condition.visits scopes ++ thenBranch.visits scopes ++ Stmt.visits? scopes elseBranch
  | .while condition body => condition.visits scopes ++ body.visits scopes
  | .function declaration => declaration.visits (scopes.bind declaration.name.text)
  | .return _ value => Expr.visits? scopes value
  | .class name superclass methods =>
    Expr.visits? (scopes.bind name.text) superclass ++
      FunDecl.visitsAll (methodScopes (scopes.bind name.text) superclass.isSome) methods

/-- The visits of a statement, if there is one. -/
def Stmt.visits? (scopes : Scopes) : Option (Stmt NodeId) → List Visit
  | none => []
  | some s => s.visits scopes

/-- The visits of several statements, each after what those before it declare. -/
def Stmt.visitsAll (scopes : Scopes) : List (Stmt NodeId) → List Visit
  | [] => []
  | s :: ss => s.visits scopes ++ Stmt.visitsAll (scopes.bindAll s.declares) ss

/-- The visits of a function. -/
def FunDecl.visits (scopes : Scopes) : FunDecl NodeId → List Visit
  | .mk _ params body =>
    Stmt.visitsAll (Scopes.bindAll (∅ :: scopes) (params.map Name.text)) body

/-- The visits of several functions. -/
def FunDecl.visitsAll (scopes : Scopes) : List (FunDecl NodeId) → List Visit
  | [] => []
  | f :: fs => f.visits scopes ++ FunDecl.visitsAll scopes fs

end

/-! ## Each reference once -/

/-- The references of visits. -/
def Visit.references (vs : List Visit) : List Reference := vs.map Visit.reference

@[simp] theorem Visit.references_append (vs vs' : List Visit) :
    Visit.references (vs ++ vs') = Visit.references vs ++ Visit.references vs' := List.map_append

mutual

theorem Expr.references_visits_perm (scopes : Scopes) :
    (e : Expr NodeId) → (Visit.references (e.visits scopes)).Perm e.references
  | .literal _ => .nil
  | .group inner => by simpa only [Expr.visits, Expr.references] using inner.references_visits_perm scopes
  | .unary _ right => by simpa only [Expr.visits, Expr.references] using right.references_visits_perm scopes
  | .binary left _ right => by
    simpa only [Expr.visits, Expr.references, Visit.references_append] using
      (left.references_visits_perm scopes).append (right.references_visits_perm scopes)
  | .logical left _ right => by
    simpa only [Expr.visits, Expr.references, Visit.references_append] using
      (left.references_visits_perm scopes).append (right.references_visits_perm scopes)
  | .variable _ _ => .refl _
  | .assign id name value => by
    simp only [Expr.visits, Expr.references, Visit.references_append]
    exact ((value.references_visits_perm scopes).append_right _).trans List.perm_append_comm
  | .call callee _ arguments => by
    simpa only [Expr.visits, Expr.references, Visit.references_append] using
      (callee.references_visits_perm scopes).append (Expr.references_visitsAll_perm scopes arguments)
  | .get object _ => by simpa only [Expr.visits, Expr.references] using object.references_visits_perm scopes
  | .set object _ value => by
    simp only [Expr.visits, Expr.references, Visit.references_append]
    exact ((value.references_visits_perm scopes).append
      (object.references_visits_perm scopes)).trans List.perm_append_comm
  | .this _ _ => .refl _
  | .super _ _ _ => .refl _

theorem Expr.references_visitsAll_perm (scopes : Scopes) : (es : List (Expr NodeId)) →
    (Visit.references (Expr.visitsAll scopes es)).Perm (Expr.referencesAll es)
  | [] => .nil
  | e :: es => by
    simpa only [Expr.visitsAll, Expr.referencesAll, Visit.references_append] using
      (e.references_visits_perm scopes).append (Expr.references_visitsAll_perm scopes es)

end

theorem Expr.references_visits?_perm (scopes : Scopes) : (o : Option (Expr NodeId)) →
    (Visit.references (Expr.visits? scopes o)).Perm (Expr.references? o)
  | none => .nil
  | some e => e.references_visits_perm scopes

mutual

theorem Stmt.references_visits_perm (scopes : Scopes) :
    (s : Stmt NodeId) → (Visit.references (s.visits scopes)).Perm s.references
  | .expression e => by simpa only [Stmt.visits, Stmt.references] using e.references_visits_perm scopes
  | .print e => by simpa only [Stmt.visits, Stmt.references] using e.references_visits_perm scopes
  | .var _ initializer => by
    simpa only [Stmt.visits, Stmt.references] using Expr.references_visits?_perm _ initializer
  | .block body => by simpa only [Stmt.visits, Stmt.references] using Stmt.references_visitsAll_perm _ body
  | .ifElse condition thenBranch elseBranch => by
    simpa only [Stmt.visits, Stmt.references, Visit.references_append] using
      ((condition.references_visits_perm scopes).append
        (thenBranch.references_visits_perm scopes)).append
        (Stmt.references_visits?_perm scopes elseBranch)
  | .while condition body => by
    simpa only [Stmt.visits, Stmt.references, Visit.references_append] using
      (condition.references_visits_perm scopes).append (body.references_visits_perm scopes)
  | .function declaration => by
    simpa only [Stmt.visits, Stmt.references] using declaration.references_visits_perm _
  | .return _ value => by
    simpa only [Stmt.visits, Stmt.references] using Expr.references_visits?_perm scopes value
  | .class name superclass methods => by
    simpa only [Stmt.visits, Stmt.references, Visit.references_append] using
      (Expr.references_visits?_perm _ superclass).append
        (FunDecl.references_visitsAll_perm _ methods)

theorem Stmt.references_visits?_perm (scopes : Scopes) : (o : Option (Stmt NodeId)) →
    (Visit.references (Stmt.visits? scopes o)).Perm (Stmt.references? o)
  | none => .nil
  | some s => by simpa only [Stmt.visits?, Stmt.references?] using s.references_visits_perm scopes

theorem Stmt.references_visitsAll_perm (scopes : Scopes) : (ss : List (Stmt NodeId)) →
    (Visit.references (Stmt.visitsAll scopes ss)).Perm (Stmt.referencesAll ss)
  | [] => .nil
  | s :: ss => by
    simpa only [Stmt.visitsAll, Stmt.referencesAll, Visit.references_append] using
      (s.references_visits_perm scopes).append (Stmt.references_visitsAll_perm _ ss)

theorem FunDecl.references_visits_perm (scopes : Scopes) :
    (f : FunDecl NodeId) → (Visit.references (f.visits scopes)).Perm f.references
  | .mk _ params body => by
    simpa only [FunDecl.visits, FunDecl.references] using Stmt.references_visitsAll_perm _ body

theorem FunDecl.references_visitsAll_perm (scopes : Scopes) : (fs : List (FunDecl NodeId)) →
    (Visit.references (FunDecl.visitsAll scopes fs)).Perm (FunDecl.referencesAll fs)
  | [] => .nil
  | f :: fs => by
    simpa only [FunDecl.visitsAll, FunDecl.referencesAll, Visit.references_append] using
      (f.references_visits_perm scopes).append (FunDecl.references_visitsAll_perm scopes fs)

end

/-! ## Expressions open no scope -/

mutual

theorem Expr.scopes_of_mem_visits {scopes : Scopes} {v : Visit} :
    {e : Expr NodeId} → v ∈ e.visits scopes → v.scopes = scopes
  | .literal _, h => by simp [Expr.visits] at h
  | .group inner, h => by
    rw [Expr.visits] at h
    exact Expr.scopes_of_mem_visits h
  | .unary _ right, h => by
    rw [Expr.visits] at h
    exact Expr.scopes_of_mem_visits h
  | .binary left _ right, h => by
    rw [Expr.visits] at h
    rcases List.mem_append.mp h with h | h <;> exact Expr.scopes_of_mem_visits h
  | .logical left _ right, h => by
    rw [Expr.visits] at h
    rcases List.mem_append.mp h with h | h <;> exact Expr.scopes_of_mem_visits h
  | .variable _ _, h => by
    rw [Expr.visits] at h
    rw [List.mem_singleton.mp h]
  | .assign _ _ value, h => by
    rw [Expr.visits] at h
    rcases List.mem_append.mp h with h | h
    · exact Expr.scopes_of_mem_visits h
    · rw [List.mem_singleton.mp h]
  | .call callee _ arguments, h => by
    rw [Expr.visits] at h
    rcases List.mem_append.mp h with h | h
    · exact Expr.scopes_of_mem_visits h
    · exact Expr.scopes_of_mem_visitsAll h
  | .get object _, h => by
    rw [Expr.visits] at h
    exact Expr.scopes_of_mem_visits h
  | .set object _ value, h => by
    rw [Expr.visits] at h
    rcases List.mem_append.mp h with h | h <;> exact Expr.scopes_of_mem_visits h
  | .this _ _, h => by
    rw [Expr.visits] at h
    rw [List.mem_singleton.mp h]
  | .super _ _ _, h => by
    rw [Expr.visits] at h
    rw [List.mem_singleton.mp h]

theorem Expr.scopes_of_mem_visitsAll {scopes : Scopes} {v : Visit} :
    {es : List (Expr NodeId)} → v ∈ Expr.visitsAll scopes es → v.scopes = scopes
  | [], h => by simp [Expr.visitsAll] at h
  | e :: es, h => by
    rw [Expr.visitsAll] at h
    rcases List.mem_append.mp h with h | h
    · exact Expr.scopes_of_mem_visits h
    · exact Expr.scopes_of_mem_visitsAll h

end

/-- The visits of an expression are its references, each in the scopes around the expression. -/
theorem Expr.mem_visits_iff {scopes : Scopes} {e : Expr NodeId} {v : Visit} :
    v ∈ e.visits scopes ↔ v.reference ∈ e.references ∧ v.scopes = scopes := by
  have hp := e.references_visits_perm scopes
  constructor
  · intro h
    exact ⟨hp.subset (List.mem_map_of_mem h), Expr.scopes_of_mem_visits h⟩
  · rintro ⟨hr, rfl⟩
    obtain ⟨w, hw, hwr⟩ := List.mem_map.mp (hp.symm.subset hr)
    have hs : w.scopes = v.scopes := Expr.scopes_of_mem_visits hw
    have hv : w = v := by
      cases v
      cases w
      simp_all
    exact hv ▸ hw

/-! ## The walk in terms of its parts -/

section

variable (context : Context) (scopes : Scopes)

theorem Stmt.resolve_ifElse (condition : Expr NodeId) (thenBranch : Stmt NodeId)
    (elseBranch : Option (Stmt NodeId)) :
    (Stmt.ifElse condition thenBranch elseBranch).resolve context scopes =
      ((Stmt.resolve? context (thenBranch.resolve context scopes).1 elseBranch).1,
        condition.resolve context scopes ++ (thenBranch.resolve context scopes).2 ++
          (Stmt.resolve? context (thenBranch.resolve context scopes).1 elseBranch).2) := by
  rw [Stmt.resolve]

theorem Stmt.resolve_while (condition : Expr NodeId) (body : Stmt NodeId) :
    (Stmt.while condition body).resolve context scopes =
      ((body.resolve context scopes).1,
        condition.resolve context scopes ++ (body.resolve context scopes).2) := by
  rw [Stmt.resolve]

theorem Stmt.resolveAll_cons (s : Stmt NodeId) (ss : List (Stmt NodeId)) :
    Stmt.resolveAll context scopes (s :: ss) =
      ((Stmt.resolveAll context (s.resolve context scopes).1 ss).1,
        (s.resolve context scopes).2 ++
          (Stmt.resolveAll context (s.resolve context scopes).1 ss).2) := by
  rw [Stmt.resolveAll]

theorem FunDecl.resolve_mk (name : Name) (params : List Name) (body : List (Stmt NodeId)) :
    (FunDecl.mk name params body).resolve context scopes =
      (resolveParams (∅ :: scopes) params).2 ++
        (Stmt.resolveAll context (resolveParams (∅ :: scopes) params).1 body).2 := by
  rw [FunDecl.resolve]

theorem resolveParams_cons (p : Name) (ps : List Name) :
    resolveParams scopes (p :: ps) =
      ((resolveParams (scopes.bind p.text) ps).1,
        declarationFindings scopes p ++ (resolveParams (scopes.bind p.text) ps).2) := rfl

theorem fst_resolveParams (ps : List Name) :
    (resolveParams scopes ps).1 = scopes.bindAll (ps.map Name.text) := by
  induction ps generalizing scopes with
  | nil => rfl
  | cons p ps ih => rw [resolveParams_cons, List.map_cons, Scopes.bindAll_cons, ← ih]

variable {context scopes}

mutual

/-- The scopes after a statement: what it declares is added to those before it. -/
theorem Stmt.fst_resolve {context : Context} {scopes : Scopes} :
    {s : Stmt NodeId} → s.WellFormed → (s.resolve context scopes).1 = scopes.bindAll s.declares
  | .expression _, _ => by simp only [Stmt.resolve, Stmt.declares, Scopes.bindAll_nil]
  | .print _, _ => by simp only [Stmt.resolve, Stmt.declares, Scopes.bindAll_nil]
  | .var _ _, _ => by simp only [Stmt.resolve]; rfl
  | .block _, _ => by simp only [Stmt.resolve, Stmt.declares, Scopes.bindAll_nil]
  | .ifElse _ _ _, ⟨_, ⟨hd, ht⟩, he⟩ => by
    simp only [Stmt.resolve_ifElse, Stmt.fst_resolve? he, Stmt.fst_resolve ht, hd]
    rfl
  | .while _ _, ⟨_, hd, hb⟩ => by
    simp only [Stmt.resolve_while, Stmt.fst_resolve hb, hd]
    rfl
  | .function _, _ => by simp only [Stmt.resolve]; rfl
  | .return _ _, _ => by simp only [Stmt.resolve, Stmt.declares, Scopes.bindAll_nil]
  | .class _ _ _, _ => by simp only [Stmt.resolve]; rfl

theorem Stmt.fst_resolve? {context : Context} {scopes : Scopes} :
    {o : Option (Stmt NodeId)} → Stmt.WellFormed? o →
      (Stmt.resolve? context scopes o).1 = scopes
  | none, _ => by simp only [Stmt.resolve?]
  | some _, ⟨hd, hs⟩ => by simp only [Stmt.resolve?, Stmt.fst_resolve hs, hd, Scopes.bindAll_nil]

end

end

/-! ## What the walk records -/

/-- The distance that a finding records. -/
def Finding.entry? : Finding → Option (NodeId × Nat)
  | .distance id d => some (id, d)
  | .error _ => none

/-- The distances that findings record. -/
def Finding.entries (findings : List Finding) : List (NodeId × Nat) :=
  findings.filterMap Finding.entry?

/-- The distances that visits find. -/
def Visit.entries (vs : List Visit) : List (NodeId × Nat) := vs.filterMap Visit.entry?

@[simp] theorem Finding.entries_nil : Finding.entries [] = [] := rfl

@[simp] theorem Finding.entries_append (fs fs' : List Finding) :
    Finding.entries (fs ++ fs') = Finding.entries fs ++ Finding.entries fs' :=
  List.filterMap_append

@[simp] theorem Visit.entries_nil : Visit.entries [] = [] := rfl

@[simp] theorem Visit.entries_append (vs vs' : List Visit) :
    Visit.entries (vs ++ vs') = Visit.entries vs ++ Visit.entries vs' :=
  List.filterMap_append

theorem Resolution.distances_ofFindings (findings : List Finding) :
    (Resolution.ofFindings findings).distances = Finding.entries findings := by
  unfold Resolution.ofFindings Finding.entries
  congr 1

theorem entries_distanceFindings (scopes : Scopes) (kind : ReferenceKind) (id : NodeId)
    (name : Name) :
    Finding.entries (distanceFindings scopes id name) =
      Visit.entries [⟨⟨kind, id, name⟩, scopes⟩] := by
  unfold distanceFindings Finding.entries Visit.entries
  cases h : scopes.distance? name.text <;>
    simp [Visit.entry?, Visit.distance?, Finding.entry?, h]

@[simp] theorem entries_declarationFindings (scopes : Scopes) (name : Name) :
    Finding.entries (declarationFindings scopes name) = [] := by
  unfold declarationFindings
  split
  · rfl
  · split <;> rfl

@[simp] theorem entries_resolveParams (scopes : Scopes) (ps : List Name) :
    Finding.entries (resolveParams scopes ps).2 = [] := by
  induction ps generalizing scopes with
  | nil => rfl
  | cons p ps ih => simp [resolveParams_cons, ih]

@[simp] theorem entries_returnFindings (context : Context) (keyword : Name) (hasValue : Bool) :
    Finding.entries (returnFindings context keyword hasValue) = [] := by
  unfold returnFindings
  split <;> split <;> rfl

@[simp] theorem entries_superclassFindings (name : Name) (e : Expr NodeId) :
    Finding.entries (superclassFindings name e) = [] := by
  unfold superclassFindings
  split
  · split <;> rfl
  · rfl

/-- Outside of classes, no scope declares `this`. -/
def Scopes.LackThis (scopes : Scopes) (context : Context) : Prop :=
  context.inClass = .none → scopes.Lack "this"

mutual

theorem Expr.entries_resolve {context : Context} {scopes : Scopes}
    (hc : scopes.LackThis context) : {e : Expr NodeId} → e.WellFormed →
      Finding.entries (e.resolve context scopes) = Visit.entries (e.visits scopes)
  | .literal _, _ => rfl
  | .group inner, h => by
    simpa only [Expr.resolve, Expr.visits] using Expr.entries_resolve hc (e := inner) h
  | .unary _ right, h => by
    simpa only [Expr.resolve, Expr.visits] using Expr.entries_resolve hc (e := right) h.2
  | .binary left _ right, ⟨_, hl, hr⟩ => by
    simp only [Expr.resolve, Expr.visits, Finding.entries_append, Visit.entries_append,
      Expr.entries_resolve hc hl, Expr.entries_resolve hc hr]
  | .logical left _ right, ⟨_, hl, hr⟩ => by
    simp only [Expr.resolve, Expr.visits, Finding.entries_append, Visit.entries_append,
      Expr.entries_resolve hc hl, Expr.entries_resolve hc hr]
  | .variable id name, _ => by
    simp only [Expr.resolve, Expr.visits, Finding.entries_append,
      entries_distanceFindings scopes .variable]
    split <;> rfl
  | .assign id name value, ⟨_, hv⟩ => by
    simp only [Expr.resolve, Expr.visits, Finding.entries_append, Visit.entries_append,
      Expr.entries_resolve hc hv, entries_distanceFindings scopes .assign]
  | .call callee _ arguments, ⟨hf, ha⟩ => by
    simp only [Expr.resolve, Expr.visits, Finding.entries_append, Visit.entries_append,
      Expr.entries_resolve hc hf, Expr.entries_resolveAll hc ha]
  | .get object _, h => by
    simpa only [Expr.resolve, Expr.visits] using Expr.entries_resolve hc (e := object) h
  | .set object _ value, ⟨ho, hv⟩ => by
    simp only [Expr.resolve, Expr.visits, Finding.entries_append, Visit.entries_append,
      Expr.entries_resolve hc ho, Expr.entries_resolve hc hv]
  | .this id keyword, h => by
    have h : keyword.text = "this" := h
    simp only [Expr.resolve, Expr.visits]
    split
    · next hn =>
      simp [Visit.entries, Visit.entry?, Visit.distance?, Finding.entries, Finding.entry?, h,
        (hc hn).distance?_eq_none]
    · exact entries_distanceFindings scopes .this id keyword
  | .super id keyword _, _ => by
    simp only [Expr.resolve, Expr.visits, Finding.entries_append,
      entries_distanceFindings scopes .super]
    split <;> rfl

theorem Expr.entries_resolveAll {context : Context} {scopes : Scopes}
    (hc : scopes.LackThis context) : {es : List (Expr NodeId)} → Expr.WellFormedAll es →
      Finding.entries (Expr.resolveAll context scopes es) =
        Visit.entries (Expr.visitsAll scopes es)
  | [], _ => rfl
  | e :: es, ⟨he, hes⟩ => by
    simp only [Expr.resolveAll, Expr.visitsAll, Finding.entries_append, Visit.entries_append,
      Expr.entries_resolve hc he, Expr.entries_resolveAll hc hes]

end

theorem Expr.entries_resolve? {context : Context} {scopes : Scopes}
    (hc : scopes.LackThis context) : {o : Option (Expr NodeId)} → Expr.WellFormed? o →
      Finding.entries (Expr.resolve? context scopes o) = Visit.entries (Expr.visits? scopes o)
  | none, _ => rfl
  | some _, h => Expr.entries_resolve hc h

theorem Name.IsIdentifier.ne_this {n : Name} (h : n.IsIdentifier) : n.text ≠ "this" := by
  intro e
  rw [Name.IsIdentifier, e] at h
  exact absurd h (by decide)

theorem Name.IsIdentifier.ne_super {n : Name} (h : n.IsIdentifier) : n.text ≠ "super" := by
  intro e
  rw [Name.IsIdentifier, e] at h
  exact absurd h (by decide)

namespace Scopes.LackThis

variable {context : Context} {scopes : Scopes}

/-- In a class there is nothing to ask of the scopes. -/
theorem inClass (context : Context) (subclass : Bool) (scopes : Scopes) :
    scopes.LackThis { context with inClass := if subclass then .subclass else .class } := by
  intro h
  cases subclass <;> cases h

theorem push (h : scopes.LackThis context) : LackThis (∅ :: scopes) context :=
  fun hn => (h hn).push

theorem declare (h : scopes.LackThis context) {n : Name} (hn : n.IsIdentifier) :
    (scopes.declare n.text).LackThis context :=
  fun hc => (h hc).declare hn.ne_this

theorem bind (h : scopes.LackThis context) {n : Name} (hn : n.IsIdentifier) :
    (scopes.bind n.text).LackThis context :=
  fun hc => (h hc).bind hn.ne_this

theorem bindAll (h : scopes.LackThis context) {names : List String}
    (hn : ∀ n ∈ names, n ≠ "this") : (scopes.bindAll names).LackThis context :=
  fun hc => (h hc).bindAll hn

end Scopes.LackThis

/-- What a statement of a source declares is no reserved word. -/
theorem Stmt.WellFormed.ne_of_mem_declares {s : Stmt NodeId} (h : s.WellFormed) :
    ∀ n ∈ s.declares, n ≠ "this" ∧ n ≠ "super" := by
  have single {name : Name} (hn : name.IsIdentifier) :
      ∀ n ∈ [name.text], n ≠ "this" ∧ n ≠ "super" := by
    simpa using ⟨hn.ne_this, hn.ne_super⟩
  cases s with
  | var name _ => exact single h.1
  | function d => exact single (FunDecl.WellFormed.isIdentifier_name h)
  | «class» name _ _ => exact single h.1
  | _ => simp [declares]

theorem FunDecl.WellFormed.ne_of_mem_params {name : Name} {params : List Name}
    {body : List (Stmt NodeId)} (h : (FunDecl.mk name params body).WellFormed) :
    ∀ n ∈ params.map Name.text, n ≠ "this" ∧ n ≠ "super" := by
  intro n hn
  obtain ⟨p, hp, rfl⟩ := List.mem_map.mp hn
  exact ⟨(h.2.1 p hp).ne_this, (h.2.1 p hp).ne_super⟩

mutual

/-- The walk records what its visits find. -/
theorem Stmt.entries_resolve {context : Context} {scopes : Scopes}
    (hc : scopes.LackThis context) : {s : Stmt NodeId} → s.WellFormed →
      Finding.entries (s.resolve context scopes).2 = Visit.entries (s.visits scopes)
  | .expression _, h => by simp only [Stmt.resolve, Stmt.visits, Expr.entries_resolve hc h]
  | .print _, h => by simp only [Stmt.resolve, Stmt.visits, Expr.entries_resolve hc h]
  | .var name initializer, ⟨hn, hi⟩ => by
    simp only [Stmt.resolve, Stmt.visits, Finding.entries_append, entries_declarationFindings,
      List.nil_append]
    split <;>
    · refine Expr.entries_resolve? ?_ hi
      exact hc.declare hn
  | .block body, h => by
    simp only [Stmt.resolve, Stmt.visits, Stmt.entries_resolveAll hc.push h]
  | .ifElse condition thenBranch elseBranch, ⟨hcond, ⟨hd, ht⟩, he⟩ => by
    simp only [Stmt.resolve_ifElse, Stmt.visits, Finding.entries_append, Visit.entries_append,
      Expr.entries_resolve hc hcond, Stmt.entries_resolve hc ht, Stmt.fst_resolve ht, hd,
      Scopes.bindAll_nil, Stmt.entries_resolve? hc he]
  | .while condition body, ⟨hcond, _, hb⟩ => by
    simp only [Stmt.resolve_while, Stmt.visits, Finding.entries_append, Visit.entries_append,
      Expr.entries_resolve hc hcond, Stmt.entries_resolve hc hb]
  | .function declaration, h => by
    simp only [Stmt.resolve, Stmt.visits, Finding.entries_append, entries_declarationFindings,
      List.nil_append]
    refine FunDecl.entries_resolve ?_ h
    exact hc.bind (FunDecl.WellFormed.isIdentifier_name h)
  | .return _ value, h => by
    simp only [Stmt.resolve, Stmt.visits, Finding.entries_append, entries_returnFindings,
      List.nil_append, Expr.entries_resolve? hc h]
  | .class name superclass methods, ⟨_, hs, hm⟩ => by
    simp only [Stmt.resolve, Stmt.visits, Finding.entries_append, Visit.entries_append,
      entries_declarationFindings, List.nil_append,
      FunDecl.entries_resolveMethods (Scopes.LackThis.inClass _ _ _) hm]
    cases superclass with
    | none => rfl
    | some e =>
      obtain ⟨id, own, rfl, he⟩ := (hs e rfl).exists_eq
      simp only [Finding.entries_append, entries_superclassFindings, List.nil_append]
      rw [Expr.entries_resolve (Scopes.LackThis.inClass _ _ _) (e := .variable id own) he]
      rfl

theorem Stmt.entries_resolve? {context : Context} {scopes : Scopes}
    (hc : scopes.LackThis context) : {o : Option (Stmt NodeId)} → Stmt.WellFormed? o →
      Finding.entries (Stmt.resolve? context scopes o).2 = Visit.entries (Stmt.visits? scopes o)
  | none, _ => by simp only [Stmt.resolve?, Stmt.visits?]; rfl
  | some _, h => by simp only [Stmt.resolve?, Stmt.visits?, Stmt.entries_resolve hc h.2]

theorem Stmt.entries_resolveAll {context : Context} {scopes : Scopes}
    (hc : scopes.LackThis context) : {ss : List (Stmt NodeId)} → Stmt.WellFormedAll ss →
      Finding.entries (Stmt.resolveAll context scopes ss).2 =
        Visit.entries (Stmt.visitsAll scopes ss)
  | [], _ => by simp only [Stmt.resolveAll, Stmt.visitsAll]; rfl
  | _ :: _, ⟨hs, hss⟩ => by
    simp only [Stmt.resolveAll_cons, Stmt.visitsAll, Finding.entries_append, Visit.entries_append,
      Stmt.entries_resolve hc hs, Stmt.fst_resolve hs,
      Stmt.entries_resolveAll (hc.bindAll fun n hn => (hs.ne_of_mem_declares n hn).1) hss]

theorem FunDecl.entries_resolve {context : Context} {scopes : Scopes}
    (hc : scopes.LackThis context) : {f : FunDecl NodeId} → f.WellFormed →
      Finding.entries (f.resolve context scopes) = Visit.entries (f.visits scopes)
  | .mk _ params _, h => by
    simp only [FunDecl.resolve_mk, FunDecl.visits, Finding.entries_append, entries_resolveParams,
      List.nil_append, fst_resolveParams,
      Stmt.entries_resolveAll (hc.push.bindAll fun n hn => (h.ne_of_mem_params n hn).1) h.2.2]

theorem FunDecl.entries_resolveMethods {context : Context} {scopes : Scopes}
    (hc : scopes.LackThis context) : {fs : List (FunDecl NodeId)} → FunDecl.WellFormedAll fs →
      Finding.entries (FunDecl.resolveMethods context scopes fs) =
        Visit.entries (FunDecl.visitsAll scopes fs)
  | [], _ => by simp only [FunDecl.resolveMethods, FunDecl.visitsAll]; rfl
  | f :: _, ⟨hf, hfs⟩ => by
    have hm : scopes.LackThis (methodContext context f) := hc
    simp only [FunDecl.resolveMethods, FunDecl.visitsAll, Finding.entries_append,
      Visit.entries_append, FunDecl.entries_resolve hm hf, FunDecl.entries_resolveMethods hc hfs]

end

/-- The table of a program holds what the visits of the program find. -/
theorem distances_resolve {program : List (Stmt NodeId)} (h : Stmt.WellFormedAll program) :
    (resolve program).distances = Visit.entries (Stmt.visitsAll [] program) := by
  rw [resolve, Resolution.distances_ofFindings]
  exact Stmt.entries_resolveAll (fun _ => Scopes.Lack.nil _) h

/-! ## The table of distances -/

/-- The numbers of the nodes visited. -/
def Visit.ids (vs : List Visit) : List NodeId := vs.map fun v => v.reference.id

theorem ids_visitsAll_perm (scopes : Scopes) (program : List (Stmt NodeId)) :
    (Visit.ids (Stmt.visitsAll scopes program)).Perm
      (Reference.ids (Stmt.referencesAll program)) := by
  have := (Stmt.references_visitsAll_perm scopes program).map Reference.id
  rwa [Visit.references, List.map_map] at this

theorem id_mem_ids_of_mem_entries {vs : List Visit} {entry : NodeId × Nat}
    (h : entry ∈ Visit.entries vs) : entry.1 ∈ Visit.ids vs := by
  obtain ⟨v, hv, he⟩ := List.mem_filterMap.mp h
  obtain ⟨d, -, rfl⟩ := Option.map_eq_some_iff.mp he
  exact List.mem_map_of_mem hv

/-- Two visits of one node are the same visit. -/
theorem Visit.eq_of_id_eq {vs : List Visit} (hn : (Visit.ids vs).Nodup) {v w : Visit} (hv : v ∈ vs)
    (hw : w ∈ vs) (h : v.reference.id = w.reference.id) : v = w :=
  List.inj_on_of_nodup_map hn hv hw h

theorem nodup_keys_entries {vs : List Visit} (hn : (Visit.ids vs).Nodup) :
    (Visit.entries vs).Pairwise fun a b => (a.1 == b.1) = false := by
  induction vs with
  | nil => exact .nil
  | cons v vs ih =>
    obtain ⟨hv, hn⟩ := List.nodup_cons.mp hn
    cases h : v.entry? with
    | none => simpa [Visit.entries, h] using ih hn
    | some entry =>
      obtain ⟨d, -, rfl⟩ := Option.map_eq_some_iff.mp h
      have hcons : Visit.entries (v :: vs) = (v.reference.id, d) :: Visit.entries vs := by
        simp [Visit.entries, h]
      rw [hcons]
      refine List.pairwise_cons.mpr ⟨fun b hb => ?_, ih hn⟩
      refine beq_eq_false_iff_ne.mpr fun e => hv ?_
      have hb := id_mem_ids_of_mem_entries hb
      rwa [← e] at hb

namespace DistanceTable

@[simp] theorem get?_empty_eq_none (id : NodeId) : empty.get? id = none := by
  simp [empty, get?]

/-- Of the distances for a node, a table has the one that was merged last. -/
theorem get?_merge_empty (ds : List (NodeId × Nat)) (id : NodeId) :
    (empty.merge ds).get? id = ds.findSomeRev? fun e => if e.1 == id then some e.2 else none := by
  simp only [merge, get?, empty, Std.HashMap.getElem?_insertMany_list, Std.HashMap.getElem?_empty,
    Option.or_none]

/-- A node that is not among the visits keeps its distance. -/
theorem get?_merge_of_notMem (table : DistanceTable) {vs : List Visit} {id : NodeId}
    (h : id ∉ Visit.ids vs) : (table.merge (Visit.entries vs)).get? id = table.get? id := by
  refine Std.HashMap.getElem?_insertMany_list_of_contains_eq_false ?_
  rw [List.contains_eq_mem, decide_eq_false_iff_not]
  intro hm
  obtain ⟨entry, he, rfl⟩ := List.mem_map.mp hm
  exact h (id_mem_ids_of_mem_entries he)

/-- The table holds what a visit finds, if it held nothing for the node before. -/
theorem get?_merge_of_mem {table : DistanceTable} {vs : List Visit} (hn : (Visit.ids vs).Nodup)
    {v : Visit} (hv : v ∈ vs) (hf : table.get? v.reference.id = none) :
    (table.merge (Visit.entries vs)).get? v.reference.id = v.distance? := by
  cases hd : v.distance? with
  | some d =>
    have he : (v.reference.id, d) ∈ Visit.entries vs :=
      List.mem_filterMap.mpr ⟨v, hv, by simp [Visit.entry?, hd]⟩
    exact Std.HashMap.getElem?_insertMany_list_of_mem (beq_self_eq_true _)
      (nodup_keys_entries hn) he
  | none =>
    refine Eq.trans ?_ hf
    refine Std.HashMap.getElem?_insertMany_list_of_contains_eq_false ?_
    rw [List.contains_eq_mem, decide_eq_false_iff_not]
    intro hm
    obtain ⟨entry, he, hid⟩ := List.mem_map.mp hm
    obtain ⟨w, hw, hwe⟩ := List.mem_filterMap.mp he
    obtain ⟨d, hwd, rfl⟩ := Option.map_eq_some_iff.mp hwe
    obtain rfl : w = v := Visit.eq_of_id_eq hn hw hv hid
    rw [hd] at hwd
    cases hwd

end DistanceTable

end Lox
