import Lox.Proofs.Renaming.Programs
import Lox.Proofs.Scope.Accepted

/-!
# The walk along a renamed program

The walk of `resolve` finds the same in a program and in its renamings. Its
scopes differ only in the names of those that are renamed (`Scopes.Renames`).
Where the new name is in no scope, every name is found at the same distance as
before (`Scopes.Renames.distance?_swap`): the scopes that lie further in declared
neither the old name nor the new one.

* `Stmt.Renames.resolve`: what the walk finds in a statement without errors, it
  finds in the renamed one;
* `Stmt.RenamesAll.resolve_eq`: so it is for programs.
-/

namespace Lox

/-! ## Bindings of renamed names -/

/-- The second table binds the renamed names to what the first one binds the names to. -/
def Bindings.Renames {α : Type} (ρ : Renaming) (renamed : Bool) (b b' : Bindings α) : Prop :=
  ∀ name, b'.get? (ρ.swap renamed name) = b.get? name

namespace Bindings.Renames

variable {α : Type} {ρ : Renaming} {renamed : Bool} {b b' : Bindings α}

theorem empty : Renames ρ renamed (∅ : Bindings α) ∅ := fun _ => rfl

theorem insert (h : b.Renames ρ renamed b') (name : String) (value : α) :
    (b.insert name value).Renames ρ renamed (b'.insert (ρ.swap renamed name) value) := by
  intro other
  rw [get?_insert, get?_insert, h other]
  by_cases hn : name = other
  · rw [if_pos hn, if_pos (congrArg _ hn)]
  · have hs : ρ.swap renamed name ≠ ρ.swap renamed other := fun he => hn ((ρ.swap_inj _).mp he)
    rw [if_neg hn, if_neg hs]

theorem contains (h : b.Renames ρ renamed b') (name : String) :
    b'.contains (ρ.swap renamed name) = b.contains name :=
  congrArg Option.isSome (h name)

theorem get?_eq (h : b.Renames ρ renamed b') (name : String) :
    b'.get? name = b.get? (ρ.swap renamed name) := by
  have hs := h (ρ.swap renamed name)
  rwa [ρ.swap_swap] at hs

end Bindings.Renames

/-- However a name is renamed twice, it is not a third name. -/
theorem Renaming.swap_swap_eq_or (ρ : Renaming) (b c : Bool) {name : String} (hn : name ≠ ρ.new) :
    ρ.swap b (ρ.swap c name) = name ∨ ρ.swap b (ρ.swap c name) = ρ.new := by
  rcases ρ.swap_eq_or c hn with hc | ⟨rfl, hc⟩
  · rw [hc]
    rcases ρ.swap_eq_or b hn with hb | ⟨-, hb⟩
    · exact .inl hb
    · exact .inr hb
  · rw [hc]
    cases b with
    | false => exact .inr rfl
    | true => exact .inl ρ.swap_true_new

/-! ## Renamed scopes -/

/-- The second scopes are the first ones, with the names of some of them renamed. -/
inductive Scopes.Renames (ρ : Renaming) : List Bool → Scopes → Scopes → Prop
  | nil : Renames ρ [] [] []
  | cons {renamed : Bool} {flags : List Bool} {scope scope' : Scope} {outer outer' : Scopes}
    (h : scope.Renames ρ renamed scope') (ho : Renames ρ flags outer outer') :
    Renames ρ (renamed :: flags) (scope :: outer) (scope' :: outer')

namespace Scopes

theorem Lack.methodScopes {scopes : Scopes} {name : String} (h : scopes.Lack name)
    (ht : name ≠ "this") (hs : name ≠ "super") (hasSuperclass : Bool) :
    (Lox.methodScopes scopes hasSuperclass).Lack name := by
  have around {scopes : Scopes} (h : scopes.Lack name) {keyword : String} (hk : name ≠ keyword) :
      Lack ((∅ : Scope).insert keyword true :: scopes) name := by
    intro scope hm
    rcases List.mem_cons.mp hm with rfl | hm
    · rw [Bindings.contains_insert, Bindings.contains_empty, Bool.or_false]
      exact decide_eq_false (Ne.symm hk)
    · exact h scope hm
  cases hasSuperclass with
  | false => exact around h ht
  | true => exact around (around h hs) ht

namespace Renames

variable {ρ : Renaming} {flags : List Bool} {scopes scopes' : Scopes}

theorem push (h : Renames ρ flags scopes scopes') (renamed : Bool) :
    Renames ρ (renamed :: flags) (∅ :: scopes) (∅ :: scopes') :=
  .cons .empty h

theorem declare (h : Renames ρ flags scopes scopes') (name : String) :
    Renames ρ flags (scopes.declare name)
      (scopes'.declare (ρ.swap (flagAt flags (some 0)) name)) := by
  cases h with
  | nil => exact .nil
  | cons h ho => exact .cons (h.insert name false) ho

theorem define (h : Renames ρ flags scopes scopes') (name : String) :
    Renames ρ flags (scopes.define name)
      (scopes'.define (ρ.swap (flagAt flags (some 0)) name)) := by
  cases h with
  | nil => exact .nil
  | cons h ho => exact .cons (h.insert name true) ho

theorem bind (h : Renames ρ flags scopes scopes') (name : String) :
    Renames ρ flags (scopes.bind name) (scopes'.bind (ρ.swap (flagAt flags (some 0)) name)) :=
  (h.declare name).define name

theorem methodScopes (h : Renames ρ flags scopes scopes') (hasSuperclass : Bool) :
    Renames ρ (methodFlags flags hasSuperclass) (Lox.methodScopes scopes hasSuperclass)
      (Lox.methodScopes scopes' hasSuperclass) := by
  have around {flags : List Bool} {scopes scopes' : Scopes} (h : Renames ρ flags scopes scopes')
      (keyword : String) : Renames ρ (false :: flags)
        ((∅ : Scope).insert keyword true :: scopes) ((∅ : Scope).insert keyword true :: scopes') :=
    .cons (Bindings.Renames.empty.insert keyword true) h
  cases hasSuperclass with
  | false => exact around h "this"
  | true => exact around (around h "super") "this"

/-- A renamed name is found at the distance of the name, if the new name is not declared. -/
theorem distance?_swap (h : Renames ρ flags scopes scopes') (hl : scopes.Lack ρ.new)
    {name : String} (hn : name ≠ ρ.new) :
    scopes'.distance? (ρ.swap (flagAt flags (scopes.distance? name)) name) =
      scopes.distance? name := by
  induction h with
  | nil => rfl
  | @cons renamed flags scope scope' outer outer' h ho ih =>
    have ih := ih fun scope hs => hl scope (List.mem_cons_of_mem _ hs)
    rw [distance?_cons scope]
    cases hc : scope.contains name with
    | true =>
      rw [if_pos rfl, flagAt_cons_zero, distance?_cons, h.contains, hc]
      rfl
    | false =>
      have hflag : flagAt (renamed :: flags) ((outer.distance? name).map (· + 1)) =
          flagAt flags (outer.distance? name) := by
        cases outer.distance? name <;> rfl
      -- the scope declares neither the name nor the new one
      have hlack (other : String) (ho : other = name ∨ other = ρ.new) :
          scope.contains other = false := by
        rcases ho with rfl | rfl
        · exact hc
        · exact hl scope List.mem_cons_self
      have hc' : scope'.contains (ρ.swap (flagAt flags (outer.distance? name)) name) = false := by
        have hs := hlack _ (ρ.swap_swap_eq_or renamed (flagAt flags (outer.distance? name)) hn)
        rwa [Bindings.contains, ← h.get?_eq] at hs
      rw [if_neg Bool.false_ne_true, hflag, distance?_cons, hc', if_neg Bool.false_ne_true, ih]

/-- What is never renamed is found at the same distance. -/
theorem distance?_keyword (h : Renames ρ flags scopes scopes') (hl : scopes.Lack ρ.new)
    {name : String} (hn : name ≠ ρ.new) (hk : ∀ b, ρ.swap b name = name) :
    scopes'.distance? name = scopes.distance? name := by
  have hd := h.distance?_swap hl hn
  rwa [hk] at hd

end Renames

end Scopes

/-! ## Expressions -/

/-- What the walk knows at a visit: the name is not the new one, and the distance is the one that is
used for renaming. -/
structure Visit.Awaited (ρ : Renaming) (distance? : NodeId → Option Nat) (v : Visit) : Prop where
  ne : v.reference.name.text ≠ ρ.new
  distance? : distance? v.reference.id = v.distance?

section

variable {ρ : Renaming} {distance? : NodeId → Option Nat} {context : Context} {flags : List Bool}
  {scopes scopes' : Scopes}

theorem distanceFindings_swap (hs : Scopes.Renames ρ flags scopes scopes')
    (hl : scopes.Lack ρ.new) {kind : ReferenceKind} {id : NodeId} {name : Name}
    (hv : Visit.Awaited ρ distance? ⟨⟨kind, id, name⟩, scopes⟩) :
    distanceFindings scopes' id (ρ.name (flagAt flags (distance? id)) name) =
      distanceFindings scopes id name := by
  have hd : distance? id = scopes.distance? name.text := hv.distance?
  have hd' := hs.distance?_swap hl hv.ne
  unfold distanceFindings
  rw [Renaming.text_name, hd, hd']

theorem distanceFindings_keyword (hs : Scopes.Renames ρ flags scopes scopes')
    (hl : scopes.Lack ρ.new) (id : NodeId) {name : Name} (hn : name.text ≠ ρ.new)
    (hk : ∀ b, ρ.swap b name.text = name.text) :
    distanceFindings scopes' id name = distanceFindings scopes id name := by
  unfold distanceFindings
  rw [hs.distance?_keyword hl hn hk]

/-- A variable that is not read in its own initializer is not read there under its new name. -/
theorem inOwnInitializer_swap (hs : Scopes.Renames ρ flags scopes scopes')
    (hl : scopes.Lack ρ.new) {name : String} (hn : name ≠ ρ.new)
    (h : inOwnInitializer context scopes name = false) :
    inOwnInitializer context scopes'
      (ρ.swap (flagAt flags (scopes.distance? name)) name) = false := by
  have hd := hs.distance?_swap hl hn
  cases hs with
  | nil => exact h
  | @cons renamed flags inner inner' outer outer' hi ho =>
    cases hown : inOwnInitializer context (inner' :: outer') _ with
    | false => rfl
    | true =>
      have hf := of_decide_eq_true hown
      -- then the name is found in the innermost scope, and in no other
      rw [Scopes.distance?_cons inner', Bindings.contains, hf] at hd
      have hzero : Scopes.distance? (inner :: outer) name = some 0 := hd.symm
      rw [hzero, flagAt_cons_zero, hi name] at hf
      rw [inOwnInitializer, hf] at h
      exact absurd h (by simp)

mutual

theorem Expr.resolve_rename (hs : Scopes.Renames ρ flags scopes scopes') (hl : scopes.Lack ρ.new) :
    {e : Expr NodeId} → e.WellFormed → (∀ v ∈ e.visits scopes, v.Awaited ρ distance?) →
      Finding.Clean (e.resolve context scopes) →
      (e.rename ρ distance? flags).resolve context scopes' = e.resolve context scopes
  | .literal _, _, _, _ => by rw [Expr.rename, Expr.resolve, Expr.resolve]
  | .group inner, hw, hv, hc => by
    rw [Expr.visits] at hv
    rw [Expr.resolve] at hc
    rw [Expr.rename, Expr.resolve, Expr.resolve]
    exact Expr.resolve_rename hs hl (e := inner) hw hv hc
  | .unary _ right, ⟨_, hw⟩, hv, hc => by
    rw [Expr.visits] at hv
    rw [Expr.resolve] at hc
    rw [Expr.rename, Expr.resolve, Expr.resolve]
    exact Expr.resolve_rename hs hl hw hv hc
  | .binary left _ right, ⟨_, hwl, hwr⟩, hv, hc => by
    rw [Expr.visits, List.forall_mem_append] at hv
    rw [Expr.resolve, Finding.clean_append] at hc
    rw [Expr.rename, Expr.resolve, Expr.resolve, Expr.resolve_rename hs hl hwl hv.1 hc.1,
      Expr.resolve_rename hs hl hwr hv.2 hc.2]
  | .logical left _ right, ⟨_, hwl, hwr⟩, hv, hc => by
    rw [Expr.visits, List.forall_mem_append] at hv
    rw [Expr.resolve, Finding.clean_append] at hc
    rw [Expr.rename, Expr.resolve, Expr.resolve, Expr.resolve_rename hs hl hwl hv.1 hc.1,
      Expr.resolve_rename hs hl hwr hv.2 hc.2]
  | .variable id name, _, hv, hc => by
    rw [Expr.visits, List.forall_mem_singleton] at hv
    rw [Expr.resolve, Finding.clean_append] at hc
    have hd : distance? id = scopes.distance? name.text := hv.distance?
    have hown : inOwnInitializer context scopes name.text = false := by
      by_contra hown
      rw [Bool.not_eq_false] at hown
      rw [if_pos hown] at hc
      exact Finding.not_clean_error _ hc.1
    have hown' := inOwnInitializer_swap hs hl hv.ne hown
    rw [← hd] at hown'
    rw [Expr.rename, Expr.resolve, Expr.resolve, distanceFindings_swap hs hl hv, hown,
      Renaming.text_name, hown']
    rfl
  | .assign id name value, ⟨_, hw⟩, hv, hc => by
    rw [Expr.visits, List.forall_mem_append, List.forall_mem_singleton] at hv
    rw [Expr.resolve, Finding.clean_append] at hc
    rw [Expr.rename, Expr.resolve, Expr.resolve, Expr.resolve_rename hs hl hw hv.1 hc.1,
      distanceFindings_swap hs hl hv.2]
  | .call callee _ arguments, ⟨hwf, hwa⟩, hv, hc => by
    rw [Expr.visits, List.forall_mem_append] at hv
    rw [Expr.resolve, Finding.clean_append] at hc
    rw [Expr.rename, Expr.resolve, Expr.resolve, Expr.resolve_rename hs hl hwf hv.1 hc.1,
      Expr.resolveAll_rename hs hl hwa hv.2 hc.2]
  | .get object _, hw, hv, hc => by
    rw [Expr.visits] at hv
    rw [Expr.resolve] at hc
    rw [Expr.rename, Expr.resolve, Expr.resolve]
    exact Expr.resolve_rename hs hl (e := object) hw hv hc
  | .set object _ value, ⟨hwo, hwv⟩, hv, hc => by
    rw [Expr.visits, List.forall_mem_append] at hv
    rw [Expr.resolve, Finding.clean_append] at hc
    rw [Expr.rename, Expr.resolve, Expr.resolve, Expr.resolve_rename hs hl hwv hv.1 hc.1,
      Expr.resolve_rename hs hl hwo hv.2 hc.2]
  | .this id keyword, hw, hv, _ => by
    have hw : keyword.text = "this" := hw
    rw [Expr.visits, List.forall_mem_singleton] at hv
    rw [Expr.rename, Expr.resolve, Expr.resolve,
      distanceFindings_keyword hs hl id hv.ne fun b => by rw [hw, ρ.swap_this]]
  | .super id keyword _, hw, hv, _ => by
    have hw : keyword.text = "super" := hw
    rw [Expr.visits, List.forall_mem_singleton] at hv
    rw [Expr.rename, Expr.resolve, Expr.resolve,
      distanceFindings_keyword hs hl id hv.ne fun b => by rw [hw, ρ.swap_super]]

theorem Expr.resolveAll_rename (hs : Scopes.Renames ρ flags scopes scopes')
    (hl : scopes.Lack ρ.new) : {es : List (Expr NodeId)} → Expr.WellFormedAll es →
      (∀ v ∈ Expr.visitsAll scopes es, v.Awaited ρ distance?) →
      Finding.Clean (Expr.resolveAll context scopes es) →
      Expr.resolveAll context scopes' (Expr.renameAll ρ distance? flags es) =
        Expr.resolveAll context scopes es
  | [], _, _, _ => by rw [Expr.renameAll, Expr.resolveAll, Expr.resolveAll]
  | e :: es, ⟨hwe, hwes⟩, hv, hc => by
    rw [Expr.visitsAll, List.forall_mem_append] at hv
    rw [Expr.resolveAll, Finding.clean_append] at hc
    rw [Expr.renameAll, Expr.resolveAll, Expr.resolveAll, Expr.resolve_rename hs hl hwe hv.1 hc.1,
      Expr.resolveAll_rename hs hl hwes hv.2 hc.2]

end

theorem Expr.resolve?_rename (hs : Scopes.Renames ρ flags scopes scopes')
    (hl : scopes.Lack ρ.new) {o : Option (Expr NodeId)} (hw : Expr.WellFormed? o)
    (hv : ∀ v ∈ Expr.visits? scopes o, v.Awaited ρ distance?)
    (hc : Finding.Clean (Expr.resolve? context scopes o)) :
    Expr.resolve? context scopes' (o.map (Expr.rename ρ distance? flags)) =
      Expr.resolve? context scopes o := by
  cases o with
  | none => rfl
  | some e => exact Expr.resolve_rename hs hl (e := e) hw hv hc

/-! ## Statements -/

/-- The distances that the walk finds at visits are those that are used for renaming. -/
def Visit.AllKnown (distance? : NodeId → Option Nat) (vs : List Visit) : Prop :=
  ∀ v ∈ vs, distance? v.reference.id = v.distance?

theorem Visit.allKnown_append {vs vs' : List Visit} :
    Visit.AllKnown distance? (vs ++ vs') ↔
      Visit.AllKnown distance? vs ∧ Visit.AllKnown distance? vs' :=
  List.forall_mem_append

theorem Expr.awaited {e : Expr NodeId} (hn : ρ.new ∉ e.names)
    (hd : Visit.AllKnown distance? (e.visits scopes)) :
    ∀ v ∈ e.visits scopes, v.Awaited ρ distance? := by
  intro v hv
  refine ⟨fun he => hn ?_, hd v hv⟩
  exact List.mem_map.mpr ⟨v.reference, (Expr.mem_visits_iff.mp hv).1, he⟩

theorem Expr.awaited? {o : Option (Expr NodeId)} (hn : ρ.new ∉ Expr.names? o)
    (hd : Visit.AllKnown distance? (Expr.visits? scopes o)) :
    ∀ v ∈ Expr.visits? scopes o, v.Awaited ρ distance? := by
  cases o with
  | none =>
    intro v hv
    cases hv
  | some e => exact Expr.awaited hn hd

theorem FunDecl.name_mem_names (f : FunDecl NodeId) : f.name.text ∈ f.names := by
  cases f
  rw [FunDecl.names]
  exact List.mem_cons_self

theorem Stmt.declares_subset_names (s : Stmt NodeId) : s.declares ⊆ s.names := by
  intro n hn
  cases s with
  | var name initializer =>
    rw [List.mem_singleton.mp hn, Stmt.names]
    exact List.mem_cons_self
  | function declaration =>
    rw [List.mem_singleton.mp hn, Stmt.names]
    exact declaration.name_mem_names
  | «class» name superclass methods =>
    rw [List.mem_singleton.mp hn, Stmt.names]
    exact List.mem_cons_self
  | _ => cases hn

theorem Renaming.new_ne_this (ρ : Renaming) : ρ.new ≠ "this" := by
  intro h
  have hk := ρ.isIdentifier_new
  rw [h] at hk
  exact absurd hk (by decide +kernel)

theorem Renaming.new_ne_super (ρ : Renaming) : ρ.new ≠ "super" := by
  intro h
  have hk := ρ.isIdentifier_new
  rw [h] at hk
  exact absurd hk (by decide +kernel)

/-- Where no declaration is an error, neither is the renamed one. -/
theorem declarationFindings_swap (hs : Scopes.Renames ρ flags scopes scopes') {name : Name}
    (hc : Finding.Clean (declarationFindings scopes name)) :
    declarationFindings scopes' (ρ.name (flagAt flags (some 0)) name) =
      declarationFindings scopes name := by
  cases hs with
  | nil => rfl
  | @cons renamed flags inner inner' outer outer' hi ho =>
    unfold declarationFindings at hc ⊢
    cases hown : inner.contains name.text with
    | true =>
      simp only [hown, if_true] at hc
      exact absurd hc (Finding.not_clean_error _)
    | false =>
      have hown' := hi.contains name.text
      rw [hown] at hown'
      simp only [flagAt_cons_zero, Renaming.text_name, hown, hown', Bool.false_eq_true, if_false]

/-- A method is in the same surroundings as the renamed one. -/
theorem FunDecl.Renames.methodContext_eq {f f' : FunDecl NodeId}
    (h : f.Renames ρ distance? flags f') : methodContext context f' = methodContext context f := by
  rw [methodContext, methodContext, h.isInitializer_eq]

theorem resolveParams_rename {renamed : Bool} {params : List Name}
    (hs : Scopes.Renames ρ (renamed :: flags) scopes scopes')
    (hc : Finding.Clean (resolveParams scopes params).2) :
    (resolveParams scopes' (params.map (ρ.name renamed))).2 = (resolveParams scopes params).2 ∧
      Scopes.Renames ρ (renamed :: flags) (resolveParams scopes params).1
        (resolveParams scopes' (params.map (ρ.name renamed))).1 := by
  induction params generalizing scopes scopes' with
  | nil => exact ⟨rfl, hs⟩
  | cons p ps ih =>
    rw [resolveParams_cons, Finding.clean_append] at hc
    obtain ⟨hfound, hinside⟩ := ih (hs.bind p.text) hc.2
    have hfirst := declarationFindings_swap hs hc.1
    rw [List.map_cons, resolveParams_cons, resolveParams_cons]
    exact ⟨congrArg₂ (· ++ ·) hfirst hfound, hinside⟩

/-- A renamed superclass does not become the name of its class. -/
theorem superclassFindings_rename {name : Name} {e : Expr NodeId} (hn : name.text ≠ ρ.new)
    (he : e.IsSuperclass) (hf : ρ.new ∉ e.names) (hc : Finding.Clean (superclassFindings name e)) :
    superclassFindings name (e.rename ρ distance? flags) = superclassFindings name e := by
  obtain ⟨id, own, rfl, -⟩ := he.exists_eq
  have hown : own.text ≠ ρ.new := fun h => hf (List.mem_singleton.mpr h.symm)
  rw [superclassFindings] at hc
  rw [Expr.rename, superclassFindings, superclassFindings]
  by_cases heq : own.text = name.text
  · rw [if_pos heq] at hc
    exact absurd hc (Finding.not_clean_error _)
  · have heq' : ρ.swap (flagAt flags (distance? id)) own.text ≠ name.text := by
      rcases ρ.swap_eq_or (flagAt flags (distance? id)) hown with h | ⟨-, h⟩
      · rw [h]
        exact heq
      · rw [h]
        exact hn.symm
    rw [if_neg heq, Renaming.text_name, if_neg heq']

mutual

/-- The walk finds the same in a renamed statement, and its scopes after it are renamed too. -/
theorem Stmt.Renames.resolve {context : Context} {flags : List Bool} {scopes scopes' : Scopes}
    {s s' : Stmt NodeId} : s.Renames ρ distance? flags s' →
      Scopes.Renames ρ flags scopes scopes' → scopes.Lack ρ.new → s.WellFormed → ρ.new ∉ s.names →
      Visit.AllKnown distance? (s.visits scopes) → Finding.Clean (s.resolve context scopes).2 →
      (s'.resolve context scopes').2 = (s.resolve context scopes).2 ∧
        Scopes.Renames ρ flags (s.resolve context scopes).1 (s'.resolve context scopes').1
  | .expression e, hs, hl, hw, hn, hd, hc => by
    rw [Stmt.names] at hn
    rw [Stmt.visits] at hd
    rw [Stmt.resolve] at hc
    rw [Stmt.resolve, Stmt.resolve]
    exact ⟨Expr.resolve_rename hs hl hw (Expr.awaited hn hd) hc, hs⟩
  | .print e, hs, hl, hw, hn, hd, hc => by
    rw [Stmt.names] at hn
    rw [Stmt.visits] at hd
    rw [Stmt.resolve] at hc
    rw [Stmt.resolve, Stmt.resolve]
    exact ⟨Expr.resolve_rename hs hl hw (Expr.awaited hn hd) hc, hs⟩
  | .var name initializer, hs, hl, ⟨_, hw⟩, hn, hd, hc => by
    rw [Stmt.names, List.mem_cons, not_or] at hn
    rw [Stmt.visits] at hd
    rw [Stmt.resolve, Finding.clean_append] at hc
    have hinside := hs.declare name.text
    have hlack := hl.declare (Ne.symm hn.1)
    have hfirst := declarationFindings_swap hs hc.1
    have hvalue (context : Context)
        (hc : Finding.Clean (Expr.resolve? context (scopes.declare name.text) initializer)) :=
      Expr.resolve?_rename hinside hlack hw (Expr.awaited? hn.2 hd) hc
    rw [Stmt.resolve, Stmt.resolve]
    refine ⟨congrArg₂ (· ++ ·) hfirst ?_, hinside.define name.text⟩
    cases hs with
    | nil => exact hvalue _ hc.2
    | cons h ho => exact hvalue _ hc.2
  | .block renamed hb, hs, hl, hw, hn, hd, hc => by
    rw [Stmt.names] at hn
    rw [Stmt.visits] at hd
    rw [Stmt.resolve] at hc
    rw [Stmt.resolve, Stmt.resolve]
    exact ⟨hb.resolveAll (hs.push renamed) hl.push hw hn hd hc, hs⟩
  | .ifThen condition hb, hs, hl, ⟨hw, ⟨_, hwb⟩, _⟩, hn, hd, hc => by
    rw [Stmt.names, List.mem_append, List.mem_append, not_or, not_or] at hn
    rw [Stmt.visits, Visit.allKnown_append, Visit.allKnown_append] at hd
    rw [Stmt.resolve_ifElse, Finding.clean_append, Finding.clean_append] at hc
    have hcond := Expr.resolve_rename hs hl hw (Expr.awaited hn.1.1 hd.1.1) hc.1.1
    obtain ⟨hbranch, hafter⟩ := hb.resolve hs hl hwb hn.1.2 hd.1.2 hc.1.2
    rw [Stmt.resolve_ifElse, Stmt.resolve_ifElse, hcond, hbranch, Stmt.resolve?, Stmt.resolve?]
    exact ⟨rfl, hafter⟩
  | .ifElse condition hb he, hs, hl, ⟨hw, ⟨hdecl, hwb⟩, ⟨_, hwe⟩⟩, hn, hd, hc => by
    rw [Stmt.names, List.mem_append, List.mem_append, not_or, not_or, Stmt.names?] at hn
    rw [Stmt.visits, Visit.allKnown_append, Visit.allKnown_append, Stmt.visits?] at hd
    rw [Stmt.resolve_ifElse, Finding.clean_append, Finding.clean_append, Stmt.resolve?,
      Stmt.fst_resolve hwb, hdecl, Scopes.bindAll_nil] at hc
    have hcond := Expr.resolve_rename hs hl hw (Expr.awaited hn.1.1 hd.1.1) hc.1.1
    obtain ⟨hbranch, hafter⟩ := hb.resolve hs hl hwb hn.1.2 hd.1.2 hc.1.2
    rw [Stmt.fst_resolve hwb, hdecl, Scopes.bindAll_nil] at hafter
    obtain ⟨helse, hend⟩ := he.resolve hafter hl hwe hn.2 hd.2 hc.2
    rw [Stmt.resolve_ifElse, Stmt.resolve_ifElse, hcond, hbranch, Stmt.resolve?, Stmt.resolve?,
      Stmt.fst_resolve hwb, hdecl, Scopes.bindAll_nil, helse]
    exact ⟨rfl, hend⟩
  | .while condition hb, hs, hl, ⟨hw, _, hwb⟩, hn, hd, hc => by
    rw [Stmt.names, List.mem_append, not_or] at hn
    rw [Stmt.visits, Visit.allKnown_append] at hd
    rw [Stmt.resolve_while, Finding.clean_append] at hc
    have hcond := Expr.resolve_rename hs hl hw (Expr.awaited hn.1 hd.1) hc.1
    obtain ⟨hbody, hafter⟩ := hb.resolve hs hl hwb hn.2 hd.2 hc.2
    rw [Stmt.resolve_while, Stmt.resolve_while, hcond, hbody]
    exact ⟨rfl, hafter⟩
  | .function (f := f) hname hf, hs, hl, hw, hn, hd, hc => by
    rw [Stmt.names] at hn
    rw [Stmt.visits] at hd
    rw [Stmt.resolve, Finding.clean_append] at hc
    have hfirst := declarationFindings_swap hs hc.1
    rw [ρ.name_eq_self hname] at hfirst
    have hinside := hs.bind f.name.text
    rw [hname] at hinside
    have hlack : (scopes.bind f.name.text).Lack ρ.new :=
      hl.bind fun he => hn (he ▸ FunDecl.name_mem_names f)
    have hbody := hf.resolve hinside hlack hw hn hd hc.2
    rw [Stmt.resolve, Stmt.resolve, hf.name_eq]
    exact ⟨congrArg₂ (· ++ ·) hfirst hbody, hinside⟩
  | .return keyword value, hs, hl, hw, hn, hd, hc => by
    rw [Stmt.names] at hn
    rw [Stmt.visits] at hd
    rw [Stmt.resolve, Finding.clean_append] at hc
    rw [Stmt.resolve, Stmt.resolve, Option.isSome_map]
    have hvalue := Expr.resolve?_rename hs hl hw (Expr.awaited? hn hd) hc.2
    exact ⟨congrArg (returnFindings context keyword value.isSome ++ ·) hvalue, hs⟩
  | .class name superclass hname hm, hs, hl, ⟨_, hws, hwm⟩, hn, hd, hc => by
    rw [Stmt.names, List.mem_cons, List.mem_append, not_or, not_or] at hn
    rw [Stmt.visits, Visit.allKnown_append] at hd
    simp only [Stmt.resolve, Finding.clean_append] at hc
    have hfirst := declarationFindings_swap hs hc.1.1
    rw [ρ.name_eq_self hname] at hfirst
    have hinside := hs.bind name.text
    rw [hname] at hinside
    have hlack : (scopes.bind name.text).Lack ρ.new := hl.bind (Ne.symm hn.1)
    have hmethods := hm.resolveMethods (hinside.methodScopes superclass.isSome)
      (hlack.methodScopes ρ.new_ne_this ρ.new_ne_super _) hwm hn.2.2 hd.2 hc.2
    refine ⟨?_, ?_⟩
    · simp only [Stmt.resolve, Option.isSome_map, hmethods, hfirst]
      cases superclass with
      | none => rfl
      | some e =>
        have hsuper := hws e rfl
        obtain ⟨id, own, rfl, hw⟩ := hsuper.exists_eq
        have hce := hc.1.2
        rw [Finding.clean_append] at hce
        have hrule : superclassFindings name (Expr.rename ρ distance? flags (.variable id own)) =
            superclassFindings name (.variable id own) :=
          superclassFindings_rename (Ne.symm hn.1) hsuper hn.2.1 hce.1
        have he := Expr.resolve_rename hinside hlack (e := .variable id own) hw
          (Expr.awaited hn.2.1 hd.1) hce.2
        simp only [Option.map_some, hrule]
        rw [he]
    · simpa only [Stmt.resolve] using hinside

/-- The same for several statements. -/
theorem Stmt.RenamesAll.resolveAll {context : Context} {flags : List Bool}
    {scopes scopes' : Scopes} {ss ss' : List (Stmt NodeId)} :
    Stmt.RenamesAll ρ distance? flags ss ss' → Scopes.Renames ρ flags scopes scopes' →
      scopes.Lack ρ.new → Stmt.WellFormedAll ss → ρ.new ∉ Stmt.namesAll ss →
      Visit.AllKnown distance? (Stmt.visitsAll scopes ss) →
      Finding.Clean (Stmt.resolveAll context scopes ss).2 →
      (Stmt.resolveAll context scopes' ss').2 = (Stmt.resolveAll context scopes ss).2
  | .nil, _, _, _, _, _, _ => by rw [Stmt.resolveAll, Stmt.resolveAll]
  | .cons (s := s) h hss, hs, hl, ⟨hw, hws⟩, hn, hd, hc => by
    rw [Stmt.namesAll, List.mem_append, not_or] at hn
    rw [Stmt.visitsAll, Visit.allKnown_append] at hd
    rw [Stmt.resolveAll_cons, Finding.clean_append] at hc
    obtain ⟨hfirst, hafter⟩ := h.resolve hs hl hw hn.1 hd.1 hc.1
    rw [Stmt.fst_resolve hw] at hafter hc
    have hlack := hl.bindAll fun n hmem he => hn.1 (he ▸ s.declares_subset_names hmem)
    have hrest := hss.resolveAll hafter hlack hws hn.2 hd.2 hc.2
    rw [Stmt.resolveAll_cons, Stmt.resolveAll_cons, hfirst, Stmt.fst_resolve hw, hrest]

/-- The same for a function. -/
theorem FunDecl.Renames.resolve {context : Context} {flags : List Bool}
    {scopes scopes' : Scopes} {f f' : FunDecl NodeId} :
    f.Renames ρ distance? flags f' → Scopes.Renames ρ flags scopes scopes' →
      scopes.Lack ρ.new → f.WellFormed → ρ.new ∉ f.names →
      Visit.AllKnown distance? (f.visits scopes) → Finding.Clean (f.resolve context scopes) →
      f'.resolve context scopes' = f.resolve context scopes
  | .mk renamed name params hb, hs, hl, ⟨_, _, hw⟩, hn, hd, hc => by
    rw [FunDecl.names, List.mem_cons, List.mem_append, not_or, not_or] at hn
    rw [FunDecl.visits, ← fst_resolveParams] at hd
    rw [FunDecl.resolve_mk, Finding.clean_append] at hc
    obtain ⟨hparams, hinside⟩ := resolveParams_rename (hs.push renamed) hc.1
    have hlack : (Scopes.bindAll (∅ :: scopes) (params.map Name.text)).Lack ρ.new :=
      hl.push.bindAll fun n hmem he => hn.2.1 (he ▸ hmem)
    rw [← fst_resolveParams] at hlack
    have hbody := hb.resolveAll hinside hlack hw hn.2.2 hd hc.2
    rw [FunDecl.resolve_mk, FunDecl.resolve_mk, hparams, hbody]

/-- The same for the methods of a class. -/
theorem FunDecl.RenamesAll.resolveMethods {context : Context} {flags : List Bool}
    {scopes scopes' : Scopes} {fs fs' : List (FunDecl NodeId)} :
    FunDecl.RenamesAll ρ distance? flags fs fs' → Scopes.Renames ρ flags scopes scopes' →
      scopes.Lack ρ.new → FunDecl.WellFormedAll fs → ρ.new ∉ FunDecl.namesAll fs →
      Visit.AllKnown distance? (FunDecl.visitsAll scopes fs) →
      Finding.Clean (FunDecl.resolveMethods context scopes fs) →
      FunDecl.resolveMethods context scopes' fs' = FunDecl.resolveMethods context scopes fs
  | .nil, _, _, _, _, _, _ => by rw [FunDecl.resolveMethods, FunDecl.resolveMethods]
  | .cons hf hfs, hs, hl, ⟨hw, hws⟩, hn, hd, hc => by
    rw [FunDecl.namesAll, List.mem_append, not_or] at hn
    rw [FunDecl.visitsAll, Visit.allKnown_append] at hd
    rw [FunDecl.resolveMethods, Finding.clean_append] at hc
    rw [FunDecl.resolveMethods, FunDecl.resolveMethods, hf.methodContext_eq,
      hf.resolve hs hl hw hn.1 hd.1 hc.1, hfs.resolveMethods hs hl hws hn.2 hd.2 hc.2]

end

/-! ## Programs -/

/-- The walk finds the same in a program without errors and in the renamed one. -/
theorem Stmt.RenamesAll.resolve_eq {program program' : List (Stmt NodeId)}
    (h : Stmt.RenamesAll ρ distance? [] program program') (hw : Stmt.WellFormedAll program)
    (hn : ρ.new ∉ Stmt.namesAll program)
    (hd : Visit.AllKnown distance? (Stmt.visitsAll [] program))
    (hc : (Lox.resolve program).errors = []) : Lox.resolve program' = Lox.resolve program := by
  have hf := h.resolveAll .nil (Scopes.Lack.nil _) hw hn hd (Finding.clean_iff_errors_eq_nil.mpr hc)
  exact congrArg Resolution.ofFindings hf

end

end Lox
