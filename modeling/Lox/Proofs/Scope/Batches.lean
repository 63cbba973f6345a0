import Lox.Proofs.Scope.Visits
import Mathlib.Data.List.Perm.Subperm

/-!
# Programs one after another

The walk carries nothing from one statement of a program to the next: at the top
there is no scope that a declaration could change. So the findings of a program
are those of its first part and then those of the rest.

* `errors_resolve_append`, `distances_resolve_append`: the findings of two programs, one after the
  other;
* `nodup_distances_resolve`, `mem_idsAll_of_get?_table`: a distance is found once at most for a node,
  and only for a reference of the program;
* `NumberedApart`: programs with numbers of their own, as parsed programs have
  (`numberedApart_numberEach`). The table of two of them is the union of their tables
  (`NumberedApart.get?_table_append`).
-/

namespace Lox

/-! ## The walk at the top -/

mutual

/-- No statement opens a scope for those after it. -/
theorem Stmt.fst_resolve_nil (context : Context) :
    (statement : Stmt NodeId) → (statement.resolve context []).1 = []
  | .expression _ | .print _ | .block _ | .return _ _ => by simp only [Stmt.resolve]
  | .var _ _ | .function _ | .class _ _ _ => by
    simp only [Stmt.resolve]
    rfl
  | .ifElse condition thenBranch elseBranch => by
    rw [Stmt.resolve_ifElse, thenBranch.fst_resolve_nil context]
    exact Stmt.fst_resolve?_nil context elseBranch
  | .while condition body => by
    rw [Stmt.resolve_while]
    exact body.fst_resolve_nil context

theorem Stmt.fst_resolve?_nil (context : Context) :
    (statement : Option (Stmt NodeId)) → (Stmt.resolve? context [] statement).1 = []
  | none => by simp only [Stmt.resolve?]
  | some statement => by
    simp only [Stmt.resolve?]
    exact statement.fst_resolve_nil context

end

theorem Stmt.snd_resolveAll_append (context : Context) (p₁ p₂ : List (Stmt NodeId)) :
    (Stmt.resolveAll context [] (p₁ ++ p₂)).2 =
      (Stmt.resolveAll context [] p₁).2 ++ (Stmt.resolveAll context [] p₂).2 := by
  induction p₁ with
  | nil => simp only [List.nil_append, Stmt.resolveAll]
  | cons statement rest ih =>
    simp only [List.cons_append, Stmt.resolveAll_cons, Stmt.fst_resolve_nil, ih,
      List.append_assoc]

section

variable (p₁ p₂ : List (Stmt NodeId))

theorem errors_resolve_append :
    (resolve (p₁ ++ p₂)).errors = (resolve p₁).errors ++ (resolve p₂).errors := by
  simp only [resolve, Resolution.ofFindings, Stmt.snd_resolveAll_append, List.filterMap_append]

theorem distances_resolve_append :
    (resolve (p₁ ++ p₂)).distances = (resolve p₁).distances ++ (resolve p₂).distances := by
  simp only [resolve, Resolution.ofFindings, Stmt.snd_resolveAll_append, List.filterMap_append]

end

/-! ## Nodes with a distance -/

/-- The findings record distances for these references only, and one at most for each of them. -/
def Finding.AreOf (rs : List Reference) (fs : List Finding) : Prop :=
  ((Finding.entries fs).map Prod.fst).Subperm (Reference.ids rs)

namespace Finding.AreOf

variable {rs rs' : List Reference} {fs fs' : List Finding}

theorem of_entries_eq_nil (h : Finding.entries fs = []) : AreOf rs fs := by
  rw [AreOf, h]
  exact List.nil_subperm

theorem append (h : AreOf rs fs) (h' : AreOf rs' fs') : AreOf (rs ++ rs') (fs ++ fs') := by
  rw [AreOf, Finding.entries_append, List.map_append, Reference.ids_append]
  exact List.Subperm.append h h'

/-- The findings about the later references may come first. -/
theorem append_swap (h : AreOf rs fs) (h' : AreOf rs' fs') : AreOf (rs' ++ rs) (fs ++ fs') := by
  have hperm : (Reference.ids (rs ++ rs')).Perm (Reference.ids (rs' ++ rs)) :=
    List.perm_append_comm.map Reference.id
  exact List.Subperm.trans (h.append h') hperm.subperm

/-- Errors record no distance. -/
theorem after (h' : AreOf rs fs') (h : Finding.entries fs = []) : AreOf rs (fs ++ fs') := by
  rw [AreOf, Finding.entries_append, h]
  exact h'

end Finding.AreOf

theorem areOf_distanceFindings (scopes : Scopes) (kind : ReferenceKind) (id : NodeId)
    (name : Name) : Finding.AreOf [⟨kind, id, name⟩] (distanceFindings scopes id name) := by
  unfold distanceFindings
  split
  · exact List.Subperm.refl [id]
  · exact .of_entries_eq_nil rfl

mutual

theorem Expr.areOf_resolve (context : Context) (scopes : Scopes) :
    (e : Expr NodeId) → Finding.AreOf e.references (e.resolve context scopes)
  | .literal _ => .of_entries_eq_nil rfl
  | .group inner => by
    rw [Expr.resolve, Expr.references]
    exact inner.areOf_resolve context scopes
  | .unary _ right => by
    rw [Expr.resolve, Expr.references]
    exact right.areOf_resolve context scopes
  | .binary left _ right => by
    rw [Expr.resolve, Expr.references]
    exact (left.areOf_resolve context scopes).append (right.areOf_resolve context scopes)
  | .logical left _ right => by
    rw [Expr.resolve, Expr.references]
    exact (left.areOf_resolve context scopes).append (right.areOf_resolve context scopes)
  | .variable id name => by
    rw [Expr.resolve, Expr.references]
    refine (areOf_distanceFindings scopes .variable id name).after ?_
    split <;> rfl
  | .assign id name value => by
    rw [Expr.resolve, Expr.references]
    exact (value.areOf_resolve context scopes).append_swap
      (areOf_distanceFindings scopes .assign id name)
  | .call callee _ arguments => by
    rw [Expr.resolve, Expr.references]
    exact (callee.areOf_resolve context scopes).append
      (Expr.areOf_resolveAll context scopes arguments)
  | .get object _ => by
    rw [Expr.resolve, Expr.references]
    exact object.areOf_resolve context scopes
  | .set object _ value => by
    rw [Expr.resolve, Expr.references]
    exact (value.areOf_resolve context scopes).append_swap (object.areOf_resolve context scopes)
  | .this id keyword => by
    rw [Expr.resolve, Expr.references]
    split
    · exact .of_entries_eq_nil rfl
    · exact areOf_distanceFindings scopes .this id keyword
  | .super id keyword _ => by
    rw [Expr.resolve, Expr.references]
    refine (areOf_distanceFindings scopes .super id keyword).after ?_
    split <;> rfl

theorem Expr.areOf_resolveAll (context : Context) (scopes : Scopes) :
    (es : List (Expr NodeId)) →
      Finding.AreOf (Expr.referencesAll es) (Expr.resolveAll context scopes es)
  | [] => .of_entries_eq_nil rfl
  | e :: es => by
    rw [Expr.resolveAll, Expr.referencesAll]
    exact (e.areOf_resolve context scopes).append (Expr.areOf_resolveAll context scopes es)

end

theorem Expr.areOf_resolve? (context : Context) (scopes : Scopes) :
    (o : Option (Expr NodeId)) →
      Finding.AreOf (Expr.references? o) (Expr.resolve? context scopes o)
  | none => .of_entries_eq_nil rfl
  | some e => e.areOf_resolve context scopes

mutual

theorem Stmt.areOf_resolve (context : Context) (scopes : Scopes) :
    (statement : Stmt NodeId) →
      Finding.AreOf statement.references (statement.resolve context scopes).2
  | .expression e => by
    rw [Stmt.resolve, Stmt.references]
    exact e.areOf_resolve context scopes
  | .print e => by
    rw [Stmt.resolve, Stmt.references]
    exact e.areOf_resolve context scopes
  | .var name initializer => by
    rw [Stmt.resolve, Stmt.references]
    exact (Expr.areOf_resolve? _ _ initializer).after (entries_declarationFindings scopes name)
  | .block body => by
    rw [Stmt.resolve, Stmt.references]
    exact Stmt.areOf_resolveAll context _ body
  | .ifElse condition thenBranch elseBranch => by
    rw [Stmt.resolve_ifElse, Stmt.references]
    exact ((condition.areOf_resolve context scopes).append
      (thenBranch.areOf_resolve context scopes)).append (Stmt.areOf_resolve? context _ elseBranch)
  | .while condition body => by
    rw [Stmt.resolve_while, Stmt.references]
    exact (condition.areOf_resolve context scopes).append (body.areOf_resolve context scopes)
  | .function declaration => by
    rw [Stmt.resolve, Stmt.references]
    exact (declaration.areOf_resolve _ _).after
      (entries_declarationFindings scopes declaration.name)
  | .return keyword value => by
    rw [Stmt.resolve, Stmt.references]
    exact (Expr.areOf_resolve? context scopes value).after
      (entries_returnFindings context keyword _)
  | .class name superclass methods => by
    simp only [Stmt.resolve, Stmt.references]
    refine .append (.after ?_ (entries_declarationFindings scopes name))
      (FunDecl.areOf_resolveMethods _ _ methods)
    cases superclass with
    | none => exact .of_entries_eq_nil rfl
    | some e => exact (e.areOf_resolve _ _).after (entries_superclassFindings name e)

theorem Stmt.areOf_resolve? (context : Context) (scopes : Scopes) :
    (o : Option (Stmt NodeId)) →
      Finding.AreOf (Stmt.references? o) (Stmt.resolve? context scopes o).2
  | none => by
    rw [Stmt.resolve?]
    exact .of_entries_eq_nil rfl
  | some statement => by
    rw [Stmt.resolve?, Stmt.references?]
    exact statement.areOf_resolve context scopes

theorem Stmt.areOf_resolveAll (context : Context) (scopes : Scopes) :
    (ss : List (Stmt NodeId)) →
      Finding.AreOf (Stmt.referencesAll ss) (Stmt.resolveAll context scopes ss).2
  | [] => by
    rw [Stmt.resolveAll]
    exact .of_entries_eq_nil rfl
  | statement :: rest => by
    rw [Stmt.resolveAll_cons, Stmt.referencesAll]
    exact (statement.areOf_resolve context scopes).append (Stmt.areOf_resolveAll context _ rest)

theorem FunDecl.areOf_resolve (context : Context) (scopes : Scopes) :
    (f : FunDecl NodeId) → Finding.AreOf f.references (f.resolve context scopes)
  | .mk _ params body => by
    rw [FunDecl.resolve_mk, FunDecl.references]
    exact (Stmt.areOf_resolveAll context _ body).after (entries_resolveParams _ params)

theorem FunDecl.areOf_resolveMethods (context : Context) (scopes : Scopes) :
    (fs : List (FunDecl NodeId)) →
      Finding.AreOf (FunDecl.referencesAll fs) (FunDecl.resolveMethods context scopes fs)
  | [] => by
    rw [FunDecl.resolveMethods]
    exact .of_entries_eq_nil rfl
  | f :: fs => by
    rw [FunDecl.resolveMethods, FunDecl.referencesAll]
    exact (f.areOf_resolve _ scopes).append (FunDecl.areOf_resolveMethods context scopes fs)

end

/-- If no two references of a program have the same number, no two distances are recorded for one. -/
theorem nodup_distances_resolve {program : List (Stmt NodeId)}
    (h : (Reference.ids (Stmt.referencesAll program)).Nodup) :
    ((resolve program).distances.map Prod.fst).Nodup := by
  obtain ⟨ids, hperm, hsub⟩ := Stmt.areOf_resolveAll .top [] program
  rw [resolve, Resolution.distances_ofFindings]
  exact hperm.nodup_iff.mp (h.sublist hsub)

/-! ## Tables -/

/-- The table of a program alone. -/
def Resolution.table (r : Resolution) : DistanceTable := .merge .empty r.distances

namespace DistanceTable

theorem merge_append (table : DistanceTable) (ds₁ ds₂ : List (NodeId × Nat)) :
    table.merge (ds₁ ++ ds₂) = (table.merge ds₁).merge ds₂ :=
  congrArg DistanceTable.mk Std.HashMap.insertMany_append

/-- What is merged into a table comes before what the table held. -/
theorem get?_merge (table : DistanceTable) (r : Resolution) (id : NodeId) :
    (table.merge r.distances).get? id = (r.table.get? id).or (table.get? id) := by
  rw [Resolution.table, get?_merge_empty]
  exact Std.HashMap.getElem?_insertMany_list

end DistanceTable

/-- The numbers of the references of a program. -/
def Stmt.idsAll (program : List (Stmt NodeId)) : List NodeId :=
  Reference.ids (Stmt.referencesAll program)

/-- A program has distances for its own references only. -/
theorem mem_idsAll_of_get?_table {program : List (Stmt NodeId)} {id : NodeId} {d : Nat}
    (h : (resolve program).table.get? id = some d) : id ∈ Stmt.idsAll program := by
  have hkeys : id ∈ (resolve program).distances.map Prod.fst := by
    by_contra hn
    have hc : ((resolve program).distances.map Prod.fst).contains id = false := by
      simpa using hn
    rw [Resolution.table, DistanceTable.merge, DistanceTable.get?,
      Std.HashMap.getElem?_insertMany_list_of_contains_eq_false hc] at h
    cases h.symm.trans (DistanceTable.get?_empty_eq_none id)
  rw [resolve, Resolution.distances_ofFindings] at hkeys
  exact List.Subperm.subset (Stmt.areOf_resolveAll .top [] program) hkeys

/-- Programs of which no two have a number in common. -/
def NumberedApart (programs : Set (List (Stmt NodeId))) : Prop :=
  ∀ p ∈ programs, ∀ q ∈ programs, ∀ id ∈ Stmt.idsAll p, id ∈ Stmt.idsAll q → p = q

namespace NumberedApart

variable {programs : Set (List (Stmt NodeId))} {p q : List (Stmt NodeId)} {id : NodeId} {d : Nat}

/-- Two programs give no node two distances. -/
theorem get?_table_eq (h : NumberedApart programs) (hp : p ∈ programs) (hq : q ∈ programs)
    {d' : Nat} (hd : (resolve p).table.get? id = some d)
    (hd' : (resolve q).table.get? id = some d') : d = d' := by
  obtain rfl := h p hp q hq id (mem_idsAll_of_get?_table hd) (mem_idsAll_of_get?_table hd')
  exact Option.some.inj (hd.symm.trans hd')

/-- The table of two programs, one after the other, is the union of their tables. -/
theorem get?_table_append (h : NumberedApart programs) (hp : p ∈ programs) (hq : q ∈ programs) :
    (resolve (p ++ q)).table.get? id = some d ↔
      (resolve p).table.get? id = some d ∨ (resolve q).table.get? id = some d := by
  rw [Resolution.table, distances_resolve_append, DistanceTable.merge_append,
    DistanceTable.get?_merge]
  show ((resolve q).table.get? id).or ((resolve p).table.get? id) = some d ↔ _
  cases hd : (resolve q).table.get? id with
  | none => simp
  | some d' =>
    rw [Option.some_or]
    refine ⟨.inr, fun hor => hor.elim (fun hp' => ?_) fun hq' => hq'⟩
    rw [h.get?_table_eq hp hq hp' hd]

end NumberedApart

/-- Numbers the nodes of programs, from one program to the next. -/
def Stmt.numberEach (start : NodeId) : List (List (Stmt Unit)) → List (List (Stmt NodeId))
  | [] => []
  | p :: ps =>
    let (p, next) := (Stmt.numberAll p).run start
    p :: Stmt.numberEach next ps

/-- A program has the numbers from the first one to the next free one. -/
theorem mem_idsAll_number_iff {p : List (Stmt Unit)} {start id : NodeId} :
    id ∈ Stmt.idsAll ((Stmt.numberAll p).run start).1 ↔
      start ≤ id ∧ id < ((Stmt.numberAll p).run start).2 := by
  obtain ⟨hle, hids⟩ := ids_numberAll p start
  rw [Stmt.idsAll, hids, List.mem_range'_1, Nat.add_sub_cancel' hle]

theorem Stmt.le_of_mem_numberEach {ps : List (List (Stmt Unit))} {start id : NodeId}
    {p : List (Stmt NodeId)} (hp : p ∈ Stmt.numberEach start ps) (hid : id ∈ Stmt.idsAll p) :
    start ≤ id := by
  induction ps generalizing start with
  | nil => cases hp
  | cons q qs ih =>
    rcases List.mem_cons.mp hp with rfl | hp
    · exact (mem_idsAll_number_iff.mp hid).1
    · exact Nat.le_trans (ids_numberAll q start).1 (ih hp)

/-- Numbered in turn, programs are numbered apart. -/
theorem numberedApart_numberEach (start : NodeId) (ps : List (List (Stmt Unit))) :
    NumberedApart {p | p ∈ Stmt.numberEach start ps} := by
  induction ps generalizing start with
  | nil => exact fun p hp => nomatch hp
  | cons q qs ih =>
    have hlater {p : List (Stmt NodeId)} {id : NodeId}
        (hp : p ∈ Stmt.numberEach ((Stmt.numberAll q).run start).2 qs) (hid : id ∈ Stmt.idsAll p) :
        id ∉ Stmt.idsAll ((Stmt.numberAll q).run start).1 := fun hfirst =>
      absurd (mem_idsAll_number_iff.mp hfirst).2 (Nat.not_lt_of_le (Stmt.le_of_mem_numberEach hp hid))
    intro p hp p' hp' id hid hid'
    rcases List.mem_cons.mp hp with rfl | hp <;> rcases List.mem_cons.mp hp' with rfl | hp'
    · rfl
    · exact absurd hid (hlater hp' hid')
    · exact absurd hid' (hlater hp hid)
    · exact ih _ p hp p' hp' id hid hid'

end Lox
