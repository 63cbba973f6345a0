import Lox.Proofs.Syntax.WellFormed
import Lox.Syntax.References

/-!
# Numbered trees

Numbering gives the nodes that name a binding consecutive numbers, in the order
in which `Stmt.references` lists them, and changes nothing else. `Allots m Q`
says it of any action that takes numbers: from `k` on it takes the numbers of
some interval, and `Q` holds of its value and of these numbers.

* `ids_numberAll`: the references of a numbered program have the numbers of the
  interval that it took, in order;
* `wellFormedAll_numberAll`: it is well-formed if the program was.
-/

namespace Lox

/-- From `k` on, an action takes consecutive numbers of which, with its value, `Q` holds. -/
def Allots {α : Type} (m : StateM Nat α) (Q : α → List NodeId → Prop) : Prop :=
  ∀ k, ∃ n, (m.run k).2 = k + n ∧ Q (m.run k).1 (List.range' k n)

section

variable {α β : Type}

theorem allots_pure {Q : α → List NodeId → Prop} {a : α} (h : Q a []) : Allots (pure a) Q :=
  fun _ => ⟨0, rfl, h⟩

theorem Allots.bind {m : StateM Nat α} {f : α → StateM Nat β} {Q : α → List NodeId → Prop}
    {R : β → List NodeId → Prop} (hm : Allots m Q)
    (hf : ∀ a ids, Q a ids → Allots (f a) fun b ids' => R b (ids ++ ids')) :
    Allots (m >>= f) R := by
  intro k
  obtain ⟨n, hn, hq⟩ := hm k
  obtain ⟨n', hn', hr⟩ := hf _ _ hq (k + n)
  have e : (m >>= f).run k = (f (m.run k).1).run (k + n) := by rw [← hn]; rfl
  refine ⟨n + n', by rw [e, hn', Nat.add_assoc], ?_⟩
  rw [e, ← List.range'_append_1]
  exact hr

theorem allots_freshId : Allots freshId fun id ids => ids = [id] := fun _ => ⟨1, rfl, rfl⟩

end

/-- The numbers of references. -/
def Reference.ids (rs : List Reference) : List NodeId := rs.map Reference.id

@[simp] theorem Reference.ids_nil : Reference.ids [] = [] := rfl

@[simp] theorem Reference.ids_cons (r : Reference) (rs : List Reference) :
    Reference.ids (r :: rs) = r.id :: Reference.ids rs := rfl

@[simp] theorem Reference.ids_append (rs rs' : List Reference) :
    Reference.ids (rs ++ rs') = Reference.ids rs ++ Reference.ids rs' := List.map_append

/-! ## Expressions -/

variable {ι : Type}

/-- `e'` is `e` with the numbers `ids`. -/
def Expr.Numbered (e : Expr ι) (e' : Expr NodeId) (ids : List NodeId) : Prop :=
  Reference.ids e'.references = ids ∧ (e.WellFormed → e'.WellFormed) ∧
    (e.IsSuperclass → e'.IsSuperclass)

mutual

theorem Expr.number_allots : (e : Expr ι) → Allots e.number e.Numbered
  | .literal value => by rw [Expr.number]; exact allots_pure ⟨rfl, id, id⟩
  | .group inner => by
    rw [Expr.number]
    refine inner.number_allots.bind fun i ids hi => allots_pure ⟨?_, hi.2.1, id⟩
    simpa [Expr.references] using hi.1
  | .unary operator right => by
    rw [Expr.number]
    refine right.number_allots.bind fun r ids hr => allots_pure ⟨?_, And.imp_right hr.2.1, id⟩
    simpa [Expr.references] using hr.1
  | .binary left operator right => by
    rw [Expr.number]
    refine left.number_allots.bind fun l ids hl => right.number_allots.bind fun r ids' hr =>
      allots_pure ⟨?_, And.imp_right (And.imp hl.2.1 hr.2.1), id⟩
    simp [Expr.references, hl.1, hr.1]
  | .logical left operator right => by
    rw [Expr.number]
    refine left.number_allots.bind fun l ids hl => right.number_allots.bind fun r ids' hr =>
      allots_pure ⟨?_, And.imp_right (And.imp hl.2.1 hr.2.1), id⟩
    simp [Expr.references, hl.1, hr.1]
  | .variable label name => by
    rw [Expr.number]
    refine allots_freshId.bind fun id ids hi => allots_pure ⟨?_, fun h => h, fun h => h⟩
    simp [Expr.references, hi]
  | .assign label name value => by
    rw [Expr.number]
    refine allots_freshId.bind fun id ids hi => value.number_allots.bind fun v ids' hv =>
      allots_pure ⟨?_, And.imp_right hv.2.1, fun h => h⟩
    simp [Expr.references, hi, hv.1]
  | .call callee line arguments => by
    rw [Expr.number]
    refine callee.number_allots.bind fun c ids hc =>
      (Expr.numberAll_allots arguments).bind fun as ids' ha =>
        allots_pure ⟨?_, And.imp hc.2.1 ha.2, id⟩
    simp [Expr.references, hc.1, ha.1]
  | .get object name => by
    rw [Expr.number]
    refine object.number_allots.bind fun o ids ho => allots_pure ⟨?_, ho.2.1, id⟩
    simpa [Expr.references] using ho.1
  | .set object name value => by
    rw [Expr.number]
    refine object.number_allots.bind fun o ids ho => value.number_allots.bind fun v ids' hv =>
      allots_pure ⟨?_, And.imp ho.2.1 hv.2.1, id⟩
    simp [Expr.references, ho.1, hv.1]
  | .this label keyword => by
    rw [Expr.number]
    refine allots_freshId.bind fun id ids hi => allots_pure ⟨?_, fun h => h, fun h => h⟩
    simp [Expr.references, hi]
  | .super label keyword method => by
    rw [Expr.number]
    refine allots_freshId.bind fun id ids hi => allots_pure ⟨?_, fun h => h, fun h => h⟩
    simp [Expr.references, hi]

theorem Expr.numberAll_allots : (es : List (Expr ι)) →
    Allots (Expr.numberAll es) fun es' ids =>
      Reference.ids (Expr.referencesAll es') = ids ∧
        (Expr.WellFormedAll es → Expr.WellFormedAll es')
  | [] => by rw [Expr.numberAll]; exact allots_pure ⟨rfl, id⟩
  | e :: es => by
    rw [Expr.numberAll]
    refine e.number_allots.bind fun e' ids he => (Expr.numberAll_allots es).bind fun es' ids' hes =>
      allots_pure ⟨?_, And.imp he.2.1 hes.2⟩
    simp [Expr.referencesAll, he.1, hes.1]

end

/-- `o'` is `o` with the numbers `ids`. -/
def Expr.Numbered? (o : Option (Expr ι)) (o' : Option (Expr NodeId)) (ids : List NodeId) : Prop :=
  Reference.ids (Expr.references? o') = ids ∧ (Expr.WellFormed? o → Expr.WellFormed? o') ∧
    ((∀ e ∈ o, e.IsSuperclass) → ∀ e ∈ o', e.IsSuperclass)

theorem Expr.number?_allots : (o : Option (Expr ι)) → Allots (Expr.number? o) (Expr.Numbered? o)
  | none => allots_pure ⟨rfl, id, fun _ => by simp⟩
  | some e => by
    refine e.number_allots.bind fun e' ids he => allots_pure ⟨?_, he.2.1, fun h => ?_⟩
    · simpa [Expr.references?] using he.1
    · simpa using he.2.2 (h e rfl)

/-! ## Statements -/

/-- `s'` is `s` with the numbers `ids`. -/
def Stmt.Numbered (s : Stmt ι) (s' : Stmt NodeId) (ids : List NodeId) : Prop :=
  Reference.ids s'.references = ids ∧ s'.declares = s.declares ∧ (s.WellFormed → s'.WellFormed)

/-- `f'` is `f` with the numbers `ids`. -/
def FunDecl.Numbered (f : FunDecl ι) (f' : FunDecl NodeId) (ids : List NodeId) : Prop :=
  Reference.ids f'.references = ids ∧ f'.name = f.name ∧ (f.WellFormed → f'.WellFormed)

mutual

theorem Stmt.number_allots : (s : Stmt ι) → Allots s.number s.Numbered
  | .expression e => by
    rw [Stmt.number]
    refine e.number_allots.bind fun e' ids he => allots_pure ⟨?_, rfl, he.2.1⟩
    simpa [Stmt.references] using he.1
  | .print e => by
    rw [Stmt.number]
    refine e.number_allots.bind fun e' ids he => allots_pure ⟨?_, rfl, he.2.1⟩
    simpa [Stmt.references] using he.1
  | .var name initializer => by
    rw [Stmt.number]
    refine (Expr.number?_allots initializer).bind fun i ids hi =>
      allots_pure ⟨?_, rfl, And.imp_right hi.2.1⟩
    simpa [Stmt.references] using hi.1
  | .block body => by
    rw [Stmt.number]
    refine (Stmt.numberAll_allots body).bind fun b ids hb => allots_pure ⟨?_, rfl, hb.2⟩
    simpa [Stmt.references] using hb.1
  | .ifElse condition thenBranch elseBranch => by
    rw [Stmt.number]
    refine condition.number_allots.bind fun c ids hc => thenBranch.number_allots.bind
      fun t ids' ht => (Stmt.number?_allots elseBranch).bind fun e ids'' he =>
        allots_pure ⟨?_, rfl, And.imp hc.2.1 (And.imp (And.imp (fun h => ht.2.1.trans h) ht.2.2)
          he.2)⟩
    simp [Stmt.references, hc.1, ht.1, he.1]
  | .while condition body => by
    rw [Stmt.number]
    refine condition.number_allots.bind fun c ids hc => body.number_allots.bind fun b ids' hb =>
      allots_pure ⟨?_, rfl, And.imp hc.2.1 (And.imp (fun h => hb.2.1.trans h) hb.2.2)⟩
    simp [Stmt.references, hc.1, hb.1]
  | .function declaration => by
    rw [Stmt.number]
    refine declaration.number_allots.bind fun d ids hd => allots_pure ⟨?_, ?_, hd.2.2⟩
    · simpa [Stmt.references] using hd.1
    · simp [Stmt.declares, hd.2.1]
  | .return keyword value => by
    rw [Stmt.number]
    refine (Expr.number?_allots value).bind fun v ids hv => allots_pure ⟨?_, rfl, hv.2.1⟩
    simpa [Stmt.references] using hv.1
  | .class name superclass methods => by
    rw [Stmt.number]
    refine (Expr.number?_allots superclass).bind fun c ids hc =>
      (FunDecl.numberAll_allots methods).bind fun ms ids' hm =>
        allots_pure ⟨?_, rfl, And.imp_right (And.imp hc.2.2 hm.2)⟩
    simp [Stmt.references, hc.1, hm.1]

theorem Stmt.number?_allots : (o : Option (Stmt ι)) →
    Allots (Stmt.number? o) fun o' ids =>
      Reference.ids (Stmt.references? o') = ids ∧ (Stmt.WellFormed? o → Stmt.WellFormed? o')
  | none => by rw [Stmt.number?]; exact allots_pure ⟨rfl, id⟩
  | some s => by
    rw [Stmt.number?]
    refine s.number_allots.bind fun s' ids hs =>
      allots_pure ⟨?_, And.imp (fun h => hs.2.1.trans h) hs.2.2⟩
    simpa [Stmt.references?] using hs.1

theorem Stmt.numberAll_allots : (ss : List (Stmt ι)) →
    Allots (Stmt.numberAll ss) fun ss' ids =>
      Reference.ids (Stmt.referencesAll ss') = ids ∧
        (Stmt.WellFormedAll ss → Stmt.WellFormedAll ss')
  | [] => by rw [Stmt.numberAll]; exact allots_pure ⟨rfl, id⟩
  | s :: ss => by
    rw [Stmt.numberAll]
    refine s.number_allots.bind fun s' ids hs => (Stmt.numberAll_allots ss).bind fun ss' ids' hss =>
      allots_pure ⟨?_, And.imp hs.2.2 hss.2⟩
    simp [Stmt.referencesAll, hs.1, hss.1]

theorem FunDecl.number_allots : (f : FunDecl ι) → Allots f.number f.Numbered
  | .mk name params body => by
    rw [FunDecl.number]
    refine (Stmt.numberAll_allots body).bind fun b ids hb =>
      allots_pure ⟨?_, rfl, And.imp_right (And.imp_right hb.2)⟩
    simpa [FunDecl.references] using hb.1

theorem FunDecl.numberAll_allots : (fs : List (FunDecl ι)) →
    Allots (FunDecl.numberAll fs) fun fs' ids =>
      Reference.ids (FunDecl.referencesAll fs') = ids ∧
        (FunDecl.WellFormedAll fs → FunDecl.WellFormedAll fs')
  | [] => by rw [FunDecl.numberAll]; exact allots_pure ⟨rfl, id⟩
  | f :: fs => by
    rw [FunDecl.numberAll]
    refine f.number_allots.bind fun f' ids hf =>
      (FunDecl.numberAll_allots fs).bind fun fs' ids' hfs =>
        allots_pure ⟨?_, And.imp hf.2.2 hfs.2⟩
    simp [FunDecl.referencesAll, hf.1, hfs.1]

end

/-! ## Programs -/

/-- The numbers of a program lie between the first number and the next free one, each once. -/
theorem ids_numberAll (program : List (Stmt ι)) (k : Nat) :
    k ≤ ((Stmt.numberAll program).run k).2 ∧
      Reference.ids (Stmt.referencesAll ((Stmt.numberAll program).run k).1) =
        List.range' k (((Stmt.numberAll program).run k).2 - k) := by
  obtain ⟨n, hn, hr, -⟩ := Stmt.numberAll_allots program k
  rw [hr, hn]
  exact ⟨Nat.le_add_right k n, by rw [Nat.add_sub_cancel_left]⟩

theorem wellFormedAll_numberAll {program : List (Stmt ι)} (h : Stmt.WellFormedAll program)
    (k : Nat) : Stmt.WellFormedAll ((Stmt.numberAll program).run k).1 := by
  obtain ⟨n, -, -, hw⟩ := Stmt.numberAll_allots program k
  exact hw h

end Lox
