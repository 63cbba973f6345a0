import Lox.Proofs.Evaluation.Agreement
import Lox.Proofs.Evaluation.Changes

/-!
# Instances

An instance is made by a call of its class, without fields, and keeps its class from then on. Its
fields change by assignments to them and by nothing else.

* `Task.Changes.instances`: what each step does to the instances;
* `keepsInstances_run`: so no run loses an instance, or changes its class;
* `exists_instance_of_call`: and a call of a class, if it does not fail, gives a new instance of this
  class, whatever its initializer does.
-/

namespace Lox

/-- The instance that a value refers to. -/
def Value.instance? : Value → Option InstanceId
  | .instance i => some i
  | _ => none

theorem Value.instance?_eq_some_iff {v : Value} {i : InstanceId} :
    v.instance? = some i ↔ v = .instance i := by
  cases v <;> simp [instance?]

namespace Store

theorem instance?_setField (s : Store) (i j : InstanceId) (name : String) (v : Value) :
    (s.setField i name v).instance? j =
      if j = i then (s.instance? j).map fun o => { o with fields := o.fields.insert name v }
      else s.instance? j := by
  rw [instance?, setField, Array.getElem?_modify]
  by_cases h : j = i
  · subst h
    simp [instance?]
  · have : i.index ≠ j.index := fun e => h (by cases i; cases j; simp_all)
    simp [h, this, instance?]

theorem instance?_addInstance (s : Store) (o : InstanceObject) (i : InstanceId) :
    (s.addInstance o).2.instance? i =
      if i = (s.addInstance o).1 then some o else s.instance? i := by
  obtain ⟨i⟩ := i
  simp only [addInstance, instance?, Array.getElem?_push, InstanceId.mk.injEq]

/-- The number of a new instance was not that of an instance before. -/
theorem instance?_addInstance_self (s : Store) (o : InstanceObject) :
    s.instance? (s.addInstance o).1 = none :=
  Array.getElem?_eq_none (Nat.le_refl _)

theorem instance?_addInstance_of_eq_some {s : Store} (o' : InstanceObject) {i : InstanceId}
    {o : InstanceObject} (h : s.instance? i = some o) : (s.addInstance o').2.instance? i = some o := by
  rw [instance?_addInstance, if_neg]
  · exact h
  · rintro rfl
    rw [instance?_addInstance_self] at h
    cases h

theorem instance?_of_instances_eq {s s' : Store} (h : s'.instances = s.instances)
    (i : InstanceId) : s'.instance? i = s.instance? i :=
  congrArg (fun instances : Array InstanceObject => instances[i.index]?) h

/-- The second store has the instances of the first, with the same classes. -/
def KeepsInstances (s s' : Store) : Prop :=
  ∀ i o, s.instance? i = some o → ∃ o', s'.instance? i = some o' ∧ o'.class = o.class

theorem KeepsInstances.trans {s s' s'' : Store} (h : s.KeepsInstances s')
    (h' : s'.KeepsInstances s'') : s.KeepsInstances s'' := by
  intro i o ho
  obtain ⟨o', ho', hc⟩ := h i o ho
  obtain ⟨o'', ho'', hc'⟩ := h' i o' ho'
  exact ⟨o'', ho'', hc'.trans hc⟩

theorem KeepsInstances.of_instances_eq {s s' : Store} (h : s'.instances = s.instances) :
    s.KeepsInstances s' := by
  intro i o ho
  exact ⟨o, (instance?_of_instances_eq h i).trans ho, rfl⟩

theorem KeepsInstances.addInstance (s : Store) (o : InstanceObject) :
    s.KeepsInstances (s.addInstance o).2 := by
  intro i o' ho
  exact ⟨o', instance?_addInstance_of_eq_some o ho, rfl⟩

theorem KeepsInstances.setField (s : Store) (i : InstanceId) (name : String) (v : Value) :
    s.KeepsInstances (s.setField i name v) := by
  intro j o ho
  rw [instance?_setField, ho]
  split
  · exact ⟨_, rfl, rfl⟩
  · exact ⟨o, rfl, rfl⟩

end Store

/-! ## Steps -/

theorem instances_declareClass (name : Name) (c : Option ClassId) (methods : List (FunDecl NodeId))
    (m : Machine) : (declareClass name c methods m).store.instances = m.store.instances := by
  cases c <;> rfl

section

variable {go : (t : Task) → Machine → Outcome t.Answer} {t : Task} {m x y : Machine}

/-- The instances stay as they are, or there is one more, of the class that is called and without
fields, or an assignment sets a field of one of them. -/
theorem Task.Changes.instances (h : t.Changes go m x y) :
    y.store.instances = x.store.instances ∨
      (∃ c arguments line, t = .call (.class c) arguments line ∧
        y.store.instances = (x.store.addInstance ⟨c, ∅⟩).2.instances) ∨
      ∃ object name value i v m₁, t = .evaluate (.set object name value) ∧
        go (.evaluate object) m = .done (.instance i) m₁ ∧
        go (.evaluate value) m₁ = .done v x ∧ y.store = x.store.setField i name.text v := by
  cases h with
  | keep h => exact .inl (congrArg Store.instances h)
  | frame | var | assign | bind | function => exact .inl rfl
  | «class» c => exact .inl (instances_declareClass _ c _ x)
  | new | construct => exact .inr (.inl ⟨_, _, _, rfl, rfl⟩)
  | set ho hv => exact .inr (.inr ⟨_, _, _, _, _, _, rfl, ho, hv, rfl⟩)

theorem Task.Changes.keepsInstances (h : t.Changes go m x y) : x.store.KeepsInstances y.store := by
  rcases h.instances with h | ⟨c, -, -, -, h⟩ | ⟨_, name, _, i, v, _, -, -, -, h⟩
  · exact .of_instances_eq h
  · exact (Store.KeepsInstances.addInstance _ _).trans (.of_instances_eq h)
  · rw [h]
    exact .setField _ _ _ _

/-- A new instance has no fields. -/
theorem Task.Changes.fields_of_new (h : t.Changes go m x y) {i : InstanceId} {o : InstanceObject}
    (hx : x.store.instance? i = none) (hy : y.store.instance? i = some o) : o.fields = ∅ := by
  rcases h.instances with h | ⟨c, -, -, -, h⟩ | ⟨_, name, _, j, v, _, -, -, -, h⟩
  · rw [Store.instance?_of_instances_eq h, hx] at hy
    cases hy
  · rw [Store.instance?_of_instances_eq h, Store.instance?_addInstance, hx] at hy
    split at hy
    · obtain rfl := Option.some.inj hy
      rfl
    · cases hy
  · rw [h, Store.instance?_setField, hx] at hy
    split at hy <;> cases hy

/-- An instance that was there has the fields that it had, or an assignment has set one of them. -/
theorem Task.Changes.instance?_eq (h : t.Changes go m x y) {i : InstanceId} {o : InstanceObject}
    (ho : x.store.instance? i = some o) :
    y.store.instance? i = some o ∨ ∃ object name value v m₁,
      t = .evaluate (.set object name value) ∧
      go (.evaluate object) m = .done (.instance i) m₁ ∧ go (.evaluate value) m₁ = .done v x ∧
      y.store.instance? i = some { o with fields := o.fields.insert name.text v } := by
  rcases h.instances with h | ⟨c, -, -, -, h⟩ | ⟨object, name, value, j, v, m₁, rfl, hobject, hv, h⟩
  · exact .inl ((Store.instance?_of_instances_eq h i).trans ho)
  · have hadded := Store.instance?_addInstance_of_eq_some ⟨c, ∅⟩ ho
    exact .inl ((Store.instance?_of_instances_eq h i).trans hadded)
  · rw [h, Store.instance?_setField, ho]
    split
    · next hij => exact .inr ⟨object, name, value, v, m₁, rfl, hij ▸ hobject, hv, rfl⟩
    · exact .inl rfl

end

/-! ## Runs -/

instance : Trans (fun x y : Machine => x.store.KeepsInstances y.store)
    (fun x y : Machine => x.store.KeepsInstances y.store)
    (fun x y : Machine => x.store.KeepsInstances y.store) :=
  ⟨Store.KeepsInstances.trans⟩

theorem keepsInstances_run (n : Nat) (s : Setting) (t : Task) (m : Machine) :
    (t.run n s m).Ensures fun m' => m.store.KeepsInstances m'.store :=
  Task.ensures_of_changes (Q := fun x y : Machine => x.store.KeepsInstances y.store)
    (fun _ => .of_instances_eq rfl) (fun _ _ _ _ _ h => h.keepsInstances) n s t m

/-- What a call of a class gives is an instance that was not there before, and its class is this one. -/
theorem exists_instance_of_call {n : Nat} {s : Setting} {c : ClassId} {arguments : List Value}
    {line : Nat} {m m' : Machine} {v : Value}
    (h : call n s (.class c) arguments line m = .done v m') :
    ∃ i o, v = .instance i ∧ m.store.instance? i = none ∧ m'.store.instance? i = some o ∧
      o.class = c := by
  cases n with
  | zero => cases h
  | succ n =>
    let new := m.store.addInstance ⟨c, ∅⟩
    have hnew : new.2.instance? new.1 = some ⟨c, ∅⟩ :=
      (m.store.instance?_addInstance ⟨c, ∅⟩ _).trans (if_pos rfl)
    have hbefore := m.store.instance?_addInstance_self ⟨c, ∅⟩
    simp only [call, Task.run, Task.rule, Value.callRule] at h
    split at h
    · cases hf : (m.store.addInstance ⟨c, ∅⟩).2.findMethod c initializerName with
      | none =>
        rw [hf] at h
        obtain ⟨rfl, rfl⟩ := Outcome.done.inj h
        exact ⟨new.1, _, rfl, hbefore, hnew, rfl⟩
      | some method =>
        let bound := new.2.bindMethod method new.1
        rw [hf] at h
        obtain ⟨_, m₁, hr, h⟩ : ∃ v₁ m₁,
            enter n s bound.1 arguments line { m with store := bound.2 } = .done v₁ m₁ ∧
              Outcome.done (.instance new.1) m₁ = .done v m' := Outcome.exists_of_bind_eq_done h
        obtain ⟨rfl, rfl⟩ := Outcome.done.inj h
        have hkeeps := keepsInstances_run n s (.enter bound.1 arguments line)
          { m with store := bound.2 } m₁ (congrArg Outcome.state? hr)
        obtain ⟨o, ho, hc⟩ := hkeeps new.1 _ hnew
        exact ⟨new.1, o, rfl, hbefore, ho, hc⟩
    · cases h

end Lox
