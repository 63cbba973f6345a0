import Lox.Proofs.Evaluation.Instances
import Lox.Proofs.Evaluation.Supers

/-!
# Properties of instances

A name stands for a property of an instance: a field that the instance has, or else the nearest method
on the chain of its class. Fields belong to the instance and not to a value that refers to it, so an
assignment is seen through all of them, and no other instance and no other name is affected.

* `Store.HasProperty`: what a name stands for;
* `Machine.ReadsProperties`: a property is read as what its name stands for;
* `Machine.SetsProperty`: after an assignment one name of one instance stands for the value, and all
  others for what they stood for before (`Store.FindsNearest.setsProperty`);
* `evaluate_set_eq_done_iff`: an expression that assigns a property does this, and nothing else.
-/

namespace Lox

/-! ## What names stand for -/

/-- A property: a field with its value, or a method that is not yet bound. -/
inductive Property where
  | field (value : Value)
  | method (f : FunctionObject)

/-- A name stands for this property of an instance: for its field with this name, or, if it has none,
for the nearest method. -/
inductive Store.HasProperty (s : Store) (i : InstanceId) (name : String) : Property → Prop where
  | field {o : InstanceObject} {v : Value} (ho : s.instance? i = some o)
    (hv : o.fields.get? name = some v) : HasProperty s i name (.field v)
  | method {o : InstanceObject} {f : FunctionObject} (ho : s.instance? i = some o)
    (hn : o.fields.get? name = none) (hf : s.Nearest name o.class f) :
    HasProperty s i name (.method f)

/-- To read a property of an instance gives the value of the field, or the method bound to just this
instance, or, if the name stands for nothing, the error that the property is undefined, on the line of
the name. -/
structure Machine.ReadsProperties (m : Machine) : Prop where
  field {i : InstanceId} {name : Name} {v : Value} :
    m.store.HasProperty i name.text (.field v) → readProperty (.instance i) name m = .done v m
  method {i : InstanceId} {name : Name} {f : FunctionObject} :
    m.store.HasProperty i name.text (.method f) →
      ∃ v m', readProperty (.instance i) name m = .done v m' ∧ m'.store.IsBound v f i
  undefined {i : InstanceId} {name : Name} : (∀ p, ¬ m.store.HasProperty i name.text p) →
    readProperty (.instance i) name m = m.fault (.undefinedProperty name.text) name.line

/-- Between two states a property of an instance was set: then its name stands for the value, and every
other name of this instance, and every name of another one, for what it stood for before. -/
structure Machine.SetsProperty (m : Machine) (i : InstanceId) (name : String) (v : Value)
    (m' : Machine) : Prop where
  before : m.ReadsProperties
  after : m'.ReadsProperties
  self : m'.store.HasProperty i name (.field v)
  other {j : InstanceId} {other : String} {p : Property} : ¬ (j = i ∧ other = name) →
    (m'.store.HasProperty j other p ↔ m.store.HasProperty j other p)

/-! ## Reading -/

/-- Lookups find the methods that are nearest. -/
def Store.FindsNearest (s : Store) : Prop :=
  ∀ id name f, s.findMethod id name = some f ↔ s.Nearest name id f

theorem Store.Valid.findsNearest {s : Store} (h : s.Valid) : s.FindsNearest :=
  fun _ _ _ => h.findMethod_eq_some_iff

theorem Store.FindsNearest.readsProperties {m : Machine} (h : m.store.FindsNearest) :
    m.ReadsProperties where
  field hp := by
    cases hp with
    | field ho hv => simp only [readProperty, ho, hv]
  method {i _ f} hp := by
    cases hp with
    | method ho hn hf =>
      simp only [readProperty, ho, hn, (h _ _ _).mpr hf]
      exact exists_bound_eq f i m
  undefined {i name} hp := by
    rw [readProperty]
    cases ho : m.store.instance? i with
    | none => rfl
    | some o =>
      cases hv : o.fields.get? name.text with
      | some v => exact absurd (.field ho hv) (hp (.field v))
      | none =>
        cases hf : m.store.findMethod o.class name.text with
        | some f => exact absurd (.method ho hv ((h _ _ _).mp hf)) (hp (.method f))
        | none => simp only [hv, hf]

/-! ## Setting -/

namespace Store

variable {s s' : Store} {i j : InstanceId} {name other : String} {v : Value} {p : Property}

theorem Nearest.of_class?_eq (hc : ∀ id, s'.class? id = s.class? id) {id : ClassId}
    {f : FunctionObject} (h : s.Nearest name id f) : s'.Nearest name id f := by
  induction h with
  | own hid hf => exact .own ((hc _).trans hid) hf
  | inherited hid hn hs _ ih => exact .inherited ((hc _).trans hid) hn hs ih

theorem FindsNearest.of_class?_eq (hc : ∀ id, s'.class? id = s.class? id) (h : s.FindsNearest) :
    s'.FindsNearest := by
  intro id name f
  rw [findMethod_of_class?_eq hc, h id name f]
  exact ⟨fun hf => hf.of_class?_eq hc, fun hf => hf.of_class?_eq fun id => (hc id).symm⟩

/-- Two stores have instances with the same numbers and classes, and one name stands for the same field
of one of them. -/
def SameProperty (s s' : Store) (i : InstanceId) (name : String) : Prop :=
  (s'.instance? i).map (fun o => (o.class, o.fields.get? name)) =
    (s.instance? i).map fun o => (o.class, o.fields.get? name)

theorem HasProperty.of_same (hc : ∀ id, s'.class? id = s.class? id) (hs : s.SameProperty s' i name)
    (h : s.HasProperty i name p) : s'.HasProperty i name p := by
  cases h with
  | @field o v ho hv =>
    rw [SameProperty, ho] at hs
    obtain ⟨o', ho', he⟩ := Option.map_eq_some_iff.mp hs
    obtain ⟨-, hfield⟩ := Prod.mk.inj he
    exact .field ho' (hfield.trans hv)
  | @method o f ho hn hf =>
    rw [SameProperty, ho] at hs
    obtain ⟨o', ho', he⟩ := Option.map_eq_some_iff.mp hs
    obtain ⟨hclass, hfield⟩ := Prod.mk.inj he
    exact .method ho' (hfield.trans hn) (hclass ▸ hf.of_class?_eq hc)

theorem sameProperty_setField (s : Store) (v : Value) (h : ¬ (j = i ∧ other = name)) :
    s.SameProperty (s.setField i name v) j other := by
  rw [SameProperty, instance?_setField]
  split
  · next hj =>
    have hname : name ≠ other := fun he => h ⟨hj, he.symm⟩
    rw [Option.map_map]
    refine Option.map_congr fun o _ => ?_
    exact congrArg (o.class, ·) (Bindings.get?_insert_of_ne _ v hname)
  · rfl

end Store

theorem Store.class?_setField (s : Store) (i : InstanceId) (name : String) (v : Value) (id : ClassId) :
    (s.setField i name v).class? id = s.class? id := rfl

/-- A field of an instance is set. -/
theorem Store.FindsNearest.setsProperty {m : Machine} (h : m.store.FindsNearest) {i : InstanceId}
    {o : InstanceObject} (ho : m.store.instance? i = some o) (name : String) (v : Value) :
    m.SetsProperty i name v { m with store := m.store.setField i name v } where
  before := h.readsProperties
  after := Store.FindsNearest.readsProperties (h.of_class?_eq (m.store.class?_setField i name v))
  self := by
    have hset := m.store.instance?_setField i i name v
    rw [if_pos rfl, ho] at hset
    exact .field hset (Bindings.get?_insert_self _ _ _)
  other hne := by
    have hclass := m.store.class?_setField i name v
    have hsame := m.store.sameProperty_setField v hne
    exact ⟨.of_same (fun id => (hclass id).symm) hsame.symm, .of_same hclass hsame⟩

/-! ## Expressions -/

section

variable {n : Nat} {s : Setting} {object value : Expr NodeId} {name : Name} {m m' : Machine}
  {v : Value}

/-- An assignment that ends evaluates the object and then the value, and sets the field. -/
theorem evaluate_set_eq_done_iff :
    evaluate (n + 1) s (.set object name value) m = .done v m' ↔
      ∃ i m₁ m₂, evaluate n s object m = .done (.instance i) m₁ ∧
        evaluate n s value m₁ = .done v m₂ ∧
        m' = { m₂ with store := m₂.store.setField i name.text v } := by
  constructor
  · intro h
    obtain ⟨o, m₁, ho, h⟩ := Outcome.exists_of_bind_eq_done h
    cases o with
    | «instance» i =>
      obtain ⟨v', m₂, hv, h⟩ := Outcome.exists_of_bind_eq_done h
      obtain ⟨rfl, rfl⟩ := Outcome.done.inj h
      exact ⟨i, m₁, m₂, ho, hv, rfl⟩
    | _ => cases h
  · rintro ⟨i, m₁, m₂, ho, hv, rfl⟩
    exact (Outcome.bind_of_done ho _).trans (Outcome.bind_of_done hv _)

end

end Lox
