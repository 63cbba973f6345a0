import Lox.Proofs.Evaluation.Properties
import Lox.Proofs.Session.Transitions

/-!
# Properties in a session

Each instance is one map from names to fields, over the methods of its class. It is the same map for
all values that refer to the instance, wherever they are stored.

* `Session.Step.SetsField`: the run of a source assigns a field;
* `Session.fields_of_transition`: there is no other way to change the fields of an instance;
* `properties_are_one_map_per_instance`: so reading gives what was assigned last.
-/

namespace Lox

namespace Session

/-- The run of a source comes to assigning a field, and the value that is stored was just evaluated:
this is the value, and in this state. -/
def Step.SetsField (r : Step) (x : Machine) (i : InstanceId) (name : Name) (v : Value) : Prop :=
  ∃ object value m n m₁, r.session.Evaluates r.fuel r.source (.set object name value) m ∧
    Lox.evaluate n (r.session.extend r.source).setting object m = .done (.instance i) m₁ ∧
    Lox.evaluate n (r.session.extend r.source).setting value m₁ = .done v x

variable {maxDepth : Nat} {sink : Sink} {steps : List Step} {s : Session} {fuel n : Nat}
  {source : String} {m m' x y : Machine} {i : InstanceId} {o : InstanceObject} {v : Value}

/-- The fields of an instance stay as they are, unless a step assigns one of them. -/
theorem fields_of_transition (h : Transition steps x y) (ho : x.store.instance? i = some o) :
    ∃ o', y.store.instance? i = some o' ∧ o'.class = o.class ∧
      (o'.fields = o.fields ∨ ∃ r ∈ steps, ∃ name v, r.SetsField x i name v ∧
        o'.fields = o.fields.insert name.text v) := by
  rcases h with h | ⟨r, hr, ha, t, m, n, hin, hchange⟩
  · exact ⟨o, h ▸ ho, rfl, .inl rfl⟩
  · rcases hchange.instance?_eq ho with hy | ⟨object, name, value, v, m₁, rfl, hobject, hv, hy⟩
    · exact ⟨o, hy, rfl, .inl rfl⟩
    · exact ⟨_, hy, rfl, .inr ⟨r, hr, name, v, ⟨object, value, m, n, m₁, ⟨ha, hin⟩, hobject, hv⟩, rfl⟩⟩

/-- A new instance has no fields. -/
theorem fields_of_new (h : Transition steps x y) (hx : x.store.instance? i = none)
    (hy : y.store.instance? i = some o) : o.fields = ∅ := by
  rcases h with h | ⟨r, -, -, t, m, n, -, hchange⟩
  · rw [h, hx] at hy
    cases hy
  · exact hchange.fields_of_new hx hy

/-- When a run has assigned a property, its name stands for the value. -/
theorem Past.setsProperty_of_evaluates (h : Past maxDepth sink steps s) {object value : Expr NodeId}
    {name : Name} (he : s.Evaluates fuel source (.set object name value) m)
    (hv : Lox.evaluate (n + 1) (s.extend source).setting (.set object name value) m = .done v m') :
    ∃ i m₁ x, Lox.evaluate n (s.extend source).setting object m = .done (.instance i) m₁ ∧
      Lox.evaluate n (s.extend source).setting value m₁ = .done v x ∧
      m' = { x with store := x.store.setField i name.text v } ∧ x.SetsProperty i name.text v m' := by
  obtain ⟨i, m₁, x, hobject, hvalue, rfl⟩ := evaluate_set_eq_done_iff.mp hv
  obtain ⟨vs, hk⟩ := h.exists_kept
  have hpre := lawful_validity.pre_of_reachesIn (m := { s.machine with depth := 0 })
    (declares_validity _ _) (fun _ _ h => h) hk.valid (hk.codes_validity _) he.2
  have hdeclares := declares_validity (s.extend source).setting fun _ _ => True
  have hrun := lawful_validity.keptWhere hdeclares
  -- the code of the object and of the value runs in the frame in which the assignment does
  have hends := hrun.run (n := n) (t := .evaluate object) (fun _ _ _ => trivial) ⟨hpre.1, hpre.2⟩
  rw [show (Task.evaluate object).run n _ m = _ from hobject] at hends
  obtain ⟨hpasses, hi⟩ := hends
  have hends' := hrun.run (n := n) (t := .evaluate value) (fun _ _ _ => trivial)
    ⟨hpasses.store, hpasses.code lawful_validity hpre.2⟩
  rw [show (Task.evaluate value).run n _ m₁ = _ from hvalue] at hends'
  obtain ⟨hpasses', -⟩ := hends'
  have hthere : i.index < x.store.instances.size := lawful_validity.value_grows hpasses'.grows hi
  have ho : x.store.instance? i = some _ := Array.getElem?_eq_getElem hthere
  exact ⟨i, m₁, x, hobject, hvalue, rfl, hpasses'.store.findsNearest.setsProperty ho name.text v⟩

end Session

/-! ## The property -/

/-- Properties behave as one map per instance over its class. In a session that ran any sources and runs
one more, take all its states in order. In each of them, to read a property of an instance gives its own
field, or else the nearest method on the chain of its class, the same function in the same frame, bound
to just this instance, or else the error that the property is undefined, on the line of the name. After
a field of any instance is set, the same is so, and its name stands for the value; every other name of
the instance, and every name of another one, stands for the field or the method for which it stood
before, or for nothing as before.

An expression that reads a property evaluates the object, and then reads; one that assigns a property
evaluates the object and the value, and then sets the field. From each state to the next, an instance
keeps its class, and its fields too, unless an expression of one of the sources assigns one of them,
whose object gave just this instance; a new one has none. -/
theorem properties_are_one_map_per_instance {maxDepth : Nat} {sink : Sink}
    {steps : List Session.Step} {s : Session} (h : Session.Past maxDepth sink steps s) (fuel : Nat)
    (source : String) :
    let steps' := steps ++ [(⟨s, fuel, source⟩ : Session.Step)]
    let states := steps'.flatMap Session.Step.states
    let setting := (s.extend source).setting
    (∀ m ∈ states, m.ReadsProperties ∧
      ∀ i o name v, m.store.instance? i = some o →
        m.SetsProperty i name v { m with store := m.store.setField i name v }) ∧
    (∀ n object name m o m₁, evaluate n setting object m = .done o m₁ →
      evaluate (n + 1) setting (.get object name) m = readProperty o name m₁) ∧
    (∀ object name value m, s.Evaluates fuel source (.set object name value) m →
      ∀ n v m', evaluate (n + 1) setting (.set object name value) m = .done v m' →
        ∃ i m₁ x, evaluate n setting object m = .done (.instance i) m₁ ∧
          evaluate n setting value m₁ = .done v x ∧
          m' = { x with store := x.store.setField i name.text v } ∧
          x.SetsProperty i name.text v m') ∧
    states.IsChain fun x y => ∀ i,
      (∀ o, x.store.instance? i = some o → ∃ o', y.store.instance? i = some o' ∧
        o'.class = o.class ∧ (o'.fields = o.fields ∨ ∃ r ∈ steps', ∃ name v,
          r.SetsField x i name v ∧ o'.fields = o.fields.insert name.text v)) ∧
      ∀ o', x.store.instance? i = none → y.store.instance? i = some o' → o'.fields = ∅ := by
  intro steps' states setting
  refine ⟨fun m hm => ?_, fun n object name m o m₁ ho => ?_, fun object name value m he n v m' =>
    h.setsProperty_of_evaluates he, ?_⟩
  · have hnearest := (h.valid_of_mem_flatMap hm).findsNearest
    exact ⟨hnearest.readsProperties, fun i o name v ho => hnearest.setsProperty ho name v⟩
  · exact Outcome.bind_of_done ho _
  · refine (h.stepwise_append fuel source).chain.tail.imp fun x y ht i => ⟨fun o ho => ?_, fun o' => ?_⟩
    · exact Session.fields_of_transition ht ho
    · exact Session.fields_of_new ht

/-- A field that hides a method is set through one variable, and read through another. -/
theorem properties_are_one_map_per_instance_seen_by_alias :
    let source := "class A{f(){}}var a=A();var b=a;b.f=1;"
    let s := Session.start 5 .open
    let setting := (s.extend source).setting
    Session.Past 5 .open [] s ∧
      ∃ object name value m i v m', s.Evaluates 9 source (.set object name value) m ∧
        evaluate 6 setting (.set object name value) m = .done v m' ∧
        m'.store.own? .globals "a" = some (.instance i) ∧
        m'.store.own? .globals "b" = some (.instance i) ∧
        readProperty (.instance i) name m' = .done v m' := by
  intro source s setting
  let a := Analysis.ofSource 0 source
  let plain : Setting := ⟨fun _ => none, 5, fun _ => none, fun _ => none⟩
  have ha : s.Accepts source := by
    unfold Session.Accepts
    decide +kernel
  -- the kernel cannot look into the table of the session
  have hsetting : (s.extend source).setting = plain := by
    have hd : a.resolution.distances = [] := by decide +kernel
    exact Session.setting_extend_start 5 .open hd
  let object? (object : Expr NodeId) (m : Machine) : Option InstanceId :=
    (evaluate 5 plain object m).done?.bind fun r => r.1.instance?
  let global? (m : Machine) (name : String) : Option InstanceId :=
    (m.store.own? .globals name).bind Value.instance?
  have hany : (plain.traceIn 9 a.program .initial).any (fun p =>
      (p.1.expr?.bind Expr.set?).any fun q =>
        (evaluate 6 plain (.set q.1 q.2.1 q.2.2) p.2).done?.any fun r =>
          (object? q.1 p.2).any fun i =>
            global? r.2 "a" = some i ∧ global? r.2 "b" = some i) = true := by
    decide +kernel
  obtain ⟨⟨t, m⟩, hp, ht⟩ := List.any_eq_true.mp hany
  obtain ⟨⟨object, name, value⟩, hparts, htest⟩ := (Option.any_eq_true _ _).mp ht
  obtain ⟨e, htask, hparts⟩ := Option.bind_eq_some_iff.mp hparts
  obtain rfl := Task.expr?_eq_some_iff.mp htask
  obtain rfl := Expr.set?_eq_some_iff.mp hparts
  obtain ⟨⟨v, m'⟩, hset, htest⟩ := (Option.any_eq_true _ _).mp htest
  obtain ⟨i, hobject, htest⟩ := (Option.any_eq_true _ _).mp htest
  obtain ⟨⟨o, m₁⟩, hobject, ho⟩ := Option.bind_eq_some_iff.mp hobject
  obtain ⟨ha₁, hb₁⟩ := of_decide_eq_true htest
  have hown {x : String} (hx : global? m' x = some i) :
      m'.store.own? .globals x = some (.instance i) := by
    obtain ⟨_, hv, hi⟩ := Option.bind_eq_some_iff.mp hx
    rw [hv, Value.instance?_eq_some_iff.mp hi]
  rw [Outcome.done?_eq_some_iff] at hset hobject
  rw [Value.instance?_eq_some_iff] at ho
  have he : s.Evaluates 9 source (.set object name value) m := by
    refine ⟨ha, ?_⟩
    rw [hsetting]
    exact Setting.mem_traceIn_iff.mp hp
  rw [← hsetting] at hset hobject
  obtain ⟨-, -, hsets, -⟩ := properties_are_one_map_per_instance .start 9 source
  obtain ⟨i', m₂, x, hobject', -, -, hlaw⟩ := hsets object name value m he 5 v m' hset
  obtain ⟨hi, -⟩ := Outcome.done.inj (hobject.symm.trans hobject')
  obtain rfl := Value.instance.inj (ho.symm.trans hi)
  exact ⟨.start, object, name, value, m, i, v, m', he, hset, hown ha₁, hown hb₁, hlaw.after.field hlaw.self⟩

end Lox
