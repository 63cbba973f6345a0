import Lox.Proofs.Evaluation.Initializers
import Lox.Proofs.Session.Methods
import Lox.Proofs.Session.Transitions

/-!
# Construction in a session

A class is called to make an instance, and an instance is what the call gives. Its initializer runs on
the way, and can do what it likes: return early, make other instances, store `this`, or call the
initializer of the superclass. It can also be called later, as a method of the instance, and then gives
the instance again.

* `Session.Past.bindsInitializers_of_mem_states`: in all states every initializer is that of an instance;
* `Session.Past.initializer_of_get`, `Session.Past.initializer_of_super`: the ways to get at one;
* `construction_yields_new_instance`: a call of a class gives a new instance of it, and a call of an
  initializer its instance.
-/

namespace Lox

namespace Session

variable {maxDepth : Nat} {sink : Sink} {steps : List Step} {s : Session} {fuel n : Nat}
  {source : String} {m m' : Machine} {v : Value}

/-! ## Initializers in all states -/

theorem Past.bindsInitializers_of_mem_states (h : Past maxDepth sink steps s)
    (hm : m ∈ (steps ++ [(⟨s, fuel, source⟩ : Step)]).flatMap Step.states) :
    m.store.BindsInitializers := by
  refine (h.stepwise_append fuel source).chain.cons_induction (fun m => m.store.BindsInitializers) _
    (fun x y ht hx => ?_) (fun id f hf => ?_) m hm
  · have hretains := h.retains_of_transition ht
    rcases ht with ht | ⟨r, -, -, t, m, n, -, hchange⟩
    · exact hx.of_functions_eq hretains (congrArg Store.functions ht)
    · exact hchange.bindsInitializers hretains hx
  · simp at hf

/-- The initializer of an instance stays that in all later states. -/
theorem Past.pairwise_isInitializerOf (h : Past maxDepth sink steps s) (fuel : Nat)
    (source : String) :
    ((steps ++ [(⟨s, fuel, source⟩ : Step)]).flatMap Step.states).Pairwise fun m m' =>
      ∀ v i, m.store.IsInitializerOf v i → m'.store.IsInitializerOf v i := by
  have hprecedes : (Machine.initial :: (_ ++ [])).Pairwise Machine.Precedes :=
    h.trail_append fuel source
  rw [List.append_nil] at hprecedes
  refine ((h.pairwise_retains fuel source).and hprecedes.of_cons).imp ?_
  exact fun ⟨hretains, hextends⟩ v i hi => hi.retain hretains fun _ _ => hextends.store.function

/-! ## Getting at an initializer -/

/-- When a run evaluates an expression, all methods come from the sources that were run. -/
theorem Past.writing_of_evaluates (h : Past maxDepth sink steps s) {e : Expr NodeId}
    (he : s.Evaluates fuel source e m) :
    (writing fun _ => True).contract.pre (.evaluate e) m := by
  have hs : s.machine.store.Written fun _ => True := h.written.mono fun _ _ => trivial
  exact (lawful_writing _).pre_of_reachesIn (m := { s.machine with depth := 0 })
    (declares_writing _ _ _) (fun _ _ h => h) hs (fun _ _ _ _ => trivial) he.2

/-- The property `init` of an instance is a field, or its initializer. -/
theorem Past.initializer_of_get (h : Past maxDepth sink steps s) {object : Expr NodeId} {name : Name}
    (he : s.Evaluates fuel source (.get object name) m) (hname : name.text = initializerName)
    (hv : Lox.evaluate (n + 1) (s.extend source).setting (.get object name) m = .done v m') :
    ∃ i m₁, Lox.evaluate n (s.extend source).setting object m = .done (.instance i) m₁ ∧
      ((∃ o, m₁.store.instance? i = some o ∧ o.fields.get? initializerName = some v) ∨
        m'.store.IsInitializerOf v i) := by
  obtain ⟨hs, hcode⟩ := h.writing_of_evaluates he
  obtain ⟨o, m₁, hobject, hread⟩ : ∃ o m₁,
      Lox.evaluate n (s.extend source).setting object m = .done o m₁ ∧
        readProperty o name m₁ = .done v m' := Outcome.exists_of_bind_eq_done hv
  have hwritten := ((lawful_writing fun _ => True).evaluate (n := n)
    (declares_writing _ (s.extend source).setting fun _ _ => True) (fun _ _ _ => trivial) hs
    (hcode.part (List.mem_singleton_self (Code.expr object))) m₁ (by rw [hobject]; rfl)).store
  rcases readProperty_cases o name m₁ with
    ⟨i, o, value, rfl, ho, hfield, hr⟩ | ⟨i, o, method, rfl, ho, hf, hr⟩ | ⟨cause, hr⟩ <;>
    rw [hr] at hread
  · obtain ⟨rfl, rfl⟩ := Outcome.done.inj hread
    exact ⟨i, m₁, hobject, .inl ⟨o, ho, hname ▸ hfield⟩⟩
  · obtain ⟨v', m₂, hb, hbound⟩ := exists_bound_eq method i m₁
    obtain ⟨rfl, rfl⟩ := Outcome.done.inj (hb.symm.trans hread)
    have hmarked := hwritten.isInitializer_of_findMethod hf
    exact ⟨i, m₁, hobject, .inr (hbound.isInitializerOf (by simp [hmarked, hname]))⟩
  · cases hread

/-- The method `init` of the superclass is an initializer of the instance that `this` stands for. -/
theorem Past.initializer_of_super (h : Past maxDepth sink steps s) {id : NodeId}
    {keyword method : Name} (he : s.Evaluates fuel source (.super id keyword method) m)
    (hname : method.text = initializerName)
    (hv : Lox.evaluate n (s.extend source).setting (.super id keyword method) m = .done v m') :
    ∃ i, m.store.get m.environment "this" = some (.instance i) ∧ m'.store.IsInitializerOf v i := by
  obtain ⟨hwritten, -⟩ := h.writing_of_evaluates he
  obtain ⟨hvalid, _, _, superclass, k, i, -, -, htext, hdist, hown, hh⟩ := h.exists_home_of_super he
  obtain ⟨hfound, hnone⟩ := readSuper_of_home method hdist htext hown hh
  refine ⟨i, hvalid.get_of_getAt hh.getAt_this fun j hj => hh.getAt_eq_none hj, ?_⟩
  cases n with
  | zero => cases hv
  | succ n =>
    replace hv : readSuper (s.extend source).setting id keyword method m = .done v m' := hv
    cases hf : m.store.findMethod superclass method.text with
    | none =>
      rw [hnone hf] at hv
      cases hv
    | some f =>
      obtain ⟨v', m₁, hb, hbound⟩ := exists_bound_eq f i m
      rw [hfound f hf, hb] at hv
      obtain ⟨rfl, rfl⟩ := Outcome.done.inj hv
      have hmarked := hwritten.isInitializer_of_findMethod hf
      exact hbound.isInitializerOf (by simp [hmarked, hname])

end Session

/-! ## The property -/

/-- Construction yields the new instance. In a session that ran any sources and runs one more, a call
of a class that does not fail gives an instance that was not there before the call, whose class is this
one, whatever its initializer does.

The initializer itself is a method that is bound to an instance. In all states, every function that is
marked as an initializer is that of an instance that is there, and it stays so. A run gets at one in two
ways: reading `init` of an instance gives a field that the instance has of this name, or else an
initializer of the instance; and `super.init` gives an initializer of the instance that `this` stands
for. However it came to the place where it is called: an expression that calls the initializer of an
instance, and does not fail, gives this instance. -/
theorem construction_yields_new_instance {maxDepth : Nat} {sink : Sink} {steps : List Session.Step}
    {s : Session} (h : Session.Past maxDepth sink steps s) (fuel : Nat) (source : String) :
    let states := (steps ++ [(⟨s, fuel, source⟩ : Session.Step)]).flatMap Session.Step.states
    let setting := (s.extend source).setting
    (∀ n c arguments line m v m', call n setting (.class c) arguments line m = .done v m' →
      ∃ i o, v = .instance i ∧ m.store.instance? i = none ∧ m'.store.instance? i = some o ∧
        o.class = c) ∧
    (∀ m ∈ states, ∀ id f, m.store.function? id = some f → f.isInitializer = true →
      ∃ i o, m.store.IsInitializerOf (.function id) i ∧ m.store.instance? i = some o) ∧
    states.Pairwise (fun m m' =>
      ∀ v i, m.store.IsInitializerOf v i → m'.store.IsInitializerOf v i) ∧
    (∀ object name m, s.Evaluates fuel source (.get object name) m → name.text = initializerName →
      ∀ n v m', evaluate (n + 1) setting (.get object name) m = .done v m' →
        ∃ i m₁, evaluate n setting object m = .done (.instance i) m₁ ∧
          ((∃ o, m₁.store.instance? i = some o ∧ o.fields.get? initializerName = some v) ∨
            m'.store.IsInitializerOf v i)) ∧
    (∀ id keyword method m, s.Evaluates fuel source (.super id keyword method) m →
      method.text = initializerName →
      ∀ n v m', evaluate n setting (.super id keyword method) m = .done v m' →
        ∃ i, m.store.get m.environment "this" = some (.instance i) ∧
          m'.store.IsInitializerOf v i) ∧
    ∀ callee line arguments m, s.Evaluates fuel source (.call callee line arguments) m →
      ∀ n f m₁ i, evaluate n setting callee m = .done f m₁ → m₁.store.IsInitializerOf f i →
        ∀ v m', evaluate (n + 1) setting (.call callee line arguments) m = .done v m' →
          v = .instance i := by
  intro states setting
  refine ⟨fun n c arguments line m v m' => exists_instance_of_call, fun m hm id f hf hmarked => ?_,
    h.pairwise_isInitializerOf fuel source, fun object name m he hname n v m' =>
    h.initializer_of_get he hname, fun id keyword method m he hname n v m' =>
    h.initializer_of_super he hname, fun callee line arguments m he n f m₁ i hcallee hi v m' hv => ?_⟩
  · obtain ⟨i, hi⟩ := h.bindsInitializers_of_mem_states hm id f hf hmarked
    have hthere : i.index < m.store.instances.size := (h.valid_of_mem_flatMap hm).own hi
    exact ⟨i, _, ⟨id, f, rfl, hf, hmarked, hi⟩, Array.getElem?_eq_getElem hthere⟩
  · obtain ⟨vs, -, hpre⟩ := h.pre_of_occurs he.1
    exact eq_of_evaluate_call (Session.declares_lineage_true vs _ _) (hpre _ _ _ he.2) hcallee hi hv

/-- An initializer that was stored is called again, when no variable holds its instance any more: it gives
the instance. -/
theorem construction_yields_new_instance_by_stored_initializer :
    let source := "class A{init(){return;}}var a=A();var f=a.init;a=nil;f();"
    let s := Session.start 5 .open
    let setting := (s.extend source).setting
    Session.Past 5 .open [] s ∧
      ∃ callee line arguments m f m₁ i v m',
        s.Evaluates 9 source (.call callee line arguments) m ∧
        evaluate 5 setting callee m = .done f m₁ ∧ m₁.store.IsInitializerOf f i ∧
        evaluate 6 setting (.call callee line arguments) m = .done v m' ∧ v = .instance i := by
  intro source s setting
  let a := Analysis.ofSource 0 source
  let plain : Setting := ⟨fun _ => none, 5, fun _ => none, fun _ => none⟩
  have ha : s.Accepts source := by
    unfold Session.Accepts
    decide +kernel
  -- the kernel cannot look into the table of the session
  have hsetting : setting = plain := by
    have hd : a.resolution.distances = [] := by decide +kernel
    exact Session.setting_extend_start 5 .open hd
  have hany : (plain.traceIn 9 a.program .initial).any (fun p =>
      (p.1.expr?.bind Expr.call?).any fun q =>
        (evaluate 5 plain q.1 p.2).done?.any (fun r => (r.2.store.initialized? r.1).isSome) &&
          (evaluate 6 plain (.call q.1 q.2.1 q.2.2) p.2).done?.isSome) = true := by
    decide +kernel
  obtain ⟨⟨t, m⟩, hp, ht⟩ := List.any_eq_true.mp hany
  obtain ⟨⟨callee, line, arguments⟩, hparts, htest⟩ := (Option.any_eq_true _ _).mp ht
  obtain ⟨e, htask, hparts⟩ := Option.bind_eq_some_iff.mp hparts
  obtain rfl := Task.expr?_eq_some_iff.mp htask
  obtain rfl := Expr.call?_eq_some_iff.mp hparts
  obtain ⟨hleft, hright⟩ := Bool.and_eq_true_iff.mp htest
  obtain ⟨⟨f, m₁⟩, hcallee, hf⟩ := (Option.any_eq_true _ _).mp hleft
  obtain ⟨i, hi⟩ := Option.isSome_iff_exists.mp hf
  obtain ⟨⟨v, m'⟩, hcall⟩ := Option.isSome_iff_exists.mp hright
  rw [Outcome.done?_eq_some_iff] at hcallee hcall
  rw [Store.initialized?_eq_some_iff] at hi
  have he : s.Evaluates 9 source (.call callee line arguments) m := by
    refine ⟨ha, ?_⟩
    rw [show (s.extend source).setting = plain from hsetting]
    exact Setting.mem_traceIn_iff.mp hp
  rw [← hsetting] at hcallee hcall
  obtain ⟨-, -, -, -, -, hcalls⟩ := construction_yields_new_instance .start 9 source
  exact ⟨.start, callee, line, arguments, m, f, m₁, i, v, m', he, hcallee, hi, hcall,
    hcalls callee line arguments m he 5 f m₁ i hcallee hi v m' hcall⟩

end Lox
