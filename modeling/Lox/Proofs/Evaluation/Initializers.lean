import Lox.Proofs.Evaluation.Instances
import Lox.Proofs.Evaluation.Origins
import Lox.Proofs.Evaluation.Supers

/-!
# Initializers

A function that is marked as an initializer gives, when it is called, the value that the frame in which
it was made binds `this` to, whatever its body returns. That frame was made when the method was bound
to an instance, and no code binds `this` again.

* `Store.IsInitializerOf`: a value is the initializer of an instance, and stays so;
* `Task.Changes.bindsInitializers`: every function that is marked was bound to an instance;
* `eq_of_call_of_isInitializerOf`: a call of the initializer of an instance gives this instance, and so
  does the expression for it (`eq_of_evaluate_call`).
-/

namespace Lox

/-! ## Initializers of instances -/

/-- A value is a function that is marked as an initializer, in a frame that binds `this` to an
instance. -/
def Store.IsInitializerOf (s : Store) (v : Value) (i : InstanceId) : Prop :=
  ∃ id f, v = .function id ∧ s.function? id = some f ∧ f.isInitializer = true ∧
    s.own? f.closure "this" = some (.instance i)

/-- The instance whose initializer a value is, if it is one. -/
def Store.initialized? (s : Store) : Value → Option InstanceId
  | .function id => (s.function? id).bind fun f =>
    if f.isInitializer then (s.own? f.closure "this").bind Value.instance? else none
  | _ => none

/-- Every function that is marked as an initializer is that of some instance. -/
def Store.BindsInitializers (s : Store) : Prop :=
  ∀ id f, s.function? id = some f → f.isInitializer = true →
    ∃ i, s.own? f.closure "this" = some (.instance i)

namespace Store

variable {s s' : Store} {v : Value} {i : InstanceId}

theorem initialized?_eq_some_iff : s.initialized? v = some i ↔ s.IsInitializerOf v i := by
  constructor
  · intro h
    cases v with
    | function id =>
      obtain ⟨f, hid, hf⟩ := Option.bind_eq_some_iff.mp h
      split at hf
      · next hmarked =>
        obtain ⟨v, hv, hi⟩ := Option.bind_eq_some_iff.mp hf
        obtain rfl := Value.instance?_eq_some_iff.mp hi
        exact ⟨id, f, rfl, hid, hmarked, hv⟩
      · cases hf
    | nil | bool | number | string | «class» | «instance» => cases h
  · rintro ⟨id, f, rfl, hid, hmarked, hthis⟩
    simp [initialized?, hid, hmarked, hthis, Value.instance?]

theorem IsInitializerOf.retain (h : s.IsInitializerOf v i) (hs : s.Retains s')
    (hf : ∀ id f, s.function? id = some f → s'.function? id = some f) : s'.IsInitializerOf v i := by
  obtain ⟨id, f, rfl, hid, hmarked, hthis⟩ := h
  exact ⟨id, f, rfl, hf id f hid, hmarked, hs.own_eq rfl hthis⟩

/-- A method that is bound to an instance is its initializer, if it is marked as one. -/
theorem IsBound.isInitializerOf {f : FunctionObject} (h : s.IsBound v f i)
    (hf : f.isInitializer = true) : s.IsInitializerOf v i := by
  obtain ⟨id, b, rfl, hid, hb⟩ := h
  refine ⟨id, _, rfl, hid, hf, ?_⟩
  rw [own?, hb]
  exact Bindings.get?_insert_self _ _ _

theorem BindsInitializers.of_functions_eq (h : s.BindsInitializers) (hs : s.Retains s')
    (hf : s'.functions = s.functions) : s'.BindsInitializers := by
  intro id f hid hmarked
  rw [function?, hf] at hid
  obtain ⟨i, hi⟩ := h id f hid hmarked
  exact ⟨i, hs.own_eq rfl hi⟩

/-- A function is added that is not marked, or that was bound to an instance. -/
theorem BindsInitializers.addFunction (h : s.BindsInitializers) {f : FunctionObject}
    (hf : f.isInitializer = true → ∃ i, s.own? f.closure "this" = some (.instance i)) :
    (s.addFunction f).2.BindsInitializers := by
  intro id g hg hmarked
  rw [function?, Store.addFunction, Array.getElem?_push] at hg
  split at hg
  · obtain rfl := Option.some.inj hg
    exact hf hmarked
  · exact h id g hg hmarked

/-- The methods of classes that are marked are those with the name of initializers. -/
theorem Written.isInitializer_of_findMethod {P : Code → Prop} (h : s.Written P) {c : ClassId}
    {name : String} {f : FunctionObject} (hf : s.findMethod c name = some f) :
    f.isInitializer = (name == initializerName) := by
  obtain ⟨id, c', hc, hm⟩ := exists_method_of_findMethod hf
  obtain ⟨_, _, methods, closure, hd, -⟩ := h.class hc
  rw [hd.methods, get?_methodTable] at hm
  obtain ⟨d, hfind, rfl⟩ := Option.map_eq_some_iff.mp hm
  have hname : d.name.text = name := by simpa using List.find?_some hfind
  exact hname ▸ rfl

end Store

/-! ## Steps -/

theorem functions_declareClass (name : Name) (c : Option ClassId) (methods : List (FunDecl NodeId))
    (m : Machine) : (declareClass name c methods m).store.functions = m.store.functions := by
  cases c <;> rfl

section

variable {go : (t : Task) → Machine → Outcome t.Answer} {t : Task} {m x y : Machine}

/-- The functions stay as they are, or one is added, which was declared or bound. -/
theorem Task.Changes.functions (h : t.Changes go m x y) :
    y.store.functions = x.store.functions ∨
      (∃ declaration, y = declareFunction declaration x) ∨
      ∃ method i, y.store =
        ((x.store.bindMethod method i).2.addFunction (x.store.bindMethod method i).1).2 := by
  cases h with
  | keep h => exact .inl (congrArg Store.functions h)
  | frame | var | assign | set | new | construct => exact .inl rfl
  | «class» c => exact .inl (functions_declareClass _ c _ x)
  | @function declaration => exact .inr (.inl ⟨declaration, rfl⟩)
  | bind method i => exact .inr (.inr ⟨method, i, rfl⟩)

theorem Task.Changes.function?_eq (h : t.Changes go m x y) {id : FunctionId} {f : FunctionObject}
    (hf : x.store.function? id = some f) : y.store.function? id = some f := by
  rcases h.functions with h | ⟨declaration, rfl⟩ | ⟨method, i, h⟩
  · rwa [Store.function?, h]
  · exact (Store.Extends.addFunction x.store ⟨declaration, x.environment, false⟩).function hf
  · rw [h]
    exact (Store.Extends.addFunction _ _).function hf

/-- Only a method is marked that was bound to an instance. -/
theorem Task.Changes.bindsInitializers (h : t.Changes go m x y) (hs : x.store.Retains y.store)
    (hx : x.store.BindsInitializers) : y.store.BindsInitializers := by
  rcases h.functions with h | ⟨declaration, rfl⟩ | ⟨method, i, h⟩
  · exact hx.of_functions_eq hs h
  · have hadd := hx.addFunction (f := ⟨declaration, x.environment, false⟩) nofun
    intro id f hid hmarked
    obtain ⟨i, hi⟩ := hadd id f hid hmarked
    exact ⟨i, hs.own_eq rfl hi⟩
  · have hbound : x.store.Retains (x.store.bindMethod method i).2 := .addFrame _ _
    rw [h]
    refine (hx.of_functions_eq hbound rfl).addFunction fun _ => ⟨i, ?_⟩
    exact (Store.own?_addFrame_self x.store _ _).trans (Bindings.get?_insert_self _ _ _)

end

instance : Trans
    (fun x y : Machine => ∀ id f, x.store.function? id = some f → y.store.function? id = some f)
    (fun x y : Machine => ∀ id f, x.store.function? id = some f → y.store.function? id = some f)
    (fun x y : Machine => ∀ id f, x.store.function? id = some f → y.store.function? id = some f) :=
  ⟨fun h h' id f hf => h' id f (h id f hf)⟩

/-- No run changes a function. -/
theorem function?_run (n : Nat) (s : Setting) (t : Task) (m : Machine) :
    (t.run n s m).Ensures fun m' =>
      ∀ id f, m.store.function? id = some f → m'.store.function? id = some f :=
  Task.ensures_of_changes
    (Q := fun x y : Machine => ∀ id f, x.store.function? id = some f → y.store.function? id = some f)
    (fun _ _ _ h => h) (fun _ _ _ _ _ h _ _ hf => h.function?_eq hf) n s t m

/-! ## Calls -/

section

variable {declared : SubclassDecl → FrameId → ClassId → Prop} {vs : List Visit} {setting : Setting}
  {m m' : Machine} {v : Value} {i : InstanceId}
  (hd : (lineage declared vs).Declares setting fun _ _ => True)

include hd

theorem passes_of_run {n : Nat} {t : Task} (hpre : (lineage declared vs).contract.pre t m)
    {a : t.Answer} (h : t.run n setting m = .done a m') : (lineage declared vs).Passes m m' := by
  have hr := (lawful_lineage.keptWhere hd).run (n := n) (fun _ _ _ => trivial) hpre
  rw [h] at hr
  exact hr.1

/-- A call of the initializer of an instance gives this instance, whatever its body does. -/
theorem eq_of_call_of_isInitializerOf {n : Nat} {callee : Value} {arguments : List Value} {line : Nat}
    (hs : (lineage declared vs).store m.store) (hi : m.store.IsInitializerOf callee i)
    (h : call n setting callee arguments line m = .done v m') : v = .instance i := by
  obtain ⟨id, f, rfl, hf, hmarked, hthis⟩ := hi
  obtain ⟨n, henter⟩ : ∃ n, enter (n + 1) setting f arguments line m = .done v m' := by
    rcases n with - | - | n
    · cases h
    · simp only [call, Task.run, Task.rule, Value.callRule, hf] at h
      split at h <;> cases h
    · simp only [call, Task.run, Task.rule, Value.callRule, hf] at h
      split at h
      · exact ⟨n, h⟩
      · cases h
  simp only [enter, Task.run, Task.rule, FunctionObject.rule] at henter
  split at henter
  · cases henter
  obtain ⟨completion, m₂, hbody, hresult⟩ := Outcome.exists_of_bind_eq_done henter
  obtain ⟨m₁, hran, rfl⟩ := Outcome.exists_of_onExit_eq_done hbody
  -- the body leaves the frame in which the initializer was made as it was
  obtain ⟨hinside, hcode⟩ := lawful_lineage.call hs (lawful_lineage.function hs trivial hf)
    fun _ (_ : _ ∈ arguments) => trivial
  have hpasses := passes_of_run hd (t := .executeAll f.declaration.body)
    (m := f.inside arguments m) ⟨hinside.store, hcode⟩ hran
  have hlast : (m₁.leave m.environment 1).store.getAt f.closure 0 "this" = some (.instance i) :=
    (hinside.grows.trans hpasses.grows).own_eq rfl hthis
  replace hresult : f.result completion (m₁.leave m.environment 1) = .done v m' := hresult
  simp only [FunctionObject.result, hmarked, if_true, hlast] at hresult
  exact (Outcome.done.inj hresult).1.symm

/-- An expression that calls the initializer of an instance gives this instance. -/
theorem eq_of_evaluate_call {n : Nat} {callee : Expr NodeId} {arguments : List (Expr NodeId)}
    {line : Nat} (hpre : (lineage declared vs).contract.pre (.evaluate (.call callee line arguments)) m)
    {f : Value} {m₁ : Machine} (hcallee : evaluate n setting callee m = .done f m₁)
    (hi : m₁.store.IsInitializerOf f i)
    (h : evaluate (n + 1) setting (.call callee line arguments) m = .done v m') :
    v = .instance i := by
  obtain ⟨hs, hcode⟩ := hpre
  have sub := lawful_lineage.parts hcode rfl id
  obtain ⟨f', m₁', he, h⟩ : ∃ f' m₁', evaluate n setting callee m = .done f' m₁' ∧
      ((evaluateAll n setting arguments m₁').bind fun values m => call n setting f' values line m) =
        .done v m' := Outcome.exists_of_bind_eq_done h
  obtain ⟨rfl, rfl⟩ := Outcome.done.inj (hcallee.symm.trans he)
  obtain ⟨values, m₂, harguments, hcall⟩ := Outcome.exists_of_bind_eq_done h
  have hpasses := passes_of_run hd (t := .evaluate callee)
    ⟨hs, sub (.expr callee) (by simp [Code.parts])⟩ hcallee
  have hcodes (e : Expr NodeId) (he : e ∈ arguments) :
      (lineage declared vs).code m₁.store m₁.environment (.expr e) :=
    hpasses.code lawful_lineage (sub (.expr e) (List.mem_cons_of_mem _ (List.mem_map_of_mem he)))
  have hpasses' := passes_of_run hd (t := .evaluateAll arguments) ⟨hpasses.store, hcodes⟩ harguments
  have hfunctions := function?_run n setting (.evaluateAll arguments) m₁ m₂
    (congrArg Outcome.state? harguments)
  exact eq_of_call_of_isInitializerOf hd hpasses'.store (hi.retain hpasses'.grows hfunctions) hcall

end

end Lox
