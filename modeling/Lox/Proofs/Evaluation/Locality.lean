import Lox.Proofs.Evaluation.Validity
import Mathlib.Logic.Relation

/-!
# What a call depends on and what it changes

A call runs in a new frame inside the closure of its function. So it does not
matter from which frame it is made, and it only gets at what can be reached from
the function, the arguments and the globals, and at what it makes itself.

* `Store.Links`, `Store.Reachable`: what can be reached in a store;
* `Region`: a part of a store that no link leaves. `Region.reachable` is the smallest with
  some roots;
* `confinement`: the evaluator stays in a region in which it starts (`lawful_confinement`), and
  changes nothing outside of it;
* `call_environment`: a call is the same from every frame;
* `calls_are_lexical_and_local`: both of this for every call, however it ends.
-/

namespace Lox

/-! ## What can be reached -/

/-- A frame or a value. -/
inductive Vertex where
  | frame (id : FrameId)
  | value (v : Value)

/-- One step in a store: from a frame to what it binds and to the frame around
it, from a function and from the methods of a class to where they were declared, from a class to its
superclass, and from an instance to its class and its fields. -/
inductive Store.Links (s : Store) : Vertex → Vertex → Prop where
  | binding {f : FrameId} {name : String} {v : Value} (h : s.own? f name = some v) :
    Links s (.frame f) (.value v)
  | enclosing {f g : FrameId} (h : s.enclosing? f = some g) : Links s (.frame f) (.frame g)
  | closure {id : FunctionId} {f : FunctionObject} (h : s.function? id = some f) :
    Links s (.value (.function id)) (.frame f.closure)
  | superclass {id c' : ClassId} {c : ClassObject} (h : s.class? id = some c)
    (hs : c.superclass = some c') : Links s (.value (.class id)) (.value (.class c'))
  | method {id : ClassId} {c : ClassObject} {name : String} {f : FunctionObject}
    (h : s.class? id = some c) (hm : c.methods.get? name = some f) :
    Links s (.value (.class id)) (.frame f.closure)
  | «class» {id : InstanceId} {o : InstanceObject} (h : s.instance? id = some o) :
    Links s (.value (.instance id)) (.value (.class o.class))
  | field {id : InstanceId} {o : InstanceObject} {name : String} {v : Value}
    (h : s.instance? id = some o) (hf : o.fields.get? name = some v) :
    Links s (.value (.instance id)) (.value v)

/-- A frame or a value can be reached from one of the roots along links. -/
def Store.Reachable (s : Store) (roots : List Vertex) (p : Vertex) : Prop :=
  ∃ root ∈ roots, Relation.ReflTransGen s.Links root p

/-- From where a call can reach anything. -/
def Vertex.rootsOfCall (callee : Value) (arguments : List Value) : List Vertex :=
  .frame .globals :: .value callee :: arguments.map .value

/-! ## Regions -/

/-- A frame or a value that is no object of a store. -/
def Vertex.IsNew (s : Store) : Vertex → Prop
  | .frame id => s.frames.size ≤ id.index
  | .value (.function id) => s.functions.size ≤ id.index
  | .value (.class id) => s.classes.size ≤ id.index
  | .value (.instance id) => s.instances.size ≤ id.index
  | .value _ => True

/-- No link leads from what is not in the store. -/
theorem Store.Links.not_isNew {s : Store} {p q : Vertex} (h : s.Links p q) : ¬ p.IsNew s := by
  cases h with
  | binding h =>
    have hf := frame?_isSome_of_own? (Option.isSome_of_eq_some h)
    simpa [Vertex.IsNew, frame?] using hf
  | enclosing h => simpa [Vertex.IsNew, frame?] using frame?_isSome_of_enclosing? h
  | closure h => simpa [Vertex.IsNew, function?] using Option.isSome_of_eq_some h
  | superclass h | method h => simpa [Vertex.IsNew, class?] using Option.isSome_of_eq_some h
  | «class» h | field h => simpa [Vertex.IsNew, instance?] using Option.isSome_of_eq_some h

/-- A part of a store that has the globals and that no link leaves, with everything that is not in the
store. -/
structure Region (s : Store) where
  Mem : Vertex → Prop
  globals : Mem (.frame .globals)
  closed {p q : Vertex} : s.Links p q → Mem p → Mem q
  new {p : Vertex} : p.IsNew s → Mem p

/-- What can be reached, and everything that is not in the store. -/
def Region.reachable (s : Store) (roots : List Vertex) (h : .frame .globals ∈ roots) : Region s where
  Mem p := s.Reachable roots p ∨ p.IsNew s
  globals := .inl ⟨_, h, .refl⟩
  closed hl hp := by
    obtain ⟨root, hr, hp⟩ := hp.resolve_right hl.not_isNew
    exact .inl ⟨root, hr, hp.tail hl⟩
  new := .inr

namespace Region

variable {s₀ s s' : Store} {R : Region s₀} {m : Machine}

/-- A later store in which no link leaves the region either. -/
structure Confines (R : Region s₀) (s : Store) : Prop where
  includes : s₀.Includes s
  closed {p q : Vertex} : s.Links p q → R.Mem p → R.Mem q

/-- What is outside of the region is the same in both stores. -/
structure Spares (R : Region s₀) (s s' : Store) : Prop where
  frame {f : FrameId} : ¬ R.Mem (.frame f) → s'.frame? f = s.frame? f
  «instance» {i : InstanceId} : ¬ R.Mem (.value (.instance i)) → s'.instance? i = s.instance? i

/-- Values that are no objects are in every region. -/
theorem mem_of_isPlain (R : Region s₀) {v : Value} (h : v.IsPlain) : R.Mem (.value v) := by
  cases v with
  | function | «class» | «instance» => exact h.elim
  | _ => exact R.new trivial

namespace Confines

variable (h : R.Confines s)
include h

theorem ancestor? {f g : FrameId} {k : Nat} (hf : R.Mem (.frame f)) (ha : s.ancestor? f k = some g) :
    R.Mem (.frame g) := by
  induction k generalizing f with
  | zero => exact Option.some.inj ha ▸ hf
  | succ k ih =>
    obtain ⟨outer, he, ha⟩ := Option.bind_eq_some_iff.mp ha
    exact ih (h.closed (.enclosing he) hf) ha

theorem closure_of_findMethod {c : ClassId} {name : String} {f : FunctionObject}
    (hc : R.Mem (.value (.class c))) (hf : s.findMethod c name = some f) :
    R.Mem (.frame f.closure) := by
  refine Store.findMethod_rec (P := fun c => R.Mem (.value (.class c)) → R.Mem (.frame f.closure))
    (fun c o ho hm hc => h.closed (.method ho hm) hc) (fun c o superclass ho _ hs ih hc => ?_) hf hc
  exact ih (h.closed (.superclass ho hs) hc)

/-! ### Operations -/

theorem define {f : FrameId} (name : String) {v : Value} (hv : R.Mem (.value v)) :
    R.Confines (s.define f name v) where
  includes := h.includes.trans (.define s f name v)
  closed hl hp := by
    cases hl with
    | binding ho =>
      rw [Store.own?_define] at ho
      split at ho
      · obtain ⟨-, -, rfl⟩ := Option.map_eq_some_iff.mp ho
        exact hv
      · exact h.closed (.binding ho) hp
    | enclosing he => exact h.closed (.enclosing (by rwa [Store.enclosing?_define] at he)) hp
    | _ => exact h.closed (by constructor <;> assumption) hp

theorem addFrame {frame : Frame} (he : ∀ g, frame.enclosing = some g → R.Mem (.frame g))
    (hb : ∀ name v, frame.bindings.get? name = some v → R.Mem (.value v)) :
    R.Confines (s.addFrame frame).2 where
  includes := h.includes.trans (.addFrame s frame)
  closed hl hp := by
    cases hl with
    | binding ho =>
      rw [Store.own?_addFrame] at ho
      split at ho
      · exact hb _ _ ho
      · exact h.closed (.binding ho) hp
    | enclosing hg =>
      rw [Store.enclosing?_addFrame] at hg
      split at hg
      · exact he _ hg
      · exact h.closed (.enclosing hg) hp
    | _ => exact h.closed (by constructor <;> assumption) hp

theorem addFunction {f : FunctionObject} (hf : R.Mem (.frame f.closure)) :
    R.Confines (s.addFunction f).2 where
  includes := h.includes.trans (.addFunction s f)
  closed hl hp := by
    cases hl with
    | closure hg =>
      rw [Store.function?, Store.addFunction, Array.getElem?_push] at hg
      split at hg
      · exact Option.some.inj hg ▸ hf
      · exact h.closed (.closure hg) hp
    | _ => exact h.closed (by constructor <;> assumption) hp

theorem addClass {c : ClassObject} (hs : ∀ c', c.superclass = some c' → R.Mem (.value (.class c')))
    (hm : ∀ name f, c.methods.get? name = some f → R.Mem (.frame f.closure)) :
    R.Confines (s.addClass c).2 where
  includes := h.includes.trans (.addClass s c)
  closed hl hp := by
    cases hl with
    | superclass hd hs' =>
      rw [Store.class?, Store.addClass, Array.getElem?_push] at hd
      split at hd
      · exact hs _ (Option.some.inj hd ▸ hs')
      · exact h.closed (.superclass hd hs') hp
    | method hd hm' =>
      rw [Store.class?, Store.addClass, Array.getElem?_push] at hd
      split at hd
      · exact hm _ _ (Option.some.inj hd ▸ hm')
      · exact h.closed (.method hd hm') hp
    | _ => exact h.closed (by constructor <;> assumption) hp

theorem addInstance {c : ClassId} (hc : R.Mem (.value (.class c))) :
    R.Confines (s.addInstance ⟨c, ∅⟩).2 where
  includes := h.includes.trans (.addInstance s _)
  closed hl hp := by
    cases hl with
    | «class» ho =>
      rw [Store.instance?, Store.addInstance, Array.getElem?_push] at ho
      split at ho
      · exact Option.some.inj ho ▸ hc
      · exact h.closed (.class ho) hp
    | field ho hf =>
      rw [Store.instance?, Store.addInstance, Array.getElem?_push] at ho
      split at ho
      · obtain rfl := Option.some.inj ho
        cases hf
      · exact h.closed (.field ho hf) hp
    | _ => exact h.closed (by constructor <;> assumption) hp

theorem setField {i : InstanceId} (name : String) {v : Value} (hv : R.Mem (.value v)) :
    R.Confines (s.setField i name v) where
  includes := h.includes.trans (.setField s i name v)
  closed hl hp := by
    cases hl with
    | «class» ho =>
      rw [Store.instance?, Store.setField, Array.getElem?_modify] at ho
      split at ho
      · obtain ⟨o, ho', rfl⟩ := Option.map_eq_some_iff.mp ho
        have hclass : s.Links _ (.value (.class o.class)) := .class ho'
        exact h.closed hclass hp
      · exact h.closed (.class ho) hp
    | field ho hf =>
      rw [Store.instance?, Store.setField, Array.getElem?_modify] at ho
      split at ho
      · obtain ⟨o, ho', rfl⟩ := Option.map_eq_some_iff.mp ho
        rw [Bindings.get?_insert] at hf
        split at hf
        · exact Option.some.inj hf ▸ hv
        · exact h.closed (.field ho' hf) hp
      · exact h.closed (.field ho hf) hp
    | _ => exact h.closed (by constructor <;> assumption) hp

theorem bindMethod {f : FunctionObject} {i : InstanceId} (hf : R.Mem (.frame f.closure))
    (hi : R.Mem (.value (.instance i))) :
    R.Confines (s.bindMethod f i).2 ∧ R.Mem (.frame (s.bindMethod f i).1.closure) := by
  refine ⟨h.addFrame (fun g hg => Option.some.inj hg ▸ hf) fun name v hv => ?_, ?_⟩
  · rw [Bindings.get?_insert] at hv
    split at hv
    · exact Option.some.inj hv ▸ hi
    · cases hv
  · exact R.new h.includes.frames

end Confines

namespace Spares

theorem refl (R : Region s₀) (s : Store) : R.Spares s s := ⟨fun _ => rfl, fun _ => rfl⟩

theorem trans {s'' : Store} (h : R.Spares s s') (h' : R.Spares s' s'') : R.Spares s s'' :=
  ⟨fun hf => (h'.frame hf).trans (h.frame hf), fun hi => (h'.instance hi).trans (h.instance hi)⟩

theorem of_eq (R : Region s₀) (hf : s'.frames = s.frames) (hi : s'.instances = s.instances) :
    R.Spares s s' :=
  ⟨fun _ => by rw [Store.frame?, hf]; rfl, fun _ => by rw [Store.instance?, hi]; rfl⟩

theorem define {f : FrameId} (hf : R.Mem (.frame f)) (name : String) (v : Value) :
    R.Spares s (s.define f name v) where
  frame {g} hg := by
    rw [Store.frame?_define, if_neg]
    exact fun hgf => hg (hgf ▸ hf)
  «instance» _ := rfl

theorem addFrame (h : R.Confines s) (frame : Frame) : R.Spares s (s.addFrame frame).2 where
  frame {g} hg := by
    rw [Store.frame?_addFrame, if_neg]
    exact fun hgf => hg (hgf ▸ R.new h.includes.frames)
  «instance» _ := rfl

theorem addInstance (h : R.Confines s) (o : InstanceObject) : R.Spares s (s.addInstance o).2 where
  frame _ := rfl
  «instance» {i} hi := by
    rw [Store.instance?, Store.addInstance, Array.getElem?_push, if_neg]
    · rfl
    · exact fun he => hi (R.new (Nat.le_trans h.includes.instances (Nat.le_of_eq he.symm)))

theorem setField {i : InstanceId} (hi : R.Mem (.value (.instance i))) (name : String) (v : Value) :
    R.Spares s (s.setField i name v) where
  frame _ := rfl
  «instance» {j} hj := by
    rw [Store.instance?, Store.setField, Array.getElem?_modify, if_neg]
    · rfl
    · intro he
      obtain rfl : i = j := by cases i; cases j; exact congrArg _ he
      exact hj hi

end Spares

/-! ## The discipline -/

/-- Values, and the frames in which code runs, are in the region, and what is outside of it stays the
same. -/
def confinement (R : Region s₀) : Discipline where
  store := R.Confines
  value _ v := R.Mem (.value v)
  code _ f _ := R.Mem (.frame f)
  grows := R.Spares
  declares _ _ _ _ _ := True

/-- The frames that are seen from a region are in it. -/
theorem mem_of_sees (h : R.Confines s) {f : FrameId} (hf : R.confinement.Sees s f) :
    R.Mem (.frame f) := by
  obtain ⟨home, k, rfl | ⟨_, hhome⟩, ha⟩ := hf
  · exact h.ancestor? R.globals ha
  · exact h.ancestor? hhome ha

/-- So are the classes that offer their methods there. -/
theorem mem_of_offers (h : R.Confines s) {c : ClassId} (hc : R.confinement.Offers s c) :
    R.Mem (.value (.class c)) := by
  obtain hc | ⟨i, o, hi, ho, rfl⟩ := hc
  · exact hc
  · exact h.closed (.class ho) hi

theorem confinement_addFrame (h : R.Confines s) {f : FrameId} (hf : R.Mem (.frame f))
    (bindings : Bindings Value) (hb : ∀ name v, bindings.get? name = some v → R.Mem (.value v)) :
    R.confinement.Keeps s (s.addFrame ⟨bindings, some f⟩).2 :=
  ⟨h.addFrame (fun _ hg => Option.some.inj hg ▸ hf) hb, .addFrame h _⟩

theorem confinement_define (h : R.Confines s) {f : FrameId} (hf : R.Mem (.frame f)) (name : String)
    {v : Value} (hv : R.Mem (.value v)) : R.confinement.Keeps s (s.define f name v) :=
  ⟨h.define name hv, .define hf name v⟩

theorem confinement_declareFunction {m : Machine} (h : R.Confines m.store)
    (he : R.Mem (.frame m.environment)) (declaration : FunDecl NodeId) :
    R.confinement.Keeps m.store (declareFunction declaration m).store := by
  let f : FunctionObject := ⟨declaration, m.environment, false⟩
  have hf : R.Confines (m.store.addFunction f).2 := h.addFunction he
  have hv : R.Mem (.value (.function (m.store.addFunction f).1)) := R.new h.includes.functions
  have hadd : R.Spares m.store (m.store.addFunction f).2 := .of_eq R rfl rfl
  exact ⟨hf.define _ hv, hadd.trans (.define he _ _)⟩

theorem confinement_declareClass {m : Machine} (h : R.Confines m.store)
    (he : R.Mem (.frame m.environment)) (name : Name) {superclass : Option ClassId}
    (hs : ∀ c, superclass = some c → R.Mem (.value (.class c))) (methods : List (FunDecl NodeId)) :
    R.confinement.Keeps m.store (declareClass name superclass methods m).store := by
  have hd := confinement_define h he name.text (R.new (p := .value .nil) trivial)
  -- whatever store the class is added to, it is bound to its name there
  have hbind {s : Store} (hk : R.confinement.Keeps m.store s) {closure : FrameId}
      (hc : R.Mem (.frame closure)) :
      let c : ClassObject := ⟨name.text, superclass, methodTable closure methods⟩
      R.confinement.Keeps m.store
        ((s.addClass c).2.define m.environment name.text (.class (s.addClass c).1)) := by
    intro c
    have hadd : R.Confines (s.addClass c).2 := by
      refine hk.store.addClass hs fun n f hf => ?_
      obtain ⟨d, -, rfl⟩ := exists_mem_of_methodTable hf
      exact hc
    have hv : R.Mem (.value (.class (s.addClass c).1)) := R.new hk.store.includes.classes
    have hspares : R.Spares s (s.addClass c).2 := .of_eq R rfl rfl
    exact ⟨hadd.define _ hv, hk.grows.trans (hspares.trans (.define he _ _))⟩
  cases superclass with
  | none => exact hbind hd he
  | some c =>
    have hframe : R.confinement.Keeps (m.store.define m.environment name.text .nil) _ :=
      confinement_addFrame hd.store he ((∅ : Bindings Value).insert "super" (.class c))
        fun n v hv => by
          rw [Bindings.get?_insert] at hv
          split at hv
          · exact Option.some.inj hv ▸ hs c rfl
          · cases hv
    exact hbind ⟨hframe.store, hd.grows.trans hframe.grows⟩ (R.new hd.store.includes.frames)

/-- The evaluator stays in a region in which it starts, and spares everything outside. -/
theorem lawful_confinement (R : Region s₀) : R.confinement.Lawful where
  refl := .refl R
  trans := .trans
  value_grows _ hv := hv
  code_grows _ hf := hf
  plain := R.mem_of_isPlain
  own h hf ho := h.closed (.binding ho) (mem_of_sees h hf)
  field h hi ho hf := h.closed (.field ho hf) hi
  function h hv hf := h.closed (.closure hf) hv
  parts hf _ _ _ _ := hf
  superclass hf := hf
  block h hf :=
    ⟨confinement_addFrame h hf _ fun _ _ hv => (by cases hv), fun _ _ => R.new h.includes.frames⟩
  call h hf ha :=
    ⟨confinement_addFrame h hf _ fun _ v hv =>
      ha v (List.of_mem_zip (Bindings.mem_of_get?_ofList hv)).2, fun _ _ => R.new h.includes.frames⟩
  var h hf hv := confinement_define h hf _ hv
  assign h _ hg hv := confinement_define h (mem_of_sees h hg) _ hv
  declareFunction h he := confinement_declareFunction h he _
  declareClass h he := confinement_declareClass h he _ (fun _ hc => by cases hc) _
  declareSubclass h he hc _ :=
    confinement_declareClass h he _ (fun _ hs => Option.some.inj hs ▸ hc) _
  setField h hi hv := ⟨h.setField _ hv, .setField hi _ _⟩
  addInstance h hc := ⟨⟨h.addInstance hc, .addInstance h _⟩, R.new h.includes.instances⟩
  bindMethod h ho hf hi := by
    obtain ⟨hb, hcode⟩ := h.bindMethod (h.closure_of_findMethod (mem_of_offers h ho) hf) hi
    exact ⟨⟨hb, .addFrame h _⟩, hcode⟩
  addFunction h hf := ⟨⟨h.addFunction hf, .of_eq R rfl rfl⟩, R.new h.includes.functions⟩

/-- A call whose callee and arguments are in a region spares everything outside of it. -/
theorem spares_call (R : Region m.store) (n : Nat) (s : Setting) {callee : Value}
    {arguments : List Value} (hc : R.Mem (.value callee)) (ha : ∀ a ∈ arguments, R.Mem (.value a))
    (line : Nat) : (call n s callee arguments line m).Ensures fun m' => R.Spares m.store m'.store := by
  have hm : R.Confines m.store := ⟨.refl _, R.closed⟩
  have hkept : R.confinement.contract.KeptWhere s fun _ _ => True :=
    (lawful_confinement R).keptWhere fun _ _ _ _ _ _ _ _ _ => trivial
  have hrun := hkept.run (n := n) (t := .call callee arguments line) (m := m)
    (fun _ _ _ => trivial) ⟨hm, hc, ha⟩
  exact hrun.ensures (fun _ _ h => h.1.grows) fun _ h => h.grows

end Region

/-! ## The caller -/

theorem Outcome.onExit_bind {α β : Type} {o : Outcome α} {g : Machine → Machine}
    {f : α → Machine → Outcome β} (h : ∀ a m, f a (g m) = (f a m).onExit g) :
    (o.onExit g).bind f = (o.bind f).onExit g := by
  cases o with
  | done a m => exact h a m
  | failed | outOfFuel => rfl

section

variable (n : Nat) (s : Setting) (line : Nat) (m : Machine) (environment : FrameId)

theorem FunctionObject.result_environment (f : FunctionObject) (completion : Completion) :
    f.result completion { m with environment } =
      (f.result completion m).onExit fun m => { m with environment } := by
  unfold result
  dsimp only
  split
  · cases m.store.getAt f.closure 0 "this" <;> rfl
  · cases completion <;> rfl

/-- A function runs in the same way from every frame. -/
theorem enter_environment (f : FunctionObject) (arguments : List Value) :
    enter n s f arguments line { m with environment } =
      (enter n s f arguments line m).onExit fun m => { m with environment } := by
  cases n with
  | zero => rfl
  | succ n =>
    simp only [enter, Task.run, Task.rule, FunctionObject.rule]
    split
    · rfl
    · -- the body starts in the frame of the call, whatever the frame was before
      let give (caller : FrameId) (o : Outcome Completion) : Outcome Value :=
        ((Exit.leave caller 1).after o).bind fun completion m => f.result completion m
      let o := (Task.executeAll f.declaration.body).run n s (f.inside arguments m)
      show give environment o = (give m.environment o).onExit fun m => { m with environment }
      cases o with
      | done completion m' =>
        exact f.result_environment (m'.leave m.environment 1) environment completion
      | failed | outOfFuel => rfl

/-- A call is the same from every frame. -/
theorem call_environment (callee : Value) (arguments : List Value) :
    call n s callee arguments line { m with environment } =
      (call n s callee arguments line m).onExit fun m => { m with environment } := by
  cases n with
  | zero => rfl
  | succ n =>
    cases callee with
    | function id =>
      simp only [call, Task.run, Task.rule, Value.callRule]
      cases m.store.function? id with
      | none => rfl
      | some f =>
        dsimp only
        split
        · exact enter_environment n s line m environment f arguments
        · rfl
    | «class» id =>
      simp only [call, Task.run, Task.rule, Value.callRule]
      split
      · cases (m.store.addInstance ⟨id, ∅⟩).2.findMethod id initializerName with
        | none => rfl
        | some initializer =>
          let new := m.store.addInstance ⟨id, ∅⟩
          let f := new.2.bindMethod initializer new.1
          have henter := enter_environment n s line { m with store := f.2 } environment f.1 arguments
          let give (_ : Value) (m : Machine) : Outcome Value := .done (.instance new.1) m
          exact (congrArg (Outcome.bind · give) henter).trans (Outcome.onExit_bind fun _ _ => rfl)
      · rfl
    | _ => rfl

end

/-- Calls are lexically scoped and local. However a call ends, its outcome, with the output and the
store, is the same from every frame, and the call changes no frame and no instance that was there
before and could not be reached from the globals, the callee and the arguments. -/
theorem calls_are_lexical_and_local (n : Nat) (s : Setting) (callee : Value)
    (arguments : List Value) (line : Nat) (m : Machine) :
    (∀ environment, call n s callee arguments line { m with environment } =
      (call n s callee arguments line m).onExit fun m' => { m' with environment }) ∧
    ∀ m', (call n s callee arguments line m).state? = some m' →
      (∀ f, (m.store.frame? f).isSome →
        ¬ m.store.Reachable (Vertex.rootsOfCall callee arguments) (.frame f) →
        m'.store.frame? f = m.store.frame? f) ∧
      ∀ i, (m.store.instance? i).isSome →
        ¬ m.store.Reachable (Vertex.rootsOfCall callee arguments) (.value (.instance i)) →
        m'.store.instance? i = m.store.instance? i := by
  refine ⟨fun environment => call_environment n s line m environment callee arguments, ?_⟩
  let R := Region.reachable m.store (Vertex.rootsOfCall callee arguments) List.mem_cons_self
  have hroot {p : Vertex} (hp : p ∈ Vertex.rootsOfCall callee arguments) : R.Mem p :=
    .inl ⟨p, hp, .refl⟩
  intro m' hm'
  have hspares := R.spares_call n s (hroot (.tail _ (.head _)))
    (fun a ha => hroot (.tail _ (.tail _ (List.mem_map_of_mem ha)))) line m' hm'
  constructor
  · intro f hf hn
    refine hspares.frame fun h => h.elim hn fun hnew => ?_
    simp [Store.frame?, Nat.not_lt.mpr hnew] at hf
  · intro i hi hn
    refine hspares.instance fun h => h.elim hn fun hnew => ?_
    simp [Store.instance?, Nat.not_lt.mpr hnew] at hi

end Lox
