import Lox.Proofs.Evaluation.Disciplines

/-!
# Valid stores

Every number that a store holds is that of an object of the store, and the walks
go down: a frame lies in an older frame, and a class has an older superclass
(`Store.Valid`). So neither the walk along frames nor that along classes ever
stops at a number because it is too large.

* `validity`: the evaluator keeps this (`lawful_validity`);
* `Store.Nearest`: the method that is nearest on the chain of a class. It is the one that
  `findMethod` finds (`Store.Valid.findMethod_eq_some_iff`);
* `Store.Valid.get_of_getAt`: the value of a name in the nearest frame that binds it.
-/

namespace Lox

namespace Store

/-! ## Objects of a store -/

/-- The second store has the objects of the first. -/
structure Includes (s s' : Store) : Prop where
  frames : s.frames.size ≤ s'.frames.size
  functions : s.functions.size ≤ s'.functions.size
  classes : s.classes.size ≤ s'.classes.size
  instances : s.instances.size ≤ s'.instances.size

namespace Includes

variable {s s' s'' : Store}

theorem refl (s : Store) : s.Includes s := ⟨Nat.le_refl _, Nat.le_refl _, Nat.le_refl _, Nat.le_refl _⟩

theorem trans (h : s.Includes s') (h' : s'.Includes s'') : s.Includes s'' :=
  ⟨Nat.le_trans h.frames h'.frames, Nat.le_trans h.functions h'.functions,
    Nat.le_trans h.classes h'.classes, Nat.le_trans h.instances h'.instances⟩

theorem define (s : Store) (f : FrameId) (name : String) (v : Value) :
    s.Includes (s.define f name v) := by
  constructor <;> simp [Store.define]

theorem addFrame (s : Store) (frame : Frame) : s.Includes (s.addFrame frame).2 := by
  constructor <;> simp [Store.addFrame]

theorem addFunction (s : Store) (f : FunctionObject) : s.Includes (s.addFunction f).2 := by
  constructor <;> simp [Store.addFunction]

theorem addClass (s : Store) (c : ClassObject) : s.Includes (s.addClass c).2 := by
  constructor <;> simp [Store.addClass]

theorem addInstance (s : Store) (i : InstanceObject) : s.Includes (s.addInstance i).2 := by
  constructor <;> simp [Store.addInstance]

theorem setField (s : Store) (i : InstanceId) (name : String) (v : Value) :
    s.Includes (s.setField i name v) := by
  constructor <;> simp [Store.setField]

end Includes

end Store

/-- The object of a value is in the store. -/
def Value.Valid (s : Store) : Value → Prop
  | .function id => id.index < s.functions.size
  | .class id => id.index < s.classes.size
  | .instance id => id.index < s.instances.size
  | _ => True

theorem Value.Valid.grow {s s' : Store} (h : s.Includes s') {v : Value} (hv : v.Valid s) :
    v.Valid s' := by
  cases v with
  | function => exact Nat.lt_of_lt_of_le hv h.functions
  | «class» => exact Nat.lt_of_lt_of_le hv h.classes
  | «instance» => exact Nat.lt_of_lt_of_le hv h.instances
  | _ => trivial

/-- Everything that a store holds is in the store, and frames and classes lie in older ones. -/
structure Store.Valid (s : Store) : Prop where
  enclosing {f g : FrameId} : s.enclosing? f = some g → g.index < f.index
  own {f : FrameId} {name : String} {v : Value} : s.own? f name = some v → v.Valid s
  closure {id : FunctionId} {f : FunctionObject} :
    s.function? id = some f → f.closure.index < s.frames.size
  superclass {id c' : ClassId} {c : ClassObject} :
    s.class? id = some c → c.superclass = some c' → c'.index < id.index
  method {id : ClassId} {c : ClassObject} {name : String} {f : FunctionObject} :
    s.class? id = some c → c.methods.get? name = some f → f.closure.index < s.frames.size
  field {id : InstanceId} {o : InstanceObject} {name : String} {v : Value} :
    s.instance? id = some o → o.fields.get? name = some v → v.Valid s

namespace Store.Valid

variable {s : Store}

/-! ## Operations -/

theorem empty : Store.empty.Valid := by
  constructor <;> intros <;>
    simp_all [Store.empty, enclosing?, own?, frame?, function?, class?, instance?]

theorem define (h : s.Valid) (f : FrameId) (name : String) {v : Value} (hv : v.Valid s) :
    (s.define f name v).Valid where
  enclosing he := h.enclosing (by rwa [enclosing?_define] at he)
  own ho := by
    rw [own?_define] at ho
    refine Value.Valid.grow (.define s f name v) ?_
    split at ho
    · obtain ⟨-, -, rfl⟩ := Option.map_eq_some_iff.mp ho
      exact hv
    · exact h.own ho
  closure hf := Nat.lt_of_lt_of_le (h.closure hf) (Includes.define s f name v).frames
  superclass := h.superclass
  method hc hm := Nat.lt_of_lt_of_le (h.method hc hm) (Includes.define s f name v).frames
  field ho hf := (h.field ho hf).grow (.define s f name v)

theorem addFrame (h : s.Valid) {frame : Frame}
    (he : ∀ g, frame.enclosing = some g → g.index < s.frames.size)
    (hb : ∀ name v, frame.bindings.get? name = some v → v.Valid s) :
    (s.addFrame frame).2.Valid where
  enclosing {f g} hg := by
    rw [enclosing?_addFrame] at hg
    split at hg
    · next hf => exact hf ▸ he g hg
    · exact h.enclosing hg
  own {f name v} ho := by
    rw [own?_addFrame] at ho
    refine Value.Valid.grow (.addFrame s frame) ?_
    split at ho
    · exact hb name v ho
    · exact h.own ho
  closure hf := Nat.lt_of_lt_of_le (h.closure hf) (Includes.addFrame s frame).frames
  superclass := h.superclass
  method hc hm := Nat.lt_of_lt_of_le (h.method hc hm) (Includes.addFrame s frame).frames
  field ho hf := (h.field ho hf).grow (.addFrame s frame)

theorem addFunction (h : s.Valid) {f : FunctionObject} (hf : f.closure.index < s.frames.size) :
    (s.addFunction f).2.Valid where
  enclosing := h.enclosing
  own ho := (h.own ho).grow (.addFunction s f)
  closure {id g} hg := by
    rw [function?, Store.addFunction, Array.getElem?_push] at hg
    split at hg
    · obtain rfl := Option.some.inj hg
      exact hf
    · exact h.closure hg
  superclass := h.superclass
  method := h.method
  field ho hv := (h.field ho hv).grow (.addFunction s f)

theorem addClass (h : s.Valid) {c : ClassObject}
    (hs : ∀ c', c.superclass = some c' → c'.index < s.classes.size)
    (hm : ∀ name f, c.methods.get? name = some f → f.closure.index < s.frames.size) :
    (s.addClass c).2.Valid where
  enclosing := h.enclosing
  own ho := (h.own ho).grow (.addClass s c)
  closure := h.closure
  superclass {id c' d} hd hs' := by
    rw [class?, Store.addClass, Array.getElem?_push] at hd
    split at hd
    · next hid =>
      obtain rfl := Option.some.inj hd
      exact hid ▸ hs c' hs'
    · exact h.superclass hd hs'
  method {id d name f} hd hf := by
    rw [class?, Store.addClass, Array.getElem?_push] at hd
    split at hd
    · obtain rfl := Option.some.inj hd
      exact hm name f hf
    · exact h.method hd hf
  field ho hv := (h.field ho hv).grow (.addClass s c)

theorem addInstance (h : s.Valid) {i : InstanceObject}
    (hf : ∀ name v, i.fields.get? name = some v → v.Valid s) : (s.addInstance i).2.Valid where
  enclosing := h.enclosing
  own ho := (h.own ho).grow (.addInstance s i)
  closure := h.closure
  superclass := h.superclass
  method := h.method
  field {id o name v} ho hv := by
    rw [instance?, Store.addInstance, Array.getElem?_push] at ho
    refine Value.Valid.grow (.addInstance s i) ?_
    split at ho
    · obtain rfl := Option.some.inj ho
      exact hf name v hv
    · exact h.field ho hv

theorem setField (h : s.Valid) (i : InstanceId) (name : String) {v : Value} (hv : v.Valid s) :
    (s.setField i name v).Valid where
  enclosing := h.enclosing
  own ho := (h.own ho).grow (.setField s i name v)
  closure := h.closure
  superclass := h.superclass
  method := h.method
  field {id o other w} ho hw := by
    refine Value.Valid.grow (.setField s i name v) ?_
    rw [instance?, Store.setField, Array.getElem?_modify] at ho
    split at ho
    · obtain ⟨o', ho', rfl⟩ := Option.map_eq_some_iff.mp ho
      rw [Bindings.get?_insert] at hw
      split at hw
      · obtain rfl := Option.some.inj hw
        exact hv
      · exact h.field ho' hw
    · exact h.field ho hw

theorem initial : Machine.initial.store.Valid :=
  empty.addFrame (fun _ h => by cases h) fun _ _ h => by cases h

end Store.Valid

/-! ## The discipline -/

/-- Stores and values are valid, and code runs in frames that are there. -/
def validity : Discipline where
  store := Store.Valid
  value := Value.Valid
  code s f _ := f.index < s.frames.size
  grows := Store.Includes
  declares _ _ _ _ _ := True

section

variable {s : Store} {m : Machine}

theorem Value.IsPlain.valid {v : Value} (h : v.IsPlain) : v.Valid s := by
  cases v with
  | function | «class» | «instance» => exact h.elim
  | _ => trivial

theorem Store.Valid.closure_of_findMethod (h : s.Valid) {id : ClassId} {name : String}
    {f : FunctionObject} (hf : s.findMethod id name = some f) : f.closure.index < s.frames.size := by
  obtain ⟨id', c, hc, hm⟩ := exists_method_of_findMethod hf
  exact h.method hc hm

/-- A new frame in a frame that is there is there. -/
theorem Store.index_addFrame_lt (s : Store) (frame : Frame) :
    (s.addFrame frame).1.index < (s.addFrame frame).2.frames.size := by
  simp [Store.addFrame]

theorem validity_addFrame (h : s.Valid) {f : FrameId} (hf : f.index < s.frames.size)
    {bindings : Bindings Value} (hb : ∀ name v, bindings.get? name = some v → v.Valid s) :
    validity.Keeps s (s.addFrame ⟨bindings, some f⟩).2 :=
  ⟨h.addFrame (fun _ hg => Option.some.inj hg ▸ hf) hb, .addFrame s _⟩

theorem validity_bindMethod (h : s.Valid) {f : FunctionObject} (hf : f.closure.index < s.frames.size)
    {i : InstanceId} (hi : (Value.instance i).Valid s) :
    validity.Keeps s (s.bindMethod f i).2 ∧
      (s.bindMethod f i).1.closure.index < (s.bindMethod f i).2.frames.size := by
  refine ⟨validity_addFrame h hf fun name v hv => ?_, s.index_addFrame_lt _⟩
  rw [Bindings.get?_insert] at hv
  split at hv
  · exact Option.some.inj hv ▸ hi
  · cases hv

theorem validity_declareFunction (h : m.store.Valid) (declaration : FunDecl NodeId)
    (he : m.environment.index < m.store.frames.size) :
    validity.Keeps m.store (declareFunction declaration m).store := by
  let f : FunctionObject := ⟨declaration, m.environment, false⟩
  have hf := h.addFunction (f := f) he
  have hv : (Value.function ⟨m.store.functions.size⟩).Valid (m.store.addFunction f).2 := by
    simp [Value.Valid, Store.addFunction]
  exact ⟨hf.define _ _ hv, (Store.Includes.addFunction _ f).trans (.define _ _ _ _)⟩

theorem validity_declareClass (h : m.store.Valid) (name : Name) {superclass : Option ClassId}
    (methods : List (FunDecl NodeId)) (he : m.environment.index < m.store.frames.size)
    (hs : ∀ c, superclass = some c → (Value.class c).Valid m.store) :
    validity.Keeps m.store (declareClass name superclass methods m).store := by
  have hnil : Value.nil.Valid m.store := trivial
  have hd := h.define m.environment name.text hnil
  have hi := Store.Includes.define m.store m.environment name.text .nil
  -- whatever store the class is added to, it is bound to its name there
  have hbind {s : Store} (hk : s.Valid) (hle : m.store.Includes s) {closure : FrameId}
      (hc : closure.index < s.frames.size) :
      let c : ClassObject := ⟨name.text, superclass, methodTable closure methods⟩
      validity.Keeps m.store
        ((s.addClass c).2.define m.environment name.text (.class (s.addClass c).1)) := by
    intro c
    have hv : (Value.class (s.addClass c).1).Valid (s.addClass c).2 := by
      simp [Value.Valid, Store.addClass]
    have hadd : (s.addClass c).2.Valid := by
      refine hk.addClass (fun c' hc' => ?_) fun name f hf => ?_
      · exact Nat.lt_of_lt_of_le (hs c' hc') hle.classes
      · obtain ⟨d, -, rfl⟩ := exists_mem_of_methodTable hf
        exact hc
    exact ⟨hadd.define _ _ hv, (hle.trans (.addClass _ c)).trans (.define _ _ _ _)⟩
  cases superclass with
  | none => exact hbind hd hi (Nat.lt_of_lt_of_le he hi.frames)
  | some c =>
    let s := m.store.define m.environment name.text .nil
    let frame : Frame := ⟨(∅ : Bindings Value).insert "super" (.class c), some m.environment⟩
    have hframe : (s.addFrame frame).2.Valid := by
      refine hd.addFrame (fun g hg => ?_) fun n v hv => ?_
      · exact Option.some.inj hg ▸ Nat.lt_of_lt_of_le he hi.frames
      · rw [Bindings.get?_insert] at hv
        split at hv
        · exact Option.some.inj hv ▸ (hs c rfl).grow hi
        · cases hv
    exact hbind hframe (hi.trans (.addFrame s frame)) (s.index_addFrame_lt frame)

/-- The evaluator keeps stores valid. -/
theorem lawful_validity : validity.Lawful where
  refl := .refl
  trans := .trans
  value_grows h hv := hv.grow h
  code_grows h hf := Nat.lt_of_lt_of_le hf h.frames
  plain h := h.valid
  own h _ ho := h.own ho
  field h _ ho hf := h.field ho hf
  function h _ hf := h.closure hf
  parts hf _ _ _ _ := hf
  superclass hf := hf
  block {s _ _} h hf :=
    ⟨validity_addFrame h hf fun _ _ hv => (by cases hv), fun _ _ => s.index_addFrame_lt _⟩
  call {s f arguments} h hf ha := by
    refine ⟨validity_addFrame h hf fun name v hv => ?_, fun _ _ => s.index_addFrame_lt _⟩
    exact ha v (List.of_mem_zip (Bindings.mem_of_get?_ofList hv)).2
  var h _ hv := ⟨h.define _ _ hv, .define _ _ _ _⟩
  assign h _ _ hv := ⟨h.define _ _ hv, .define _ _ _ _⟩
  declareFunction h hf := validity_declareFunction h _ hf
  declareClass h hf := validity_declareClass h _ _ hf fun _ hc => by cases hc
  declareSubclass h hf hc _ := validity_declareClass h _ _ hf fun _ he => Option.some.inj he ▸ hc
  setField h _ hv := ⟨h.setField _ _ hv, .setField _ _ _ _⟩
  addInstance {s c} h _ :=
    ⟨⟨h.addInstance fun _ _ hv => (by cases hv), .addInstance s _⟩,
      by simp [validity, Value.Valid, Store.addInstance]⟩
  bindMethod h _ hf hi := validity_bindMethod h (h.closure_of_findMethod hf) hi
  addFunction {s f} h hf :=
    ⟨⟨h.addFunction hf, .addFunction s f⟩, by simp [validity, Value.Valid, Store.addFunction]⟩

theorem declares_validity (s : Setting) (occurs : Task → Machine → Prop) :
    validity.Declares s occurs :=
  fun _ _ _ _ _ _ _ _ _ => trivial

end

/-! ## Methods of a chain -/

/-- The method with this name of a class, or, if the class has none, that which is nearest on the
chain of its superclass. -/
inductive Store.Nearest (s : Store) (name : String) : ClassId → FunctionObject → Prop where
  | own {id : ClassId} {c : ClassObject} {f : FunctionObject} (hc : s.class? id = some c)
    (hf : c.methods.get? name = some f) : Nearest s name id f
  | inherited {id superclass : ClassId} {c : ClassObject} {f : FunctionObject}
    (hc : s.class? id = some c) (hn : c.methods.get? name = none)
    (hs : c.superclass = some superclass) (h : Nearest s name superclass f) : Nearest s name id f

namespace Store.Valid

variable {s : Store} {name : String}

/-- The walk along superclasses finds the nearest method. -/
theorem findMethod_eq_some_iff (h : s.Valid) {id : ClassId} {f : FunctionObject} :
    s.findMethod id name = some f ↔ s.Nearest name id f := by
  constructor
  · exact fun hf => findMethod_rec (P := fun id => s.Nearest name id f)
      (fun _ _ hc hm => .own hc hm) (fun _ _ _ hc hm hs hn => .inherited hc hm hs hn) hf
  · intro hf
    induction hf with
    | own hc hf => rw [findMethod, hc]; simp only [hf]
    | inherited hc hn hs _ ih =>
      rw [findMethod, hc]
      simp only [hn, hs, if_pos (h.superclass hc hs)]
      exact ih

/-- The walk along frames finds the nearest frame that binds a name. -/
theorem get_of_getAt (h : s.Valid) {f : FrameId} {k : Nat} {v : Value}
    (hv : s.getAt f k name = some v) (hn : ∀ j < k, s.getAt f j name = none) :
    s.get f name = some v := by
  induction k generalizing f with
  | zero =>
    have hown : s.own? f name = some v := hv
    obtain ⟨frame, hf, hb⟩ := Option.bind_eq_some_iff.mp hown
    have hbinder : s.binder? f name = some f := by
      rw [binder?, hf]
      simp [Bindings.contains, hb]
    rw [get, hbinder]
    exact hown
  | succ k ih =>
    obtain ⟨g, ha, hg⟩ := Option.bind_eq_some_iff.mp hv
    obtain ⟨f', he, ha⟩ := Option.bind_eq_some_iff.mp ha
    obtain ⟨frame, hf, hframe⟩ := Option.bind_eq_some_iff.mp he
    have hown : frame.bindings.get? name = none := by
      have h0 : s.own? f name = none := hn 0 (Nat.succ_pos k)
      rwa [own?, hf] at h0
    have hbinder : s.binder? f name = s.binder? f' name := by
      rw [binder?, hf]
      simp [Bindings.contains, hown, hframe, h.enclosing he]
    rw [get, hbinder]
    refine ih (f := f') ?_ fun j hj => ?_
    · rw [getAt, ha]
      exact hg
    · have hj := hn (j + 1) (Nat.succ_lt_succ hj)
      rwa [getAt, ancestor?, he] at hj

end Store.Valid

end Lox
