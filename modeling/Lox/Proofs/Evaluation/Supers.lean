import Lox.Proofs.Evaluation.Disciplines
import Lox.Proofs.Evaluation.Validity
import Lox.Proofs.Scope.Supers

/-!
# `super` along a run

A method of a subclass is declared in a frame that binds `super` to the superclass,
and it is bound to an instance in a frame of its own inside that one, which binds
`this`. Each function and each block in the method adds a frame, and none of these
binds a reserved word. So from a frame in which code of the method runs, the frame of
`this` is as many steps out as the code lies in functions and blocks of the method, and
the frame of `super` is one step further out.

* `Store.Retains`: frames stay inside the same frames, and keep what they bind reserved words to;
* `Store.Home`: a frame, so many steps inside the one that binds `this` for a method;
* `Code.Placed`: code runs in the frames of the method in which it lies, whose class was declared at
  some time;
* `lineage`: the evaluator keeps this (`lawful_lineage`).
-/

namespace Lox

namespace Store

/-! ## What no program changes -/

/-- Frames stay inside the same frames, and they keep what they bind reserved words to. -/
structure Retains (s s' : Store) : Prop where
  frame {f : FrameId} : (s.frame? f).isSome → (s'.frame? f).isSome
  enclosing {f g : FrameId} : s.enclosing? f = some g → s'.enclosing? f = some g
  own {f : FrameId} {name : String} : (Keyword.ofText? name).isSome → (s.frame? f).isSome →
    s'.own? f name = s.own? f name

namespace Retains

variable {s s' s'' : Store}

theorem refl (s : Store) : s.Retains s := ⟨id, id, fun _ _ => rfl⟩

theorem trans (h : s.Retains s') (h' : s'.Retains s'') : s.Retains s'' :=
  ⟨h'.frame ∘ h.frame, h'.enclosing ∘ h.enclosing,
    fun hk hf => (h'.own hk (h.frame hf)).trans (h.own hk hf)⟩

theorem of_frames_eq (h : s'.frames = s.frames) : s.Retains s' := by
  constructor <;> intros <;> simp_all [frame?, enclosing?, own?]

theorem addFrame (s : Store) (frame : Frame) : s.Retains (s.addFrame frame).2 where
  frame hf := by rwa [frame?_addFrame, if_neg (ne_addFrame hf)]
  enclosing he := by rwa [enclosing?_addFrame_of_isSome (frame?_isSome_of_enclosing? he)]
  own _ hf := own?_addFrame_of_isSome _ hf

/-- A name that can be declared or assigned is no reserved word. -/
theorem define (s : Store) (f : FrameId) {name : Name} (hn : name.IsIdentifier) (v : Value) :
    s.Retains (s.define f name.text v) where
  frame {g} hg := by
    rw [frame?_define]
    split
    · simpa using hg
    · exact hg
  enclosing he := by rwa [enclosing?_define]
  own {g other} hk _ := by
    rw [own?_define, if_neg]
    rintro ⟨-, rfl⟩
    rw [Name.IsIdentifier] at hn
    simp [hn] at hk

theorem own_eq (h : s.Retains s') {f : FrameId} {name : String}
    (hk : (Keyword.ofText? name).isSome) {v : Value} (hv : s.own? f name = some v) :
    s'.own? f name = some v :=
  (h.own hk (frame?_isSome_of_own? (Option.isSome_of_eq_some hv))).trans hv

end Retains

/-! ## The frames of a method -/

/-- A frame that is so many functions and blocks inside the one in which a method is bound to an
instance, which lies in the frame in which the method was declared. -/
inductive Home (s : Store) (closure : FrameId) (i : InstanceId) : FrameId → Nat → Prop where
  | method {f : FrameId} (hi : s.own? f "this" = some (.instance i))
    (he : s.enclosing? f = some closure) : Home s closure i f 0
  | inside {f g : FrameId} {k : Nat} (hn : s.own? f "this" = none) (he : s.enclosing? f = some g)
    (h : Home s closure i g k) : Home s closure i f (k + 1)

namespace Home

variable {s s' : Store} {closure f : FrameId} {i : InstanceId} {k : Nat}

theorem retain (hs : s.Retains s') (h : s.Home closure i f k) : s'.Home closure i f k := by
  induction h with
  | method hi he => exact .method (hs.own_eq rfl hi) (hs.enclosing he)
  | inside hn he _ ih =>
    exact .inside ((hs.own rfl (frame?_isSome_of_enclosing? he)).trans hn) (hs.enclosing he) ih

/-- A new frame inside, which does not bind `this`. -/
theorem addFrame (h : s.Home closure i f k) {bindings : Bindings Value}
    (hb : bindings.get? "this" = none) :
    (s.addFrame ⟨bindings, some f⟩).2.Home closure i (s.addFrame ⟨bindings, some f⟩).1 (k + 1) :=
  .inside ((own?_addFrame_self s _ _).trans hb) (enclosing?_addFrame_self s _)
    (h.retain (.addFrame s _))

theorem getAt_this (h : s.Home closure i f k) : s.getAt f k "this" = some (.instance i) := by
  induction h with
  | method hi => exact hi
  | inside _ he _ ih =>
    rw [getAt, ancestor?, he]
    exact ih

theorem getAt_eq_none (h : s.Home closure i f k) {j : Nat} (hj : j < k) :
    s.getAt f j "this" = none := by
  induction h generalizing j with
  | method => exact absurd hj (Nat.not_lt_zero j)
  | inside hn he _ ih =>
    cases j with
    | zero => exact hn
    | succ j =>
      rw [getAt, ancestor?, he]
      exact ih (Nat.lt_of_succ_lt_succ hj)

theorem ancestor_eq (h : s.Home closure i f k) : s.ancestor? f (k + 1) = some closure := by
  induction h with
  | method _ he =>
    rw [ancestor?, he]
    rfl
  | inside _ he _ ih =>
    rw [ancestor?, he]
    exact ih

end Home

end Store

/-! ## Declarations of subclasses -/

/-- The declaration of a class with a superclass. -/
structure SubclassDecl where
  name : Name
  superclass : Expr NodeId
  methods : List (FunDecl NodeId)

/-- The declaration as a statement. -/
def SubclassDecl.statement (C : SubclassDecl) : Stmt NodeId :=
  .class C.name (some C.superclass) C.methods

section

variable (declared : SubclassDecl → FrameId → ClassId → Prop) (vs : List Visit) (s : Store)

/-- The declaration of a subclass was executed. In the frame of its methods `super` is the superclass
that it had then. -/
structure Store.Lineage (C : SubclassDecl) (f : FrameId) (c : ClassId) : Prop where
  declared : declared C f c
  own : s.own? f "super" = some (.class c)
  locates : ∀ d ∈ C.methods, (Code.decl d).Locates vs

/-- Code with a `super` in it runs in the frames of a method of a subclass: as many functions and
blocks inside the one that binds `this` as it lies in the method. -/
def Code.Placed (f : FrameId) (c : Code) : Prop :=
  c.Free ∨ ∃ C closure superclass i k, s.Lineage declared vs C closure superclass ∧
    (∃ d ∈ C.methods, (Code.decl d).Lies k c) ∧ s.Home closure i f k

/-- A method with a `super` in it is one of a subclass, and was declared in the frame that binds
`super`. -/
def FunctionObject.Inherits (f : FunctionObject) : Prop :=
  (Code.decl f.declaration).Free ∨ ∃ C superclass, s.Lineage declared vs C f.closure superclass ∧
    f.declaration ∈ C.methods

/-- Every `super` finds the superclass of a declaration that was executed, and the instance to which
its method is bound. -/
def lineage : Discipline where
  store s :=
    (∀ id f, s.function? id = some f → (Code.decl f.declaration).All (Code.Resolved vs) ∧
      (Code.decl f.declaration).Placed declared vs s f.closure) ∧
    ∀ id c name f, s.class? id = some c → c.methods.get? name = some f →
      (Code.decl f.declaration).All (Code.Resolved vs) ∧ f.Inherits declared vs s
  value _ _ := True
  code s f c := c.All (Code.Resolved vs) ∧ c.Placed declared vs s f
  grows := Store.Retains
  declares name e methods c s := declared ⟨name, e, methods⟩ ⟨s.frames.size⟩ c

end

section

variable {declared : SubclassDecl → FrameId → ClassId → Prop} {vs : List Visit} {s s' : Store}
  {f : FrameId} {c : Code}

theorem Store.Lineage.retain (hs : s.Retains s') {C : SubclassDecl} {id : ClassId}
    (h : s.Lineage declared vs C f id) : s'.Lineage declared vs C f id :=
  ⟨h.declared, hs.own_eq rfl h.own, h.locates⟩

theorem Code.Placed.retain (hs : s.Retains s') (h : c.Placed declared vs s f) :
    c.Placed declared vs s' f := by
  refine h.imp_right ?_
  rintro ⟨C, closure, superclass, i, k, hl, hd, hh⟩
  exact ⟨C, closure, superclass, i, k, hl.retain hs, hd, hh.retain hs⟩

/-- The parts of code that opens no scope run in the same frame. -/
theorem Code.Placed.part (h : c.Placed declared vs s f) (ho : c.opens = 0) (hn : ¬ c.IsClass)
    {c' : Code} (hp : c' ∈ c.parts) : c'.Placed declared vs s f := by
  rcases h with h | ⟨C, closure, superclass, i, k, hl, ⟨d, hd, hlies⟩, hh⟩
  · exact .inl (h.part hn hp)
  · have hin := hlies.inside hn hp
    rw [ho] at hin
    exact .inr ⟨C, closure, superclass, i, k, hl, ⟨d, hd, hin⟩, hh⟩

/-- The parts of code that opens a scope run in a frame inside. -/
theorem Code.Placed.inside (h : c.Placed declared vs s f) (ho : c.opens = 1) (hn : ¬ c.IsClass)
    {bindings : Bindings Value} (hb : bindings.get? "this" = none) {c' : Code} (hp : c' ∈ c.parts) :
    c'.Placed declared vs (s.addFrame ⟨bindings, some f⟩).2 (s.addFrame ⟨bindings, some f⟩).1 := by
  rcases h with h | ⟨C, closure, superclass, i, k, hl, ⟨d, hd, hlies⟩, hh⟩
  · exact .inl (h.part hn hp)
  · have hin := hlies.inside hn hp
    rw [ho] at hin
    exact .inr ⟨C, closure, superclass, i, k + 1, hl.retain (.addFrame s _), ⟨d, hd, hin⟩,
      hh.addFrame hb⟩

theorem FunctionObject.Inherits.retain (hs : s.Retains s') {f : FunctionObject}
    (h : f.Inherits declared vs s) : f.Inherits declared vs s' := by
  refine h.imp_right ?_
  rintro ⟨C, superclass, hl, hd⟩
  exact ⟨C, superclass, hl.retain hs, hd⟩

/-- A method that is bound to an instance is placed. -/
theorem FunctionObject.Inherits.placed {f : FunctionObject} (h : f.Inherits declared vs s)
    (i : InstanceId) :
    (Code.decl f.declaration).Placed declared vs (s.bindMethod f i).2
      (s.bindMethod f i).1.closure := by
  refine h.imp_right ?_
  rintro ⟨C, superclass, hl, hd⟩
  refine ⟨C, f.closure, superclass, i, 0, hl.retain (.addFrame s _), ⟨_, hd, .here⟩, ?_⟩
  exact .method ((Store.own?_addFrame_self s _ _).trans (Bindings.get?_insert_self _ _ _))
    (Store.enclosing?_addFrame_self s _)

/-! ## The laws -/

theorem lineage_keeps_of_eq (h : (lineage declared vs).store s) (hs : s.Retains s')
    (hf : s'.functions = s.functions) (hc : s'.classes = s.classes) :
    (lineage declared vs).Keeps s s' := by
  refine ⟨⟨fun id f hid => ?_, fun id c name f hid hm => ?_⟩, hs⟩
  · rw [Store.function?, hf] at hid
    exact (h.1 id f hid).imp_right (·.retain hs)
  · rw [Store.class?, hc] at hid
    exact (h.2 id c name f hid hm).imp_right (·.retain hs)

theorem lineage_define (h : (lineage declared vs).store s) (f : FrameId) {name : Name}
    (hn : name.IsIdentifier) (v : Value) :
    (lineage declared vs).Keeps s (s.define f name.text v) :=
  lineage_keeps_of_eq h (.define s f hn v) rfl rfl

theorem lineage_addFrame (h : (lineage declared vs).store s) (frame : Frame) :
    (lineage declared vs).Keeps s (s.addFrame frame).2 :=
  lineage_keeps_of_eq h (.addFrame s frame) rfl rfl

theorem lineage_addFunction (h : (lineage declared vs).store s) {f : FunctionObject}
    (hf : (lineage declared vs).code s f.closure (.decl f.declaration)) :
    (lineage declared vs).Keeps s (s.addFunction f).2 := by
  have hs : s.Retains (s.addFunction f).2 := .of_frames_eq rfl
  refine ⟨⟨fun id g hg => ?_, fun id c name g hid hm => ?_⟩, hs⟩
  · rw [Store.function?, Store.addFunction, Array.getElem?_push] at hg
    split at hg
    · obtain rfl := Option.some.inj hg
      exact hf.imp_right (·.retain hs)
    · exact (h.1 id g hg).imp_right (·.retain hs)
  · exact (h.2 id c name g hid hm).imp_right (·.retain hs)

theorem lineage_addClass (h : (lineage declared vs).store s) {c : ClassObject}
    (hc : ∀ name f, c.methods.get? name = some f →
      (Code.decl f.declaration).All (Code.Resolved vs) ∧ f.Inherits declared vs s) :
    (lineage declared vs).Keeps s (s.addClass c).2 := by
  have hs : s.Retains (s.addClass c).2 := .of_frames_eq rfl
  refine ⟨⟨fun id f hid => (h.1 id f hid).imp_right (·.retain hs), fun id d name f hd hm => ?_⟩, hs⟩
  rw [Store.class?, Store.addClass, Array.getElem?_push] at hd
  split at hd
  · obtain rfl := Option.some.inj hd
    exact (hc name f hm).imp_right (·.retain hs)
  · exact (h.2 id d name f hd hm).imp_right (·.retain hs)

theorem lineage_declareFunction {m : Machine} {declaration : FunDecl NodeId}
    (h : (lineage declared vs).store m.store)
    (hc : (lineage declared vs).code m.store m.environment (.stmt (.function declaration))) :
    (lineage declared vs).Keeps m.store (declareFunction declaration m).store := by
  obtain ⟨hall, hplaced⟩ := hc
  have hmem : Code.decl declaration ∈ (Code.stmt (.function declaration)).parts :=
    List.mem_singleton_self _
  have hadd := lineage_addFunction h (f := ⟨declaration, m.environment, false⟩)
    ⟨hall.part hmem, hplaced.part rfl id hmem⟩
  have hname := FunDecl.WellFormed.isIdentifier_name hall.self.wellFormed
  have hdefine := lineage_define hadd.store m.environment hname (.function ⟨m.store.functions.size⟩)
  exact ⟨hdefine.store, hadd.grows.trans hdefine.grows⟩

/-- A class is declared: first its name, then what its methods need, then the class itself. -/
theorem lineage_declareClass {m : Machine} {name : Name} {superclass : Option ClassId}
    {methods : List (FunDecl NodeId)} (hname : name.IsIdentifier) {s : Store} {closure : FrameId}
    (hs : (lineage declared vs).Keeps m.store s)
    (hd : ∀ d ∈ methods, (Code.decl d).All (Code.Resolved vs) ∧
      (⟨d, closure, d.isInitializer⟩ : FunctionObject).Inherits declared vs s) :
    let c : ClassObject := ⟨name.text, superclass, methodTable closure methods⟩
    (lineage declared vs).Keeps m.store
      ((s.addClass c).2.define m.environment name.text (.class (s.addClass c).1)) := by
  intro c
  have hadd : (lineage declared vs).Keeps s (s.addClass c).2 := by
    refine lineage_addClass hs.store fun n f hf => ?_
    obtain ⟨d, hm, rfl⟩ := exists_mem_of_methodTable hf
    exact hd d hm
  have hdefine := lineage_define hadd.store m.environment hname (.class (s.addClass c).1)
  exact ⟨hdefine.store, hs.grows.trans (hadd.grows.trans hdefine.grows)⟩

theorem lineage_declareSubclass {m : Machine} {name : Name} {e : Expr NodeId}
    {methods : List (FunDecl NodeId)} {c : ClassId} (h : (lineage declared vs).store m.store)
    (hc : (lineage declared vs).code m.store m.environment (.stmt (.class name (some e) methods)))
    (hd : declared ⟨name, e, methods⟩ ⟨m.store.frames.size⟩ c) :
    (lineage declared vs).Keeps m.store (declareClass name (some c) methods m).store := by
  have hwf := hc.1.self
  have hname : name.IsIdentifier := hwf.wellFormed.1
  have hnil := lineage_define h m.environment hname .nil
  let s := m.store.define m.environment name.text .nil
  let frame : Frame := ⟨(∅ : Bindings Value).insert "super" (.class c), some m.environment⟩
  have hframe := lineage_addFrame hnil.store frame
  have hid : (s.addFrame frame).1 = ⟨m.store.frames.size⟩ := by
    simp [s, Store.addFrame, Store.define]
  have hd : declared ⟨name, e, methods⟩ (s.addFrame frame).1 c := by rwa [hid]
  refine lineage_declareClass hname ⟨hframe.store, hnil.grows.trans hframe.grows⟩ fun d hm => ?_
  refine ⟨hc.1.part (List.mem_append_right _ (List.mem_map_of_mem hm)), .inr ?_⟩
  have hown : (s.addFrame frame).2.own? (s.addFrame frame).1 "super" = some (.class c) :=
    (Store.own?_addFrame_self s frame "super").trans (Bindings.get?_insert_self _ _ _)
  exact ⟨⟨name, e, methods⟩, c, ⟨hd, hown, fun d hm => hwf.locates rfl d hm⟩, hm⟩

/-- The next frame is the one that the declaration of a subclass adds. -/
theorem isSome_frame?_declareClass (name : Name) (c : ClassId) (methods : List (FunDecl NodeId))
    (m : Machine) :
    ((declareClass name (some c) methods m).store.frame? ⟨m.store.frames.size⟩).isSome := by
  simp [declareClass, Machine.define, Store.define, Store.addFrame, Store.addClass, Store.frame?]

/-- No parameter is called `this`. -/
theorem get?_this_parameters {declaration : FunDecl NodeId} (h : declaration.WellFormed)
    (arguments : List Value) :
    (Bindings.ofList ((declaration.params.map Name.text).zip arguments)).get? "this" = none := by
  cases declaration with
  | mk name params body =>
    rw [Option.eq_none_iff_forall_ne_some]
    intro v hv
    have hmem := (List.of_mem_zip (Bindings.mem_of_get?_ofList hv)).1
    exact (h.ne_of_mem_params _ hmem).1 rfl

/-- The evaluator keeps every `super` in the frames of its method. -/
theorem lawful_lineage : (lineage declared vs).Lawful where
  refl := .refl
  trans := .trans
  value_grows _ _ := trivial
  code_grows hs hc := hc.imp_right (·.retain hs)
  plain _ := trivial
  own _ _ _ := trivial
  field _ _ _ _ := trivial
  function h _ hf := h.1 _ _ hf
  parts hc ho hn _ hp := ⟨hc.1.part hp, hc.2.part ho hn hp⟩
  superclass {s f name e methods} hc := by
    have hmem : Code.expr e ∈ (Code.stmt (.class name (some e) methods)).parts := List.mem_cons_self
    obtain ⟨id, own, rfl, -⟩ := (hc.1.self.wellFormed.2.1 e rfl).exists_eq
    exact ⟨hc.1.part hmem, .inl fun _ _ _ _ hl => nomatch hl.eq_of_parts_eq_nil rfl⟩
  block h hc := ⟨lineage_addFrame h _, fun statement hs =>
    have hmem := List.mem_map_of_mem hs
    ⟨hc.1.part hmem, hc.2.inside rfl id rfl hmem⟩⟩
  call {s f arguments} h hc _ := ⟨lineage_addFrame h _, fun statement hs =>
    have hmem : Code.stmt statement ∈ (Code.decl f.declaration).parts := List.mem_map_of_mem hs
    ⟨hc.1.part hmem, hc.2.inside rfl id (get?_this_parameters hc.1.self.wellFormed arguments) hmem⟩⟩
  var h hc _ := lineage_define h _ hc.1.self.wellFormed.1 _
  assign h hc _ _ := lineage_define h _ hc.1.self.wellFormed.1 _
  declareFunction h hc := lineage_declareFunction h hc
  declareClass {m name methods} h hc := by
    have hwf := hc.1.self
    refine lineage_declareClass hwf.wellFormed.1 (lineage_define h m.environment hwf.wellFormed.1 .nil)
      fun d hd => ⟨hc.1.part (List.mem_append_right _ (List.mem_map_of_mem hd)), .inl ?_⟩
    exact hwf.free rfl d hd
  declareSubclass h hc _ hd := lineage_declareSubclass h hc hd
  setField h _ _ := lineage_keeps_of_eq h (.of_frames_eq rfl) rfl rfl
  addInstance h _ := ⟨lineage_keeps_of_eq h (.of_frames_eq rfl) rfl rfl, trivial⟩
  bindMethod {s c name f i} h _ hf _ := by
    obtain ⟨id, c', hc, hm⟩ := Store.exists_method_of_findMethod hf
    obtain ⟨hall, hin⟩ := h.2 id c' name f hc hm
    exact ⟨lineage_addFrame h _, hall, hin.placed i⟩
  addFunction h hc := ⟨lineage_addFunction h hc, trivial⟩

/-! ## More declarations and visits -/

section

variable {declared' : SubclassDecl → FrameId → ClassId → Prop} {ws : List Visit}
  (hd : ∀ C f c, declared C f c → declared' C f c) (hv : vs ⊆ ws)
include hd hv

theorem Store.Lineage.mono {C : SubclassDecl} {id : ClassId} (h : s.Lineage declared vs C f id) :
    s.Lineage declared' ws C f id :=
  ⟨hd _ _ _ h.declared, h.own, fun d hm => (h.locates d hm).mono hv⟩

theorem lineage_mono (h : (lineage declared vs).store s) : (lineage declared' ws).store s := by
  refine ⟨fun id f hf => ?_, fun id c name f hc hm => ?_⟩
  · obtain ⟨hall, hplaced⟩ := h.1 id f hf
    refine ⟨hall.mono fun c hc => hc.mono hv, hplaced.imp_right ?_⟩
    rintro ⟨C, closure, superclass, i, k, hl, hin⟩
    exact ⟨C, closure, superclass, i, k, hl.mono hd hv, hin⟩
  · obtain ⟨hall, hinherits⟩ := h.2 id c name f hc hm
    refine ⟨hall.mono fun c hc => hc.mono hv, hinherits.imp_right ?_⟩
    rintro ⟨C, superclass, hl, hmem⟩
    exact ⟨C, superclass, hl.mono hd hv, hmem⟩

end

/-! ## Reading `super` -/

/-- A value is a method that is bound to an instance: the same function in a frame that binds `this`
to the instance, inside the frame of the method. -/
def Store.IsBound (s : Store) (v : Value) (f : FunctionObject) (i : InstanceId) : Prop :=
  ∃ id b, v = .function id ∧ s.function? id = some ⟨f.declaration, b, f.isInitializer⟩ ∧
    s.frame? b = some ⟨(∅ : Bindings Value).insert "this" (.instance i), some f.closure⟩

theorem exists_bound_eq (f : FunctionObject) (i : InstanceId) (m : Machine) :
    ∃ v m', bound f i m = .done v m' ∧ m'.store.IsBound v f i := by
  refine ⟨_, _, rfl, _, (m.store.bindMethod f i).1.closure, rfl, ?_, ?_⟩
  · exact Array.getElem?_push_size
  · exact (Store.frame?_addFrame _ _ _).trans (if_pos rfl)

/-- A `super` that lies `k` functions and blocks in a method of a subclass looks for the method at the
class to which the frame of the method binds `super`, and binds it to the instance of the method. -/
theorem readSuper_of_home {setting : Setting} {id : NodeId} {keyword : Name} (method : Name)
    {m : Machine} {closure : FrameId} {superclass : ClassId} {i : InstanceId} {k : Nat}
    (hd : setting.distance? id = some (k + 1)) (ht : keyword.text = "super")
    (hs : m.store.own? closure "super" = some (.class superclass))
    (hh : m.store.Home closure i m.environment k) :
    (∀ f, m.store.findMethod superclass method.text = some f →
      readSuper setting id keyword method m = bound f i m) ∧
    (m.store.findMethod superclass method.text = none →
      readSuper setting id keyword method m =
        m.fault (.undefinedProperty method.text) method.line) := by
  have hsuper : m.store.getAt m.environment (k + 1) keyword.text = some (.class superclass) := by
    rw [Store.getAt, hh.ancestor_eq, ht]
    exact hs
  unfold readSuper
  simp only [hd, hsuper, Nat.add_sub_cancel, hh.getAt_this]
  exact ⟨fun f hf => by rw [hf], fun hn => by rw [hn]⟩

end

end Lox
