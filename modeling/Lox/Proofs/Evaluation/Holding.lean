import Lox.Proofs.Evaluation.Disciplines

/-!
# Code that a run comes to

A run only runs code that it was given: that of its program, and that of the
functions and methods in its store, which are parts of earlier programs. So
whatever holds of all the code at the start holds of all the code that a run
comes to.

* `Store.Holds`: a property holds of all the code in a store;
* `holding`: the evaluator keeps this (`lawful_holding`);
* `holds_evaluate`, `holds_runStatements`: so it is after a run.
-/

namespace Lox

/-! ## Code in a store -/

/-- A property holds of the code of all functions and methods. -/
structure Store.Holds (P : Code → Prop) (s : Store) : Prop where
  function {id : FunctionId} {f : FunctionObject} :
    s.function? id = some f → (Code.decl f.declaration).All P
  method {id : ClassId} {c : ClassObject} {name : String} {f : FunctionObject} :
    s.class? id = some c → c.methods.get? name = some f → (Code.decl f.declaration).All P

namespace Store.Holds

variable {P : Code → Prop} {s s' : Store}

theorem mono {P' : Code → Prop} (h : s.Holds P) (hP : ∀ c, P c → P' c) : s.Holds P' where
  function hf := (h.function hf).mono hP
  method hc hm := (h.method hc hm).mono hP

theorem of_eq (h : s.Holds P) (hf : s'.functions = s.functions) (hc : s'.classes = s.classes) :
    s'.Holds P where
  function h' := h.function (by rwa [function?, hf] at h')
  method h' hm := h.method (by rwa [class?, hc] at h') hm

theorem define (h : s.Holds P) (f : FrameId) (name : String) (value : Value) :
    (s.define f name value).Holds P := h.of_eq rfl rfl

theorem addFrame (h : s.Holds P) (frame : Frame) : (s.addFrame frame).2.Holds P := h.of_eq rfl rfl

theorem addInstance (h : s.Holds P) (i : InstanceObject) : (s.addInstance i).2.Holds P :=
  h.of_eq rfl rfl

theorem setField (h : s.Holds P) (id : InstanceId) (name : String) (value : Value) :
    (s.setField id name value).Holds P := h.of_eq rfl rfl

theorem addFunction (h : s.Holds P) {f : FunctionObject} (hf : (Code.decl f.declaration).All P) :
    (s.addFunction f).2.Holds P where
  function {id g} hg := by
    rw [function?, Store.addFunction, Array.getElem?_push] at hg
    split at hg
    · obtain rfl : f = g := Option.some.inj hg
      exact hf
    · exact h.function hg
  method := h.method

theorem addClass (h : s.Holds P) {c : ClassObject}
    (hc : ∀ name f, c.methods.get? name = some f → (Code.decl f.declaration).All P) :
    (s.addClass c).2.Holds P where
  function := h.function
  method {id d name f} hd hf := by
    rw [class?, Store.addClass, Array.getElem?_push] at hd
    split at hd
    · obtain rfl : c = d := Option.some.inj hd
      exact hc name f hf
    · exact h.method hd hf

theorem findMethod (h : s.Holds P) {id : ClassId} {name : String} {f : FunctionObject}
    (hf : s.findMethod id name = some f) : (Code.decl f.declaration).All P := by
  obtain ⟨id', c, hc, hm⟩ := exists_method_of_findMethod hf
  exact h.method hc hm

end Store.Holds

section

variable {P : Code → Prop} {m : Machine}

theorem holds_declareFunction (h : m.store.Holds P) {declaration : FunDecl NodeId}
    (hd : (Code.decl declaration).All P) : (declareFunction declaration m).store.Holds P :=
  (h.addFunction (f := ⟨declaration, m.environment, false⟩) hd).define _ _ _

theorem holds_declareClass (h : m.store.Holds P) (name : Name) (superclass : Option ClassId)
    {methods : List (FunDecl NodeId)} (hd : ∀ d ∈ methods, (Code.decl d).All P) :
    (declareClass name superclass methods m).store.Holds P := by
  have htable (closure : FrameId) (n : String) (f : FunctionObject)
      (hf : (methodTable closure methods).get? n = some f) : (Code.decl f.declaration).All P := by
    obtain ⟨d, hm, rfl⟩ := exists_mem_of_methodTable hf
    exact hd d hm
  have hdefine := h.define m.environment name.text .nil
  cases superclass with
  | none => exact (hdefine.addClass (c := ⟨_, _, methodTable _ methods⟩) (htable _)).define _ _ _
  | some c =>
    have hframe := hdefine.addFrame
      ⟨(∅ : Bindings Value).insert "super" (.class c), some m.environment⟩
    exact (hframe.addClass (c := ⟨_, _, methodTable _ methods⟩) (htable _)).define _ _ _

end

/-! ## The discipline -/

/-- A property holds of all code. -/
def holding (P : Code → Prop) : Discipline where
  store := Store.Holds P
  value _ _ := True
  code _ _ c := c.All P
  grows _ _ := True
  declares _ _ _ _ _ := True

section

variable {P : Code → Prop} {s s' : Store}

theorem Store.Holds.keeps (h : s'.Holds P) : (holding P).Keeps s s' := ⟨h, trivial⟩

/-- What holds of all the code at the start holds of all that is run and stored. -/
theorem lawful_holding (P : Code → Prop) : (holding P).Lawful where
  refl _ := trivial
  trans _ _ := trivial
  value_grows _ _ := trivial
  code_grows _ hc := hc
  plain _ := trivial
  own _ _ _ := trivial
  field _ _ _ _ := trivial
  function h _ hf := h.function hf
  parts hc _ _ _ hp := hc.part hp
  superclass hc := hc.part List.mem_cons_self
  block h hc := ⟨(h.addFrame _).keeps, fun _ hs => hc.part (List.mem_map_of_mem hs)⟩
  call h hc _ := ⟨(h.addFrame _).keeps, fun _ hs => hc.part (List.mem_map_of_mem hs)⟩
  var h _ _ := (h.define _ _ _).keeps
  assign h _ _ _ := (h.define _ _ _).keeps
  declareFunction h hc := (holds_declareFunction h (hc.part (List.mem_singleton_self _))).keeps
  declareClass h hc := (holds_declareClass h _ _ fun _ hd => hc.part (List.mem_map_of_mem hd)).keeps
  declareSubclass h hc _ _ := (holds_declareClass h _ _ fun _ hd =>
    hc.part (List.mem_append_right _ (List.mem_map_of_mem hd))).keeps
  setField h _ _ := (h.setField _ _ _).keeps
  addInstance h _ := ⟨(h.addInstance _).keeps, trivial⟩
  bindMethod {s c name f i} h _ hf _ := by
    have hcode : (Code.decl f.declaration).All P := h.findMethod hf
    exact ⟨(h.addFrame _).keeps, hcode⟩
  addFunction h hc := ⟨(h.addFunction hc).keeps, trivial⟩

theorem declares_holding (P : Code → Prop) (s : Setting) (occurs : Task → Machine → Prop) :
    (holding P).Declares s occurs :=
  fun _ _ _ _ _ _ _ _ _ => trivial

/-- The plan of every task keeps the property, whatever tasks there are. -/
theorem keptWhere_holding (P : Code → Prop) (s : Setting) :
    (holding P).contract.KeptWhere s fun _ _ => True :=
  (lawful_holding P).keptWhere (declares_holding P s _)

end

/-! ## Runs -/

/-- An expression stores no code of its own: what holds of all stored code still does, whether or not
it holds of the expression. -/
theorem holds_evaluate (P : Code → Prop) (n : Nat) (s : Setting) (e : Expr NodeId) {m : Machine}
    (hm : m.store.Holds P) : (evaluate n s e m).Ensures (·.store.Holds P) := by
  let Stored (c : Code) : Prop := ∀ d, c = .decl d → c.All P
  have hstored {d : FunDecl NodeId} : (Code.decl d).All Stored ↔ (Code.decl d).All P :=
    ⟨fun h => h.self d rfl, fun h c' hw _ _ c'' hw' => h c'' (hw'.trans hw)⟩
  have hiff {store : Store} : store.Holds Stored ↔ store.Holds P :=
    ⟨fun h => ⟨fun hf => hstored.mp (h.function hf), fun hc hf => hstored.mp (h.method hc hf)⟩,
      fun h => ⟨fun hf => hstored.mpr (h.function hf), fun hc hf => hstored.mpr (h.method hc hf)⟩⟩
  have he : (Code.expr e).All Stored := by
    intro c hw d hd
    obtain ⟨e', rfl⟩ := hw.exists_expr
    cases hd
  have hrun := (keptWhere_holding Stored s).run (n := n) (t := .evaluate e) (m := m)
    (fun _ _ _ => trivial) ⟨hiff.mpr hm, he⟩
  exact hrun.ensures (fun _ _ h => hiff.mp h.1.store) fun _ h => hiff.mp h.store

/-- What holds of all the code at the start of a program holds of what is stored in the end. -/
theorem holds_runStatements (P : Code → Prop) (n : Nat) (s : Setting)
    {program : List (Stmt NodeId)} {m : Machine} (hm : m.store.Holds P)
    (hp : ∀ statement ∈ program, (Code.stmt statement).All P) :
    (runStatements n s program m).Ensures (·.store.Holds P) := by
  have hrun := (lawful_holding P).runStatements (declares_holding P s fun _ _ => True) (n := n)
    (fun _ _ _ => trivial) hm hp
  exact fun m' h => (hrun m' h).store

end Lox
