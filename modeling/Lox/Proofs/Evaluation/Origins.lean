import Lox.Proofs.Evaluation.Holding
import Lox.Proofs.Evaluation.Walks
import Mathlib.Data.List.Induction

/-!
# Where functions and classes come from

The functions in a store were declared, and so were its classes: each has the methods that stand in
its declaration, the last of those with the same name.

* `Bindings.get?_ofList`: of several entries with one name the last counts;
* `Bindings.entries_ofList`: if there are no such entries, all are kept, in order;
* `Path.search_eq_findSome?`: a walk finds the first thing that there is to be found on its path;
* `Store.Written`: the functions and classes of a store come from code with some property, and the
  evaluator keeps this (`lawful_writing`).
-/

namespace Lox

/-! ## Bindings made in turn -/

namespace Bindings

variable {α : Type} {entries : List (String × α)}

theorem ofList_append_singleton (entries : List (String × α)) (e : String × α) :
    ofList (entries ++ [e]) = (ofList entries).insert e.1 e.2 := by
  simp [ofList]

/-- What a name is bound to is the value of its last entry. -/
theorem get?_ofList (entries : List (String × α)) (name : String) :
    (ofList entries).get? name = (entries.reverse.find? fun e => e.1 = name).map Prod.snd := by
  induction entries using List.reverseRecOn with
  | nil => rfl
  | append_singleton entries e ih =>
    rw [ofList_append_singleton, get?_insert, ih, List.reverse_append, List.reverse_singleton,
      List.singleton_append, List.find?_cons]
    by_cases h : e.1 = name <;> simp [h]

theorem replace_of_notMem {name : String} (value : α) (h : name ∉ entries.map Prod.fst) :
    replace name value entries = entries ++ [(name, value)] := by
  induction entries with
  | nil => rfl
  | cons e rest ih =>
    obtain ⟨hne, hrest⟩ := List.ne_and_not_mem_of_not_mem_cons h
    rw [replace, if_neg (Ne.symm hne), ih hrest, List.cons_append]

/-- Entries with names of their own are all kept. -/
theorem entries_ofList (h : (entries.map Prod.fst).Nodup) : (ofList entries).entries = entries := by
  induction entries using List.reverseRecOn with
  | nil => rfl
  | append_singleton entries e ih =>
    rw [List.map_append, List.nodup_append] at h
    obtain ⟨hentries, -, hlast⟩ := h
    have hnew : e.1 ∉ (ofList entries).entries.map Prod.fst := by
      rw [ih hentries]
      exact fun hm => hlast e.1 hm e.1 (List.mem_singleton_self _) rfl
    rw [ofList_append_singleton, insert, replace_of_notMem _ hnew, ih hentries]

end Bindings

/-! ## Walks -/

/-- A search along a path finds what the first place has that has something. -/
theorem Path.search_eq_findSome? {α β : Type} {next : α → Option α} {a : α} {as : List α}
    (h : Path next a as) {found search : α → Option β}
    (hsearch : ∀ a, search a = (found a).or ((next a).bind search)) :
    search a = as.findSome? found := by
  induction h with
  | @last a hn =>
    rw [hsearch, hn, Option.bind_none, Option.or_none, List.findSome?_cons]
    cases found a <;> rfl
  | @step a b as hn _ ih =>
    rw [hsearch, hn, Option.bind_some, ih, List.findSome?_cons]
    cases found a <;> rfl

/-! ## Classes and their declarations -/

/-- A class as it was declared: with this name, with a superclass or not, and with methods that were
declared in this frame. -/
structure ClassObject.IsDeclared (c : ClassObject) (name : Name) (superclass : Option (Expr NodeId))
    (methods : List (FunDecl NodeId)) (closure : FrameId) : Prop where
  name : c.name = name.text
  superclass : c.superclass.isSome = superclass.isSome
  methods : c.methods = methodTable closure methods

/-- Of the methods with one name the last is that of the class. -/
theorem get?_methodTable (closure : FrameId) (methods : List (FunDecl NodeId)) (name : String) :
    (methodTable closure methods).get? name =
      (methods.reverse.find? fun d => d.name.text = name).map fun d =>
        ⟨d, closure, d.isInitializer⟩ := by
  rw [methodTable, Bindings.get?_ofList, ← List.map_reverse, List.find?_map, Option.map_map]
  rfl

/-- The functions and classes of a store come from code that has a property, with all its parts. -/
structure Store.Written (P : Code → Prop) (s : Store) : Prop where
  function {id : FunctionId} {f : FunctionObject} :
    s.function? id = some f → (Code.decl f.declaration).All P
  «class» {id : ClassId} {c : ClassObject} : s.class? id = some c →
    ∃ name superclass methods closure, c.IsDeclared name superclass methods closure ∧
      (Code.stmt (.class name superclass methods)).All P

namespace Store.Written

variable {P : Code → Prop} {s s' : Store}

theorem mono {P' : Code → Prop} (h : s.Written P) (hP : ∀ c, P c → P' c) : s.Written P' where
  function hf := (h.function hf).mono hP
  «class» hc := by
    obtain ⟨name, superclass, methods, closure, hd, hall⟩ := h.class hc
    exact ⟨name, superclass, methods, closure, hd, hall.mono hP⟩

theorem of_eq (h : s.Written P) (hf : s'.functions = s.functions) (hc : s'.classes = s.classes) :
    s'.Written P where
  function h' := h.function (by rwa [function?, hf] at h')
  «class» h' := h.class (by rwa [class?, hc] at h')

/-- So the property holds of the code of all functions and methods. -/
theorem holds (h : s.Written P) : s.Holds P where
  function := h.function
  method {id c name f} hc hm := by
    obtain ⟨_, superclass, methods, closure, hd, hall⟩ := h.class hc
    rw [hd.methods] at hm
    obtain ⟨d, hmem, rfl⟩ := exists_mem_of_methodTable hm
    exact hall.part (List.mem_append_right _ (List.mem_map_of_mem hmem))

theorem addFunction (h : s.Written P) {f : FunctionObject} (hf : (Code.decl f.declaration).All P) :
    (s.addFunction f).2.Written P where
  function hg := (h.holds.addFunction hf).function hg
  «class» := h.class

theorem addClass (h : s.Written P) {c : ClassObject} {name : Name}
    {superclass : Option (Expr NodeId)} {methods : List (FunDecl NodeId)} {closure : FrameId}
    (hd : c.IsDeclared name superclass methods closure)
    (hall : (Code.stmt (.class name superclass methods)).All P) : (s.addClass c).2.Written P where
  function := h.function
  «class» {id c'} hc := by
    rw [class?, Store.addClass, Array.getElem?_push] at hc
    split at hc
    · obtain rfl : c = c' := Option.some.inj hc
      exact ⟨name, superclass, methods, closure, hd, hall⟩
    · exact h.class hc

end Store.Written

section

variable {P : Code → Prop} {m : Machine}

theorem written_declareFunction (h : m.store.Written P) {declaration : FunDecl NodeId}
    (hd : (Code.decl declaration).All P) : (declareFunction declaration m).store.Written P :=
  (h.addFunction (f := ⟨declaration, m.environment, false⟩) hd).of_eq rfl rfl

theorem written_declareClass (h : m.store.Written P) {name : Name} {superclass : Option (Expr NodeId)}
    {methods : List (FunDecl NodeId)} {c : Option ClassId} (hc : c.isSome = superclass.isSome)
    (hall : (Code.stmt (.class name superclass methods)).All P) :
    (declareClass name c methods m).store.Written P := by
  have hdefine : (m.store.define m.environment name.text .nil).Written P := h.of_eq rfl rfl
  cases c with
  | none =>
    have hd : ClassObject.IsDeclared ⟨name.text, none, methodTable m.environment methods⟩ name
        superclass methods m.environment := ⟨rfl, hc, rfl⟩
    exact (hdefine.addClass hd hall).of_eq rfl rfl
  | some c =>
    let around := (m.store.define m.environment name.text .nil).addFrame
      ⟨(∅ : Bindings Value).insert "super" (.class c), some m.environment⟩
    have hframe : around.2.Written P := hdefine.of_eq rfl rfl
    have hd : ClassObject.IsDeclared ⟨name.text, some c, methodTable around.1 methods⟩ name
        superclass methods around.1 := ⟨rfl, hc, rfl⟩
    exact (hframe.addClass hd hall).of_eq rfl rfl

end

/-! ## The discipline -/

/-- All functions and classes come from code with a property. -/
def writing (P : Code → Prop) : Discipline where
  store := Store.Written P
  value _ _ := True
  code _ _ c := c.All P
  grows _ _ := True
  declares _ _ _ _ _ := True

section

variable {P : Code → Prop} {s s' : Store}

theorem Store.Written.keeps (h : s'.Written P) : (writing P).Keeps s s' := ⟨h, trivial⟩

theorem Store.Written.keeps_of_eq (h : s.Written P) (hf : s'.functions = s.functions)
    (hc : s'.classes = s.classes) : (writing P).Keeps s s' := (h.of_eq hf hc).keeps

/-- What is declared comes from the code that is run. -/
theorem lawful_writing (P : Code → Prop) : (writing P).Lawful where
  refl _ := trivial
  trans _ _ := trivial
  value_grows _ _ := trivial
  code_grows _ hc := hc
  plain _ := trivial
  own _ _ _ := trivial
  field _ _ _ _ := trivial
  function h _ hf := h.function hf
  parts hc _ _ _ hp := hc.part hp
  superclass hc := hc.part List.mem_cons_self
  block h hc := ⟨h.keeps_of_eq rfl rfl, fun _ hs => hc.part (List.mem_map_of_mem hs)⟩
  call h hc _ := ⟨h.keeps_of_eq rfl rfl, fun _ hs => hc.part (List.mem_map_of_mem hs)⟩
  var h _ _ := h.keeps_of_eq rfl rfl
  assign h _ _ _ := h.keeps_of_eq rfl rfl
  declareFunction h hc := (written_declareFunction h (hc.part (List.mem_singleton_self _))).keeps
  declareClass h hc := (written_declareClass h rfl hc).keeps
  declareSubclass h hc _ _ := (written_declareClass h rfl hc).keeps
  setField h _ _ := h.keeps_of_eq rfl rfl
  addInstance h _ := ⟨h.keeps_of_eq rfl rfl, trivial⟩
  bindMethod {s c name f i} h _ hf _ := by
    have hcode : (Code.decl f.declaration).All P := h.holds.findMethod hf
    exact ⟨h.keeps_of_eq rfl rfl, hcode⟩
  addFunction h hc := ⟨(h.addFunction hc).keeps, trivial⟩

theorem declares_writing (P : Code → Prop) (s : Setting) (occurs : Task → Machine → Prop) :
    (writing P).Declares s occurs :=
  fun _ _ _ _ _ _ _ _ _ => trivial

end

/-! ## The frame of a call -/

namespace FunctionObject

variable {f : FunctionObject} {arguments : List Value}

/-- If the parameters have names of their own, and there are as many arguments, the frame of a call
binds each parameter to the argument at its place, and nothing else. -/
theorem frame?_inside (hn : (f.declaration.params.map Name.text).Nodup)
    (hlength : arguments.length = f.declaration.params.length) (m : Machine) :
    (f.inside arguments m).store.frame? (f.inside arguments m).environment =
      some ⟨⟨(f.declaration.params.map Name.text).zip arguments⟩, some f.closure⟩ := by
  have hzip : (((f.declaration.params.map Name.text).zip arguments).map Prod.fst).Nodup := by
    rwa [List.map_fst_zip (by simp [hlength])]
  have hentries := Bindings.entries_ofList hzip
  let frame : Frame :=
    ⟨.ofList ((f.declaration.params.map Name.text).zip arguments), some f.closure⟩
  have hframe : (m.store.addFrame frame).2.frame? (m.store.addFrame frame).1 = some frame :=
    (Store.frame?_addFrame _ _ _).trans (if_pos rfl)
  refine hframe.trans (congrArg (fun b => some (Frame.mk b (some f.closure))) ?_)
  exact congrArg Bindings.mk hentries

end FunctionObject

end Lox
