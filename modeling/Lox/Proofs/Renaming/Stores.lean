import Lox.Proofs.Evaluation.WellScoped
import Lox.Proofs.Renaming.Scopes

/-!
# Stores of a renamed program

A run of a renamed program goes through the same states, but for the names in
some frames: those of the renamed scopes. `Marks` says which frames these are.
The stores of the two runs are related by `Store.Renames`: the frames lie inside
the same frames and bind the same values, in a marked frame under the new name,
and a function is renamed as its closure is marked.

A run adds frames, and marks some of them (`Marks.Extends`). What is known of a
frame that is there stays true.

* `Store.Marked`: the frames from one outward are marked like the scopes of a
  list of flags;
* `Store.Renames.define`, `Store.Renames.addFrame` and others: every operation
  keeps stores related;
* `Store.Renames.findMethod`, `Store.Renames.display`: what is looked up is
  related too, and a value is written in the same way.
-/

namespace Lox

/-! ## Related tables -/

section

variable {α β : Type} {r : α → β → Prop}

theorem rel_mono {r' : α → β → Prop} (hr : ∀ a b, r a b → r' a b) {o : Option α} {o' : Option β}
    (h : Option.Rel r o o') : Option.Rel r' o o' := by
  cases h with
  | some h => exact .some (hr _ _ h)
  | none => exact .none

/-- Related entries are added at the ends of related tables. -/
theorem rel_getElem?_push {xs : Array α} {ys : Array β} (hsize : ys.size = xs.size)
    (h : ∀ i : Nat, Option.Rel r xs[i]? ys[i]?) {a : α} {b : β} (hab : r a b) (i : Nat) :
    Option.Rel r (xs.push a)[i]? (ys.push b)[i]? := by
  rw [Array.getElem?_push, Array.getElem?_push, hsize]
  split
  · exact .some hab
  · exact h i

end

namespace Store

variable {s s' : Store}

/-- Initializers with as many parameters take as many arguments. -/
theorem classArity_eq_of_rel {r : FunctionObject → FunctionObject → Prop} {id : ClassId}
    (h : Option.Rel r (s.findMethod id initializerName) (s'.findMethod id initializerName))
    (hr : ∀ f f', r f f' → f'.declaration.params.length = f.declaration.params.length) :
    s'.classArity id = s.classArity id := by
  rw [classArity, classArity]
  generalize s.findMethod id initializerName = o, s'.findMethod id initializerName = o' at h
  cases h with
  | none => rfl
  | some hf => exact hr _ _ hf

theorem className_eq_of_rel {r : ClassObject → ClassObject → Prop} {id : ClassId}
    (h : Option.Rel r (s.class? id) (s'.class? id)) (hr : ∀ c c', r c c' → c'.name = c.name) :
    s'.className id = s.className id := by
  rw [className, className]
  generalize s.class? id = o, s'.class? id = o' at h
  cases h with
  | none => rfl
  | some hc => exact hr _ _ hc

/-- A value is written in the same way if functions and classes have the same names. -/
theorem display_eq_of_rel {r : FunctionObject → FunctionObject → Prop}
    (hfunction : ∀ id, Option.Rel r (s.function? id) (s'.function? id))
    (hr : ∀ f f', r f f' → f'.declaration.name = f.declaration.name)
    (hclass : ∀ id, s'.className id = s.className id) (hinstances : s'.instances = s.instances)
    (value : Value) : s'.display value = s.display value := by
  cases value with
  | function id =>
    have hf := hfunction id
    rw [display, display]
    generalize s.function? id = o, s'.function? id = o' at hf
    cases hf with
    | none => rfl
    | some hf => rw [Option.map_some, Option.map_some, hr _ _ hf]
  | «class» id => exact hclass id
  | «instance» id => rw [display, display, instance?, instance?, hinstances, funext hclass]
  | bool b => cases b <;> rfl
  | _ => rfl

end Store

namespace Bindings

variable {α β : Type}

theorem Renames.ofList {ρ : Renaming} {renamed : Bool} (entries : List (String × α)) :
    (ofList entries).Renames ρ renamed
      (ofList (entries.map fun e => (ρ.swap renamed e.1, e.2))) := by
  have hfold (entries : List (String × α)) {b b' : Bindings α} (h : b.Renames ρ renamed b') :
      (entries.foldl (fun b e => b.insert e.1 e.2) b).Renames ρ renamed
        ((entries.map fun e => (ρ.swap renamed e.1, e.2)).foldl
          (fun b e => b.insert e.1 e.2) b') := by
    induction entries generalizing b b' with
    | nil => exact h
    | cons e entries ih => exact ih (h.insert e.1 e.2)
  exact hfold entries .empty

/-- The same names are bound, to values that are related. -/
def Relates (r : α → β → Prop) (b : Bindings α) (b' : Bindings β) : Prop :=
  ∀ name, Option.Rel r (b.get? name) (b'.get? name)

theorem Relates.insert {r : α → β → Prop} {b : Bindings α} {b' : Bindings β} (h : Relates r b b')
    (name : String) {value : α} {value' : β} (hv : r value value') :
    Relates r (b.insert name value) (b'.insert name value') := by
  intro other
  rw [get?_insert, get?_insert]
  by_cases hn : name = other
  · rw [if_pos hn, if_pos hn]
    exact .some hv
  · rw [if_neg hn, if_neg hn]
    exact h other

theorem Relates.ofList {r : α → β → Prop} {entries : List (String × α)}
    {entries' : List (String × β)}
    (h : List.Forall₂ (fun e e' => e'.1 = e.1 ∧ r e.2 e'.2) entries entries') :
    Relates r (ofList entries) (ofList entries') := by
  have hfold {b : Bindings α} {b' : Bindings β} (hb : Relates r b b') :
      Relates r (entries.foldl (fun b e => b.insert e.1 e.2) b)
        (entries'.foldl (fun b e => b.insert e.1 e.2) b') := by
    induction h generalizing b b' with
    | nil => exact hb
    | cons he _ ih =>
      rw [List.foldl_cons, List.foldl_cons, he.1]
      exact ih (hb.insert _ he.2)
  exact hfold fun _ => .none

end Bindings

/-! ## Marks -/

/-- Which frames are those of renamed scopes. -/
abbrev Marks := FrameId → Bool

/-- Marks one more frame, or leaves it unmarked. -/
def Marks.mark (marks : Marks) (f : FrameId) (renamed : Bool) : Marks := fun g =>
  if g = f then renamed else marks g

@[simp] theorem Marks.mark_self (marks : Marks) (f : FrameId) (renamed : Bool) :
    marks.mark f renamed f = renamed := if_pos rfl

theorem Marks.mark_of_ne (marks : Marks) {f g : FrameId} (renamed : Bool) (h : g ≠ f) :
    marks.mark f renamed g = marks g := if_neg h

/-- The frames of a store stay, inside the same frames and marked as before. -/
structure Marks.Extends (s : Store) (marks : Marks) (s' : Store) (marks' : Marks) : Prop where
  frame {f : FrameId} : (s.frame? f).isSome → (s'.frame? f).isSome
  enclosing {f : FrameId} : (s.frame? f).isSome → s'.enclosing? f = s.enclosing? f
  marks {f : FrameId} : (s.frame? f).isSome → marks' f = marks f

namespace Marks.Extends

variable {s s' s'' : Store} {marks marks' marks'' : Marks}

theorem refl (s : Store) (marks : Marks) : Extends s marks s marks := ⟨id, fun _ => rfl, fun _ => rfl⟩

theorem trans (h : Extends s marks s' marks') (h' : Extends s' marks' s'' marks'') :
    Extends s marks s'' marks'' where
  frame hf := h'.frame (h.frame hf)
  enclosing hf := (h'.enclosing (h.frame hf)).trans (h.enclosing hf)
  marks hf := (h'.marks (h.frame hf)).trans (h.marks hf)

theorem of_frames_eq (marks : Marks) (h : s'.frames = s.frames) : Extends s marks s' marks := by
  have hf (f : FrameId) : s'.frame? f = s.frame? f := by rw [Store.frame?, Store.frame?, h]
  refine ⟨fun {f} hs => (hf f).symm ▸ hs, fun {f} _ => ?_, fun _ => rfl⟩
  rw [Store.enclosing?, Store.enclosing?, hf]

theorem define (s : Store) (marks : Marks) (f : FrameId) (name : String) (value : Value) :
    Extends s marks (s.define f name value) marks where
  frame {g} hg := by
    rw [Store.frame?_define]
    split
    · rwa [Option.isSome_map]
    · exact hg
  enclosing _ := Store.enclosing?_define _ _ _ _ _
  marks _ := rfl

theorem addFrame (s : Store) (marks : Marks) (frame : Frame) (renamed : Bool) :
    Extends s marks (s.addFrame frame).2 (marks.mark (s.addFrame frame).1 renamed) where
  frame hg := by rwa [Store.frame?_addFrame, if_neg (Store.ne_addFrame hg)]
  enclosing hg := Store.enclosing?_addFrame_of_isSome hg
  marks hg := marks.mark_of_ne renamed (Store.ne_addFrame hg)

end Marks.Extends

namespace Store

/-- The globals are there, in no other frame, and are not renamed. -/
structure Rooted (s : Store) (marks : Marks) : Prop where
  isSome : (s.frame? .globals).isSome
  enclosing : s.enclosing? .globals = none
  unmarked : marks .globals = false

theorem Rooted.extend {s s' : Store} {marks marks' : Marks} (he : marks.Extends s s' marks')
    (h : s.Rooted marks) : s'.Rooted marks' :=
  ⟨he.frame h.isSome, (he.enclosing h.isSome).trans h.enclosing,
    (he.marks h.isSome).trans h.unmarked⟩

/-- The frames from `f` outward are marked like scopes with these flags. -/
def Marked (s : Store) (marks : Marks) (f : FrameId) : List Bool → Prop
  | [] => f = .globals
  | renamed :: flags => marks f = renamed ∧ ∃ g, s.enclosing? f = some g ∧ s.Marked marks g flags

namespace Marked

variable {s s' : Store} {marks marks' : Marks} {f : FrameId} {flags : List Bool}

theorem extend (he : marks.Extends s s' marks') (h : s.Marked marks f flags) :
    s'.Marked marks' f flags := by
  induction flags generalizing f with
  | nil => exact h
  | cons renamed flags ih =>
    obtain ⟨hm, g, hg, hout⟩ := h
    have hf := frame?_isSome_of_enclosing? hg
    exact ⟨(he.marks hf).trans hm, g, (he.enclosing hf).trans hg, ih hout⟩

/-- A new frame for a new scope. -/
theorem addFrame (h : s.Marked marks f flags) (bindings : Bindings Value) (renamed : Bool) :
    (s.addFrame ⟨bindings, some f⟩).2.Marked
      (marks.mark (s.addFrame ⟨bindings, some f⟩).1 renamed)
      (s.addFrame ⟨bindings, some f⟩).1 (renamed :: flags) := by
  refine ⟨marks.mark_self _ renamed, f, enclosing?_addFrame_self s _, ?_⟩
  exact h.extend (.addFrame s marks _ renamed)

/-- The frame `d` steps out is marked as the scope `d` scopes out is. -/
theorem eq_flagAt (hr : s.Rooted marks) (h : s.Marked marks f flags) {d : Nat} {g : FrameId}
    (ha : s.ancestor? f d = some g) : marks g = flagAt flags (some d) := by
  induction flags generalizing f d with
  | nil =>
    obtain rfl : f = .globals := h
    cases d with
    | zero =>
      obtain rfl : .globals = g := Option.some.inj ha
      exact hr.unmarked
    | succ d =>
      rw [ancestor?, hr.enclosing] at ha
      cases ha
  | cons renamed flags ih =>
    obtain ⟨hm, f', he, hout⟩ := h
    cases d with
    | zero =>
      obtain rfl : f = g := Option.some.inj ha
      exact hm
    | succ d =>
      rw [ancestor?, he] at ha
      exact ih hout ha

/-- The frame itself is marked as the innermost scope is. -/
theorem eq_flagAt_zero (hr : s.Rooted marks) (h : s.Marked marks f flags) :
    marks f = flagAt flags (some 0) :=
  h.eq_flagAt hr rfl

end Marked

/-- Without marks, the frames of scopes are those of scopes that are not renamed. -/
theorem Chain.marked {s : Store} {f : FrameId} {scopes : Scopes} (h : s.Chain f scopes) :
    s.Marked (fun _ => false) f (scopes.map fun _ => false) := by
  induction scopes generalizing f with
  | nil => exact h
  | cons scope outer ih =>
    obtain ⟨-, g, he, hout⟩ := h
    exact ⟨rfl, g, he, ih hout⟩

end Store

/-! ## Renamed objects -/

section

variable (ρ : Renaming) (distance? : NodeId → Option Nat)

/-- The second function is the first one, renamed as the frames around it are marked. `inside` are
the flags of scopes that have no frame yet: for a method, the one that will bind `this`. -/
structure FunctionObject.Renames (s : Store) (marks : Marks) (inside : List Bool)
    (f f' : FunctionObject) : Prop where
  closure : f'.closure = f.closure
  isInitializer : f'.isInitializer = f.isInitializer
  declaration : ∃ flags, s.Marked marks f.closure flags ∧
    f.declaration.Renames ρ distance? (inside ++ flags) f'.declaration

/-- The second class is the first one with its methods renamed. -/
structure ClassObject.Renames (s : Store) (marks : Marks) (c c' : ClassObject) : Prop where
  name : c'.name = c.name
  superclass : c'.superclass = c.superclass
  methods : Bindings.Relates (FunctionObject.Renames ρ distance? s marks [false]) c.methods
    c'.methods

/-- The second store is the first one with the names in the marked frames renamed. -/
structure Store.Renames (marks : Marks) (s s' : Store) : Prop where
  root : s.Rooted marks
  size : s'.frames.size = s.frames.size
  enclosing (f : FrameId) : s'.enclosing? f = s.enclosing? f
  own (f : FrameId) (name : String) : s'.own? f (ρ.swap (marks f) name) = s.own? f name
  numFunctions : s'.functions.size = s.functions.size
  function (id : FunctionId) :
    Option.Rel (FunctionObject.Renames ρ distance? s marks []) (s.function? id) (s'.function? id)
  numClasses : s'.classes.size = s.classes.size
  «class» (id : ClassId) :
    Option.Rel (ClassObject.Renames ρ distance? s marks) (s.class? id) (s'.class? id)
  instances : s'.instances = s.instances

end

section

variable {ρ : Renaming} {distance? : NodeId → Option Nat} {s s' s₁ : Store}
  {marks marks₁ : Marks} {vs : List Visit}

theorem FunctionObject.Renames.extend {inside : List Bool} {f f' : FunctionObject}
    (he : marks.Extends s s₁ marks₁) (h : f.Renames ρ distance? s marks inside f') :
    f.Renames ρ distance? s₁ marks₁ inside f' := by
  obtain ⟨flags, hm, hd⟩ := h.declaration
  exact ⟨h.closure, h.isInitializer, flags, hm.extend he, hd⟩

theorem ClassObject.Renames.extend {c c' : ClassObject} (he : marks.Extends s s₁ marks₁)
    (h : c.Renames ρ distance? s marks c') : c.Renames ρ distance? s₁ marks₁ c' :=
  ⟨h.name, h.superclass, fun name => rel_mono (fun _ _ hf => hf.extend he) (h.methods name)⟩

namespace Store.Renames

/-! ## Reading -/

theorem frame?_isSome (h : s.Renames ρ distance? marks s') (f : FrameId) :
    (s'.frame? f).isSome = (s.frame? f).isSome := by
  rw [frame?, frame?, Bool.eq_iff_iff, Option.isSome_iff_exists, Option.isSome_iff_exists]
  simp only [Array.getElem?_eq_some_iff, exists_comm, exists_eq', exists_prop, and_true, h.size]

theorem frame?_map_const (h : s.Renames ρ distance? marks s') (f : FrameId) (value : Value) :
    ((s'.frame? f).map fun _ => value) = (s.frame? f).map fun _ => value := by
  have hf := h.frame?_isSome f
  cases hs : s.frame? f <;> cases hs' : s'.frame? f <;> simp [hs, hs'] at hf ⊢

theorem ancestor? (h : s.Renames ρ distance? marks s') (f : FrameId) (d : Nat) :
    s'.ancestor? f d = s.ancestor? f d := by
  induction d generalizing f with
  | zero => rfl
  | succ d ih =>
    rw [Store.ancestor?, Store.ancestor?, h.enclosing]
    exact congrArg _ (funext ih)

/-- A name that is never renamed is bound to the same value. -/
theorem own?_keyword (h : s.Renames ρ distance? marks s') (f : FrameId) {name : String}
    (hk : ∀ b, ρ.swap b name = name) : s'.own? f name = s.own? f name := by
  have ho := h.own f name
  rwa [hk] at ho

theorem getAt_keyword (h : s.Renames ρ distance? marks s') (f : FrameId) (d : Nat) {name : String}
    (hk : ∀ b, ρ.swap b name = name) : s'.getAt f d name = s.getAt f d name := by
  rw [getAt, getAt, h.ancestor?]
  exact congrArg _ (funext fun g => h.own?_keyword g hk)

theorem findMethod (h : s.Renames ρ distance? marks s') (id : ClassId) (name : String) :
    Option.Rel (FunctionObject.Renames ρ distance? s marks [false]) (s.findMethod id name)
      (s'.findMethod id name) :=
  Store.findMethod_rel h.class (fun hcc => ⟨hcc.superclass, hcc.methods name⟩) id

theorem classArity (h : s.Renames ρ distance? marks s') (id : ClassId) :
    s'.classArity id = s.classArity id := by
  refine classArity_eq_of_rel (h.findMethod id initializerName) fun f f' hf => ?_
  obtain ⟨flags, -, hd⟩ := hf.declaration
  exact hd.length_params

theorem className (h : s.Renames ρ distance? marks s') (id : ClassId) :
    s'.className id = s.className id :=
  className_eq_of_rel (h.class id) fun _ _ hc => hc.name

/-- A value is written in the same way. -/
theorem display (h : s.Renames ρ distance? marks s') (value : Value) :
    s'.display value = s.display value := by
  refine display_eq_of_rel h.function (fun f f' hf => ?_) h.className h.instances value
  obtain ⟨flags, -, hd⟩ := hf.declaration
  exact hd.name_eq

/-! ## Operations -/

/-- Objects stay related while frames are added. -/
theorem extend (h : s.Renames ρ distance? marks s') (he : marks.Extends s s₁ marks₁)
    (hf : s₁.functions = s.functions) (hc : s₁.classes = s.classes) :
    (∀ id, Option.Rel (FunctionObject.Renames ρ distance? s₁ marks₁ []) (s₁.function? id)
      (s'.function? id)) ∧
    ∀ id, Option.Rel (ClassObject.Renames ρ distance? s₁ marks₁) (s₁.class? id)
      (s'.class? id) := by
  constructor
  · intro id
    rw [function?, hf]
    exact rel_mono (fun _ _ hf => hf.extend he) (h.function id)
  · intro id
    rw [class?, hc]
    exact rel_mono (fun _ _ hc => hc.extend he) (h.class id)

theorem define (h : s.Renames ρ distance? marks s') (f : FrameId) (name : String) (value : Value) :
    (s.define f name value).Renames ρ distance? marks
      (s'.define f (ρ.swap (marks f) name) value) where
  root := h.root.extend (.define s marks f name value)
  size := by
    show (s'.frames.modify _ _).size = (s.frames.modify _ _).size
    rw [Array.size_modify, Array.size_modify, h.size]
  enclosing g := by rw [enclosing?_define, enclosing?_define, h.enclosing]
  own g other := by
    rw [own?_define, own?_define, h.own, h.frame?_map_const]
    by_cases hg : g = f
    · subst hg
      simp only [ρ.swap_inj]
    · rw [if_neg fun hc => hg hc.1, if_neg fun hc => hg hc.1]
  numFunctions := h.numFunctions
  function := (h.extend (.define s marks f name value) rfl rfl).1
  numClasses := h.numClasses
  «class» := (h.extend (.define s marks f name value) rfl rfl).2
  instances := h.instances

theorem fst_addFrame (h : s.Renames ρ distance? marks s') (frame frame' : Frame) :
    (s'.addFrame frame').1 = (s.addFrame frame).1 :=
  congrArg FrameId.mk h.size

/-- A new frame for a scope that is renamed or not. -/
theorem addFrame (h : s.Renames ρ distance? marks s') {renamed : Bool}
    {bindings bindings' : Bindings Value} (hb : bindings.Renames ρ renamed bindings')
    (enclosing : Option FrameId) :
    (s.addFrame ⟨bindings, enclosing⟩).2.Renames ρ distance?
      (marks.mark (s.addFrame ⟨bindings, enclosing⟩).1 renamed)
      (s'.addFrame ⟨bindings', enclosing⟩).2 := by
  have hid := h.fst_addFrame ⟨bindings, enclosing⟩ ⟨bindings', enclosing⟩
  have he := Marks.Extends.addFrame s marks ⟨bindings, enclosing⟩ renamed
  refine ⟨h.root.extend he, ?_, fun f => ?_, fun f name => ?_, h.numFunctions,
    (h.extend he rfl rfl).1, h.numClasses, (h.extend he rfl rfl).2, h.instances⟩
  · show (s'.frames.push _).size = (s.frames.push _).size
    rw [Array.size_push, Array.size_push, h.size]
  · have hf := h.enclosing f
    rw [enclosing?, enclosing?] at hf
    rw [enclosing?, enclosing?, frame?_addFrame, frame?_addFrame, hid]
    split
    · rfl
    · exact hf
  · have hf := h.own f name
    rw [own?, own?] at hf
    rw [own?, own?, frame?_addFrame, frame?_addFrame, hid]
    by_cases hnew : f = (s.addFrame ⟨bindings, enclosing⟩).1
    · rw [if_pos hnew, if_pos hnew, hnew, Marks.mark_self]
      exact hb name
    · rw [if_neg hnew, if_neg hnew, marks.mark_of_ne renamed hnew]
      exact hf

theorem addFunction (h : s.Renames ρ distance? marks s') {f f' : FunctionObject}
    (hf : f.Renames ρ distance? s marks [] f') :
    (s.addFunction f).2.Renames ρ distance? marks (s'.addFunction f').2 where
  root := by
    have he : marks.Extends s (s.addFunction f).2 marks := .of_frames_eq marks rfl
    exact h.root.extend he
  size := h.size
  enclosing := h.enclosing
  own := h.own
  numFunctions := by
    show (s'.functions.push f').size = (s.functions.push f).size
    rw [Array.size_push, Array.size_push, h.numFunctions]
  function id := by
    have he : marks.Extends s (s.addFunction f).2 marks := .of_frames_eq marks rfl
    exact rel_getElem?_push h.numFunctions (fun i => rel_mono (fun _ _ hf => hf.extend he) (h.function ⟨i⟩))
      (hf.extend he) id.index
  numClasses := h.numClasses
  «class» id := by
    have he : marks.Extends s (s.addFunction f).2 marks := .of_frames_eq marks rfl
    exact rel_mono (fun _ _ hc => hc.extend he) (h.class id)
  instances := h.instances

theorem addClass (h : s.Renames ρ distance? marks s') {c c' : ClassObject}
    (hc : c.Renames ρ distance? s marks c') :
    (s.addClass c).2.Renames ρ distance? marks (s'.addClass c').2 where
  root := by
    have he : marks.Extends s (s.addClass c).2 marks := .of_frames_eq marks rfl
    exact h.root.extend he
  size := h.size
  enclosing := h.enclosing
  own := h.own
  numFunctions := h.numFunctions
  function id := by
    have he : marks.Extends s (s.addClass c).2 marks := .of_frames_eq marks rfl
    exact rel_mono (fun _ _ hf => hf.extend he) (h.function id)
  numClasses := by
    show (s'.classes.push c').size = (s.classes.push c).size
    rw [Array.size_push, Array.size_push, h.numClasses]
  «class» id := by
    have he : marks.Extends s (s.addClass c).2 marks := .of_frames_eq marks rfl
    exact rel_getElem?_push h.numClasses (fun i => rel_mono (fun _ _ hc => hc.extend he) (h.class ⟨i⟩))
      (hc.extend he) id.index
  instances := h.instances

/-- The instances change in the same way. -/
theorem setInstances (h : s.Renames ρ distance? marks s') (instances : Array InstanceObject) :
    Renames ρ distance? marks { s with instances } { s' with instances } := by
  have he : marks.Extends s { s with instances } marks := .of_frames_eq marks rfl
  exact ⟨h.root.extend he, h.size, h.enclosing, h.own, h.numFunctions, (h.extend he rfl rfl).1,
    h.numClasses, (h.extend he rfl rfl).2, rfl⟩

theorem addInstance (h : s.Renames ρ distance? marks s') (i : InstanceObject) :
    (s'.addInstance i).1 = (s.addInstance i).1 ∧
      (s.addInstance i).2.Renames ρ distance? marks (s'.addInstance i).2 := by
  have hs := h.setInstances (s.instances.push i)
  rw [Store.addInstance, Store.addInstance, h.instances]
  exact ⟨rfl, hs⟩

theorem setField (h : s.Renames ρ distance? marks s') (id : InstanceId) (name : String)
    (value : Value) :
    (s.setField id name value).Renames ρ distance? marks (s'.setField id name value) := by
  rw [Store.setField, Store.setField, h.instances]
  exact h.setInstances _

/-- A method of an instance is a function whose closure is not renamed. -/
theorem bindMethod (h : s.Renames ρ distance? marks s') {f f' : FunctionObject}
    (hf : f.Renames ρ distance? s marks [false] f') (receiver : InstanceId) :
    ∃ marks₁, marks.Extends s (s.bindMethod f receiver).2 marks₁ ∧
      (s.bindMethod f receiver).2.Renames ρ distance? marks₁ (s'.bindMethod f' receiver).2 ∧
      (s.bindMethod f receiver).1.Renames ρ distance? (s.bindMethod f receiver).2 marks₁ []
        (s'.bindMethod f' receiver).1 := by
  let bindings : Bindings Value := (∅ : Bindings Value).insert "this" (.instance receiver)
  have hb : bindings.Renames ρ false bindings := fun _ => rfl
  obtain ⟨flags, hm, hd⟩ := hf.declaration
  have hframe := h.addFrame hb (some f.closure)
  have hid := h.fst_addFrame ⟨bindings, some f.closure⟩ ⟨bindings, some f.closure⟩
  rw [Store.bindMethod, Store.bindMethod, hf.closure]
  refine ⟨_, .addFrame s marks ⟨bindings, some f.closure⟩ false, hframe, ?_⟩
  exact ⟨hid, hf.isInitializer, _, hm.addFrame bindings false, hd⟩

end Store.Renames

/-- The methods of a class are renamed as its closure is marked. -/
theorem FunDecl.RenamesAll.methodTable {closure : FrameId} {flags : List Bool}
    (hm : s.Marked marks closure flags) {methods methods' : List (FunDecl NodeId)}
    (h : FunDecl.RenamesAll ρ distance? (false :: flags) methods methods') :
    Bindings.Relates (FunctionObject.Renames ρ distance? s marks [false])
      (Lox.methodTable closure methods) (Lox.methodTable closure methods') := by
  refine Bindings.Relates.ofList ?_
  induction methods generalizing methods' with
  | nil =>
    cases h
    exact .nil
  | cons f fs ih =>
    cases h with
    | cons hf hfs =>
      refine .cons ⟨congrArg Name.text hf.name_eq, ?_⟩ (ih hfs)
      exact ⟨rfl, hf.isInitializer_eq, flags, hm, hf⟩

end

end Lox
