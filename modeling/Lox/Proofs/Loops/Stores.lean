import Lox.Proofs.Loops.Alignments
import Lox.Proofs.Renaming.Stores
import Lox.Proofs.Syntax.Recoding

/-!
# Stores of two runs with other frames

Two runs do the same in different frames: each has frames that the other has not, but these bind nothing.
A `Pairing` says which frames stand for each other, and `Store.alignment` which distances lead to such frames,
seen from a frame of each store. In two stores that mirror each other (`Store.Mirrors`) paired frames bind
the same values, and functions and classes have the same numbers and the same code, up to the numbers of
its nodes, whose names lead to paired frames.

* `Pairing.Extends`: a run adds frames, and pairs some of them;
* `Store.alignment_push`, `Store.alignment_pushLeft`, `Store.alignment_pushRight`: what new frames align;
* `Store.Mirrors.define`, `Store.Mirrors.addFrame` and others: every operation keeps stores so, and so does a
  frame that one of them adds alone (`Store.Mirrors.addLeft`, `Store.Mirrors.addRight`).
-/

namespace Lox

/-! ## Pairs of frames -/

/-- Which frame of a second store stands for a frame of a first one, if there is one. -/
abbrev Pairing := FrameId → Option FrameId

/-- One more pair. -/
def Pairing.pair (β : Pairing) (f f' : FrameId) : Pairing := fun g => if g = f then some f' else β g

@[simp] theorem Pairing.pair_self (β : Pairing) (f f' : FrameId) : β.pair f f' f = some f' := if_pos rfl

theorem Pairing.pair_of_ne (β : Pairing) {f g : FrameId} (f' : FrameId) (h : g ≠ f) :
    β.pair f f' g = β g := if_neg h

/-- Both stores grow, and the pairs stay. -/
structure Pairing.Extends (s s' : Store) (β : Pairing) (s₁ s₁' : Store) (β₁ : Pairing) : Prop where
  left : s.Grows s₁
  right : s'.Grows s₁'
  pairs {f f' : FrameId} : β f = some f' → β₁ f = some f'

namespace Pairing.Extends

variable {s s' s₁ s₁' s₂ s₂' : Store} {β β₁ β₂ : Pairing}

theorem refl (s s' : Store) (β : Pairing) : Extends s s' β s s' β := ⟨.refl s, .refl s', id⟩

theorem trans (h : Extends s s' β s₁ s₁' β₁) (h' : Extends s₁ s₁' β₁ s₂ s₂' β₂) :
    Extends s s' β s₂ s₂' β₂ :=
  ⟨h.left.trans h'.left, h.right.trans h'.right, fun hp => h'.pairs (h.pairs hp)⟩

theorem of_frames_eq (β : Pairing) (h : s₁.frames = s.frames) (h' : s₁'.frames = s'.frames) :
    Extends s s' β s₁ s₁' β :=
  ⟨.of_frames_eq h, .of_frames_eq h', id⟩

end Pairing.Extends

namespace Store

/-- Which distances lead to paired frames, seen from a frame of each store. -/
def alignment (β : Pairing) (s s' : Store) (f f' : FrameId) : Alignment := fun d d' =>
  ∃ g g', s.ancestor? f d = some g ∧ s'.ancestor? f' d' = some g' ∧ β g = some g'

section

variable {s s' s₁ s₁' : Store} {β β₁ : Pairing} {f f' g g' : FrameId}

theorem alignment_zero : s.alignment β s' f f' 0 0 ↔ β f = some f' := by
  constructor
  · rintro ⟨g, g', hg, hg', hp⟩
    obtain rfl : f = g := Option.some.inj hg
    obtain rfl : f' = g' := Option.some.inj hg'
    exact hp
  · exact fun hp => ⟨f, f', rfl, rfl, hp⟩

theorem alignment_mono (h : Pairing.Extends s s' β s₁ s₁' β₁) (d d' : Nat)
    (ha : s.alignment β s' f f' d d') : s₁.alignment β₁ s₁' f f' d d' := by
  obtain ⟨g, g', hg, hg', hp⟩ := ha
  exact ⟨g, g', h.left.ancestor? hg, h.right.ancestor? hg', h.pairs hp⟩

theorem alignment_push (hg : s.enclosing? g = some f) (hg' : s'.enclosing? g' = some f')
    (hp : β g = some g') :
    ∀ d d', (s.alignment β s' f f').push d d' → s.alignment β s' g g' d d'
  | 0, 0, _ => alignment_zero.mpr hp
  | d + 1, d' + 1, ⟨e, e', he, he', hpe⟩ => by
    refine ⟨e, e', ?_, ?_, hpe⟩
    · rw [ancestor?, hg]
      exact he
    · rw [ancestor?, hg']
      exact he'

theorem alignment_pushLeft (hg : s.enclosing? g = some f) :
    ∀ d d', (s.alignment β s' f f').pushLeft d d' → s.alignment β s' g f' d d'
  | d + 1, _, ⟨e, e', he, he', hpe⟩ => by
    refine ⟨e, e', ?_, he', hpe⟩
    rw [ancestor?, hg]
    exact he

theorem alignment_pushRight (hg' : s'.enclosing? g' = some f') :
    ∀ d d', (s.alignment β s' f f').pushRight d d' → s.alignment β s' f g' d d'
  | _, d' + 1, ⟨e, e', he, he', hpe⟩ => by
    refine ⟨e, e', he, ?_, hpe⟩
    rw [ancestor?, hg']
    exact he'

end

end Store

/-! ## Objects -/

section

variable (D E : NodeId → Option Nat)

/-- The second function is the first one with other nodes, and its names lead to paired frames. The frame
that binds `this` may still be to come. -/
structure FunctionObject.Mirrors (s s' : Store) (β : Pairing) (method : Bool)
    (f f' : FunctionObject) : Prop where
  closure : β f.closure = some f'.closure
  isInitializer : f'.isInitializer = f.isInitializer
  declaration : ∃ φ : NodeId → NodeId, f'.declaration = f.declaration.recode ⟨φ, id⟩ ∧
    f.declaration.Aligned D (E ∘ φ) ((s.alignment β s' f.closure f'.closure).pushIf method)

/-- The second class is the first one with such methods. -/
structure ClassObject.Mirrors (s s' : Store) (β : Pairing) (c c' : ClassObject) : Prop where
  name : c'.name = c.name
  superclass : c'.superclass = c.superclass
  methods : Bindings.Relates (FunctionObject.Mirrors D E s s' β true) c.methods c'.methods

/-- Paired frames bind the same values, all other frames bind nothing, and the objects have the same
numbers and mirror each other. -/
structure Store.Mirrors (β : Pairing) (s s' : Store) : Prop where
  globals : β .globals = some .globals
  rootLeft : s.enclosing? .globals = none
  rootRight : s'.enclosing? .globals = none
  injective {f g h : FrameId} : β f = some h → β g = some h → f = g
  isSomeLeft {f f' : FrameId} : β f = some f' → (s.frame? f).isSome
  isSomeRight {f f' : FrameId} : β f = some f' → (s'.frame? f').isSome
  own {f f' : FrameId} (name : String) : β f = some f' → s'.own? f' name = s.own? f name
  bareLeft {f : FrameId} (name : String) : β f = none → s.own? f name = none
  bareRight {f' : FrameId} (name : String) : (∀ f, β f ≠ some f') → s'.own? f' name = none
  numFunctions : s'.functions.size = s.functions.size
  function (id : FunctionId) :
    Option.Rel (FunctionObject.Mirrors D E s s' β false) (s.function? id) (s'.function? id)
  numClasses : s'.classes.size = s.classes.size
  «class» (id : ClassId) :
    Option.Rel (ClassObject.Mirrors D E s s' β) (s.class? id) (s'.class? id)
  instances : s'.instances = s.instances

end

section

variable {D E : NodeId → Option Nat} {s s' s₁ s₁' : Store} {β β₁ : Pairing}

/-! ### Functions -/

namespace FunctionObject.Mirrors

variable {method : Bool} {f f' : FunctionObject}

theorem extend (he : Pairing.Extends s s' β s₁ s₁' β₁) (h : f.Mirrors D E s s' β method f') :
    f.Mirrors D E s₁ s₁' β₁ method f' := by
  obtain ⟨φ, hd, ha⟩ := h.declaration
  exact ⟨he.pairs h.closure, h.isInitializer, φ, hd,
    ha.mono (Alignment.pushIf_mono (Store.alignment_mono he) method)⟩

theorem name_eq (h : f.Mirrors D E s s' β method f') : f'.declaration.name = f.declaration.name := by
  obtain ⟨φ, hd, -⟩ := h.declaration
  rw [hd, FunDecl.name_recode]
  rfl

theorem params_eq (h : f.Mirrors D E s s' β method f') :
    f'.declaration.params = f.declaration.params := by
  obtain ⟨φ, hd, -⟩ := h.declaration
  rw [hd, FunDecl.params_recode]
  exact List.map_id _

end FunctionObject.Mirrors

theorem ClassObject.Mirrors.extend {c c' : ClassObject} (he : Pairing.Extends s s' β s₁ s₁' β₁)
    (h : c.Mirrors D E s s' β c') : c.Mirrors D E s₁ s₁' β₁ c' :=
  ⟨h.name, h.superclass, fun name => rel_mono (fun _ _ hf => hf.extend he) (h.methods name)⟩

/-- The methods of a class that is declared in paired frames. -/
theorem FunDecl.AlignedAll.methodTable {closure closure' : FrameId} {φ : NodeId → NodeId} {P : Alignment}
    (hc : β closure = some closure')
    (hP : ∀ d d', P d d' → s.alignment β s' closure closure' d d') {methods : List (FunDecl NodeId)}
    (h : FunDecl.AlignedAll D (E ∘ φ) P.push methods) :
    Bindings.Relates (FunctionObject.Mirrors D E s s' β true) (Lox.methodTable closure methods)
      (Lox.methodTable closure' (FunDecl.recodeAll ⟨φ, id⟩ methods)) := by
  refine Bindings.Relates.ofList ?_
  induction methods with
  | nil => exact .nil
  | cons f fs ih =>
    rw [FunDecl.AlignedAll] at h
    have hname : (f.recode ⟨φ, id⟩).name = f.name := f.name_recode ⟨φ, id⟩
    exact .cons ⟨congrArg Name.text hname, hc, f.isInitializer_recode _, φ, rfl,
      h.1.mono (Alignment.push_mono hP)⟩ (ih h.2)

namespace Store.Mirrors

/-! ### Reading -/

theorem getAt (h : s.Mirrors D E β s') {f f' : FrameId} {d d' : Nat}
    (ha : s.alignment β s' f f' d d') (name : String) :
    s'.getAt f' d' name = s.getAt f d name := by
  obtain ⟨g, g', hg, hg', hp⟩ := ha
  rw [Store.getAt, Store.getAt, hg, hg']
  exact h.own name hp

theorem binder?_globals (h : s.Mirrors D E β s') (name : String) :
    s'.binder? .globals name = s.binder? .globals name := by
  rw [binder?_of_enclosing?_eq_none h.rootLeft, binder?_of_enclosing?_eq_none h.rootRight,
    h.own name h.globals]

theorem get_globals (h : s.Mirrors D E β s') (name : String) :
    s'.get .globals name = s.get .globals name := by
  rw [get_of_enclosing?_eq_none h.rootLeft, get_of_enclosing?_eq_none h.rootRight,
    h.own name h.globals]

theorem findMethod (h : s.Mirrors D E β s') (id : ClassId) (name : String) :
    Option.Rel (FunctionObject.Mirrors D E s s' β true) (s.findMethod id name)
      (s'.findMethod id name) :=
  Store.findMethod_rel h.class (fun hcc => ⟨hcc.superclass, hcc.methods name⟩) id

theorem classArity (h : s.Mirrors D E β s') (id : ClassId) : s'.classArity id = s.classArity id :=
  classArity_eq_of_rel (h.findMethod id initializerName) fun _ _ hf =>
    congrArg List.length hf.params_eq

theorem className (h : s.Mirrors D E β s') (id : ClassId) : s'.className id = s.className id :=
  className_eq_of_rel (h.class id) fun _ _ hc => hc.name

/-- A value is written in the same way. -/
theorem display (h : s.Mirrors D E β s') (value : Value) : s'.display value = s.display value :=
  display_eq_of_rel h.function (fun _ _ hf => hf.name_eq) h.className h.instances value

/-! ### Frames -/

/-- Stores that differ from these in their frames only mirror each other if the frames do. -/
theorem extend (h : s.Mirrors D E β s') (he : Pairing.Extends s s' β s₁ s₁' β₁)
    (hf : s₁.functions = s.functions) (hc : s₁.classes = s.classes)
    (hf' : s₁'.functions = s'.functions) (hc' : s₁'.classes = s'.classes) :
    (∀ id, Option.Rel (FunctionObject.Mirrors D E s₁ s₁' β₁ false) (s₁.function? id)
      (s₁'.function? id)) ∧
    ∀ id, Option.Rel (ClassObject.Mirrors D E s₁ s₁' β₁) (s₁.class? id) (s₁'.class? id) := by
  constructor
  · intro id
    rw [function?, function?, hf, hf']
    exact rel_mono (fun _ _ hf => hf.extend he) (h.function id)
  · intro id
    rw [class?, class?, hc, hc']
    exact rel_mono (fun _ _ hc => hc.extend he) (h.class id)

theorem extends_define (f f' : FrameId) (name : String) (value : Value) :
    Pairing.Extends s s' β (s.define f name value) (s'.define f' name value) β :=
  ⟨.define s f name value, .define s' f' name value, id⟩

/-- A name is bound in paired frames. -/
theorem define (h : s.Mirrors D E β s') {f f' : FrameId} (hp : β f = some f') (name : String)
    (value : Value) : (s.define f name value).Mirrors D E β (s'.define f' name value) := by
  have he : Pairing.Extends s s' β (s.define f name value) (s'.define f' name value) β :=
    extends_define f f' name value
  obtain ⟨hfunctions, hclasses⟩ := h.extend he rfl rfl rfl rfl
  obtain ⟨frame, hs⟩ := Option.isSome_iff_exists.mp (h.isSomeLeft hp)
  obtain ⟨frame', hs'⟩ := Option.isSome_iff_exists.mp (h.isSomeRight hp)
  have hkeep (s : Store) (f g : FrameId) (hg : (s.frame? g).isSome) :
      ((s.define f name value).frame? g).isSome := by
    rw [frame?_define]
    split
    · rwa [Option.isSome_map]
    · exact hg
  refine ⟨h.globals, ?_, ?_, h.injective, fun hq => hkeep _ _ _ (h.isSomeLeft hq),
    fun hq => hkeep _ _ _ (h.isSomeRight hq), fun {g g'} other hq => ?_, fun {g} other hq => ?_,
    fun {g'} other hq => ?_, h.numFunctions, hfunctions, h.numClasses, hclasses, h.instances⟩
  · rw [enclosing?_define]
    exact h.rootLeft
  · rw [enclosing?_define]
    exact h.rootRight
  · rw [own?_define, own?_define, h.own other hq]
    by_cases hg : g = f
    · subst hg
      obtain rfl : f' = g' := Option.some.inj (hp.symm.trans hq)
      simp [hs, hs']
    · have hg' : g' ≠ f' := by
        rintro rfl
        exact hg (h.injective hq hp)
      rw [if_neg fun hc => hg' hc.1, if_neg fun hc => hg hc.1]
  · have hg : g ≠ f := by
      rintro rfl
      rw [hp] at hq
      cases hq
    rw [own?_define, if_neg fun hc => hg hc.1]
    exact h.bareLeft other hq
  · have hg' : g' ≠ f' := by
      rintro rfl
      exact hq f hp
    rw [own?_define, if_neg fun hc => hg' hc.1]
    exact h.bareRight other hq

/-- A frame that is new stands in no pair. -/
theorem ne_addFrame_left (h : s.Mirrors D E β s') {f f' : FrameId} (frame : Frame) (hp : β f = some f') :
    f ≠ (s.addFrame frame).1 :=
  ne_addFrame (h.isSomeLeft hp)

theorem ne_addFrame_right (h : s.Mirrors D E β s') {f f' : FrameId} (frame : Frame)
    (hp : β f = some f') : f' ≠ (s'.addFrame frame).1 :=
  ne_addFrame (h.isSomeRight hp)

theorem isSome_addFrame {f : FrameId} (frame : Frame) (h : (s.frame? f).isSome) :
    ((s.addFrame frame).2.frame? f).isSome := by
  rwa [frame?_addFrame, if_neg (ne_addFrame h)]

theorem isSome_addFrame_self (s : Store) (frame : Frame) :
    ((s.addFrame frame).2.frame? (s.addFrame frame).1).isSome := by
  rw [frame?_addFrame, if_pos rfl]
  rfl

theorem extends_addFrame (h : s.Mirrors D E β s') (frame frame' : Frame) :
    Pairing.Extends s s' β (s.addFrame frame).2 (s'.addFrame frame').2
      (β.pair (s.addFrame frame).1 (s'.addFrame frame').1) where
  left := .addFrame s frame
  right := .addFrame s' frame'
  pairs hp := (β.pair_of_ne _ (h.ne_addFrame_left frame hp)).trans hp

/-- Frames with the same bindings are added to both stores, wherever they lie. -/
theorem addFrame (h : s.Mirrors D E β s') (bindings : Bindings Value)
    (enclosing enclosing' : Option FrameId) :
    (s.addFrame ⟨bindings, enclosing⟩).2.Mirrors D E
      (β.pair (s.addFrame ⟨bindings, enclosing⟩).1 (s'.addFrame ⟨bindings, enclosing'⟩).1)
      (s'.addFrame ⟨bindings, enclosing'⟩).2 := by
  let frame : Frame := ⟨bindings, enclosing⟩
  let frame' : Frame := ⟨bindings, enclosing'⟩
  have he := h.extends_addFrame frame frame'
  obtain ⟨hfunctions, hclasses⟩ := h.extend he rfl rfl rfl rfl
  have hcases {f f' : FrameId} (hp : β.pair (s.addFrame frame).1 (s'.addFrame frame').1 f = some f') :
      (f = (s.addFrame frame).1 ∧ f' = (s'.addFrame frame').1) ∨ β f = some f' := by
    by_cases hf : f = (s.addFrame frame).1
    · subst hf
      rw [β.pair_self] at hp
      exact .inl ⟨rfl, (Option.some.inj hp).symm⟩
    · rw [β.pair_of_ne _ hf] at hp
      exact .inr hp
  refine ⟨he.pairs h.globals, ?_, ?_, fun {f g k} hf hg => ?_, fun {f f'} hp => ?_, fun {f f'} hp => ?_,
    fun {f f'} name hp => ?_, fun {f} name hp => ?_, fun {f'} name hp => ?_, h.numFunctions, hfunctions,
    h.numClasses, hclasses, h.instances⟩
  · rw [enclosing?_addFrame_of_isSome (h.isSomeLeft h.globals)]
    exact h.rootLeft
  · rw [enclosing?_addFrame_of_isSome (h.isSomeRight h.globals)]
    exact h.rootRight
  · rcases hcases hf with ⟨rfl, rfl⟩ | hf
    · rcases hcases hg with ⟨rfl, -⟩ | hg
      · rfl
      · exact absurd rfl (h.ne_addFrame_right frame' hg)
    · rcases hcases hg with ⟨-, rfl⟩ | hg
      · exact absurd rfl (h.ne_addFrame_right frame' hf)
      · exact h.injective hf hg
  · rcases hcases hp with ⟨rfl, -⟩ | hp
    · exact isSome_addFrame_self s frame
    · exact isSome_addFrame frame (h.isSomeLeft hp)
  · rcases hcases hp with ⟨-, rfl⟩ | hp
    · exact isSome_addFrame_self s' frame'
    · exact isSome_addFrame frame' (h.isSomeRight hp)
  · rcases hcases hp with ⟨rfl, rfl⟩ | hp
    · rw [own?_addFrame_self, own?_addFrame_self]
    · rw [own?_addFrame_of_isSome name (h.isSomeRight hp),
        own?_addFrame_of_isSome name (h.isSomeLeft hp)]
      exact h.own name hp
  · have hf : f ≠ (s.addFrame frame).1 := by
      rintro rfl
      rw [β.pair_self] at hp
      cases hp
    rw [β.pair_of_ne _ hf] at hp
    rw [own?_addFrame, if_neg hf]
    exact h.bareLeft name hp
  · have hf' : f' ≠ (s'.addFrame frame').1 := by
      rintro rfl
      exact hp _ (β.pair_self _ _)
    rw [own?_addFrame, if_neg hf']
    exact h.bareRight name fun f hf => hp f (he.pairs hf)

theorem extends_addLeft (s s' : Store) (β : Pairing) (frame : Frame) :
    Pairing.Extends s s' β (s.addFrame frame).2 s' β :=
  ⟨.addFrame s frame, .refl s', id⟩

theorem extends_addRight (s s' : Store) (β : Pairing) (frame : Frame) :
    Pairing.Extends s s' β s (s'.addFrame frame).2 β :=
  ⟨.refl s, .addFrame s' frame, id⟩

/-- A frame without bindings is added to the first store only. -/
theorem addLeft (h : s.Mirrors D E β s') (enclosing : Option FrameId) :
    (s.addFrame ⟨∅, enclosing⟩).2.Mirrors D E β s' := by
  obtain ⟨hfunctions, hclasses⟩ := h.extend (extends_addLeft s s' β ⟨∅, enclosing⟩) rfl rfl rfl rfl
  refine ⟨h.globals, ?_, h.rootRight, h.injective, fun hp => isSome_addFrame _ (h.isSomeLeft hp),
    h.isSomeRight, fun name hp => ?_, fun {f} name hp => ?_, h.bareRight, h.numFunctions, hfunctions,
    h.numClasses, hclasses, h.instances⟩
  · rw [enclosing?_addFrame_of_isSome (h.isSomeLeft h.globals)]
    exact h.rootLeft
  · rw [own?_addFrame_of_isSome name (h.isSomeLeft hp)]
    exact h.own name hp
  · rw [own?_addFrame]
    split
    · rfl
    · exact h.bareLeft name hp

/-- A frame without bindings is added to the second store only. -/
theorem addRight (h : s.Mirrors D E β s') (enclosing : Option FrameId) :
    s.Mirrors D E β (s'.addFrame ⟨∅, enclosing⟩).2 := by
  obtain ⟨hfunctions, hclasses⟩ := h.extend (extends_addRight s s' β ⟨∅, enclosing⟩) rfl rfl rfl rfl
  refine ⟨h.globals, h.rootLeft, ?_, h.injective, h.isSomeLeft,
    fun hp => isSome_addFrame _ (h.isSomeRight hp), fun name hp => ?_, h.bareLeft,
    fun {f'} name hp => ?_, h.numFunctions, hfunctions, h.numClasses, hclasses, h.instances⟩
  · rw [enclosing?_addFrame_of_isSome (h.isSomeRight h.globals)]
    exact h.rootRight
  · rw [own?_addFrame_of_isSome name (h.isSomeRight hp)]
    exact h.own name hp
  · rw [own?_addFrame]
    split
    · rfl
    · exact h.bareRight name hp

/-! ### Objects -/

theorem addFunction (h : s.Mirrors D E β s') {f f' : FunctionObject}
    (hf : f.Mirrors D E s s' β false f') :
    (s.addFunction f).2.Mirrors D E β (s'.addFunction f').2 := by
  have he : Pairing.Extends s s' β (s.addFunction f).2 (s'.addFunction f').2 β :=
    .of_frames_eq β rfl rfl
  refine ⟨h.globals, h.rootLeft, h.rootRight, h.injective, h.isSomeLeft, h.isSomeRight, h.own,
    h.bareLeft, h.bareRight, ?_, fun id => ?_, h.numClasses, fun id => ?_, h.instances⟩
  · show (s'.functions.push f').size = (s.functions.push f).size
    rw [Array.size_push, Array.size_push, h.numFunctions]
  · exact rel_getElem?_push h.numFunctions
      (fun i => rel_mono (fun _ _ hf => hf.extend he) (h.function ⟨i⟩)) (hf.extend he) id.index
  · exact rel_mono (fun _ _ hc => hc.extend he) (h.class id)

theorem addClass (h : s.Mirrors D E β s') {c c' : ClassObject} (hc : c.Mirrors D E s s' β c') :
    (s.addClass c).2.Mirrors D E β (s'.addClass c').2 := by
  have he : Pairing.Extends s s' β (s.addClass c).2 (s'.addClass c').2 β := .of_frames_eq β rfl rfl
  refine ⟨h.globals, h.rootLeft, h.rootRight, h.injective, h.isSomeLeft, h.isSomeRight, h.own,
    h.bareLeft, h.bareRight, h.numFunctions, fun id => ?_, ?_, fun id => ?_, h.instances⟩
  · exact rel_mono (fun _ _ hf => hf.extend he) (h.function id)
  · show (s'.classes.push c').size = (s.classes.push c).size
    rw [Array.size_push, Array.size_push, h.numClasses]
  · exact rel_getElem?_push h.numClasses
      (fun i => rel_mono (fun _ _ hc => hc.extend he) (h.class ⟨i⟩)) (hc.extend he) id.index

/-- The instances change in the same way. -/
theorem setInstances (h : s.Mirrors D E β s') (instances : Array InstanceObject) :
    Mirrors D E β { s with instances } { s' with instances } := by
  have he : Pairing.Extends s s' β { s with instances } { s' with instances } β :=
    .of_frames_eq β rfl rfl
  obtain ⟨hfunctions, hclasses⟩ := h.extend he rfl rfl rfl rfl
  exact ⟨h.globals, h.rootLeft, h.rootRight, h.injective, h.isSomeLeft, h.isSomeRight, h.own,
    h.bareLeft, h.bareRight, h.numFunctions, hfunctions, h.numClasses, hclasses, rfl⟩

theorem addInstance (h : s.Mirrors D E β s') (i : InstanceObject) :
    (s'.addInstance i).1 = (s.addInstance i).1 ∧
      (s.addInstance i).2.Mirrors D E β (s'.addInstance i).2 := by
  have hs := h.setInstances (s.instances.push i)
  rw [Store.addInstance, Store.addInstance, h.instances]
  exact ⟨rfl, hs⟩

theorem setField (h : s.Mirrors D E β s') (id : InstanceId) (name : String) (value : Value) :
    (s.setField id name value).Mirrors D E β (s'.setField id name value) := by
  rw [Store.setField, Store.setField, h.instances]
  exact h.setInstances _

/-- A method of an instance: the frames that bind `this` are paired. -/
theorem bindMethod (h : s.Mirrors D E β s') {f f' : FunctionObject}
    (hf : f.Mirrors D E s s' β true f') (receiver : InstanceId) :
    ∃ β₁, Pairing.Extends s s' β (s.bindMethod f receiver).2 (s'.bindMethod f' receiver).2 β₁ ∧
      (s.bindMethod f receiver).2.Mirrors D E β₁ (s'.bindMethod f' receiver).2 ∧
      (s.bindMethod f receiver).1.Mirrors D E (s.bindMethod f receiver).2
        (s'.bindMethod f' receiver).2 β₁ false (s'.bindMethod f' receiver).1 := by
  let bindings : Bindings Value := (∅ : Bindings Value).insert "this" (.instance receiver)
  have he := h.extends_addFrame ⟨bindings, some f.closure⟩ ⟨bindings, some f'.closure⟩
  refine ⟨_, he, h.addFrame bindings (some f.closure) (some f'.closure), ?_⟩
  obtain ⟨φ, hd, ha⟩ := hf.declaration
  refine ⟨β.pair_self _ _, hf.isInitializer, φ, hd, ha.mono fun d d' hp => ?_⟩
  refine Store.alignment_push (enclosing?_addFrame_self s _) (enclosing?_addFrame_self s' _)
    (β.pair_self _ _) d d' ?_
  exact Alignment.push_mono (Store.alignment_mono he) d d' hp

end Store.Mirrors

end

end Lox
