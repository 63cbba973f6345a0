import Lox.Proofs.Scope.Accepted
import Lox.Evaluation.Machine

/-!
# Frames along a run

A store only grows: a frame keeps the frame around it, and the names that it
binds stay bound (`Store.Grows`). `Store.Chain` says that the frames from one
outward are those of a list of scopes: one frame for each scope, the globals
outside the last one, and every name that may be read is bound in the frame of
its scope.

* `Store.frame?_define`, `Store.frame?_addFrame`: the frames after an operation;
* `Store.Chain.grow`: frames stay those of their scopes;
* `Store.Chain.ancestor`: the frame `d` steps out binds the names of the scope
  `d` scopes out;
* `Store.Chain.hasLocalFrames`: there are as many frames as scopes.
-/

namespace Lox

/-! ## Bindings made in turn -/

namespace Bindings

variable {α : Type}

theorem foldl_insert_get? {entries : List (String × α)} {b : Bindings α} {name : String}
    {value : α} (h : (entries.foldl (fun b e => b.insert e.1 e.2) b).get? name = some value) :
    (name, value) ∈ entries ∨ b.get? name = some value := by
  induction entries generalizing b with
  | nil => exact .inr h
  | cons e entries ih =>
    obtain hm | hb := ih h
    · exact .inl (List.mem_cons_of_mem _ hm)
    · rw [get?_insert] at hb
      split at hb
      · next hn =>
        obtain rfl : e.2 = value := Option.some.inj hb
        exact .inl (hn ▸ List.mem_cons_self)
      · exact .inr hb

/-- What a name is bound to is one of the values that were bound to it. -/
theorem mem_of_get?_ofList {entries : List (String × α)} {name : String} {value : α}
    (h : (ofList entries).get? name = some value) : (name, value) ∈ entries :=
  (foldl_insert_get? h).resolve_right fun h => by cases h

theorem contains_foldl_insert (entries : List (String × α)) (b : Bindings α) (name : String) :
    (entries.foldl (fun b e => b.insert e.1 e.2) b).contains name =
      (b.contains name || (entries.map Prod.fst).contains name) := by
  induction entries generalizing b with
  | nil => simp
  | cons e entries ih =>
    rw [List.foldl_cons, ih, contains_insert]
    rw [List.map_cons, List.contains_cons, ← Bool.or_assoc, Bool.or_comm (decide _)]
    simp [Bool.beq_eq_decide_eq, eq_comm]

/-- The names that are bound are those that were bound in turn. -/
theorem contains_ofList (entries : List (String × α)) (name : String) :
    (ofList entries).contains name = (entries.map Prod.fst).contains name := by
  rw [ofList, contains_foldl_insert, contains_empty, Bool.false_or]

end Bindings

namespace Store

/-! ## The frames after an operation -/

theorem frame?_define (s : Store) (f g : FrameId) (name : String) (value : Value) :
    (s.define f name value).frame? g =
      if g = f then (s.frame? g).map fun frame =>
        { frame with bindings := frame.bindings.insert name value }
      else s.frame? g := by
  unfold define frame?
  rw [Array.getElem?_modify]
  by_cases h : g = f
  · simp [h]
  · have : f.index ≠ g.index := fun e => h (by cases f; cases g; simp_all)
    simp [h, this]

theorem frame?_addFrame (s : Store) (frame : Frame) (g : FrameId) :
    (s.addFrame frame).2.frame? g =
      if g = (s.addFrame frame).1 then some frame else s.frame? g := by
  obtain ⟨i⟩ := g
  simp only [addFrame, frame?, Array.getElem?_push, FrameId.mk.injEq]

/-- A frame that was not there is not one of those that were. -/
theorem ne_addFrame {s : Store} {frame : Frame} {g : FrameId} (h : (s.frame? g).isSome) :
    g ≠ (s.addFrame frame).1 := by
  rintro rfl
  simp [addFrame, frame?] at h

@[simp] theorem enclosing?_define (s : Store) (f g : FrameId) (name : String) (value : Value) :
    (s.define f name value).enclosing? g = s.enclosing? g := by
  unfold enclosing?
  rw [frame?_define]
  split <;> cases s.frame? g <;> rfl

theorem own?_define (s : Store) (f g : FrameId) (name other : String) (value : Value) :
    (s.define f name value).own? g other =
      if g = f ∧ name = other then (s.frame? g).map fun _ => value else s.own? g other := by
  unfold own?
  rw [frame?_define]
  by_cases hg : g = f
  · rw [if_pos hg]
    cases s.frame? g with
    | none => simp
    | some frame => simp [hg, Bindings.get?_insert]
  · simp [hg]

theorem frame?_isSome_of_enclosing? {s : Store} {f g : FrameId} (h : s.enclosing? f = some g) :
    (s.frame? f).isSome := by
  obtain ⟨frame, hf, -⟩ := Option.bind_eq_some_iff.mp h
  simp [hf]

theorem frame?_isSome_of_own? {s : Store} {f : FrameId} {name : String}
    (h : (s.own? f name).isSome) : (s.frame? f).isSome := by
  obtain ⟨value, hv⟩ := Option.isSome_iff_exists.mp h
  obtain ⟨frame, hf, -⟩ := Option.bind_eq_some_iff.mp hv
  simp [hf]

theorem enclosing?_addFrame (s : Store) (frame : Frame) (g : FrameId) :
    (s.addFrame frame).2.enclosing? g =
      if g = (s.addFrame frame).1 then frame.enclosing else s.enclosing? g := by
  rw [enclosing?, frame?_addFrame]
  split <;> rfl

theorem own?_addFrame (s : Store) (frame : Frame) (g : FrameId) (name : String) :
    (s.addFrame frame).2.own? g name =
      if g = (s.addFrame frame).1 then frame.bindings.get? name else s.own? g name := by
  rw [own?, frame?_addFrame]
  split <;> rfl

theorem enclosing?_addFrame_self (s : Store) (frame : Frame) :
    (s.addFrame frame).2.enclosing? (s.addFrame frame).1 = frame.enclosing := by
  rw [enclosing?_addFrame, if_pos rfl]

theorem own?_addFrame_self (s : Store) (frame : Frame) (name : String) :
    (s.addFrame frame).2.own? (s.addFrame frame).1 name = frame.bindings.get? name := by
  rw [own?_addFrame, if_pos rfl]

theorem enclosing?_addFrame_of_isSome {s : Store} {frame : Frame} {g : FrameId}
    (h : (s.frame? g).isSome) : (s.addFrame frame).2.enclosing? g = s.enclosing? g := by
  rw [enclosing?_addFrame, if_neg (ne_addFrame h)]

theorem own?_addFrame_of_isSome {s : Store} {frame : Frame} {g : FrameId} (name : String)
    (h : (s.frame? g).isSome) : (s.addFrame frame).2.own? g name = s.own? g name := by
  rw [own?_addFrame, if_neg (ne_addFrame h)]

/-! ## Growth -/

/-- Frames stay inside the same frames, and what they bind stays bound. -/
structure Grows (s s' : Store) : Prop where
  enclosing {f g : FrameId} : s.enclosing? f = some g → s'.enclosing? f = some g
  own {f : FrameId} {name : String} : (s.own? f name).isSome → (s'.own? f name).isSome

namespace Grows

theorem refl (s : Store) : s.Grows s := ⟨id, id⟩

theorem trans {s s' s'' : Store} (h : s.Grows s') (h' : s'.Grows s'') : s.Grows s'' :=
  ⟨h'.enclosing ∘ h.enclosing, h'.own ∘ h.own⟩

theorem of_frames_eq {s s' : Store} (h : s'.frames = s.frames) : s.Grows s' := by
  constructor
  · intro f g hf
    simpa only [enclosing?, frame?, h] using hf
  · intro f name hf
    simpa only [own?, frame?, h] using hf

theorem addFunction (s : Store) (f : FunctionObject) : s.Grows (s.addFunction f).2 :=
  of_frames_eq rfl

theorem addClass (s : Store) (c : ClassObject) : s.Grows (s.addClass c).2 := of_frames_eq rfl

theorem addInstance (s : Store) (i : InstanceObject) : s.Grows (s.addInstance i).2 :=
  of_frames_eq rfl

theorem setField (s : Store) (id : InstanceId) (name : String) (value : Value) :
    s.Grows (s.setField id name value) := of_frames_eq rfl

theorem define (s : Store) (f : FrameId) (name : String) (value : Value) :
    s.Grows (s.define f name value) := by
  constructor
  · intro g g' hg
    rwa [enclosing?_define]
  · intro g other hg
    rw [own?_define]
    split
    · simpa using frame?_isSome_of_own? hg
    · exact hg

theorem addFrame (s : Store) (frame : Frame) : s.Grows (s.addFrame frame).2 := by
  constructor
  · intro f g hf
    rwa [enclosing?_addFrame_of_isSome (frame?_isSome_of_enclosing? hf)]
  · intro f name hf
    rwa [own?_addFrame_of_isSome name (frame?_isSome_of_own? hf)]

end Grows

/-! ## The frames of scopes -/

/-- The frames from `f` outward are those of the scopes. -/
def Chain (s : Store) (f : FrameId) : Scopes → Prop
  | [] => f = .globals
  | scope :: outer =>
    (∀ name, scope.get? name = some true → (s.own? f name).isSome) ∧
      ∃ g, s.enclosing? f = some g ∧ s.Chain g outer

/-- There are `n` frames from `f` outward to the globals, which do not count. -/
def HasLocalFrames (s : Store) (f : FrameId) (n : Nat) : Prop :=
  s.ancestor? f n = some .globals ∧
    ∀ k < n, ∃ g, s.ancestor? f k = some g ∧ g ≠ .globals

theorem Grows.ancestor? {s s' : Store} (hg : s.Grows s') {f g : FrameId} {d : Nat}
    (h : s.ancestor? f d = some g) : s'.ancestor? f d = some g := by
  induction d generalizing f with
  | zero => exact h
  | succ d ih =>
    obtain ⟨f', he, h⟩ := Option.bind_eq_some_iff.mp h
    rw [Store.ancestor?, hg.enclosing he]
    exact ih h

theorem Grows.getAt {s s' : Store} (hg : s.Grows s') {f : FrameId} {d : Nat} {name : String}
    (h : (s.getAt f d name).isSome) : (s'.getAt f d name).isSome := by
  obtain ⟨value, hv⟩ := Option.isSome_iff_exists.mp h
  obtain ⟨g, ha, hv⟩ := Option.bind_eq_some_iff.mp hv
  rw [Store.getAt, hg.ancestor? ha]
  exact hg.own (hv ▸ rfl)

theorem HasLocalFrames.grow {s s' : Store} (hg : s.Grows s') {f : FrameId} {n : Nat}
    (h : s.HasLocalFrames f n) : s'.HasLocalFrames f n := by
  refine ⟨hg.ancestor? h.1, fun k hk => ?_⟩
  obtain ⟨g, ha, hne⟩ := h.2 k hk
  exact ⟨g, hg.ancestor? ha, hne⟩

namespace Chain

variable {s : Store} {f : FrameId} {scopes : Scopes}

theorem grow {s' : Store} (hg : s.Grows s') (h : s.Chain f scopes) : s'.Chain f scopes := by
  induction scopes generalizing f with
  | nil => exact h
  | cons scope outer ih =>
    obtain ⟨hown, g, he, hout⟩ := h
    exact ⟨fun name hn => hg.own (hown name hn), g, hg.enclosing he, ih hout⟩

/-- A new frame for a new scope. -/
theorem addFrame (h : s.Chain f scopes) {bindings : Bindings Value} {scope : Scope}
    (hb : ∀ name, scope.get? name = some true → (bindings.get? name).isSome) :
    (s.addFrame ⟨bindings, some f⟩).2.Chain (s.addFrame ⟨bindings, some f⟩).1
      (scope :: scopes) := by
  refine ⟨fun name hn => ?_, f, enclosing?_addFrame_self s _, h.grow (.addFrame s _)⟩
  rw [own?_addFrame_self]
  exact hb name hn

/-- A name that is declared need not be bound yet. -/
theorem declare (h : s.Chain f scopes) (name : String) : s.Chain f (scopes.declare name) := by
  cases scopes with
  | nil => exact h
  | cons inner outer =>
    refine ⟨fun other ho => h.1 other ?_, h.2⟩
    rw [Bindings.get?_insert] at ho
    split at ho
    · cases ho
    · exact ho

/-- A name that may be read from now on is bound. -/
theorem bind (h : s.Chain f scopes) {name : String} (hn : (s.own? f name).isSome) :
    s.Chain f (scopes.bind name) := by
  cases scopes with
  | nil => exact h
  | cons inner outer =>
    refine ⟨fun other ho => ?_, h.2⟩
    rw [Bindings.get?_insert, Bindings.get?_insert] at ho
    by_cases hno : name = other
    · exact hno ▸ hn
    · rw [if_neg hno, if_neg hno] at ho
      exact h.1 other ho

theorem bindAll (h : s.Chain f scopes) {names : List String}
    (hn : ∀ name ∈ names, (s.own? f name).isSome) : s.Chain f (scopes.bindAll names) := by
  induction names generalizing scopes with
  | nil => exact h
  | cons name names ih =>
    exact ih (h.bind (hn name List.mem_cons_self)) fun n hm => hn n (List.mem_cons_of_mem _ hm)

/-- The frame `d` steps out is that of the scope `d` scopes out. -/
theorem ancestor (h : s.Chain f scopes) {d : Nat} (hd : d < scopes.length) :
    ∃ g, s.ancestor? f d = some g ∧
      ∀ name, scopes.at? d name = some true → (s.own? g name).isSome := by
  induction scopes generalizing f d with
  | nil => exact absurd hd (Nat.not_lt_zero d)
  | cons scope outer ih =>
    obtain ⟨hown, g, he, hout⟩ := h
    cases d with
    | zero => exact ⟨f, rfl, hown⟩
    | succ d =>
      obtain ⟨g', hg', hown'⟩ := ih hout (Nat.lt_of_succ_lt_succ hd)
      refine ⟨g', ?_, hown'⟩
      rw [ancestor?, he]
      exact hg'

/-- A name that may be read is bound. -/
theorem getAt (h : s.Chain f scopes) {d : Nat} {name : String}
    (ha : scopes.at? d name = some true) : (s.getAt f d name).isSome := by
  obtain ⟨scope, hs, -⟩ := Option.bind_eq_some_iff.mp ha
  obtain ⟨g, hg, hown⟩ := h.ancestor (List.getElem?_eq_some_iff.mp hs).1
  rw [Store.getAt, hg]
  exact hown name ha

/-- There are as many frames as scopes, if the globals are in no frame. -/
theorem hasLocalFrames (hroot : s.enclosing? .globals = none) (h : s.Chain f scopes) :
    s.HasLocalFrames f scopes.length := by
  induction scopes generalizing f with
  | nil => exact ⟨congrArg some h, fun k hk => absurd hk (Nat.not_lt_zero k)⟩
  | cons scope outer ih =>
    obtain ⟨-, g, he, hout⟩ := h
    obtain ⟨hend, hlocal⟩ := ih hout
    constructor
    · rw [List.length_cons, ancestor?, he]
      exact hend
    · intro k hk
      cases k with
      | zero =>
        refine ⟨f, rfl, ?_⟩
        rintro rfl
        rw [hroot] at he
        cases he
      | succ k =>
        rw [ancestor?, he]
        exact hlocal k (Nat.lt_of_succ_lt_succ hk)

end Chain

end Store

end Lox
