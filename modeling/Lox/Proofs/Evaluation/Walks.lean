import Lox.Proofs.Evaluation.Creation
import Lox.Proofs.Evaluation.Validity

/-!
# Walks along frames and along superclasses

`get` and `assign` walk along the frames from one outward, and `findMethod` along the classes from
one up, until they find what they look for. As they are written they only go from a number to a
smaller one. A walk that looks at no numbers would never end where frames lie in each other in a
circle. In a store whose frames are a tree they do not.

* `Path`: the places of a walk that finds nothing, down to the last one;
* `climb`: a walk that looks at no numbers, and is given up after some steps;
* `Path.climb_eq`: it is not given up within as many steps as the path has places;
* `Store.IsTree`: the frames of a store lie in each other up to the globals (`Store.Valid.isTree`,
  `Store.IsTree.exists_path`);
* `Store.Descends.get_eq`, `Store.Descends.assign_eq`, `Store.IsTree.findMethod_eq`: what the walks of
  a store do at one place; `Store.ancestor?_eq_of_path`: where a distance leads.
-/

namespace Lox

/-! ## Paths -/

section

variable {α β : Type}

/-- The places from one on, each the next one after that before it, down to one that has no next. -/
inductive Path (next : α → Option α) : α → List α → Prop where
  | last {a : α} (h : next a = none) : Path next a [a]
  | step {a b : α} {as : List α} (h : next a = some b) (hp : Path next b as) :
    Path next a (a :: as)

/-- Goes on to the next place until something is found or there is no next place. It answers `none`
if this takes more steps than there may be. -/
def climb (next : α → Option α) (found : α → Option β) : Nat → α → Option (Option β)
  | 0, _ => none
  | n + 1, a =>
    match found a, next a with
    | some b, _ => some (some b)
    | none, some a' => climb next found n a'
    | none, none => some none

namespace Path

variable {next : α → Option α} {a b : α} {as : List α}

/-- A search that looks at a place and then from the next one on ends within the places of the path.
-/
theorem climb_eq (h : Path next a as) {found search : α → Option β}
    (hsearch : ∀ a, search a = (found a).or ((next a).bind search)) :
    climb next found as.length a = some (search a) := by
  induction h with
  | @last a hn =>
    rw [hsearch a, hn]
    cases hf : found a with
    | some b => simp [climb, hf]
    | none => simp [climb, hf, hn]
  | @step a b as hn _ ih =>
    rw [hsearch a, hn]
    cases hf : found a with
    | some c => simp [climb, hf]
    | none => simpa [climb, hf, hn] using ih

/-- There is one path from each place. -/
theorem eq {as' : List α} (h : Path next a as) (h' : Path next a as') : as = as' := by
  induction h generalizing as' with
  | last hn =>
    cases h' with
    | last => rfl
    | step hn' => cases hn.symm.trans hn'
  | step hn _ ih =>
    cases h' with
    | last hn' => cases hn.symm.trans hn'
    | step hn' hp' =>
      obtain rfl := Option.some.inj (hn.symm.trans hn')
      rw [ih hp']

/-- What the first place has, and what passes on to the next one, the last one has. -/
theorem exists_last (h : Path next a as) {P : α → Prop} (ha : P a)
    (hP : ∀ b c, P b → next b = some c → P c) :
    ∃ z, as.getLast? = some z ∧ P z ∧ next z = none := by
  induction h with
  | last hn => exact ⟨_, rfl, ha, hn⟩
  | step hn _ ih =>
    obtain ⟨z, hz, hlast⟩ := ih (hP _ _ ha hn)
    refine ⟨z, ?_, hlast⟩
    rw [List.getLast?_cons, hz]
    rfl

section

variable {rank : α → Nat} (hrank : ∀ a b, next a = some b → rank b < rank a)

include hrank

/-- A path along which a number decreases has an end. -/
theorem exists_of_rank (a : α) : ∃ as, Path next a as := by
  induction a using (measure rank).wf.induction with
  | h a ih =>
    cases hn : next a with
    | none => exact ⟨[a], .last hn⟩
    | some b =>
      obtain ⟨as, hp⟩ := ih b (hrank a b hn)
      exact ⟨a :: as, .step hn hp⟩

theorem rank_le (h : Path next a as) (hb : b ∈ as) : rank b ≤ rank a := by
  induction h with
  | last => exact Nat.le_of_eq (congrArg rank (List.mem_singleton.mp hb))
  | step hn _ ih =>
    rcases List.mem_cons.mp hb with rfl | hb
    · exact Nat.le_refl _
    · exact Nat.le_trans (ih hb) (Nat.le_of_lt (hrank _ _ hn))

/-- It does not come to a place again. -/
theorem nodup (h : Path next a as) : as.Nodup := by
  induction h with
  | last => exact List.nodup_singleton _
  | step hn hp ih =>
    refine List.nodup_cons.mpr ⟨fun ha => ?_, ih⟩
    exact Nat.lt_irrefl _ (Nat.lt_of_le_of_lt (hp.rank_le hrank ha) (hrank _ _ hn))

end

end Path

end

/-! ## Trees -/

namespace Store

variable {s : Store}

/-- The superclass of a class. -/
def superclass? (s : Store) (id : ClassId) : Option ClassId :=
  (s.class? id).bind ClassObject.superclass

/-- The method with this name that a class has itself. -/
def ownMethod? (s : Store) (id : ClassId) (name : String) : Option FunctionObject :=
  (s.class? id).bind fun c => c.methods.get? name

/-- The globals lie in no frame, and every other frame in an older one, as every class that has a
superclass has an older one. The frames of functions and methods are among them. -/
structure IsTree (s : Store) : Prop where
  globals : s.link? .globals = some none
  inside {f : FrameId} : (s.link? f).isSome → f ≠ .globals →
    ∃ outer, s.link? f = some (some outer) ∧ outer.index < f.index
  superclass {id c : ClassId} : s.superclass? id = some c → c.index < id.index
  closure {id : FunctionId} {f : FunctionObject} :
    s.function? id = some f → (s.link? f.closure).isSome
  method {id : ClassId} {name : String} {f : FunctionObject} :
    s.ownMethod? id name = some f → (s.link? f.closure).isSome

theorem enclosing?_eq_some_iff {f outer : FrameId} :
    s.enclosing? f = some outer ↔ s.link? f = some (some outer) := by
  rw [enclosing?, link?, Option.bind_eq_some_iff, Option.map_eq_some_iff]

theorem eq_globals_of_link?_initial {f : FrameId} (h : (Machine.initial.store.link? f).isSome) :
    f = .globals := by
  have hlt : f.index < 1 := link?_isSome_iff.mp h
  obtain ⟨i⟩ := f
  exact congrArg FrameId.mk (Nat.lt_one_iff.mp hlt)

/-- What the store of a fresh machine became is a tree, if it is valid. -/
theorem Valid.isTree (h : s.Valid) (hs : Machine.initial.store.Extends s) : s.IsTree where
  globals := hs.link rfl
  inside {f} hf hne := by
    obtain ⟨outer?, ho⟩ := Option.isSome_iff_exists.mp hf
    cases outer? with
    | none => exact absurd (eq_globals_of_link?_initial (Option.isSome_of_eq_some (hs.root ho))) hne
    | some outer => exact ⟨outer, ho, h.enclosing (enclosing?_eq_some_iff.mpr ho)⟩
  superclass {id c} hc := by
    obtain ⟨o, ho, hsuper⟩ := Option.bind_eq_some_iff.mp hc
    exact h.superclass ho hsuper
  closure hf := link?_isSome_iff.mpr (h.closure hf)
  method {id name f} hf := by
    obtain ⟨c, hc, hm⟩ := Option.bind_eq_some_iff.mp hf
    exact link?_isSome_iff.mpr (h.method hc hm)

namespace IsTree

theorem enclosing (h : s.IsTree) {f outer : FrameId} (he : s.enclosing? f = some outer) :
    outer.index < f.index := by
  rw [enclosing?_eq_some_iff] at he
  have hne : f ≠ .globals := by
    rintro rfl
    rw [h.globals] at he
    cases Option.some.inj he
  obtain ⟨outer', ho, hlt⟩ := h.inside (Option.isSome_of_eq_some he) hne
  rw [he] at ho
  obtain rfl := Option.some.inj (Option.some.inj ho)
  exact hlt

/-- The frames from one outward come to the globals, and to none of them again. -/
theorem exists_path (h : s.IsTree) {f : FrameId} (hf : (s.link? f).isSome) :
    ∃ fs, Path s.enclosing? f fs ∧ fs.Nodup ∧ fs.getLast? = some .globals := by
  obtain ⟨fs, hp⟩ := Path.exists_of_rank (fun _ _ => h.enclosing) f
  refine ⟨fs, hp, hp.nodup fun _ _ => h.enclosing, ?_⟩
  obtain ⟨z, hz, hin, hend⟩ := hp.exists_last (P := fun g => (s.link? g).isSome) hf
    fun g outer hg he => link?_isSome_iff.mpr
      (Nat.lt_trans (h.enclosing he) (link?_isSome_iff.mp hg))
  rw [hz]
  by_cases hne : z = .globals
  · rw [hne]
  · obtain ⟨outer, ho, -⟩ := h.inside hin hne
    rw [enclosing?_eq_some_iff.mpr ho] at hend
    cases hend

/-- The superclasses from a class up have an end, and none of them comes again. -/
theorem exists_superclass_path (h : s.IsTree) (id : ClassId) :
    ∃ ids, Path s.superclass? id ids ∧ ids.Nodup := by
  obtain ⟨ids, hp⟩ := Path.exists_of_rank (fun _ _ => h.superclass) id
  exact ⟨ids, hp, hp.nodup fun _ _ => h.superclass⟩

end IsTree

/-! ## The walks of a store -/

/-- The store after a name that a frame binds has a new value there. -/
def assignOwn? (s : Store) (id : FrameId) (name : String) (value : Value) : Option Store :=
  (s.own? id name).map fun _ => s.define id name value

/-- The frame to which a distance leads is on the path. -/
theorem ancestor?_eq_of_path {f : FrameId} {fs : List FrameId} (h : Path s.enclosing? f fs)
    (distance : Nat) : s.ancestor? f distance = fs[distance]? := by
  induction h generalizing distance with
  | last hn =>
    cases distance with
    | zero => rfl
    | succ => rw [ancestor?, hn]; rfl
  | step hn _ ih =>
    cases distance with
    | zero => rfl
    | succ distance => rw [ancestor?, hn]; exact ih distance

/-- Every frame that lies in another one lies in an older one. -/
def Descends (s : Store) : Prop :=
  ∀ f outer, s.enclosing? f = some outer → outer.index < f.index

namespace Descends

/-- The frame that binds a name is this one or is found from the next one on. -/
theorem binder?_eq (h : s.Descends) (f : FrameId) (name : String) :
    s.binder? f name =
      if (s.own? f name).isSome then some f else (s.enclosing? f).bind (s.binder? · name) := by
  rw [binder?, own?, enclosing?]
  cases hf : s.frame? f with
  | none => rfl
  | some frame =>
    dsimp only [Option.bind_some]
    refine ite_congr rfl (fun _ => rfl) fun _ => ?_
    cases he : frame.enclosing with
    | none => rfl
    | some outer =>
      have hlt : outer.index < f.index := h f outer (by rw [enclosing?, hf]; exact he)
      exact if_pos hlt

theorem get_eq (h : s.Descends) (f : FrameId) (name : String) :
    s.get f name = (s.own? f name).or ((s.enclosing? f).bind (s.get · name)) := by
  rw [get, h.binder?_eq]
  cases hv : s.own? f name with
  | some value => exact hv
  | none => exact Option.bind_assoc _ _ _

theorem assign_eq (h : s.Descends) (f : FrameId) (name : String) (value : Value) :
    s.assign f name value =
      (s.assignOwn? f name value).or ((s.enclosing? f).bind (s.assign · name value)) := by
  rw [assign, h.binder?_eq, assignOwn?]
  cases s.own? f name with
  | some => rfl
  | none => exact Option.map_bind

end Descends

namespace IsTree

theorem descends (h : s.IsTree) : s.Descends := fun _ _ => h.enclosing

theorem get_eq (h : s.IsTree) (f : FrameId) (name : String) :
    s.get f name = (s.own? f name).or ((s.enclosing? f).bind (s.get · name)) :=
  h.descends.get_eq f name

theorem assign_eq (h : s.IsTree) (f : FrameId) (name : String) (value : Value) :
    s.assign f name value =
      (s.assignOwn? f name value).or ((s.enclosing? f).bind (s.assign · name value)) :=
  h.descends.assign_eq f name value

/-- The method is one of the class itself or is found from the superclass on. -/
theorem findMethod_eq (h : s.IsTree) (id : ClassId) (name : String) :
    s.findMethod id name =
      (s.ownMethod? id name).or ((s.superclass? id).bind (s.findMethod · name)) := by
  rw [findMethod, ownMethod?, superclass?]
  cases hc : s.class? id with
  | none => rfl
  | some c =>
    dsimp only [Option.bind_some]
    cases c.methods.get? name with
    | some method => rfl
    | none =>
      cases hs : c.superclass with
      | none => rfl
      | some superclass =>
        have hlt : superclass.index < id.index := h.superclass (by rw [superclass?, hc]; exact hs)
        exact if_pos hlt

end IsTree

end Store

end Lox
