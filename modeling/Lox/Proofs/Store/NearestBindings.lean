import Lox.FrameOperation
import Lox.Proofs.Evaluation.Walks

/-!
# Nearest bindings

Many chains of frames run through the same frame. So a name that is assigned from one frame has its new
value for some other frames too, and for the rest it is hidden behind a nearer binding. Here this is said for
all frames that operations can make (`Store.Formed`).

* `Store.nearest?`: the first of some frames that binds a name. It is the one that `get` and `assign`
  find (`Store.Descends.binder?_eq_nearest?`);
* `Store.Rebinds`: nothing changes but what one name is bound to in one frame;
* `Store.Rebinds.get_eq`: what every name is for every frame after that;
* `names_mean_nearest_bindings`: what the operations do that look for a name.
-/

namespace Lox

namespace Store

/-! ## Stores that operations make -/

/-- The stores that operations make from an empty one, each on frames that are there. -/
inductive Formed : Store → Prop where
  | empty : Formed .empty
  | step {s : Store} (h : Formed s) (operation : FrameOperation)
    (hf : ∀ f, operation.frame? = some f → (s.frame? f).isSome) : Formed (s.perform operation).2

/-- Every frame lies in none or in an older one. -/
structure Nested (s : Store) : Prop where
  descends : s.Descends
  outer {f outer : FrameId} : s.enclosing? f = some outer → (s.frame? outer).isSome

section

variable {s : Store}

theorem isSome_frame?_iff {f : FrameId} : (s.frame? f).isSome ↔ f.index < s.frames.size := by
  simp [frame?]

theorem isSome_frame?_define (f g : FrameId) (name : String) (value : Value) :
    ((s.define f name value).frame? g).isSome = (s.frame? g).isSome := by
  rw [frame?_define]
  split
  · rw [Option.isSome_map]
  · rfl

theorem snd_answerRead (s : Store) (name : Name) (value? : Option Value) :
    (s.answerRead name value?).2 = s := by
  cases value? <;> rfl

/-- A name that is given a new value is bound to it in some frame, or nothing happens. -/
theorem snd_answerWrite_cases (s : Store) (name : Name) (value : Value) (frame? : Option FrameId) :
    (s.answerWrite name (frame?.map fun f => s.define f name.text value)).2 = s ∨
      ∃ f, (s.answerWrite name (frame?.map fun f => s.define f name.text value)).2 =
        s.define f name.text value := by
  cases frame? with
  | none => exact .inl rfl
  | some f => exact .inr ⟨f, rfl⟩

namespace Nested

theorem empty : Store.empty.Nested := by
  constructor <;> intros <;> simp_all [Descends, Store.empty, enclosing?, Store.frame?]

theorem define (h : s.Nested) (f : FrameId) (name : String) (value : Value) :
    (s.define f name value).Nested where
  descends g outer he := h.descends g outer (by rwa [enclosing?_define] at he)
  outer he := by
    rw [isSome_frame?_define]
    exact h.outer (by rwa [enclosing?_define] at he)

theorem addFrame (h : s.Nested) {outer? : Option FrameId}
    (ho : ∀ f, outer? = some f → (s.frame? f).isSome) : (s.addFrame ⟨∅, outer?⟩).2.Nested := by
  have hnew {f outer : FrameId} (he : (s.addFrame ⟨∅, outer?⟩).2.enclosing? f = some outer) :
      outer.index < f.index ∧ (s.frame? outer).isSome := by
    rw [enclosing?_addFrame] at he
    split at he
    · next hf =>
      subst hf
      exact ⟨isSome_frame?_iff.mp (ho outer he), ho outer he⟩
    · exact ⟨h.descends f outer he, h.outer he⟩
  refine ⟨fun f outer he => (hnew he).1, fun {f outer} he => ?_⟩
  have hold := (hnew he).2
  rwa [frame?_addFrame, if_neg (ne_addFrame hold)]

end Nested

/-- Operations make no frame that lies in itself. -/
theorem Formed.nested (h : s.Formed) : s.Nested := by
  induction h with
  | empty => exact .empty
  | @step s _ operation hf ih =>
    have hwrite {name : Name} {value : Value} {frame? : Option FrameId} :
        (s.answerWrite name (frame?.map fun f => s.define f name.text value)).2.Nested := by
      rcases s.snd_answerWrite_cases name value frame? with e | ⟨f, e⟩ <;> rw [e]
      · exact ih
      · exact ih.define f name.text value
    cases operation with
    | new outer => exact ih.addFrame hf
    | define f name value => exact ih.define f name.text value
    | get f name =>
      rw [perform, snd_answerRead]
      exact ih
    | getAt f distance name =>
      rw [perform, snd_answerRead]
      exact ih
    | assign f name value => exact hwrite
    | assignAt f distance name value => exact hwrite

end

/-! ## The nearest frame -/

/-- The first of some frames that binds a name. -/
def nearest? (s : Store) (fs : List FrameId) (name : String) : Option FrameId :=
  fs.find? fun f => (s.own? f name).isSome

section

variable {s s' : Store} {f g b : FrameId} {fs : List FrameId} {name : String} {value : Value}

theorem isSome_own?_of_nearest? (h : s.nearest? fs name = some b) : (s.own? b name).isSome :=
  List.find?_some (p := fun f => (s.own? f name).isSome) h

/-- There are frames all the way out, and none of them twice. -/
theorem Nested.exists_path (h : s.Nested) (hf : (s.frame? f).isSome) :
    ∃ fs, Path s.enclosing? f fs ∧ fs.Nodup ∧ ∀ g ∈ fs, (s.frame? g).isSome := by
  obtain ⟨fs, hp⟩ := Path.exists_of_rank h.descends f
  refine ⟨fs, hp, hp.nodup h.descends, ?_⟩
  induction hp with
  | last => simpa using hf
  | step he _ ih => exact List.forall_mem_cons.mpr ⟨hf, ih (h.outer he)⟩

namespace Descends

variable (h : s.Descends)

include h

/-- The walk along frames finds the first one on its path that binds the name. -/
theorem binder?_eq_nearest? (hp : Path s.enclosing? f fs) (name : String) :
    s.binder? f name = s.nearest? fs name := by
  induction hp with
  | @last f hn =>
    rw [h.binder?_eq, hn, nearest?, List.find?_cons]
    cases (s.own? f name).isSome <;> rfl
  | @step f outer fs hn _ ih =>
    rw [h.binder?_eq, hn, Option.bind_some, ih, nearest?, nearest?, List.find?_cons]
    cases (s.own? f name).isSome <;> rfl

theorem get_eq_nearest? (hp : Path s.enclosing? f fs) (name : String) :
    s.get f name = (s.nearest? fs name).bind (s.own? · name) := by
  rw [get, h.binder?_eq_nearest? hp]

theorem assign_eq_nearest? (hp : Path s.enclosing? f fs) (name : String) (value : Value) :
    s.assign f name value = (s.nearest? fs name).map (s.define · name value) := by
  rw [assign, h.binder?_eq_nearest? hp]

end Descends

/-! ## What changes -/

/-- The second store is the first one, except that in one frame one name is bound to this value. -/
structure Rebinds (s s' : Store) (b : FrameId) (name : String) (value : Value) : Prop where
  frame (g : FrameId) : (s'.frame? g).isSome = (s.frame? g).isSome
  enclosing (g : FrameId) : s'.enclosing? g = s.enclosing? g
  own (g : FrameId) (other : String) :
    s'.own? g other = if g = b ∧ other = name then some value else s.own? g other
  functions : s'.functions = s.functions
  classes : s'.classes = s.classes
  instances : s'.instances = s.instances

theorem rebinds_define (hb : (s.frame? b).isSome) (name : String) (value : Value) :
    s.Rebinds (s.define b name value) b name value where
  frame g := isSome_frame?_define b g name value
  enclosing g := enclosing?_define s b g name value
  own g other := by
    rw [own?_define]
    by_cases hg : g = b ∧ other = name
    · obtain ⟨rfl, rfl⟩ := hg
      obtain ⟨frame, hframe⟩ := Option.isSome_iff_exists.mp hb
      rw [if_pos ⟨rfl, rfl⟩, if_pos ⟨rfl, rfl⟩, hframe]
      rfl
    · rw [if_neg hg, if_neg fun h => hg ⟨h.1, h.2.symm⟩]
  functions := rfl
  classes := rfl
  instances := rfl

namespace Rebinds

variable (h : s.Rebinds s' b name value)

include h

theorem path (hp : Path s.enclosing? g fs) : Path s'.enclosing? g fs := by
  rwa [show s'.enclosing? = s.enclosing? from funext h.enclosing]

theorem descends (hs : s.Descends) : s'.Descends :=
  fun f outer he => hs f outer (by rwa [h.enclosing] at he)

/-- If the frame bound the name before, every name is bound in the same frames as before. -/
theorem nearest?_eq (hb : (s.own? b name).isSome) (fs : List FrameId) (other : String) :
    s'.nearest? fs other = s.nearest? fs other := by
  have hsame (g : FrameId) : (s'.own? g other).isSome = (s.own? g other).isSome := by
    rw [h.own]
    split
    · next hg =>
      obtain ⟨rfl, rfl⟩ := hg
      exact hb.symm
    · rfl
  rw [nearest?, nearest?]
  exact congrArg (fun p => fs.find? p) (funext hsame)

/-- Then a frame sees the new value if this frame is the nearest one that binds the name. -/
theorem get_eq (hs : s.Descends) (hb : (s.own? b name).isSome) (hp : Path s.enclosing? g fs)
    (other : String) :
    s'.get g other =
      if s.nearest? fs other = some b ∧ other = name then some value else s.get g other := by
  rw [(h.descends hs).get_eq_nearest? (h.path hp), h.nearest?_eq hb, hs.get_eq_nearest? hp]
  cases s.nearest? fs other with
  | none => simp
  | some b' => simp only [Option.bind_some, h.own, Option.some.injEq]

end Rebinds

end

/-! ## Answers -/

section

variable {s s' : Store} {f b : FrameId} {fs : List FrameId} {name : Name} {failure : Failure}

theorem eq_of_answerRead_eq_error {value? : Option Value}
    (h : s.answerRead name value? = (.error failure, s')) : s' = s ∧ failure = name.undefined := by
  cases value? with
  | none =>
    obtain ⟨hf, rfl⟩ := Prod.mk.inj h
    exact ⟨rfl, (Except.error.inj hf).symm⟩
  | some value => cases (Prod.mk.inj h).1

theorem eq_of_answerWrite_eq_error {s? : Option Store}
    (h : s.answerWrite name s? = (.error failure, s')) : s' = s ∧ failure = name.undefined := by
  cases s? with
  | none =>
    obtain ⟨hf, rfl⟩ := Prod.mk.inj h
    exact ⟨rfl, (Except.error.inj hf).symm⟩
  | some s'' => cases (Prod.mk.inj h).1

/-- An operation that fails changes nothing, and its name is undefined. -/
theorem eq_of_perform_eq_error {operation : FrameOperation}
    (h : s.perform operation = (.error failure, s')) :
    s' = s ∧ ∃ name, operation.name? = some name ∧ failure = name.undefined := by
  cases operation with
  | new outer => cases (Prod.mk.inj h).1
  | define f name value => cases (Prod.mk.inj h).1
  | get f name | getAt f distance name =>
    obtain ⟨hs, hf⟩ := eq_of_answerRead_eq_error h
    exact ⟨hs, name, rfl, hf⟩
  | assign f name value | assignAt f distance name value =>
    obtain ⟨hs, hf⟩ := eq_of_answerWrite_eq_error h
    exact ⟨hs, name, rfl, hf⟩

/-- Reading a name of which the value is the same in both stores gives the same answer. -/
theorem fst_perform_get_congr {g : FrameId} (h : s'.get g name.text = s.get g name.text) :
    (s'.perform (.get g name)).1 = (s.perform (.get g name)).1 := by
  rw [perform, perform, h]
  cases s.get g name.text <;> rfl

namespace Descends

variable (h : s.Descends) (hp : Path s.enclosing? f fs)

include h hp

/-- A name that no frame on the path binds cannot be read. -/
theorem perform_get_of_nearest?_eq_none (hn : s.nearest? fs name.text = none) :
    s.perform (.get f name) = (.error name.undefined, s) := by
  rw [perform, h.get_eq_nearest? hp, hn]
  rfl

theorem perform_assign_of_nearest?_eq_none (hn : s.nearest? fs name.text = none) (value : Value) :
    s.perform (.assign f name value) = (.error name.undefined, s) := by
  rw [perform, h.assign_eq_nearest? hp, hn]
  rfl

theorem perform_get_of_nearest? (hb : s.nearest? fs name.text = some b) {v : Value}
    (hv : s.own? b name.text = some v) : s.perform (.get f name) = (.ok (.value v), s) := by
  rw [perform, h.get_eq_nearest? hp, hb, Option.bind_some, hv]
  rfl

theorem perform_assign_of_nearest? (hb : s.nearest? fs name.text = some b) (value : Value) :
    s.perform (.assign f name value) = (.ok .done, s.define b name.text value) := by
  rw [perform, h.assign_eq_nearest? hp, hb]
  rfl

end Descends

end

end Store

/-! ## The property -/

/-- To read a name or to assign it is to read or to change its nearest binding. Take any frames that
operations made. From each of them outward there are finitely many frames, and none comes twice. `get` gives
the value of the name in the first of them that binds it, and fails if there is none. `assign` fails then
too, and otherwise it changes only what the name is bound to in this one frame: after it, `get` gives the
new value from each frame whose nearest binding of the name is this one, and from all others
what it gave before, and so it is with all other names. `define` changes only what the
name is bound to in the frame itself. An operation that fails leaves everything as it was, and
its error is that the name is undefined, on the line of the name. -/
theorem names_mean_nearest_bindings {s : Store} (h : s.Formed) :
    (∀ f, (s.frame? f).isSome → ∃ fs, Path s.enclosing? f fs ∧ fs.Nodup ∧
      ∀ g ∈ fs, (s.frame? g).isSome) ∧
    (∀ f fs, Path s.enclosing? f fs → ∀ name : Name,
      (s.nearest? fs name.text = none →
        s.perform (.get f name) = (.error name.undefined, s) ∧
        ∀ value, s.perform (.assign f name value) = (.error name.undefined, s)) ∧
      ∀ b, s.nearest? fs name.text = some b →
        (∃ v, s.own? b name.text = some v ∧ s.perform (.get f name) = (.ok (.value v), s)) ∧
        ∀ value, ∃ s', s.perform (.assign f name value) = (.ok .done, s') ∧
          s.Rebinds s' b name.text value ∧
          ∀ g gs, Path s.enclosing? g gs →
            (∀ line, (s'.perform (.get g ⟨name.text, line⟩)).1 =
              if s.nearest? gs name.text = some b then .ok (.value value)
              else (s.perform (.get g ⟨name.text, line⟩)).1) ∧
            ∀ other : Name, other.text ≠ name.text →
              (s'.perform (.get g other)).1 = (s.perform (.get g other)).1) ∧
    (∀ f, (s.frame? f).isSome → ∀ (name : Name) (value : Value),
      ∃ s', s.perform (.define f name value) = (.ok .done, s') ∧ s.Rebinds s' f name.text value) ∧
    ∀ operation failure s', s.perform operation = (.error failure, s') → s' = s ∧
      ∃ name, operation.name? = some name ∧
        failure = .fault (.undefinedVariable name.text) name.line := by
  have hdescends := h.nested.descends
  refine ⟨fun f hf => h.nested.exists_path hf, fun f fs hp name => ⟨fun hn => ?_, fun b hb => ?_⟩,
    fun f hf name value => ⟨_, rfl, Store.rebinds_define hf name.text value⟩,
    fun _ _ _ => Store.eq_of_perform_eq_error⟩
  · exact ⟨hdescends.perform_get_of_nearest?_eq_none hp hn,
      hdescends.perform_assign_of_nearest?_eq_none hp hn⟩
  have hbound := Store.isSome_own?_of_nearest? hb
  obtain ⟨v, hv⟩ := Option.isSome_iff_exists.mp hbound
  refine ⟨⟨v, hv, hdescends.perform_get_of_nearest? hp hb hv⟩, fun value => ?_⟩
  have hchanged := Store.rebinds_define (Store.frame?_isSome_of_own? hbound) name.text value
  refine ⟨_, hdescends.perform_assign_of_nearest? hp hb value, hchanged, fun g gs hg => ⟨fun line => ?_,
    fun other hne => ?_⟩⟩
  · have hget := hchanged.get_eq hdescends hbound hg name.text
    split
    · next hsame =>
      rw [if_pos ⟨hsame, rfl⟩] at hget
      rw [Store.perform, hget]
      rfl
    · next hsame =>
      rw [if_neg fun h => hsame h.1] at hget
      exact Store.fst_perform_get_congr hget
  · have hget := hchanged.get_eq hdescends hbound hg other.text
    rw [if_neg fun h => hne h.2] at hget
    exact Store.fst_perform_get_congr hget

/-- Two frames lie in the globals, and both see the same name; one of them binds it too. An assignment
from a frame inside this one is seen there and not from the other one. -/
theorem names_mean_nearest_bindings_beside_each_other :
    let a : Name := ⟨"a", 1⟩
    let operations : List FrameOperation :=
      [.new none, .define ⟨0⟩ a (.string "outer"), .new (some ⟨0⟩), .new (some ⟨0⟩), .new (some ⟨1⟩),
        .define ⟨1⟩ a (.string "inner")]
    let s : Store := operations.foldl (fun s operation => (Store.perform s operation).2) .empty
    s.Formed ∧ Path s.enclosing? ⟨3⟩ [⟨3⟩, ⟨1⟩, ⟨0⟩] ∧ s.nearest? [⟨3⟩, ⟨1⟩, ⟨0⟩] "a" = some ⟨1⟩ ∧
      ∃ s', s.perform (.assign ⟨3⟩ a .nil) = (.ok .done, s') ∧ s.Rebinds s' ⟨1⟩ "a" .nil ∧
        (s'.perform (.get ⟨3⟩ a)).1 = .ok (.value .nil) ∧
        (s'.perform (.get ⟨2⟩ a)).1 = .ok (.value (.string "outer")) := by
  intro a operations s
  have hformed : s.Formed := by
    refine .step (.step (.step (.step (.step (.step .empty _ ?_) _ ?_) _ ?_) _ ?_) _ ?_) _ ?_ <;>
      rintro _ ⟨⟩ <;> rfl
  have hinner : Path s.enclosing? ⟨3⟩ [⟨3⟩, ⟨1⟩, ⟨0⟩] := .step rfl (.step rfl (.last rfl))
  have houter : Path s.enclosing? ⟨2⟩ [⟨2⟩, ⟨0⟩] := .step rfl (.last rfl)
  have hnearest : s.nearest? [⟨3⟩, ⟨1⟩, ⟨0⟩] "a" = some ⟨1⟩ := by decide
  have hother : s.nearest? [⟨2⟩, ⟨0⟩] "a" = some ⟨0⟩ := by decide
  have hnames := (names_mean_nearest_bindings hformed).2.1
  obtain ⟨-, hassign⟩ := (hnames ⟨3⟩ _ hinner a).2 ⟨1⟩ hnearest
  obtain ⟨s', hs', hrebinds, hget⟩ := hassign .nil
  refine ⟨hformed, hinner, hnearest, s', hs', hrebinds, ?_, ?_⟩
  · rw [(hget ⟨3⟩ _ hinner).1 1, if_pos hnearest]
  · have hne : s.nearest? [⟨2⟩, ⟨0⟩] a.text ≠ some ⟨1⟩ := by
      rw [hother]
      decide
    obtain ⟨⟨v, hv, hread⟩, -⟩ := (hnames ⟨2⟩ _ houter a).2 ⟨0⟩ hother
    obtain rfl : Value.string "outer" = v := Option.some.inj hv
    rw [(hget ⟨2⟩ _ houter).1 1, if_neg hne]
    exact congrArg Prod.fst hread

end Lox
