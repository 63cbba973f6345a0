import Lox.Evaluation
import Lox.Proofs.Store.NearestBindings

/-!
# Distances and names

A variable can be looked for by its name alone, from one frame outward, or in the frame at a given distance.
The first stops at the nearest binding, the second looks at one frame only; the first never makes a
binding, the second may.

* `Store.nearest?_eq_of_getElem?`: when the frame at a distance is the nearest one that binds a name;
* `Store.perform_getAt`, `Store.perform_assignAt`: what the operations do that go by a distance;
* `distances_agree_with_names`: where both ways are the same, and what the second does elsewhere;
* `readVariable_of_perform`, `writeVariable_of_perform`: the evaluator reads and writes
  variables by these operations.
-/

namespace Lox

namespace Store

variable {s : Store} {f g : FrameId} {fs : List FrameId} {d : Nat}

/-- A frame that binds a name is the nearest one if no frame before it does. -/
theorem nearest?_eq_of_getElem? {name : String} (hg : fs[d]? = some g) (hb : (s.own? g name).isSome)
    (hn : ∀ j < d, ∀ g', fs[j]? = some g' → s.own? g' name = none) :
    s.nearest? fs name = some g := by
  obtain ⟨hd, he⟩ := List.getElem?_eq_some_iff.mp hg
  refine List.find?_eq_some_iff_getElem.mpr ⟨hb, d, hd, he, fun j hj => ?_⟩
  rw [hn j hj _ (List.getElem?_eq_getElem (Nat.lt_trans hj hd))]
  rfl

section

variable (hp : Path s.enclosing? f fs)

include hp

theorem perform_getAt (d : Nat) (name : Name) :
    s.perform (.getAt f d name) = s.answerRead name (fs[d]?.bind (s.own? · name.text)) := by
  rw [perform, getAt, ancestor?_eq_of_path hp]

theorem perform_assignAt (d : Nat) (name : Name) (value : Value) :
    s.perform (.assignAt f d name value) =
      s.answerWrite name (fs[d]?.map (s.define · name.text value)) := by
  rw [perform, assignAt, ancestor?_eq_of_path hp]

end

theorem answerRead_eq_ok_iff {name : Name} {value? : Option Value} {v : Value} :
    s.answerRead name value? = (.ok (.value v), s) ↔ value? = some v := by
  cases value? <;> simp [answerRead]

end Store

/-! ## The property -/

/-- To go by a distance is to go by the name, where the distance leads to the nearest binding. Take a frame
of any frames that operations made, and the frames from it outward, to the last. If the one at some distance
binds a name and none before it does, then `getAt` answers what `get` answers, and
`assignAt` does to all frames what `assign` does. At every distance, `getAt` gives a value if the frame
there binds the name, whatever frames before it bind, and fails if it does not, or if there is no frame.
`assignAt` fails only if there is no frame. It changes only what the name is bound to in the frame
at the distance, also if it was not bound there. What fails leaves everything as it was. -/
theorem distances_agree_with_names {s : Store} (h : s.Formed) {f : FrameId}
    (hf : (s.frame? f).isSome) :
    ∃ fs, Path s.enclosing? f fs ∧ ∀ d (name : Name),
      (∀ g, fs[d]? = some g → (s.own? g name.text).isSome →
        (∀ j < d, ∀ g', fs[j]? = some g' → s.own? g' name.text = none) →
          s.perform (.getAt f d name) = s.perform (.get f name) ∧
          ∀ value, s.perform (.assignAt f d name value) = s.perform (.assign f name value)) ∧
      (∀ v, s.perform (.getAt f d name) = (.ok (.value v), s) ↔
        ∃ g, fs[d]? = some g ∧ s.own? g name.text = some v) ∧
      ((∀ g, fs[d]? = some g → s.own? g name.text = none) →
        s.perform (.getAt f d name) = (.error name.undefined, s)) ∧
      (∀ g, fs[d]? = some g → ∀ value, ∃ s', s.perform (.assignAt f d name value) = (.ok .done, s') ∧
        s.Rebinds s' g name.text value) ∧
      (fs[d]? = none → ∀ value, s.perform (.assignAt f d name value) = (.error name.undefined, s)) := by
  obtain ⟨fs, hp, -, hframes⟩ := h.nested.exists_path hf
  have hdescends := h.nested.descends
  refine ⟨fs, hp, fun d name => ⟨fun g hg hb hn => ?_, fun v => ?_, fun hnone => ?_,
    fun g hg value => ?_, fun hnone value => ?_⟩⟩
  · have hnearest := Store.nearest?_eq_of_getElem? hg hb hn
    obtain ⟨v, hv⟩ := Option.isSome_iff_exists.mp hb
    refine ⟨?_, fun value => ?_⟩
    · rw [hdescends.perform_get_of_nearest? hp hnearest hv, Store.perform_getAt hp, hg,
        Option.bind_some, hv]
      rfl
    · rw [hdescends.perform_assign_of_nearest? hp hnearest, Store.perform_assignAt hp, hg]
      rfl
  · rw [Store.perform_getAt hp, Store.answerRead_eq_ok_iff, Option.bind_eq_some_iff]
  · rw [Store.perform_getAt hp, Option.bind_eq_none_iff.mpr hnone]
    rfl
  · have hframe := hframes g (List.mem_of_getElem? hg)
    refine ⟨_, ?_, Store.rebinds_define hframe name.text value⟩
    rw [Store.perform_assignAt hp, hg]
    rfl
  · rw [Store.perform_assignAt hp, hnone]
    rfl

/-- A frame binds two names, and one of them is bound in a frame inside it too. For the other one a distance
and its name lead to the same binding. For that one they do not: a write at the distance changes the outer
frame. Beyond the last frame nothing is written. -/
theorem distances_agree_with_names_beside_shadowed_name :
    let a : Name := ⟨"a", 1⟩
    let b : Name := ⟨"b", 1⟩
    let operations : List FrameOperation :=
      [.new none, .define ⟨0⟩ a (.string "outer"), .define ⟨0⟩ b .nil, .new (some ⟨0⟩),
        .define ⟨1⟩ a (.string "inner")]
    let s : Store := operations.foldl (fun s operation => (Store.perform s operation).2) Store.empty
    s.Formed ∧ (s.frame? ⟨1⟩).isSome ∧ Path s.enclosing? ⟨1⟩ [⟨1⟩, ⟨0⟩] ∧
      (∀ value, s.perform (.assignAt ⟨1⟩ 1 b value) = s.perform (.assign ⟨1⟩ b value)) ∧
      s.perform (.getAt ⟨1⟩ 1 a) = (.ok (.value (.string "outer")), s) ∧
      (∃ s', s.perform (.assignAt ⟨1⟩ 1 a .nil) = (.ok .done, s') ∧ s.Rebinds s' ⟨0⟩ "a" .nil) ∧
      s.perform (.assignAt ⟨1⟩ 2 a .nil) = (.error a.undefined, s) := by
  intro a b operations s
  have hformed : s.Formed := by
    refine .step (.step (.step (.step (.step .empty _ ?_) _ ?_) _ ?_) _ ?_) _ ?_ <;>
      rintro _ ⟨⟩ <;> rfl
  have hpath : Path s.enclosing? ⟨1⟩ [⟨1⟩, ⟨0⟩] := .step rfl (.last rfl)
  obtain ⟨fs, hfs, hat⟩ := distances_agree_with_names hformed (f := ⟨1⟩) rfl
  obtain rfl := hfs.eq hpath
  have hb := hat 1 b
  have ha := hat 1 a
  have hbeyond := hat 2 a
  refine ⟨hformed, rfl, hpath, (hb.1 ⟨0⟩ rfl rfl fun j hj g hg => ?_).2, (ha.2.1 _).mpr ⟨⟨0⟩, rfl, rfl⟩,
    ha.2.2.2.1 ⟨0⟩ rfl .nil, hbeyond.2.2.2.2 rfl .nil⟩
  obtain rfl := Nat.lt_one_iff.mp hj
  obtain rfl : (⟨1⟩ : FrameId) = g := Option.some.inj hg
  rfl

/-! ## Variables -/

/-- The operation by which the evaluator reads the variable that a node names. -/
def Setting.reading (s : Setting) (id : NodeId) (name : Name) (m : Machine) : FrameOperation :=
  match s.distance? id with
  | some distance => .getAt m.environment distance name
  | none => .get .globals name

/-- The operation by which it gives the variable a new value. -/
def Setting.writing (s : Setting) (id : NodeId) (name : Name) (value : Value) (m : Machine) :
    FrameOperation :=
  match s.distance? id with
  | some distance => .assignAt m.environment distance name value
  | none => .assign .globals name value

section

variable {s : Setting} {id : NodeId} {name : Name} {m : Machine}

/-- The evaluator reads a variable by an operation on the frames. -/
theorem readVariable_of_perform :
    (∀ v store, m.store.perform (s.reading id name m) = (.ok (.value v), store) →
      readVariable s id name m = .done v m) ∧
    ∀ failure store, m.store.perform (s.reading id name m) = (.error failure, store) →
      readVariable s id name m = .failed failure m := by
  unfold Setting.reading readVariable
  cases s.distance? id with
  | none =>
    dsimp only [Store.perform]
    cases m.store.get .globals name.text <;> constructor <;> rintro _ _ ⟨⟩ <;> rfl
  | some distance =>
    dsimp only [Store.perform]
    cases m.store.getAt m.environment distance name.text <;> constructor <;> rintro _ _ ⟨⟩ <;> rfl

/-- And so it writes one. -/
theorem writeVariable_of_perform {value : Value} :
    (∀ store, m.store.perform (s.writing id name value m) = (.ok .done, store) →
      writeVariable s id name value m = .done value { m with store }) ∧
    ∀ failure store, m.store.perform (s.writing id name value m) = (.error failure, store) →
      writeVariable s id name value m = .failed failure m := by
  unfold Setting.writing writeVariable
  cases s.distance? id with
  | none =>
    dsimp only [Store.perform, Store.assign]
    cases m.store.binder? .globals name.text with
    | none => exact ⟨nofun, by rintro _ _ ⟨⟩; rfl⟩
    | some frame => exact ⟨by rintro _ ⟨⟩; rfl, nofun⟩
  | some distance =>
    dsimp only [Store.perform, Store.assignAt]
    cases m.store.ancestor? m.environment distance with
    | none => exact ⟨nofun, by rintro _ _ ⟨⟩; rfl⟩
    | some frame => exact ⟨by rintro _ ⟨⟩; rfl, nofun⟩

end

end Lox
