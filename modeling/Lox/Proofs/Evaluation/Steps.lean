import Lox.Proofs.Evaluation.Plans

/-!
# What the evaluator does by itself

Between the tasks that it starts, the evaluator reads and writes variables, looks
up properties and prints. Each of these either fails, and then the state is as it
was before, or gives a value; here is said which value, and in which state.

* `readVariable_cases`, `writeVariable_cases`, `readProperty_cases`, `readSuper_cases` and others:
  the ways in which each of them ends;
* `ensures_readVariable` and others: so the state in which it ends has every property that these
  ways keep.
-/

namespace Lox

/-! ## States in which runs end -/

/-- The state in which a run ended, in whichever way it ended. -/
def Outcome.state? {α : Type} : Outcome α → Option Machine
  | .done _ m => some m
  | .failed _ m => some m
  | .outOfFuel => none

/-- The value that a run gave, and the state in which it ended. -/
def Outcome.done? {α : Type} : Outcome α → Option (α × Machine)
  | .done a m => some (a, m)
  | .failed _ _ => none
  | .outOfFuel => none

/-- If a run ended, in whichever way, the state in which it ended has a property. -/
def Outcome.Ensures {α : Type} (o : Outcome α) (Q : Machine → Prop) : Prop :=
  ∀ m, o.state? = some m → Q m

namespace Outcome

variable {α β : Type} {m : Machine} {Q : Machine → Prop}

@[simp] theorem ensures_done {a : α} : (done a m).Ensures Q ↔ Q m := by
  simp [Ensures, state?]

@[simp] theorem ensures_failed {failure : Failure} :
    (failed failure m : Outcome α).Ensures Q ↔ Q m := by
  simp [Ensures, state?]

@[simp] theorem ensures_fault {cause : RuntimeFault} {line : Nat} :
    (m.fault cause line : Outcome α).Ensures Q ↔ Q m := ensures_failed

theorem ensures_outOfFuel : (outOfFuel : Outcome α).Ensures Q := nofun

theorem Ensures.bind {o : Outcome α} {f : α → Machine → Outcome β} (h : o.Ensures Q)
    (hf : ∀ a m, Q m → (f a m).Ensures Q) : (o.bind f).Ensures Q := by
  cases o with
  | done a m => exact hf a m (ensures_done.mp h)
  | failed failure m => exact ensures_failed.mpr (ensures_failed.mp h)
  | outOfFuel => exact ensures_outOfFuel

theorem done?_eq_some_iff {o : Outcome α} {a : α} : o.done? = some (a, m) ↔ o = .done a m := by
  cases o <;> simp [done?]

theorem bind_of_done {o : Outcome α} {a : α} (h : o = .done a m) (f : α → Machine → Outcome β) :
    o.bind f = f a m := by
  rw [h]
  rfl

/-- What goes on after a value gives one only if there was one before. -/
theorem exists_of_bind_eq_done {o : Outcome α} {f : α → Machine → Outcome β} {b : β}
    (h : o.bind f = .done b m) : ∃ a m₁, o = .done a m₁ ∧ f a m₁ = .done b m := by
  cases o with
  | done a m₁ => exact ⟨a, m₁, rfl, h⟩
  | failed | outOfFuel => cases h

theorem exists_of_onExit_eq_done {o : Outcome α} {f : Machine → Machine} {a : α}
    (h : o.onExit f = .done a m) : ∃ m₁, o = .done a m₁ ∧ m = f m₁ := by
  cases o with
  | done a' m₁ =>
    obtain ⟨rfl, rfl⟩ := done.inj h
    exact ⟨m₁, rfl, rfl⟩
  | failed | outOfFuel => cases h

end Outcome

/-- What a contract says of both ways to end holds of the state in which a run ended. -/
theorem Contract.Ends.ensures {c : Contract} {t : Task} {m : Machine} {Q : Machine → Prop}
    {o : Outcome t.Answer} (h : c.Ends t m o) (hd : ∀ a m', c.done t m a m' → Q m')
    (hf : ∀ m', c.failed t m m' → Q m') : o.Ensures Q := by
  cases o with
  | done a m' => exact Outcome.ensures_done.mpr (hd a m' h)
  | failed failure m' => exact Outcome.ensures_failed.mpr (hf m' h)
  | outOfFuel => exact Outcome.ensures_outOfFuel

/-- What every statement of a program keeps, the program keeps. -/
theorem ensures_runStatements {n : Nat} {s : Setting} {Q : Machine → Prop}
    {program : List (Stmt NodeId)}
    (h : ∀ statement ∈ program, ∀ m, Q m → (execute n s statement m).Ensures Q) {m : Machine}
    (hm : Q m) : (runStatements n s program m).Ensures Q := by
  induction program generalizing m with
  | nil => exact Outcome.ensures_done.mpr hm
  | cons statement rest ih =>
    rw [List.forall_mem_cons] at h
    exact (h.1 m hm).bind fun _ _ h₁ => ih h.2 h₁

theorem ensures_flush (s : Setting) {Q : Machine → Prop} {m : Machine} (h : Q m) :
    (flush s m).Ensures Q := by
  unfold flush
  split
  · exact Outcome.ensures_failed.mpr h
  · exact Outcome.ensures_done.mpr h

/-- A program ends as its statements do, and then in the globals. -/
theorem ensures_runProgram {n : Nat} {s : Setting} {Q : Machine → Prop}
    {program : List (Stmt NodeId)} {m : Machine}
    (h : (runStatements n s program { m with depth := 0 }).Ensures Q)
    (hQ : ∀ m, Q m → Q { m with environment := .globals }) : (runProgram n s program m).Ensures Q := by
  unfold runProgram
  cases hr : runStatements n s program { m with depth := 0 } with
  | done u m₁ =>
    rw [hr] at h
    exact ensures_flush s (Outcome.ensures_done.mp h)
  | failed failure m₁ =>
    rw [hr] at h
    exact Outcome.ensures_failed.mpr (hQ m₁ (Outcome.ensures_failed.mp h))
  | outOfFuel => exact Outcome.ensures_outOfFuel

/-! ## Frames in sight -/

/-- The nearest frame that binds a name lies some steps out. -/
theorem Store.exists_ancestor?_of_binder? {s : Store} {f g : FrameId} {name : String}
    (h : s.binder? f name = some g) : ∃ k, s.ancestor? f k = some g := by
  induction f using binder?.induct s name with
  | case1 f hf =>
    rw [binder?, hf] at h
    cases h
  | case2 f frame hf hb =>
    rw [binder?, hf] at h
    simp only [if_pos hb] at h
    exact ⟨0, h⟩
  | case3 f frame hf hb he =>
    rw [binder?, hf] at h
    simp only [if_neg hb, he] at h
    cases h
  | case4 f frame hf hb outer he hlt ih =>
    rw [binder?, hf] at h
    simp only [if_neg hb, he, if_pos hlt] at h
    obtain ⟨k, hk⟩ := ih h
    have henclosing : s.enclosing? f = some outer := by rw [enclosing?, hf]; exact he
    exact ⟨k + 1, by rw [ancestor?, henclosing]; exact hk⟩
  | case5 f frame hf hb outer he hlt =>
    rw [binder?, hf] at h
    simp only [if_neg hb, he, if_neg hlt] at h
    cases h

/-- Code can read and write a frame: it lies outward from the current one or from the globals. -/
def Machine.Sees (m : Machine) (frame : FrameId) : Prop :=
  ∃ home k, (home = m.environment ∨ home = .globals) ∧ m.store.ancestor? home k = some frame

/-! ## The ways in which each step ends -/

theorem Machine.settle_cases (m : Machine) (line : Nat) (result : Except RuntimeFault Value) :
    (∃ value, result = .ok value ∧ m.settle line result = .done value m) ∨
      ∃ cause, m.settle line result = m.fault cause line := by
  cases result with
  | ok value => exact .inl ⟨value, rfl, rfl⟩
  | error cause => exact .inr ⟨cause, rfl⟩

/-- A variable that is read has its value from a frame in sight. -/
theorem readVariable_cases (s : Setting) (id : NodeId) (name : Name) (m : Machine) :
    (∃ value frame, m.Sees frame ∧ m.store.own? frame name.text = some value ∧
      readVariable s id name m = .done value m) ∨
      ∃ cause, readVariable s id name m = m.fault cause name.line := by
  unfold readVariable
  cases s.distance? id with
  | none =>
    dsimp only
    cases h : m.store.get .globals name.text with
    | none => exact .inr ⟨_, rfl⟩
    | some value =>
      obtain ⟨frame, hb, hv⟩ := Option.bind_eq_some_iff.mp h
      obtain ⟨k, hk⟩ := Store.exists_ancestor?_of_binder? hb
      exact .inl ⟨value, frame, ⟨.globals, k, .inr rfl, hk⟩, hv, rfl⟩
  | some distance =>
    dsimp only
    cases h : m.store.getAt m.environment distance name.text with
    | none => exact .inr ⟨_, rfl⟩
    | some value =>
      obtain ⟨frame, ha, hv⟩ := Option.bind_eq_some_iff.mp h
      exact .inl ⟨value, frame, ⟨m.environment, distance, .inl rfl, ha⟩, hv, rfl⟩

/-- A variable that is written is bound in a frame in sight. -/
theorem writeVariable_cases (s : Setting) (id : NodeId) (name : Name) (value : Value)
    (m : Machine) :
    (∃ frame, m.Sees frame ∧ writeVariable s id name value m =
      .done value { m with store := m.store.define frame name.text value }) ∨
      ∃ cause, writeVariable s id name value m = m.fault cause name.line := by
  unfold writeVariable
  cases s.distance? id with
  | none =>
    dsimp only
    cases h : m.store.binder? .globals name.text with
    | none => exact .inr ⟨_, rfl⟩
    | some frame =>
      obtain ⟨k, hk⟩ := Store.exists_ancestor?_of_binder? h
      exact .inl ⟨frame, ⟨.globals, k, .inr rfl, hk⟩, rfl⟩
  | some distance =>
    dsimp only
    cases h : m.store.ancestor? m.environment distance with
    | none => exact .inr ⟨_, rfl⟩
    | some frame => exact .inl ⟨frame, ⟨m.environment, distance, .inl rfl, h⟩, rfl⟩

/-- A property is a field, or a method of the class that is bound to the instance. -/
theorem readProperty_cases (object : Value) (name : Name) (m : Machine) :
    (∃ i o value, object = .instance i ∧ m.store.instance? i = some o ∧
      o.fields.get? name.text = some value ∧ readProperty object name m = .done value m) ∨
      (∃ i o method, object = .instance i ∧ m.store.instance? i = some o ∧
        m.store.findMethod o.class name.text = some method ∧
        readProperty object name m = bound method i m) ∨
      ∃ cause, readProperty object name m = m.fault cause name.line := by
  cases object with
  | «instance» i =>
    simp only [readProperty]
    cases ho : m.store.instance? i with
    | none => exact .inr (.inr ⟨_, rfl⟩)
    | some o =>
      dsimp only
      cases hv : o.fields.get? name.text with
      | some value => exact .inl ⟨i, o, value, rfl, ho, hv, rfl⟩
      | none =>
        dsimp only
        cases hm : m.store.findMethod o.class name.text with
        | some method => exact .inr (.inl ⟨i, o, method, rfl, ho, hm, rfl⟩)
        | none => exact .inr (.inr ⟨_, rfl⟩)
  | _ => exact .inr (.inr ⟨_, rfl⟩)

/-- A method of the class that a frame in sight binds the keyword to is bound to the instance that
another one binds `this` to. -/
theorem readSuper_cases (s : Setting) (id : NodeId) (keyword method : Name) (m : Machine) :
    (∃ c i f outer inner, m.store.findMethod c method.text = some f ∧
      m.Sees outer ∧ m.store.own? outer keyword.text = some (.class c) ∧
      m.Sees inner ∧ m.store.own? inner "this" = some (.instance i) ∧
      readSuper s id keyword method m = bound f i m) ∨
      ∃ cause line, readSuper s id keyword method m = m.fault cause line := by
  unfold readSuper
  split
  · exact .inr ⟨_, _, rfl⟩
  next distance _ =>
    split
    · exact .inr ⟨_, _, rfl⟩
    next superclass hs =>
      split
      · exact .inr ⟨_, _, rfl⟩
      next receiver hr =>
        obtain ⟨outer, ho, hsuper⟩ := Option.bind_eq_some_iff.mp hs
        obtain ⟨inner, hi, hthis⟩ := Option.bind_eq_some_iff.mp hr
        split
        · split
          · next f hf =>
            exact .inl ⟨_, _, f, outer, inner, hf, ⟨m.environment, distance, .inl rfl, ho⟩, hsuper,
              ⟨m.environment, distance - 1, .inl rfl, hi⟩, hthis, rfl⟩
          · exact .inr ⟨_, _, rfl⟩
        · exact .inr ⟨_, _, rfl⟩

theorem printValue_cases (s : Setting) (value : Value) (m : Machine) :
    (printValue s value m = .done .normal { m with output := m.printed value }) ∨
      ∃ message, printValue s value m = .failed (.output message) m := by
  unfold printValue
  split
  · exact .inr ⟨_, rfl⟩
  · exact .inl rfl

/-- A function gives what its body returned, `nil`, or, if it is an initializer, its instance. -/
theorem FunctionObject.result_cases (f : FunctionObject) (completion : Completion) (m : Machine) :
    (∃ value, f.result completion m = .done value m ∧
      (value = .nil ∨ completion = .returned value ∨ m.store.getAt f.closure 0 "this" = some value)) ∨
      ∃ cause line, f.result completion m = m.fault cause line := by
  unfold result
  split
  · cases h : m.store.getAt f.closure 0 "this" with
    | some this => exact .inl ⟨this, rfl, .inr (.inr rfl)⟩
    | none => exact .inr ⟨_, _, rfl⟩
  · cases completion with
    | normal => exact .inl ⟨.nil, rfl, .inl rfl⟩
    | returned value => exact .inl ⟨value, rfl, .inr (.inl rfl)⟩

/-! ## What each step keeps -/

section

open Outcome

variable {Q : Machine → Prop} {m : Machine}

theorem ensures_settle (h : Q m) (line : Nat) (result : Except RuntimeFault Value) :
    (m.settle line result).Ensures Q := by
  rcases m.settle_cases line result with ⟨value, -, e⟩ | ⟨cause, e⟩ <;> rw [e]
  · exact ensures_done.mpr h
  · exact ensures_fault.mpr h

theorem ensures_readVariable (s : Setting) (id : NodeId) (name : Name) (h : Q m) :
    (readVariable s id name m).Ensures Q := by
  rcases readVariable_cases s id name m with ⟨value, frame, -, -, e⟩ | ⟨cause, e⟩ <;> rw [e]
  · exact ensures_done.mpr h
  · exact ensures_fault.mpr h

theorem ensures_writeVariable (s : Setting) (id : NodeId) (name : Name) (value : Value) (h : Q m)
    (hd : ∀ frame, Q { m with store := m.store.define frame name.text value }) :
    (writeVariable s id name value m).Ensures Q := by
  rcases writeVariable_cases s id name value m with ⟨frame, -, e⟩ | ⟨cause, e⟩ <;> rw [e]
  · exact ensures_done.mpr (hd frame)
  · exact ensures_fault.mpr h

theorem ensures_readProperty (object : Value) (name : Name) (h : Q m)
    (hb : ∀ c i method, m.store.findMethod c name.text = some method →
      (bound method i m).Ensures Q) : (readProperty object name m).Ensures Q := by
  rcases readProperty_cases object name m with
    ⟨i, o, value, -, -, -, e⟩ | ⟨i, o, method, -, -, hm, e⟩ | ⟨cause, e⟩ <;> rw [e]
  · exact ensures_done.mpr h
  · exact hb o.class i method hm
  · exact ensures_fault.mpr h

theorem ensures_readSuper (s : Setting) (id : NodeId) (keyword method : Name) (h : Q m)
    (hb : ∀ c i f, m.store.findMethod c method.text = some f → (bound f i m).Ensures Q) :
    (readSuper s id keyword method m).Ensures Q := by
  rcases readSuper_cases s id keyword method m with
    ⟨c, i, f, outer, inner, hf, -, -, -, -, e⟩ | ⟨cause, line, e⟩ <;> rw [e]
  · exact hb c i f hf
  · exact ensures_fault.mpr h

theorem ensures_printValue (s : Setting) (value : Value) (h : Q m)
    (hp : Q { m with output := m.printed value }) : (printValue s value m).Ensures Q := by
  rcases printValue_cases s value m with e | ⟨message, e⟩ <;> rw [e]
  · exact ensures_done.mpr hp
  · exact ensures_failed.mpr h

theorem ensures_result (f : FunctionObject) (completion : Completion) (h : Q m) :
    (f.result completion m).Ensures Q := by
  rcases f.result_cases completion m with ⟨value, e, -⟩ | ⟨cause, line, e⟩ <;> rw [e]
  · exact ensures_done.mpr h
  · exact ensures_fault.mpr h

end

end Lox
