import Lox.Proofs.Evaluation.Agreement
import Lox.Proofs.Renaming.Stores

/-!
# Runs of a renamed program

A program and a renamed one run in lockstep: they start the same tasks, apart
from the names in their code, in states that differ only in the names in marked
frames, and they end in the same way. The proof follows the plans of the
evaluator. One lemma for each function relates the plans of a task and of the
renamed task (`Plan.Renames`); what the original run relies on, and what it keeps,
is the contract `scoping`.

* `Task.Renames`, `Machine.Renames`, `Outcome.Renames`: what is related;
* `Expr.renames_plan` and others: the plans of related tasks are related;
* `Task.run_renames`: so are their runs;
* a variable that is undefined is looked up in the globals, which are not renamed,
  so even the messages are the same.
-/

namespace Lox

/-! ## Related states, tasks and outcomes -/

section

variable (ρ : Renaming) (distance? : NodeId → Option Nat)

/-- The second state is the first one with the names in the marked frames renamed. -/
structure Machine.Renames (marks : Marks) (m m' : Machine) : Prop where
  store : m.store.Renames ρ distance? marks m'.store
  environment : m'.environment = m.environment
  depth : m'.depth = m.depth
  output : m'.output = m.output

/-- The second task is the first one, its code renamed as the frames around it are marked. -/
inductive Task.Renames (marks : Marks) (m : Machine) : Task → Task → Prop
  | evaluate {flags : List Bool} (hm : m.store.Marked marks m.environment flags)
    (e : Expr NodeId) : Renames marks m (.evaluate e) (.evaluate (e.rename ρ distance? flags))
  | evaluateAll {flags : List Bool} (hm : m.store.Marked marks m.environment flags)
    (es : List (Expr NodeId)) :
    Renames marks m (.evaluateAll es) (.evaluateAll (Expr.renameAll ρ distance? flags es))
  | call (callee : Value) (arguments : List Value) (line : Nat) :
    Renames marks m (.call callee arguments line) (.call callee arguments line)
  | enter {f f' : FunctionObject} (hf : f.Renames ρ distance? m.store marks [] f')
    (arguments : List Value) (line : Nat) :
    Renames marks m (.enter f arguments line) (.enter f' arguments line)
  | execute {flags : List Bool} (hm : m.store.Marked marks m.environment flags)
    {statement statement' : Stmt NodeId} (hs : statement.Renames ρ distance? flags statement') :
    Renames marks m (.execute statement) (.execute statement')
  | executeAll {flags : List Bool} (hm : m.store.Marked marks m.environment flags)
    {statements statements' : List (Stmt NodeId)}
    (hs : Stmt.RenamesAll ρ distance? flags statements statements') :
    Renames marks m (.executeAll statements) (.executeAll statements')
  | loop {flags : List Bool} (hm : m.store.Marked marks m.environment flags)
    (condition : Expr NodeId) {body body' : Stmt NodeId}
    (hb : body.Renames ρ distance? flags body') :
    Renames marks m (.loop condition body) (.loop (condition.rename ρ distance? flags) body')

/-- Two runs from related states, the first with this store, end in the same way and in related
states. -/
inductive Outcome.Renames (marks : Marks) (s : Store) {α β : Type} :
    Outcome α → Outcome β → Prop
  | done {a : α} {b : β} {m m' : Machine} {marks' : Marks} (ha : HEq a b)
    (he : marks.Extends s m.store marks') (hm : m.Renames ρ distance? marks' m') :
    Renames marks s (.done a m) (.done b m')
  | failed {m m' : Machine} {marks' : Marks} (failure : Failure)
    (he : marks.Extends s m.store marks') (hm : m.Renames ρ distance? marks' m') :
    Renames marks s (.failed failure m) (.failed failure m')
  | outOfFuel : Renames marks s .outOfFuel .outOfFuel

/-- Two plans that end in related outcomes, or that start related tasks and go on with related
plans. The first keeps a contract. -/
inductive Plan.Renames (c : Contract) {α β : Type} : Marks → Store → Plan α → Plan β → Prop
  | finish {marks : Marks} {s : Store} {o : Outcome α} {o' : Outcome β}
    (h : o.Renames ρ distance? marks s o') : Renames c marks s (.finish o) (.finish o')
  | start {marks marks₁ : Marks} {s : Store} {t t' : Task} {m m' : Machine} {exit : Exit}
    {resume : t.Answer → Machine → Plan α} {resume' : t'.Answer → Machine → Plan β}
    (he : marks.Extends s m.store marks₁) (hm : m.Renames ρ distance? marks₁ m')
    (ht : t.Renames ρ distance? marks₁ m t')
    (hresume : ∀ a a' m₁ m₁' marks₂, c.done t m a m₁ → HEq a a' →
      marks₁.Extends m.store m₁.store marks₂ → m₁.Renames ρ distance? marks₂ m₁' →
      Renames c marks₂ m₁.store (resume a (exit.apply m₁)) (resume' a' (exit.apply m₁'))) :
    Renames c marks s (.start t m exit resume) (.start t' m' exit resume')

end

section

variable {ρ : Renaming} {distance? : NodeId → Option Nat} {marks marks₁ : Marks}
  {m m' m₁ : Machine} {vs : List Visit} {flags : List Bool}

theorem Machine.Renames.apply (h : m.Renames ρ distance? marks m') (exit : Exit) :
    (exit.apply m).Renames ρ distance? marks (exit.apply m') := by
  cases exit with
  | stay => exact h
  | leave environment calls => exact ⟨h.store, rfl, congrArg (· - calls) h.depth, h.output⟩

theorem Outcome.Renames.since {α β : Type} {s s₁ : Store} {o : Outcome α} {o' : Outcome β}
    (he : marks.Extends s s₁ marks₁) (h : o.Renames ρ distance? marks₁ s₁ o') :
    o.Renames ρ distance? marks s o' := by
  cases h with
  | done ha he' hm => exact .done ha (he.trans he') hm
  | failed failure he' hm => exact .failed failure (he.trans he') hm
  | outOfFuel => exact .outOfFuel

/-- Related plans run to related outcomes, if the tasks that they start do. -/
theorem Plan.Renames.run {c : Contract} {s : Setting} {n : Nat}
    (hrun : ∀ t t' m m' marks, c.pre t m → m.Renames ρ distance? marks m' →
      t.Renames ρ distance? marks m t' →
      (t.run n s m).Renames ρ distance? marks m.store (t'.run n s m'))
    (hend : ∀ t m, c.pre t m → c.Ends t m (t.run n s m)) {t : Task} {β : Type}
    {p : Plan t.Answer} {p' : Plan β} {store : Store}
    (h : p.Renames ρ distance? c marks store p') (hp : c.Meets t m p) :
    (p.runWith n s).Renames ρ distance? marks store (p'.runWith n s) := by
  induction h with
  | finish h => exact h
  | @start marks marks₁ store u u' m₁ m₁' exit resume resume' he hm hu _ ih =>
    obtain ⟨hpre, hresume, -⟩ := hp
    have ho := hrun u u' m₁ m₁' marks₁ hpre hm hu
    have hd := hend u m₁ hpre
    rw [runWith_start, runWith_start]
    generalize u.run n s m₁ = o at ho hd
    generalize u'.run n s m₁' = o' at ho
    cases ho with
    | @done a a' m₂ m₂' marks₂ ha he' hm' =>
      exact (ih a a' m₂ m₂' marks₂ hd ha he' hm' (hresume a m₂ hd)).since (he.trans he')
    | @failed m₂ m₂' marks₂ failure he' hm' =>
      refine .failed failure (he.trans ?_) (hm'.apply exit)
      rwa [exit.store_apply]
    | outOfFuel => exact .outOfFuel

/-! ## Outcomes -/

theorem Outcome.Renames.value {α : Type} (h : m.Renames ρ distance? marks m') (a : α) :
    Outcome.Renames ρ distance? marks m.store (.done a m) (.done a m') :=
  .done .rfl (.refl _ _) h

theorem Outcome.Renames.fault {α β : Type} (h : m.Renames ρ distance? marks m')
    (cause : RuntimeFault) (line : Nat) :
    Outcome.Renames ρ distance? marks m.store (α := α) (β := β) (m.fault cause line)
      (m'.fault cause line) :=
  .failed _ (.refl _ _) h

theorem Outcome.Renames.settle (h : m.Renames ρ distance? marks m') (line : Nat)
    (result : Except RuntimeFault Value) :
    (m.settle line result).Renames ρ distance? marks m.store (m'.settle line result) := by
  cases result with
  | ok value => exact .value h value
  | error cause => exact .fault h cause line

/-! ## States -/

/-- The marks of the frames around the current one, after something was kept. -/
theorem Machine.Keeps.marked (hk : m.Keeps vs m₁) (he : marks.Extends m.store m₁.store marks₁)
    (hm : m.store.Marked marks m.environment flags) :
    m₁.store.Marked marks₁ m₁.environment flags :=
  hk.environment ▸ hm.extend he

/-- The state in which a class has been added and bound to a name. -/
def Machine.addClass (m : Machine) (name : String) (c : ClassObject) : Machine :=
  { m with store := (m.store.addClass c).2 }.define name (.class (m.store.addClass c).1)

namespace Machine.Renames

/-- A name is bound in the current frame, under its new name if that is marked. -/
theorem define (h : m.Renames ρ distance? marks m')
    (hm : m.store.Marked marks m.environment flags) (name : String) (value : Value) :
    (m.define name value).Renames ρ distance? marks
      (m'.define (ρ.swap (flagAt flags (some 0)) name) value) := by
  have hs := h.store.define m.environment name value
  rw [hm.eq_flagAt_zero h.store.root] at hs
  refine ⟨?_, h.environment, h.depth, h.output⟩
  rw [Machine.define, Machine.define, h.environment]
  exact hs

theorem enter (h : m.Renames ρ distance? marks m') {renamed : Bool}
    {bindings bindings' : Bindings Value} (hb : bindings.Renames ρ renamed bindings')
    (enclosing : FrameId) (calls : Nat) :
    (m.enter bindings enclosing calls).Renames ρ distance?
      (marks.mark (m.enter bindings enclosing calls).environment renamed)
      (m'.enter bindings' enclosing calls) := by
  have hid := h.store.fst_addFrame ⟨bindings, some enclosing⟩ ⟨bindings', some enclosing⟩
  exact ⟨h.store.addFrame hb (some enclosing), hid, congrArg (· + calls) h.depth, h.output⟩

/-- A function is declared under its own name, which is not renamed. -/
theorem declareFunction (h : m.Renames ρ distance? marks m')
    (hm : m.store.Marked marks m.environment flags) {f f' : FunDecl NodeId}
    (hn : ρ.swap (flagAt flags (some 0)) f.name.text = f.name.text)
    (hf : f.Renames ρ distance? flags f') :
    marks.Extends m.store (Lox.declareFunction f m).store marks ∧
      (Lox.declareFunction f m).Renames ρ distance? marks (Lox.declareFunction f' m') := by
  let object : FunctionObject := ⟨f, m.environment, false⟩
  let object' : FunctionObject := ⟨f', m'.environment, false⟩
  let m₁ : Machine := { m with store := (m.store.addFunction object).2 }
  let m₁' : Machine := { m' with store := (m'.store.addFunction object').2 }
  have hobject : object.Renames ρ distance? m.store marks [] object' :=
    ⟨h.environment, rfl, flags, hm, hf⟩
  have hkept : marks.Extends m.store m₁.store marks := .of_frames_eq marks rfl
  have hadd : m₁.Renames ρ distance? marks m₁' :=
    ⟨h.store.addFunction hobject, h.environment, h.depth, h.output⟩
  have hdef := hadd.define (hm.extend hkept) f.name.text (.function ⟨m.store.functions.size⟩)
  refine ⟨hkept.trans (.define _ _ _ _ _), ?_⟩
  have hrun : Lox.declareFunction f' m' =
      m₁'.define f.name.text (.function ⟨m.store.functions.size⟩) := by
    rw [← hf.name_eq, ← h.store.numFunctions]
    rfl
  rw [hn] at hdef
  rw [hrun]
  exact hdef

theorem addClass (h : m.Renames ρ distance? marks m')
    (hm : m.store.Marked marks m.environment flags) {name : String}
    (hn : ρ.swap (flagAt flags (some 0)) name = name) {c c' : ClassObject}
    (hc : c.Renames ρ distance? m.store marks c') :
    marks.Extends m.store (m.addClass name c).store marks ∧
      (m.addClass name c).Renames ρ distance? marks (m'.addClass name c') := by
  let m₁ : Machine := { m with store := (m.store.addClass c).2 }
  let m₁' : Machine := { m' with store := (m'.store.addClass c').2 }
  have hkept : marks.Extends m.store m₁.store marks := .of_frames_eq marks rfl
  have hadd : m₁.Renames ρ distance? marks m₁' :=
    ⟨h.store.addClass hc, h.environment, h.depth, h.output⟩
  have hid : (m'.store.addClass c').1 = (m.store.addClass c).1 :=
    congrArg ClassId.mk h.store.numClasses
  have hdef := hadd.define (hm.extend hkept) name (.class (m.store.addClass c).1)
  rw [hn] at hdef
  refine ⟨hkept.trans (.define _ _ _ _ _), ?_⟩
  rw [Machine.addClass, Machine.addClass, hid]
  exact hdef

/-- A class is declared under its own name, which is not renamed, and so is the frame that binds
`super`. -/
theorem declareClass (h : m.Renames ρ distance? marks m')
    (hm : m.store.Marked marks m.environment flags) {name : Name} (superclass : Option ClassId)
    {methods methods' : List (FunDecl NodeId)}
    (hn : ρ.swap (flagAt flags (some 0)) name.text = name.text)
    (hs : FunDecl.RenamesAll ρ distance? (methodFlags flags superclass.isSome) methods methods') :
    ∃ marks₁, marks.Extends m.store (Lox.declareClass name superclass methods m).store marks₁ ∧
      (Lox.declareClass name superclass methods m).Renames ρ distance? marks₁
        (Lox.declareClass name superclass methods' m') := by
  have hnil := h.define hm name.text .nil
  rw [hn] at hnil
  have hkept : marks.Extends m.store (m.define name.text .nil).store marks := .define _ _ _ _ _
  have hm := hm.extend hkept
  cases superclass with
  | none =>
    have hc : ClassObject.Renames ρ distance? (m.define name.text .nil).store marks
        ⟨name.text, none, methodTable m.environment methods⟩
        ⟨name.text, none, methodTable m'.environment methods'⟩ := by
      rw [h.environment]
      exact ⟨rfl, rfl, hs.methodTable hm⟩
    obtain ⟨hkept', hclass⟩ := hnil.addClass hm hn hc
    exact ⟨marks, hkept.trans hkept', hclass⟩
  | some c =>
    let m₁ : Machine := m.define name.text .nil
    let m₁' : Machine := m'.define name.text .nil
    let bindings : Bindings Value := (∅ : Bindings Value).insert "super" (.class c)
    let added := m₁.store.addFrame ⟨bindings, some m.environment⟩
    let added' := m₁'.store.addFrame ⟨bindings, some m'.environment⟩
    let marks₁ : Marks := marks.mark added.1 false
    have hb : bindings.Renames ρ false bindings := fun _ => rfl
    have hkept' : marks.Extends m₁.store added.2 marks₁ := .addFrame _ _ _ _
    have hid : added'.1 = added.1 := hnil.store.fst_addFrame ⟨bindings, _⟩ ⟨bindings, _⟩
    have hadded : added' = m₁'.store.addFrame ⟨bindings, some m.environment⟩ := by
      rw [← h.environment]
    have hstore : added.2.Renames ρ distance? marks₁ added'.2 := by
      rw [hadded]
      exact hnil.store.addFrame hb (some m.environment)
    have hframe : Renames ρ distance? marks₁ { m₁ with store := added.2 }
        { m₁' with store := added'.2 } := ⟨hstore, h.environment, h.depth, h.output⟩
    have hc : ClassObject.Renames ρ distance? added.2 marks₁
        ⟨name.text, some c, methodTable added.1 methods⟩
        ⟨name.text, some c, methodTable added'.1 methods'⟩ := by
      rw [hid]
      exact ⟨rfl, rfl, hs.methodTable (hm.addFrame bindings false)⟩
    obtain ⟨hkept'', hclass⟩ := hframe.addClass (hm.extend hkept') hn hc
    exact ⟨marks₁, (hkept.trans hkept').trans hkept'', hclass⟩

end Machine.Renames

/-! ## Methods -/

/-- A method of an instance as a value. -/
theorem bound_renames (h : m.Renames ρ distance? marks m') {f f' : FunctionObject}
    (hf : f.Renames ρ distance? m.store marks [false] f') (receiver : InstanceId) :
    (bound f receiver m).Renames ρ distance? marks m.store (bound f' receiver m') := by
  obtain ⟨marks₁, hkept, hstore, hobject⟩ := h.store.bindMethod hf receiver
  let m₁ : Machine :=
    { m with store := ((m.store.bindMethod f receiver).2.addFunction
        (m.store.bindMethod f receiver).1).2 }
  let m₁' : Machine :=
    { m' with store := ((m'.store.bindMethod f' receiver).2.addFunction
        (m'.store.bindMethod f' receiver).1).2 }
  have hadd : m₁.Renames ρ distance? marks₁ m₁' :=
    ⟨hstore.addFunction hobject, h.environment, h.depth, h.output⟩
  have hid : (m'.store.bindMethod f' receiver).2.functions.size =
      (m.store.bindMethod f receiver).2.functions.size := hstore.numFunctions
  have hrun : bound f receiver m =
      .done (.function ⟨(m.store.bindMethod f receiver).2.functions.size⟩) m₁ := rfl
  have hrun' : bound f' receiver m' =
      .done (.function ⟨(m'.store.bindMethod f' receiver).2.functions.size⟩) m₁' := rfl
  rw [hrun, hrun', hid]
  exact .done .rfl (hkept.trans (.of_frames_eq marks₁ rfl)) hadd

/-- The method with this name as a value of the receiver, or a fault. -/
def Machine.boundMethod (m : Machine) (id : ClassId) (receiver : InstanceId) (name : Name) :
    Outcome Value :=
  match m.store.findMethod id name.text with
  | some f => bound f receiver m
  | none => m.fault (.undefinedProperty name.text) name.line

theorem boundMethod_renames (h : m.Renames ρ distance? marks m') (id : ClassId)
    (receiver : InstanceId) (name : Name) :
    (m.boundMethod id receiver name).Renames ρ distance? marks m.store
      (m'.boundMethod id receiver name) := by
  have hr := h.store.findMethod id name.text
  unfold Machine.boundMethod
  generalize m.store.findMethod id name.text = o at hr
  generalize m'.store.findMethod id name.text = o' at hr
  cases hr with
  | some hf => exact bound_renames h hf receiver
  | none => exact .fault h _ _

theorem readProperty_renames (h : m.Renames ρ distance? marks m') (object : Value) (name : Name) :
    (readProperty object name m).Renames ρ distance? marks m.store
      (readProperty object name m') := by
  cases object with
  | «instance» id =>
    have hi : m'.store.instance? id = m.store.instance? id := by
      rw [Store.instance?, Store.instance?, h.store.instances]
    rw [readProperty, readProperty, hi]
    cases m.store.instance? id with
    | none => exact .fault h _ _
    | some i =>
      cases hf : i.fields.get? name.text with
      | some value =>
        simp only [hf]
        exact .value h value
      | none =>
        simp only [hf]
        exact boundMethod_renames h i.class id name
  | _ => exact .fault h _ _

/-! ## Names -/

section

variable {s : Setting}

/-- What a variable reads: a renamed one reads the same, and if there is nothing to read, it is
global. -/
theorem readVariable_renames (hk : s.Knows vs) (hw : m.store.WellScoped vs)
    (h : m.Renames ρ s.distance? marks m') (hm : m.store.Marked marks m.environment flags)
    {e : Expr NodeId} (hf : Foreseen vs m e.references) {kind : ReferenceKind} {id : NodeId}
    {name : Name} (hr : e.reference? = some ⟨kind, id, name⟩) (hkind : kind ≠ .assign) :
    (readVariable s id name m).Renames ρ s.distance? marks m.store
      (readVariable s id (ρ.name (flagAt flags (s.distance? id)) name) m') := by
  obtain ⟨v, hv, -, hfits, hd⟩ := exists_visit_of_reference? hk hf hr
  have hd : s.distance? id = v.distance? := hd
  unfold readVariable
  rw [hd]
  cases hdist : v.distance? with
  | none =>
    have hroot' : m'.store.enclosing? .globals = none :=
      (h.store.enclosing _).trans h.store.root.enclosing
    have hown := h.store.own .globals name.text
    rw [h.store.root.unmarked, ρ.swap_false] at hown
    simp only [flagAt_none, ρ.name_false, hw.get_globals,
      Store.get_of_enclosing?_eq_none hroot', hown]
    cases m.store.own? .globals name.text with
    | some value => exact .value h value
    | none => exact .fault h _ _
  | some d =>
    have hread := hfits.reads (by rwa [hv]) hdist
    rw [hv] at hread
    obtain ⟨value, hvalue⟩ := Option.isSome_iff_exists.mp hread
    obtain ⟨g, ha, hown⟩ := Option.bind_eq_some_iff.mp hvalue
    have hvalue' : m'.store.getAt m'.environment d
        (ρ.swap (flagAt flags (some d)) name.text) = some value := by
      rw [Store.getAt, h.environment, h.store.ancestor?, ha, Option.bind_some,
        ← hm.eq_flagAt h.store.root ha, h.store.own]
      exact hown
    simp only [Renaming.text_name, hvalue, hvalue']
    exact .value h value

/-- What an assignment changes. -/
theorem writeVariable_renames (hk : s.Knows vs) (hw : m.store.WellScoped vs)
    (h : m.Renames ρ s.distance? marks m') (hm : m.store.Marked marks m.environment flags)
    {e : Expr NodeId} (hf : Foreseen vs m e.references) {id : NodeId} {name : Name}
    (hr : e.reference? = some ⟨.assign, id, name⟩) (value : Value) :
    (writeVariable s id name value m).Renames ρ s.distance? marks m.store
      (writeVariable s id (ρ.name (flagAt flags (s.distance? id)) name) value m') := by
  obtain ⟨v, hv, -, hfits, hd⟩ := exists_visit_of_reference? hk hf hr
  have hd : s.distance? id = v.distance? := hd
  have hdefine (g : FrameId) : Outcome.Renames ρ s.distance? marks m.store
      (.done value { m with store := m.store.define g name.text value })
      (.done value { m' with store := m'.store.define g (ρ.swap (marks g) name.text) value }) :=
    .done .rfl (.define _ _ _ _ _)
      ⟨h.store.define g name.text value, h.environment, h.depth, h.output⟩
  unfold writeVariable
  rw [hd]
  cases hdist : v.distance? with
  | none =>
    have hroot' : m'.store.enclosing? .globals = none :=
      (h.store.enclosing _).trans h.store.root.enclosing
    have hown := h.store.own .globals name.text
    rw [h.store.root.unmarked, ρ.swap_false] at hown
    simp only [flagAt_none, ρ.name_false, hw.binder?_globals,
      Store.binder?_of_enclosing?_eq_none hroot', hown]
    cases m.store.own? .globals name.text with
    | some _ =>
      have hg := hdefine .globals
      rw [h.store.root.unmarked, ρ.swap_false] at hg
      exact hg
    | none => exact .fault h _ _
  | some d =>
    obtain ⟨g, ha⟩ := Option.isSome_iff_exists.mp (hfits.ancestor hdist)
    have ha' : m'.store.ancestor? m'.environment d = some g := by
      rw [h.environment, h.store.ancestor?, ha]
    simp only [Renaming.text_name, ha, ha', ← hm.eq_flagAt h.store.root ha]
    exact hdefine g

theorem readSuper_renames (hk : s.Knows vs) (h : m.Renames ρ s.distance? marks m')
    {id : NodeId} {keyword method : Name}
    (hf : Foreseen vs m (Expr.super id keyword method).references) :
    (readSuper s id keyword method m).Renames ρ s.distance? marks m.store
      (readSuper s id keyword method m') := by
  obtain ⟨v, hv, hs, -, -⟩ := exists_visit_of_reference? hk hf rfl
  have hkeyword : keyword.text = "super" := by
    unfold Visit.Sound at hs
    rw [hv] at hs
    exact hs.1
  have hget (d : Nat) : m'.store.getAt m'.environment d "super" =
      m.store.getAt m.environment d "super" := by
    rw [h.environment]
    exact h.store.getAt_keyword _ d ρ.swap_super
  have hthis (d : Nat) : m'.store.getAt m'.environment d "this" =
      m.store.getAt m.environment d "this" := by
    rw [h.environment]
    exact h.store.getAt_keyword _ d ρ.swap_this
  unfold readSuper
  cases s.distance? id with
  | none => exact .fault h _ _
  | some d =>
    simp only [hkeyword, hget, hthis]
    cases m.store.getAt m.environment d "super" with
    | none => exact .fault h _ _
    | some superclass =>
      cases m.store.getAt m.environment (d - 1) "this" with
      | none => exact .fault h _ _
      | some receiver =>
        cases superclass <;> cases receiver <;>
          first
          | exact boundMethod_renames h _ _ method
          | exact .fault h _ _

/-! ## Plans -/

theorem Plan.Renames.delegate {c : Contract} {t t' : Task} (h : m.Renames ρ distance? marks m')
    (ht : t.Renames ρ distance? marks m t') :
    (Plan.delegate t m).Renames ρ distance? c marks m.store (Plan.delegate t' m') :=
  .start (.refl _ _) h ht fun _ _ _ _ _ _ ha _ h₁ => .finish (.done ha (.refl _ _) h₁)

theorem Expr.renames_plan (hk : s.Knows vs) (e : Expr NodeId) (hw : m.store.WellScoped vs)
    (hf : Foreseen vs m e.references) (h : m.Renames ρ s.distance? marks m')
    (hm : m.store.Marked marks m.environment flags) :
    (e.plan s m).Renames ρ s.distance? (scoping vs s) marks m.store
      ((e.rename ρ s.distance? flags).plan s m') := by
  cases e with
  | literal value =>
    rw [Expr.rename]
    exact .finish (.value h _)
  | group inner =>
    rw [Expr.rename]
    exact .delegate h (.evaluate hm inner)
  | unary operator right =>
    rw [Expr.rename]
    refine .start (.refl _ _) h (.evaluate hm right) fun a a' m₁ m₁' marks₁ hd ha he h₁ => ?_
    obtain rfl := eq_of_heq ha
    exact .finish (.settle h₁ _ _)
  | binary left operator right =>
    rw [Expr.rename]
    refine .start (.refl _ _) h (.evaluate hm left) fun a a' m₁ m₁' marks₁ hd ha he h₁ => ?_
    obtain rfl := eq_of_heq ha
    have hm₁ := hd.1.marked he hm
    refine .start (.refl _ _) h₁ (.evaluate hm₁ right) fun b b' m₂ m₂' marks₂ hd hb he h₂ => ?_
    obtain rfl := eq_of_heq hb
    exact .finish (.settle h₂ _ _)
  | logical left operator right =>
    rw [Expr.rename]
    refine .start (.refl _ _) h (.evaluate hm left) fun a a' m₁ m₁' marks₁ hd ha he h₁ => ?_
    obtain rfl := eq_of_heq ha
    split
    · exact .finish (.value h₁ a)
    · exact .delegate h₁ (.evaluate (hd.1.marked he hm) right)
  | «variable» id name =>
    rw [Expr.rename]
    exact .finish (readVariable_renames hk hw h hm hf rfl (fun hc => by cases hc))
  | assign id name value =>
    rw [Expr.rename]
    refine .start (.refl _ _) h (.evaluate hm value) fun a a' m₁ m₁' marks₁ hd ha he h₁ => ?_
    obtain rfl := eq_of_heq ha
    exact .finish (writeVariable_renames hk hd.1.wellScoped h₁ (hd.1.marked he hm)
      (hf.keeps hd.1) rfl a)
  | call callee line arguments =>
    rw [Expr.rename]
    refine .start (.refl _ _) h (.evaluate hm callee) fun a a' m₁ m₁' marks₁ hd ha he h₁ => ?_
    obtain rfl := eq_of_heq ha
    have hm₁ := hd.1.marked he hm
    refine .start (.refl _ _) h₁ (.evaluateAll hm₁ arguments)
      fun as as' m₂ m₂' marks₂ hd has he h₂ => ?_
    obtain rfl := eq_of_heq has
    exact .delegate h₂ (.call a as line)
  | get object name =>
    rw [Expr.rename]
    refine .start (.refl _ _) h (.evaluate hm object) fun a a' m₁ m₁' marks₁ hd ha he h₁ => ?_
    obtain rfl := eq_of_heq ha
    exact .finish (readProperty_renames h₁ a name)
  | set object name value =>
    rw [Expr.rename]
    refine .start (.refl _ _) h (.evaluate hm object) fun a a' m₁ m₁' marks₁ hd ha he h₁ => ?_
    obtain rfl := eq_of_heq ha
    cases a with
    | «instance» id =>
      have hm₁ := hd.1.marked he hm
      refine .start (.refl _ _) h₁ (.evaluate hm₁ value)
        fun b b' m₂ m₂' marks₂ hd hb he h₂ => ?_
      obtain rfl := eq_of_heq hb
      refine .finish (.done .rfl (.of_frames_eq marks₂ rfl) ?_)
      exact ⟨h₂.store.setField id name.text b, h₂.environment, h₂.depth, h₂.output⟩
    | _ => exact .finish (.fault h₁ _ _)
  | this id keyword =>
    rw [Expr.rename]
    have hr := readVariable_renames hk hw h hm hf rfl (fun hc => by cases hc)
    obtain ⟨v, hv, hs, -, -⟩ := exists_visit_of_reference? hk hf rfl
    have hkeyword : keyword.text = "this" := by
      unfold Visit.Sound at hs
      rw [hv] at hs
      exact hs.1
    rw [ρ.name_eq_self (by rw [hkeyword, ρ.swap_this])] at hr
    exact .finish hr
  | super id keyword method =>
    rw [Expr.rename]
    exact .finish (readSuper_renames hk h hf)

theorem Expr.renames_planAll (es : List (Expr NodeId)) (h : m.Renames ρ s.distance? marks m')
    (hm : m.store.Marked marks m.environment flags) :
    (Expr.planAll es m).Renames ρ s.distance? (scoping vs s) marks m.store
      (Expr.planAll (Expr.renameAll ρ s.distance? flags es) m') := by
  cases es with
  | nil =>
    rw [Expr.renameAll]
    exact .finish (.value h _)
  | cons e es =>
    rw [Expr.renameAll]
    refine .start (.refl _ _) h (.evaluate hm e) fun a a' m₁ m₁' marks₁ hd ha he h₁ => ?_
    obtain rfl := eq_of_heq ha
    have hm₁ := hd.1.marked he hm
    refine .start (.refl _ _) h₁ (.evaluateAll hm₁ es) fun as as' m₂ m₂' marks₂ hd has he h₂ => ?_
    obtain rfl := eq_of_heq has
    exact .finish (.value h₂ _)

theorem Value.renames_callPlan (callee : Value) (arguments : List Value) (line : Nat)
    (h : m.Renames ρ s.distance? marks m') :
    (callee.callPlan arguments line m).Renames ρ s.distance? (scoping vs s) marks m.store
      (callee.callPlan arguments line m') := by
  cases callee with
  | function id =>
    have hr := h.store.function id
    unfold callPlan callRule
    dsimp only
    generalize m.store.function? id = o at hr
    generalize m'.store.function? id = o' at hr
    cases hr with
    | none => exact .finish (.fault h _ _)
    | @some f f' hf =>
      obtain ⟨flags, -, hd⟩ := hf.declaration
      simp only [hd.length_params]
      split
      · exact .delegate h (.enter hf arguments line)
      · exact .finish (.fault h _ _)
  | «class» id =>
    obtain ⟨hid, hadd⟩ := h.store.addInstance ⟨id, ∅⟩
    have hkept : marks.Extends m.store (m.store.addInstance ⟨id, ∅⟩).2 marks :=
      .of_frames_eq marks rfl
    have hr := hadd.findMethod id initializerName
    unfold callPlan callRule
    simp only [h.store.classArity, hid]
    split
    · generalize (m.store.addInstance ⟨id, ∅⟩).2 = store at *
      generalize (m'.store.addInstance ⟨id, ∅⟩).2 = store' at *
      generalize store.findMethod id initializerName = o at hr
      generalize store'.findMethod id initializerName = o' at hr
      cases hr with
      | none =>
        exact .finish (.done .rfl hkept ⟨hadd, h.environment, h.depth, h.output⟩)
      | @some f f' hf =>
        obtain ⟨marks₁, hkept', hstore, hobject⟩ := hadd.bindMethod hf (m.store.addInstance ⟨id, ∅⟩).1
        refine .start (hkept.trans hkept') ⟨hstore, h.environment, h.depth, h.output⟩
          (.enter hobject arguments line) fun a a' m₁ m₁' marks₂ _ _ _ h₁ => ?_
        exact .finish (.value h₁ _)
    · exact .finish (.fault h _ _)
  | _ => exact .finish (.fault h _ _)

theorem FunctionObject.renames_result {f f' : FunctionObject}
    (hf : f.Renames ρ s.distance? m.store marks [] f') (h : m.Renames ρ s.distance? marks m')
    (completion : Completion) :
    (f.result completion m).Renames ρ s.distance? marks m.store (f'.result completion m') := by
  obtain ⟨flags, -, hd⟩ := hf.declaration
  unfold result
  rw [hf.isInitializer, hf.closure, h.store.getAt_keyword _ _ ρ.swap_this, hd.name_eq]
  split
  · cases m.store.getAt f.closure 0 "this" with
    | some this => exact .value h this
    | none => exact .fault h _ _
  · cases completion with
    | normal => exact .value h _
    | returned value => exact .value h value

theorem FunctionObject.renames_plan {f f' : FunctionObject} (arguments : List Value) (line : Nat)
    (hf : f.Renames ρ s.distance? m.store marks [] f') (h : m.Renames ρ s.distance? marks m') :
    (f.plan s arguments line m).Renames ρ s.distance? (scoping vs s) marks m.store
      (f'.plan s arguments line m') := by
  obtain ⟨flags, hm, hd⟩ := hf.declaration
  have hclosure : f'.closure = f.closure := hf.closure
  unfold FunctionObject.plan FunctionObject.rule FunctionObject.inside
  rw [h.depth, h.environment, hclosure]
  split
  · exact .finish (.fault h _ _)
  · cases hdecl : f.declaration with
    | mk name params body =>
      rw [hdecl] at hd
      generalize hdecl' : f'.declaration = declaration' at hd
      cases hd with
      | @mk _ renamed _ _ _ body' hb =>
        let parameters := (params.map Name.text).zip arguments
        have hparams : ((params.map (ρ.name renamed)).map Name.text).zip arguments =
            parameters.map fun e => (ρ.swap renamed e.1, e.2) := by
          simp only [parameters, List.map_map, List.zip_map_left, List.map_map]
          rfl
        have hbind : (Bindings.ofList parameters).Renames ρ renamed
            (.ofList (((params.map (ρ.name renamed)).map Name.text).zip arguments)) := by
          rw [hparams]
          exact .ofList parameters
        have hin := h.enter hbind f.closure 1
        have hkept := Marks.Extends.addFrame m.store marks ⟨.ofList parameters, some f.closure⟩ renamed
        refine .start hkept hin (.executeAll (hm.addFrame _ renamed) hb)
          fun a a' m₁ m₁' marks₁ hdone ha he h₁ => ?_
        obtain rfl := eq_of_heq ha
        have hleft := h₁.apply (.leave m.environment 1)
        have hf₁ : f.Renames ρ s.distance? (m₁.leave m.environment 1).store marks₁ [] f' :=
          hf.extend (hkept.trans he)
        exact .finish (renames_result hf₁ hleft a)

theorem printValue_renames (h : m.Renames ρ s.distance? marks m') (value : Value) :
    (printValue s value m).Renames ρ s.distance? marks m.store (printValue s value m') := by
  have hprinted : m'.printed value = m.printed value := by
    rw [Machine.printed, h.output, h.store.display, Machine.printed]
  unfold printValue
  rw [hprinted]
  cases s.writeFailure (m.printed value) with
  | some message => exact .failed _ (.refl _ _) h
  | none => exact .done .rfl (.refl _ _) ⟨h.store, h.environment, h.depth, rfl⟩

/-- The line on which a superclass is reported stays. -/
theorem superclassName_rename (name : Name) (e : Expr NodeId) :
    (superclassName name (e.rename ρ distance? flags)).line = (superclassName name e).line := by
  cases e <;> rw [Expr.rename] <;> rfl

theorem Stmt.renames_plan {statement statement' : Stmt NodeId}
    (hs : statement.Renames ρ s.distance? flags statement') (h : m.Renames ρ s.distance? marks m')
    (hm : m.store.Marked marks m.environment flags) :
    (statement.plan s m).Renames ρ s.distance? (scoping vs s) marks m.store
      (statement'.plan s m') := by
  cases hs with
  | expression e =>
    refine .start (.refl _ _) h (.evaluate hm e) fun a a' m₁ m₁' marks₁ hd ha he h₁ => ?_
    exact .finish (.value h₁ _)
  | print e =>
    refine .start (.refl _ _) h (.evaluate hm e) fun a a' m₁ m₁' marks₁ hd ha he h₁ => ?_
    obtain rfl := eq_of_heq ha
    exact .finish (printValue_renames h₁ a)
  | var name initializer =>
    have hdefine {m m' : Machine} {marks : Marks} (h : m.Renames ρ s.distance? marks m')
        (hm : m.store.Marked marks m.environment flags) (value : Value) :
        Outcome.Renames ρ s.distance? marks m.store
          (.done Completion.normal (m.define name.text value))
          (.done Completion.normal
            (m'.define (ρ.name (flagAt flags (some 0)) name).text value)) :=
      .done .rfl (.define _ _ _ _ _) (h.define hm name.text value)
    cases initializer with
    | none => exact .finish (hdefine h hm .nil)
    | some e =>
      refine .start (.refl _ _) h (.evaluate hm e) fun a a' m₁ m₁' marks₁ hd ha he h₁ => ?_
      obtain rfl := eq_of_heq ha
      exact .finish (hdefine h₁ (hd.1.marked he hm) a)
  | block renamed hb =>
    unfold plan rule
    rw [h.environment]
    have hempty : (∅ : Bindings Value).Renames ρ renamed ∅ := .empty
    have hin := h.enter hempty m.environment 0
    have hkept := Marks.Extends.addFrame m.store marks ⟨∅, some m.environment⟩ renamed
    refine .start hkept hin (.executeAll (hm.addFrame _ renamed) hb)
      fun a a' m₁ m₁' marks₁ hdone ha he h₁ => ?_
    obtain rfl := eq_of_heq ha
    have hleft := h₁.apply (.leave m.environment 0)
    exact .finish (.done .rfl (.refl _ _) hleft)
  | ifThen condition hb =>
    refine .start (.refl _ _) h (.evaluate hm condition) fun a a' m₁ m₁' marks₁ hd ha he h₁ => ?_
    obtain rfl := eq_of_heq ha
    split
    · exact .delegate h₁ (.execute (hd.1.marked he hm) hb)
    · exact .finish (.value h₁ _)
  | ifElse condition hb helse =>
    refine .start (.refl _ _) h (.evaluate hm condition) fun a a' m₁ m₁' marks₁ hd ha he h₁ => ?_
    obtain rfl := eq_of_heq ha
    split
    · exact .delegate h₁ (.execute (hd.1.marked he hm) hb)
    · exact .delegate h₁ (.execute (hd.1.marked he hm) helse)
  | «while» condition hb => exact .delegate h (.loop hm condition hb)
  | function hn hf =>
    obtain ⟨hkept, hdecl⟩ := h.declareFunction hm hn hf
    exact .finish (.done .rfl hkept hdecl)
  | «return» keyword value =>
    cases value with
    | none => exact .finish (.value h _)
    | some e =>
      refine .start (.refl _ _) h (.evaluate hm e) fun a a' m₁ m₁' marks₁ hd ha he h₁ => ?_
      obtain rfl := eq_of_heq ha
      exact .finish (.value h₁ _)
  | «class» name superclass hn hmethods =>
    cases superclass with
    | none =>
      obtain ⟨marks₁, hkept, hdecl⟩ := h.declareClass hm none hn hmethods
      exact .finish (.done .rfl hkept hdecl)
    | some e =>
      refine .start (.refl _ _) h (.evaluate hm e) fun a a' m₁ m₁' marks₁ hd ha he h₁ => ?_
      obtain rfl := eq_of_heq ha
      cases a with
      | «class» c =>
        obtain ⟨marks₂, hkept, hdecl⟩ :=
          h₁.declareClass (hd.1.marked he hm) (some c) hn hmethods
        exact .finish (.done .rfl hkept hdecl)
      | _ =>
        simp only [superclassName_rename]
        exact .finish (.fault h₁ _ _)

theorem Stmt.renames_planAll {statements statements' : List (Stmt NodeId)}
    (hs : Stmt.RenamesAll ρ s.distance? flags statements statements')
    (h : m.Renames ρ s.distance? marks m') (hm : m.store.Marked marks m.environment flags) :
    (Stmt.planAll statements m).Renames ρ s.distance? (scoping vs s) marks m.store
      (Stmt.planAll statements' m') := by
  cases hs with
  | nil => exact .finish (.value h _)
  | cons hfirst hrest =>
    refine .start (.refl _ _) h (.execute hm hfirst) fun a a' m₁ m₁' marks₁ hd ha he h₁ => ?_
    obtain rfl := eq_of_heq ha
    cases a with
    | normal => exact .delegate h₁ (.executeAll (hd.1.marked he hm) hrest)
    | returned value => exact .finish (.value h₁ _)

theorem Stmt.renames_loopPlan (condition : Expr NodeId) {body body' : Stmt NodeId}
    (hb : body.Renames ρ s.distance? flags body') (h : m.Renames ρ s.distance? marks m')
    (hm : m.store.Marked marks m.environment flags) :
    (Stmt.loopPlan condition body m).Renames ρ s.distance? (scoping vs s) marks m.store
      (Stmt.loopPlan (condition.rename ρ s.distance? flags) body' m') := by
  refine .start (.refl _ _) h (.evaluate hm condition) fun a a' m₁ m₁' marks₁ hd ha he h₁ => ?_
  obtain rfl := eq_of_heq ha
  have hm₁ := hd.1.marked he hm
  split
  · refine .start (.refl _ _) h₁ (.execute hm₁ hb) fun b b' m₂ m₂' marks₂ hd hb' he h₂ => ?_
    obtain rfl := eq_of_heq hb'
    cases b with
    | normal => exact .delegate h₂ (.loop (hd.1.marked he hm₁) condition hb)
    | returned value => exact .finish (.value h₂ _)
  · exact .finish (.value h₁ _)

/-- The plans of related tasks are related. -/
theorem Task.renames_plan (hk : s.Knows vs) {t t' : Task} (hpre : (scoping vs s).pre t m)
    (h : m.Renames ρ s.distance? marks m') (ht : t.Renames ρ s.distance? marks m t') :
    (t.plan s m).Renames ρ s.distance? (scoping vs s) marks m.store (t'.plan s m') := by
  obtain ⟨hw, hin⟩ := hpre
  cases ht with
  | evaluate hm e => exact e.renames_plan hk hw hin h hm
  | evaluateAll hm es => exact Expr.renames_planAll es h hm
  | call callee arguments line => exact callee.renames_callPlan arguments line h
  | enter hf arguments line => exact FunctionObject.renames_plan arguments line hf h
  | execute hm hs => exact Stmt.renames_plan hs h hm
  | executeAll hm hs => exact Stmt.renames_planAll hs h hm
  | loop hm condition hb => exact Stmt.renames_loopPlan condition hb h hm

/-- Related tasks run in lockstep. -/
theorem Task.run_renames (hk : s.Knows vs) (n : Nat) {t t' : Task} {marks : Marks}
    {m m' : Machine} (hpre : (scoping vs s).pre t m) (h : m.Renames ρ s.distance? marks m')
    (ht : t.Renames ρ s.distance? marks m t') :
    (t.run n s m).Renames ρ s.distance? marks m.store (t'.run n s m') := by
  induction n generalizing t t' marks m m' with
  | zero =>
    rw [Task.run_zero, Task.run_zero]
    exact .outOfFuel
  | succ n ih =>
    rw [Task.run_succ, Task.run_succ]
    have hplan := Task.renames_plan hk hpre h ht
    exact hplan.run (fun t t' m m' marks hpre h ht => ih hpre h ht)
      (fun t m hpre => (scoping_kept hk).run n hpre) (scoping_kept hk t m hpre)

end

end

end Lox
