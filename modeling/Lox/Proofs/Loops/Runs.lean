import Lox.Proofs.Evaluation.Plans
import Lox.Proofs.Loops.Stores

/-!
# Two runs in other frames

Code runs in lockstep with a copy of it at another place: the copy has other nodes, whose distances lead to the
frames that stand for those of the first run. The two runs start the same tasks, print the same, and
end in the same way, with the same values. The proof follows the plans of the evaluator: one lemma for each of its
functions relates the plans of two tasks (`Plan.Mirrors`).

* `Machine.After`: what two runs have in common with the states in which they started;
* `Task.Mirrors`, `Outcome.Mirrors`: which tasks and which outcomes are related;
* `Expr.mirrors_plan` and others: the plans of related tasks are related;
* `Task.run_mirrors`: so are their runs, with the same fuel.
-/

namespace Lox

/-- The same setting, but for the distances of nodes. -/
def Setting.withDistances (s : Setting) (distance? : NodeId → Option Nat) : Setting :=
  { s with distance? }

/-! ## Related states, tasks and outcomes -/

/-- Which distances lead to paired frames, seen from the current frames. -/
abbrev Machine.alignment (β : Pairing) (m m' : Machine) : Alignment :=
  m.store.alignment β m'.store m.environment m'.environment

section

variable (D E : NodeId → Option Nat)

/-- The stores mirror each other, and the same was printed in as many calls. -/
structure Machine.Mirrors (β : Pairing) (m m' : Machine) : Prop where
  store : m.store.Mirrors D E β m'.store
  depth : m'.depth = m.depth
  output : m'.output = m.output

/-- Two later states that mirror each other, with the pairs as before, each in the frame in which
it was. -/
structure Machine.After (β : Pairing) (m m' : Machine) (β₁ : Pairing) (m₁ m₁' : Machine) : Prop where
  pairing : Pairing.Extends m.store m'.store β m₁.store m₁'.store β₁
  mirrors : m₁.Mirrors D E β₁ m₁'
  left : m₁.environment = m.environment
  right : m₁'.environment = m'.environment

/-- The second task is the first one with other nodes, whose names lead to paired frames. -/
inductive Task.Mirrors (β : Pairing) (m m' : Machine) : Task → Task → Prop
  | evaluate (φ : NodeId → NodeId) (e : Expr NodeId)
    (he : Reference.AlignedAll D (E ∘ φ) (m.alignment β m') e.references) :
    Mirrors β m m' (.evaluate e) (.evaluate (e.recode ⟨φ, id⟩))
  | evaluateAll (φ : NodeId → NodeId) (es : List (Expr NodeId))
    (he : Reference.AlignedAll D (E ∘ φ) (m.alignment β m') (Expr.referencesAll es)) :
    Mirrors β m m' (.evaluateAll es) (.evaluateAll (Expr.recodeAll ⟨φ, id⟩ es))
  | call (callee : Value) (arguments : List Value) (line : Nat) :
    Mirrors β m m' (.call callee arguments line) (.call callee arguments line)
  | enter {f f' : FunctionObject} (hf : f.Mirrors D E m.store m'.store β false f')
    (arguments : List Value) (line : Nat) :
    Mirrors β m m' (.enter f arguments line) (.enter f' arguments line)
  | execute (φ : NodeId → NodeId) (statement : Stmt NodeId)
    (hs : statement.Aligned D (E ∘ φ) (m.alignment β m')) :
    Mirrors β m m' (.execute statement) (.execute (statement.recode ⟨φ, id⟩))
  | executeAll (φ : NodeId → NodeId) (statements : List (Stmt NodeId))
    (hs : Stmt.AlignedAll D (E ∘ φ) (m.alignment β m') statements) :
    Mirrors β m m' (.executeAll statements) (.executeAll (Stmt.recodeAll ⟨φ, id⟩ statements))
  | loop (φ : NodeId → NodeId) (condition : Expr NodeId) (body : Stmt NodeId)
    (hc : Reference.AlignedAll D (E ∘ φ) (m.alignment β m') condition.references)
    (hb : body.Aligned D (E ∘ φ) (m.alignment β m')) :
    Mirrors β m m' (.loop condition body)
      (.loop (condition.recode ⟨φ, id⟩) (body.recode ⟨φ, id⟩))

/-- Two runs from these states end in the same way, and in states that mirror each other. -/
inductive Outcome.Mirrors (β : Pairing) (m m' : Machine) {α α' : Type} :
    Outcome α → Outcome α' → Prop
  | done {a : α} {a' : α'} {β₁ : Pairing} {m₁ m₁' : Machine} (ha : HEq a a')
    (h : m.After D E β m' β₁ m₁ m₁') : Mirrors β m m' (.done a m₁) (.done a' m₁')
  | failed {β₁ : Pairing} {m₁ m₁' : Machine} (failure : Failure)
    (h : m.After D E β m' β₁ m₁ m₁') : Mirrors β m m' (.failed failure m₁) (.failed failure m₁')
  | outOfFuel : Mirrors β m m' .outOfFuel .outOfFuel

/-- Each run goes back to the frame from which it came, if it is not still there. -/
inductive Exit.Mirrors (m m' m₁ m₁' : Machine) : Exit → Exit → Prop
  | stay (h : m₁.environment = m.environment) (h' : m₁'.environment = m'.environment) :
    Mirrors m m' m₁ m₁' .stay .stay
  | leave (calls : Nat) :
    Mirrors m m' m₁ m₁' (.leave m.environment calls) (.leave m'.environment calls)
  | leaveLeft (h' : m₁'.environment = m'.environment) :
    Mirrors m m' m₁ m₁' (.leave m.environment 0) .stay
  | leaveRight (h : m₁.environment = m.environment) :
    Mirrors m m' m₁ m₁' .stay (.leave m'.environment 0)

/-- Two plans that end in related outcomes, or that start related tasks and go on with related
plans. -/
inductive Plan.Mirrors {α α' : Type} : Pairing → Machine → Machine → Plan α → Plan α' → Prop
  | finish {β : Pairing} {m m' : Machine} {o : Outcome α} {o' : Outcome α'}
    (h : o.Mirrors D E β m m' o') : Mirrors β m m' (.finish o) (.finish o')
  | start {β β₁ : Pairing} {m m' m₁ m₁' : Machine} {t t' : Task} {exit exit' : Exit}
    {resume : t.Answer → Machine → Plan α} {resume' : t'.Answer → Machine → Plan α'}
    (he : Pairing.Extends m.store m'.store β m₁.store m₁'.store β₁) (hm : m₁.Mirrors D E β₁ m₁')
    (hx : Exit.Mirrors m m' m₁ m₁' exit exit') (ht : t.Mirrors D E β₁ m₁ m₁' t')
    (hresume : ∀ a a' β₂ m₂ m₂', HEq a a' → m₁.After D E β₁ m₁' β₂ m₂ m₂' →
      Mirrors β₂ (exit.apply m₂) (exit'.apply m₂') (resume a (exit.apply m₂))
        (resume' a' (exit'.apply m₂'))) :
    Mirrors β m m' (.start t m₁ exit resume) (.start t' m₁' exit' resume')

end

section

variable {D E : NodeId → Option Nat} {β β₁ β₂ : Pairing} {m m' m₁ m₁' m₂ m₂' : Machine}

namespace Machine.After

theorem refl (h : m.Mirrors D E β m') : m.After D E β m' β m m' := ⟨.refl _ _ _, h, rfl, rfl⟩

theorem trans (h : m.After D E β m' β₁ m₁ m₁') (h' : m₁.After D E β₁ m₁' β₂ m₂ m₂') :
    m.After D E β m' β₂ m₂ m₂' :=
  ⟨h.pairing.trans h'.pairing, h'.mirrors, h'.left.trans h.left, h'.right.trans h.right⟩

/-- What lead to paired frames still does. -/
theorem alignment (h : m.After D E β m' β₁ m₁ m₁') (d d' : Nat) (ha : m.alignment β m' d d') :
    m₁.alignment β₁ m₁' d d' := by
  have ha' := Store.alignment_mono h.pairing d d' ha
  rwa [← h.left, ← h.right] at ha'

end Machine.After

/-- The states in which tasks ended, once their frames are left. -/
theorem Exit.Mirrors.after {exit exit' : Exit} (hx : Exit.Mirrors m m' m₁ m₁' exit exit')
    (he : Pairing.Extends m.store m'.store β m₁.store m₁'.store β₁)
    (h : m₁.After D E β₁ m₁' β₂ m₂ m₂') :
    m.After D E β m' β₂ (exit.apply m₂) (exit'.apply m₂') := by
  cases hx with
  | stay hl hr => exact ⟨he.trans h.pairing, h.mirrors, h.left.trans hl, h.right.trans hr⟩
  | leave calls =>
    refine ⟨he.trans h.pairing, ⟨h.mirrors.store, ?_, h.mirrors.output⟩, rfl, rfl⟩
    exact congrArg (· - calls) h.mirrors.depth
  | leaveLeft hr => exact ⟨he.trans h.pairing, ⟨h.mirrors.store, h.mirrors.depth, h.mirrors.output⟩, rfl,
      h.right.trans hr⟩
  | leaveRight hl => exact ⟨he.trans h.pairing, ⟨h.mirrors.store, h.mirrors.depth, h.mirrors.output⟩,
      h.left.trans hl, rfl⟩

theorem Outcome.Mirrors.since {α α' : Type} {o : Outcome α} {o' : Outcome α'}
    (h : m.After D E β m' β₁ m₁ m₁') (ho : o.Mirrors D E β₁ m₁ m₁' o') : o.Mirrors D E β m m' o' := by
  cases ho with
  | done ha h' => exact .done ha (h.trans h')
  | failed failure h' => exact .failed failure (h.trans h')
  | outOfFuel => exact .outOfFuel

/-- Related plans run to related outcomes, if the tasks that they start do. -/
theorem Plan.Mirrors.run {s s' : Setting} {n : Nat}
    (hrun : ∀ (t t' : Task) (β : Pairing) (m m' : Machine), m.Mirrors D E β m' →
      t.Mirrors D E β m m' t' → (t.run n s m).Mirrors D E β m m' (t'.run n s' m')) {α α' : Type} {p : Plan α} {p' : Plan α'}
    (h : p.Mirrors D E β m m' p') : (p.runWith n s).Mirrors D E β m m' (p'.runWith n s') := by
  induction h with
  | finish h => exact h
  | @start β β₁ m m' m₁ m₁' t t' exit exit' resume resume' he hm hx ht _ ih =>
    have ho := hrun t t' β₁ m₁ m₁' hm ht
    rw [runWith_start, runWith_start]
    generalize t.run n s m₁ = o at ho
    generalize t'.run n s' m₁' = o' at ho
    cases ho with
    | @done a a' β₂ m₂ m₂' ha h => exact (ih a a' β₂ m₂ m₂' ha h).since (hx.after he h)
    | failed failure h => exact .failed failure (hx.after he h)
    | outOfFuel => exact .outOfFuel

/-! ## Outcomes -/

namespace Outcome.Mirrors

variable {α α' : Type}

theorem value (h : m.Mirrors D E β m') (a : α) :
    Outcome.Mirrors D E β m m' (.done a m) (.done a m') :=
  .done .rfl (.refl h)

theorem fault (h : m.Mirrors D E β m') (cause : RuntimeFault) (line : Nat) :
    (m.fault cause line : Outcome α).Mirrors D E β m m' (m'.fault cause line : Outcome α') :=
  .failed _ (.refl h)

theorem settle (h : m.Mirrors D E β m') (line : Nat) (result : Except RuntimeFault Value) :
    (m.settle line result).Mirrors D E β m m' (m'.settle line result) := by
  cases result with
  | ok value => exact .value h value
  | error cause => exact .fault h cause line

end Outcome.Mirrors

namespace Plan.Mirrors

variable {α α' : Type} {t t' : Task} {resume : t.Answer → Machine → Plan α}
  {resume' : t'.Answer → Machine → Plan α'}

/-- Related tasks are started in the current frames. -/
theorem stay (h : m.Mirrors D E β m') (ht : t.Mirrors D E β m m' t')
    (hresume : ∀ a a' β₁ m₁ m₁', HEq a a' → m.After D E β m' β₁ m₁ m₁' →
      Plan.Mirrors D E β₁ m₁ m₁' (resume a m₁) (resume' a' m₁')) :
    Plan.Mirrors D E β m m' (.start t m .stay resume) (.start t' m' .stay resume') :=
  .start (.refl _ _ _) h (.stay rfl rfl) ht hresume

theorem delegate (h : m.Mirrors D E β m') (ht : t.Mirrors D E β m m' t') :
    (Plan.delegate t m).Mirrors D E β m m' (Plan.delegate t' m') :=
  .stay h ht fun _ _ _ _ _ ha h => .finish (.done ha (.refl h.mirrors))

end Plan.Mirrors

/-! ## States -/

namespace Machine.Mirrors

/-- A name is bound in the current frames, which are paired. -/
theorem define (h : m.Mirrors D E β m') (hp : m.alignment β m' 0 0) (name : String) (value : Value) :
    m.After D E β m' β (m.define name value) (m'.define name value) where
  pairing := Store.Mirrors.extends_define _ _ _ _
  mirrors := ⟨h.store.define (Store.alignment_zero.mp hp) name value, h.depth, h.output⟩
  left := rfl
  right := rfl

/-- New frames with the same bindings are paired. -/
theorem enter (h : m.Mirrors D E β m') (bindings : Bindings Value) (enclosing enclosing' : FrameId)
    (calls : Nat) :
    let m₁ := m.enter bindings enclosing calls
    let m₁' := m'.enter bindings enclosing' calls
    let β₁ := β.pair m₁.environment m₁'.environment
    Pairing.Extends m.store m'.store β m₁.store m₁'.store β₁ ∧ m₁.Mirrors D E β₁ m₁' ∧
      ∀ d d', (m.store.alignment β m'.store enclosing enclosing').push d d' → m₁.alignment β₁ m₁' d d' := by
  intro m₁ m₁' β₁
  have he := h.store.extends_addFrame ⟨bindings, some enclosing⟩ ⟨bindings, some enclosing'⟩
  refine ⟨he, ⟨h.store.addFrame bindings _ _, congrArg (· + calls) h.depth, h.output⟩, fun d d' hp => ?_⟩
  refine Store.alignment_push (Store.enclosing?_addFrame_self _ _) (Store.enclosing?_addFrame_self _ _)
    (β.pair_self _ _) d d' ?_
  exact Alignment.push_mono (Store.alignment_mono he) d d' hp

/-- A function is declared in paired frames. -/
theorem declareFunction (h : m.Mirrors D E β m') (hp : m.alignment β m' 0 0) {φ : NodeId → NodeId}
    {f : FunDecl NodeId} (hf : f.Aligned D (E ∘ φ) (m.alignment β m')) :
    m.After D E β m' β (Lox.declareFunction f m) (Lox.declareFunction (f.recode ⟨φ, id⟩) m') := by
  let object : FunctionObject := ⟨f, m.environment, false⟩
  let object' : FunctionObject := ⟨f.recode ⟨φ, id⟩, m'.environment, false⟩
  let m₁ : Machine := { m with store := (m.store.addFunction object).2 }
  let m₁' : Machine := { m' with store := (m'.store.addFunction object').2 }
  have hobject : object.Mirrors D E m.store m'.store β false object' :=
    ⟨Store.alignment_zero.mp hp, rfl, φ, rfl, hf⟩
  have hadd : m.After D E β m' β m₁ m₁' :=
    ⟨.of_frames_eq β rfl rfl, ⟨h.store.addFunction hobject, h.depth, h.output⟩, rfl, rfl⟩
  have hdef := hadd.mirrors.define (hadd.alignment 0 0 hp) f.name.text
    (.function ⟨m.store.functions.size⟩)
  have hrun : Lox.declareFunction (f.recode ⟨φ, id⟩) m' =
      m₁'.define f.name.text (.function ⟨m.store.functions.size⟩) := by
    rw [Lox.declareFunction, FunDecl.name_recode, ← h.store.numFunctions]
    rfl
  rw [hrun]
  exact hadd.trans hdef

/-- A class is declared in paired frames. -/
theorem declareClass (h : m.Mirrors D E β m') (hp : m.alignment β m' 0 0) {φ : NodeId → NodeId}
    (name : Name) (superclass : Option ClassId) {methods : List (FunDecl NodeId)}
    (hm : FunDecl.AlignedAll D (E ∘ φ) ((m.alignment β m').pushIf superclass.isSome).push methods) :
    ∃ β₁, m.After D E β m' β₁ (Lox.declareClass name superclass methods m)
      (Lox.declareClass name superclass (FunDecl.recodeAll ⟨φ, id⟩ methods) m') := by
  have hnil := h.define hp name.text .nil
  have hp₁ := hnil.alignment 0 0 hp
  -- the class is added and bound to its name, wherever its methods are closed
  have hclass {β₁ : Pairing} {m₁ m₁' : Machine} (h₁ : m.After D E β m' β₁ m₁ m₁') {c c' : ClassObject}
      (hc : c.Mirrors D E m₁.store m₁'.store β₁ c') :
      m.After D E β m' β₁ ({ m₁ with store := (m₁.store.addClass c).2 }.define name.text
          (.class (m₁.store.addClass c).1))
        ({ m₁' with store := (m₁'.store.addClass c').2 }.define name.text
          (.class (m₁'.store.addClass c').1)) := by
    have hid : (m₁'.store.addClass c').1 = (m₁.store.addClass c).1 :=
      congrArg ClassId.mk h₁.mirrors.store.numClasses
    have hadd : m₁.After D E β₁ m₁' β₁ { m₁ with store := (m₁.store.addClass c).2 }
        { m₁' with store := (m₁'.store.addClass c').2 } :=
      ⟨.of_frames_eq β₁ rfl rfl,
        ⟨h₁.mirrors.store.addClass hc, h₁.mirrors.depth, h₁.mirrors.output⟩, rfl, rfl⟩
    rw [hid]
    exact (h₁.trans hadd).trans (hadd.mirrors.define ((h₁.trans hadd).alignment 0 0 hp) _ _)
  cases superclass with
  | none =>
    refine ⟨β, hclass hnil ⟨rfl, rfl, ?_⟩⟩
    exact FunDecl.AlignedAll.methodTable (Store.alignment_zero.mp hp₁) hnil.alignment hm
  | some c =>
    let bindings : Bindings Value := (∅ : Bindings Value).insert "super" (.class c)
    let frame : Frame := ⟨bindings, some m.environment⟩
    let frame' : Frame := ⟨bindings, some m'.environment⟩
    have he := hnil.mirrors.store.extends_addFrame frame frame'
    have hframe : m.After D E β m' _
        { m.define name.text .nil with store := ((m.define name.text .nil).store.addFrame frame).2 }
        { m'.define name.text .nil with store := ((m'.define name.text .nil).store.addFrame frame').2 } :=
      ⟨hnil.pairing.trans he, ⟨hnil.mirrors.store.addFrame bindings _ _, hnil.mirrors.depth,
        hnil.mirrors.output⟩, rfl, rfl⟩
    refine ⟨_, hclass hframe ⟨rfl, rfl, ?_⟩⟩
    refine FunDecl.AlignedAll.methodTable (Pairing.pair_self _ _ _) (fun d d' hd => ?_) hm
    refine Store.alignment_push (Store.enclosing?_addFrame_self _ _)
      (Store.enclosing?_addFrame_self _ _) (Pairing.pair_self _ _ _) d d' ?_
    exact Alignment.push_mono (Store.alignment_mono (hnil.pairing.trans he)) d d' hd

end Machine.Mirrors

/-! ## Methods -/

/-- A method of an instance as a value. -/
theorem bound_mirrors (h : m.Mirrors D E β m') {f f' : FunctionObject}
    (hf : f.Mirrors D E m.store m'.store β true f') (receiver : InstanceId) :
    (bound f receiver m).Mirrors D E β m m' (bound f' receiver m') := by
  obtain ⟨β₁, he, hstore, hobject⟩ := h.store.bindMethod hf receiver
  have hid : ((m'.store.bindMethod f' receiver).2.addFunction (m'.store.bindMethod f' receiver).1).1 =
      ((m.store.bindMethod f receiver).2.addFunction (m.store.bindMethod f receiver).1).1 :=
    congrArg FunctionId.mk hstore.numFunctions
  unfold bound
  dsimp only
  rw [hid]
  refine .done .rfl ⟨he.trans (.of_frames_eq β₁ rfl rfl), ?_, rfl, rfl⟩
  exact ⟨hstore.addFunction hobject, h.depth, h.output⟩

theorem readProperty_mirrors (h : m.Mirrors D E β m') (object : Value) (name : Name) :
    (readProperty object name m).Mirrors D E β m m' (readProperty object name m') := by
  cases object with
  | «instance» id =>
    unfold readProperty
    dsimp only
    rw [Store.instance?, Store.instance?, h.store.instances]
    cases m.store.instances[id.index]? with
    | none => exact .fault h _ _
    | some i =>
      dsimp only
      cases i.fields.get? name.text with
      | some value => exact .value h value
      | none =>
        dsimp only
        have hr := h.store.findMethod i.class name.text
        generalize m.store.findMethod i.class name.text = o at hr
        generalize m'.store.findMethod i.class name.text = o' at hr
        cases hr with
        | none => exact .fault h _ _
        | some hf => exact bound_mirrors h hf id
  | _ => exact .fault h _ _

/-! ## Names -/

section

variable {kind : ReferenceKind} {φ : NodeId → NodeId} {node : NodeId} {name keyword method : Name} {s : Setting}

theorem readVariable_mirrors (h : m.Mirrors s.distance? E β m')
    (hr : Reference.Aligned s.distance? (E ∘ φ) (m.alignment β m') ⟨kind, node, name⟩) :
    (readVariable s node name m).Mirrors s.distance? E β m m'
      (readVariable (s.withDistances E) (φ node) name m') := by
  unfold Reference.Aligned at hr
  unfold readVariable Setting.withDistances
  dsimp only [Function.comp_apply] at hr ⊢
  generalize s.distance? node = o, E (φ node) = o' at hr
  cases hr with
  | none =>
    dsimp only
    rw [h.store.get_globals]
    cases m.store.get .globals name.text with
    | none => exact .fault h _ _
    | some value => exact .value h value
  | some hd =>
    dsimp only
    rw [h.store.getAt hd.1]
    cases m.store.getAt m.environment _ name.text with
    | none => exact .fault h _ _
    | some value => exact .value h value

/-- The frames in which a name is written are paired. -/
theorem define_mirrors (h : m.Mirrors s.distance? E β m') {f f' : FrameId} (hp : β f = some f')
    (text : String) (value : Value) :
    Outcome.Mirrors s.distance? E β m m' (.done value { m with store := m.store.define f text value })
      (.done value { m' with store := m'.store.define f' text value }) :=
  .done .rfl ⟨Store.Mirrors.extends_define _ _ _ _, ⟨h.store.define hp text value, h.depth, h.output⟩,
    rfl, rfl⟩

theorem writeVariable_mirrors (h : m.Mirrors s.distance? E β m')
    (hr : Reference.Aligned s.distance? (E ∘ φ) (m.alignment β m') ⟨kind, node, name⟩)
    (value : Value) :
    (writeVariable s node name value m).Mirrors s.distance? E β m m'
      (writeVariable (s.withDistances E) (φ node) name value m') := by
  unfold Reference.Aligned at hr
  unfold writeVariable Setting.withDistances
  dsimp only [Function.comp_apply] at hr ⊢
  generalize s.distance? node = o, E (φ node) = o' at hr
  cases hr with
  | none =>
    dsimp only
    rw [h.store.binder?_globals, Store.binder?_of_enclosing?_eq_none h.store.rootLeft]
    by_cases hown : (m.store.own? .globals name.text).isSome
    · rw [if_pos hown]
      exact define_mirrors h h.store.globals _ _
    · rw [if_neg hown]
      exact .fault h _ _
  | some hd =>
    obtain ⟨g, g', hg, hg', hp⟩ := hd.1
    dsimp only
    rw [hg, hg']
    exact define_mirrors h hp _ _

theorem readSuper_mirrors (h : m.Mirrors s.distance? E β m')
    (hr : Reference.Aligned s.distance? (E ∘ φ) (m.alignment β m') ⟨.super, node, keyword⟩) :
    (readSuper s node keyword method m).Mirrors s.distance? E β m m'
      (readSuper (s.withDistances E) (φ node) keyword method m') := by
  unfold Reference.Aligned at hr
  unfold readSuper Setting.withDistances
  dsimp only [Function.comp_apply] at hr ⊢
  generalize s.distance? node = o, E (φ node) = o' at hr
  cases hr with
  | none => exact .fault h _ _
  | some hd =>
    dsimp only
    rw [h.store.getAt hd.1, h.store.getAt (hd.2 rfl)]
    cases m.store.getAt m.environment _ keyword.text with
    | none => exact .fault h _ _
    | some superclass =>
      cases m.store.getAt m.environment _ "this" with
      | none => exact .fault h _ _
      | some receiver =>
        cases superclass with
        | «class» c =>
          cases receiver with
          | «instance» i =>
            dsimp only
            have hm := h.store.findMethod c method.text
            generalize m.store.findMethod c method.text = o at hm
            generalize m'.store.findMethod c method.text = o' at hm
            cases hm with
            | none => exact .fault h _ _
            | some hf => exact bound_mirrors h hf i
          | _ => exact .fault h _ _
        | _ => exact .fault h _ _

end

/-! ## Plans -/

section

variable {s : Setting} {φ : NodeId → NodeId}

theorem Expr.mirrors_plan (e : Expr NodeId) (h : m.Mirrors s.distance? E β m')
    (ha : Reference.AlignedAll s.distance? (E ∘ φ) (m.alignment β m') e.references) :
    (e.plan s m).Mirrors s.distance? E β m m' ((e.recode ⟨φ, id⟩).plan (s.withDistances E) m') := by
  cases e with
  | literal value =>
    rw [Expr.recode]
    exact .finish (.value h _)
  | group inner =>
    rw [Expr.recode]
    exact .delegate h (.evaluate φ inner ha)
  | unary operator right =>
    rw [Expr.recode]
    refine .stay h (.evaluate φ right ha) fun a a' β₁ m₁ m₁' haa h₁ => ?_
    obtain rfl := eq_of_heq haa
    exact .finish (.settle h₁.mirrors _ _)
  | binary left operator right =>
    rw [Expr.recode]
    rw [Expr.references, Reference.AlignedAll, List.forall_mem_append] at ha
    refine .stay h (.evaluate φ left ha.1) fun a a' β₁ m₁ m₁' haa h₁ => ?_
    obtain rfl := eq_of_heq haa
    have hright := Reference.AlignedAll.mono h₁.alignment ha.2
    refine .stay h₁.mirrors (.evaluate φ right hright) fun b b' β₂ m₂ m₂' hbb h₂ => ?_
    obtain rfl := eq_of_heq hbb
    exact .finish (.settle h₂.mirrors _ _)
  | logical left operator right =>
    rw [Expr.recode]
    rw [Expr.references, Reference.AlignedAll, List.forall_mem_append] at ha
    refine .stay h (.evaluate φ left ha.1) fun a a' β₁ m₁ m₁' haa h₁ => ?_
    obtain rfl := eq_of_heq haa
    have hsettles : settles (operator.relocate id) a = settles operator a := rfl
    rw [hsettles]
    split
    · exact .finish (.value h₁.mirrors a)
    · exact .delegate h₁.mirrors (.evaluate φ right (Reference.AlignedAll.mono h₁.alignment ha.2))
  | «variable» node name =>
    rw [Expr.recode]
    exact .finish (readVariable_mirrors h (ha _ (List.mem_singleton_self _)))
  | assign node name value =>
    rw [Expr.recode]
    rw [Expr.references, Reference.AlignedAll, List.forall_mem_cons] at ha
    refine .stay h (.evaluate φ value ha.2) fun a a' β₁ m₁ m₁' haa h₁ => ?_
    obtain rfl := eq_of_heq haa
    have hr : Reference.AlignedAll s.distance? (E ∘ φ) (m₁.alignment β₁ m₁') [⟨.assign, node, name⟩] :=
      Reference.AlignedAll.mono h₁.alignment (List.forall_mem_singleton.mpr ha.1)
    exact .finish (writeVariable_mirrors h₁.mirrors (hr _ (List.mem_singleton_self _)) a)
  | call callee line arguments =>
    rw [Expr.recode]
    rw [Expr.references, Reference.AlignedAll, List.forall_mem_append] at ha
    refine .stay h (.evaluate φ callee ha.1) fun a a' β₁ m₁ m₁' haa h₁ => ?_
    obtain rfl := eq_of_heq haa
    have harguments := Reference.AlignedAll.mono h₁.alignment ha.2
    refine .stay h₁.mirrors (.evaluateAll φ arguments harguments) fun as as' β₂ m₂ m₂' has h₂ => ?_
    obtain rfl := eq_of_heq has
    exact .delegate h₂.mirrors (.call a as line)
  | get object name =>
    rw [Expr.recode]
    refine .stay h (.evaluate φ object ha) fun a a' β₁ m₁ m₁' haa h₁ => ?_
    obtain rfl := eq_of_heq haa
    exact .finish (readProperty_mirrors h₁.mirrors a name)
  | set object name value =>
    rw [Expr.recode]
    rw [Expr.references, Reference.AlignedAll, List.forall_mem_append] at ha
    refine .stay h (.evaluate φ object ha.1) fun a a' β₁ m₁ m₁' haa h₁ => ?_
    obtain rfl := eq_of_heq haa
    cases a with
    | «instance» i =>
      have hvalue := Reference.AlignedAll.mono h₁.alignment ha.2
      refine .stay h₁.mirrors (.evaluate φ value hvalue) fun b b' β₂ m₂ m₂' hbb h₂ => ?_
      obtain rfl := eq_of_heq hbb
      refine .finish (.done .rfl ⟨.of_frames_eq β₂ rfl rfl, ?_, rfl, rfl⟩)
      exact ⟨h₂.mirrors.store.setField i name.text b, h₂.mirrors.depth, h₂.mirrors.output⟩
    | _ => exact .finish (.fault h₁.mirrors _ _)
  | this node keyword =>
    rw [Expr.recode]
    exact .finish (readVariable_mirrors h (ha _ (List.mem_singleton_self _)))
  | super node keyword method =>
    rw [Expr.recode]
    exact .finish (readSuper_mirrors h (ha _ (List.mem_singleton_self _)))

theorem Expr.mirrors_planAll (es : List (Expr NodeId)) (h : m.Mirrors s.distance? E β m')
    (ha : Reference.AlignedAll s.distance? (E ∘ φ) (m.alignment β m') (Expr.referencesAll es)) :
    (Expr.planAll es m).Mirrors s.distance? E β m m'
      (Expr.planAll (Expr.recodeAll ⟨φ, id⟩ es) m') := by
  cases es with
  | nil =>
    rw [Expr.recodeAll]
    exact .finish (.value h _)
  | cons e es =>
    rw [Expr.recodeAll]
    rw [Expr.referencesAll, Reference.AlignedAll, List.forall_mem_append] at ha
    refine .stay h (.evaluate φ e ha.1) fun a a' β₁ m₁ m₁' haa h₁ => ?_
    obtain rfl := eq_of_heq haa
    have hes := Reference.AlignedAll.mono h₁.alignment ha.2
    refine .stay h₁.mirrors (.evaluateAll φ es hes) fun as as' β₂ m₂ m₂' has h₂ => ?_
    obtain rfl := eq_of_heq has
    exact .finish (.value h₂.mirrors _)

theorem Value.mirrors_callPlan (callee : Value) (arguments : List Value) (line : Nat)
    (h : m.Mirrors D E β m') :
    (callee.callPlan arguments line m).Mirrors D E β m m' (callee.callPlan arguments line m') := by
  cases callee with
  | function id =>
    have hr := h.store.function id
    unfold callPlan callRule
    dsimp only
    generalize m.store.function? id = o at hr
    generalize m'.store.function? id = o' at hr
    cases hr with
    | none => exact .finish (.fault h _ _)
    | some hf =>
      dsimp only
      rw [hf.params_eq]
      split
      · exact .delegate h (.enter hf arguments line)
      · exact .finish (.fault h _ _)
  | «class» id =>
    obtain ⟨hid, hadd⟩ := h.store.addInstance ⟨id, ∅⟩
    have hkept : Pairing.Extends m.store m'.store β (m.store.addInstance ⟨id, ∅⟩).2
        (m'.store.addInstance ⟨id, ∅⟩).2 β := .of_frames_eq β rfl rfl
    have hr := hadd.findMethod id initializerName
    unfold callPlan callRule
    simp only [h.store.classArity, hid]
    split
    · generalize (m.store.addInstance ⟨id, ∅⟩).2 = store at *
      generalize (m'.store.addInstance ⟨id, ∅⟩).2 = store' at *
      generalize store.findMethod id initializerName = o at hr
      generalize store'.findMethod id initializerName = o' at hr
      cases hr with
      | none =>
        exact .finish (.done .rfl ⟨hkept, ⟨hadd, h.depth, h.output⟩, rfl, rfl⟩)
      | some hf =>
        obtain ⟨β₁, he, hstore, hobject⟩ := hadd.bindMethod hf (m.store.addInstance ⟨id, ∅⟩).1
        refine .start (hkept.trans he) ⟨hstore, h.depth, h.output⟩ (.stay rfl rfl)
          (.enter hobject arguments line) fun _ _ _ _ _ _ h₁ => ?_
        exact .finish (.value h₁.mirrors _)
    · exact .finish (.fault h _ _)
  | _ => exact .finish (.fault h _ _)

theorem FunctionObject.mirrors_result {f f' : FunctionObject}
    (hf : f.Mirrors D E m.store m'.store β false f') (h : m.Mirrors D E β m')
    (completion : Completion) :
    (f.result completion m).Mirrors D E β m m' (f'.result completion m') := by
  unfold result
  rw [hf.isInitializer, h.store.getAt (Store.alignment_zero.mpr hf.closure), hf.name_eq]
  split
  · cases m.store.getAt f.closure 0 "this" with
    | some this => exact .value h this
    | none => exact .fault h _ _
  · cases completion with
    | normal => exact .value h _
    | returned value => exact .value h value

theorem FunctionObject.mirrors_plan {f f' : FunctionObject} (arguments : List Value) (line : Nat)
    (hf : f.Mirrors s.distance? E m.store m'.store β false f') (h : m.Mirrors s.distance? E β m') :
    (f.plan s arguments line m).Mirrors s.distance? E β m m'
      (f'.plan (s.withDistances E) arguments line m') := by
  unfold FunctionObject.plan FunctionObject.rule FunctionObject.inside Setting.withDistances
  dsimp only
  rw [h.depth, hf.params_eq]
  split
  · exact .finish (.fault h _ _)
  · obtain ⟨he, hin, halign⟩ :=
      h.enter (.ofList ((f.declaration.params.map Name.text).zip arguments)) f.closure f'.closure 1
    obtain ⟨φ, hd, ha⟩ := hf.declaration
    have hbody : Stmt.AlignedAll s.distance? (E ∘ φ)
        (m.store.alignment β m'.store f.closure f'.closure).push f.declaration.body := by
      cases hdecl : f.declaration with
      | mk name params body =>
        rw [hdecl, FunDecl.Aligned] at ha
        exact ha
    rw [hd, FunDecl.body_recode]
    refine .start he hin (.leave 1) (.executeAll φ _ (hbody.mono halign)) fun a a' β₁ m₁ m₁' haa h₁ => ?_
    obtain rfl := eq_of_heq haa
    have hleft : m.After s.distance? E β m' β₁ (m₁.leave m.environment 1) (m₁'.leave m'.environment 1) :=
      (Exit.Mirrors.leave 1).after he h₁
    exact .finish (mirrors_result (hf.extend hleft.pairing) hleft.mirrors a)

theorem printValue_mirrors (h : m.Mirrors s.distance? E β m') (value : Value) :
    (printValue s value m).Mirrors s.distance? E β m m'
      (printValue (s.withDistances E) value m') := by
  have hprinted : m'.printed value = m.printed value := by
    rw [Machine.printed, h.output, h.store.display, Machine.printed]
  unfold printValue Setting.withDistances
  rw [hprinted]
  dsimp only
  cases s.writeFailure (m.printed value) with
  | some message => exact .failed _ (.refl h)
  | none => exact .done .rfl ⟨.refl _ _ _, ⟨h.store, h.depth, rfl⟩, rfl, rfl⟩

/-- The line on which a superclass is reported stays. -/
theorem line_superclassName_recode (name : Name) (e : Expr NodeId) :
    (superclassName name (e.recode ⟨φ, id⟩)).line = (superclassName name e).line := by
  cases e <;> rw [Expr.recode] <;> rfl

theorem Stmt.mirrors_plan (statement : Stmt NodeId) (h : m.Mirrors s.distance? E β m')
    (ha : statement.Aligned s.distance? (E ∘ φ) (m.alignment β m')) :
    (statement.plan s m).Mirrors s.distance? E β m m'
      ((statement.recode ⟨φ, id⟩).plan (s.withDistances E) m') := by
  cases statement with
  | expression e =>
    rw [Stmt.recode]
    rw [Stmt.Aligned] at ha
    refine .stay h (.evaluate φ e ha) fun a a' β₁ m₁ m₁' _ h₁ => ?_
    exact .finish (.value h₁.mirrors _)
  | print e =>
    rw [Stmt.recode]
    rw [Stmt.Aligned] at ha
    refine .stay h (.evaluate φ e ha) fun a a' β₁ m₁ m₁' haa h₁ => ?_
    obtain rfl := eq_of_heq haa
    exact .finish (printValue_mirrors h₁.mirrors a)
  | var name initializer =>
    rw [Stmt.recode]
    rw [Stmt.Aligned] at ha
    cases initializer with
    | none => exact .finish (.done .rfl (h.define ha.1 name.text .nil))
    | some e =>
      refine .stay h (.evaluate φ e ha.2) fun a a' β₁ m₁ m₁' haa h₁ => ?_
      obtain rfl := eq_of_heq haa
      exact .finish (.done .rfl (h₁.mirrors.define (h₁.alignment 0 0 ha.1) name.text a))
  | block body =>
    rw [Stmt.recode]
    rw [Stmt.Aligned] at ha
    obtain ⟨he, hin, halign⟩ := h.enter ∅ m.environment m'.environment 0
    refine .start he hin (.leave 0) (.executeAll φ body (ha.mono halign)) fun a a' β₁ m₁ m₁' haa h₁ => ?_
    obtain rfl := eq_of_heq haa
    have hleft := (Exit.Mirrors.leave 0).after he h₁
    exact .finish (.value hleft.mirrors a)
  | ifElse condition thenBranch elseBranch =>
    rw [Stmt.recode]
    rw [Stmt.Aligned] at ha
    refine .stay h (.evaluate φ condition ha.1) fun a a' β₁ m₁ m₁' haa h₁ => ?_
    obtain rfl := eq_of_heq haa
    split
    · exact .delegate h₁.mirrors (.execute φ thenBranch (ha.2.1.mono h₁.alignment))
    · cases elseBranch with
      | none =>
        rw [Stmt.recode?]
        exact .finish (.value h₁.mirrors _)
      | some elseBranch =>
        rw [Stmt.recode?]
        have helse := ha.2.2
        rw [Stmt.Aligned?] at helse
        exact .delegate h₁.mirrors (.execute φ elseBranch (helse.mono h₁.alignment))
  | «while» condition body =>
    rw [Stmt.recode]
    rw [Stmt.Aligned] at ha
    exact .delegate h (.loop φ condition body ha.1 ha.2)
  | function declaration =>
    rw [Stmt.recode]
    rw [Stmt.Aligned] at ha
    exact .finish (.done .rfl (h.declareFunction ha.1 ha.2))
  | «return» keyword value =>
    rw [Stmt.recode]
    rw [Stmt.Aligned] at ha
    cases value with
    | none => exact .finish (.value h _)
    | some e =>
      refine .stay h (.evaluate φ e ha) fun a a' β₁ m₁ m₁' haa h₁ => ?_
      obtain rfl := eq_of_heq haa
      exact .finish (.value h₁.mirrors _)
  | «class» name superclass methods =>
    rw [Stmt.recode]
    rw [Stmt.Aligned] at ha
    cases superclass with
    | none =>
      obtain ⟨β₁, hclass⟩ := h.declareClass ha.1 name none ha.2.2
      exact .finish (.done .rfl hclass)
    | some e =>
      refine .stay h (.evaluate φ e ha.2.1) fun a a' β₁ m₁ m₁' haa h₁ => ?_
      obtain rfl := eq_of_heq haa
      cases a with
      | «class» c =>
        obtain ⟨β₂, hclass⟩ := h₁.mirrors.declareClass (h₁.alignment 0 0 ha.1) name (some c)
          (ha.2.2.mono (Alignment.push_mono (Alignment.pushIf_mono h₁.alignment _)))
        exact .finish (.done .rfl hclass)
      | _ =>
        have hline := line_superclassName_recode (φ := φ) name e
        refine .finish ?_
        show Outcome.Mirrors s.distance? E β₁ m₁ m₁' _
          (m₁'.fault .superclassNotClass (superclassName name (e.recode ⟨φ, id⟩)).line)
        rw [hline]
        exact .fault h₁.mirrors _ _

theorem Stmt.mirrors_planAll (statements : List (Stmt NodeId)) (h : m.Mirrors s.distance? E β m')
    (ha : Stmt.AlignedAll s.distance? (E ∘ φ) (m.alignment β m') statements) :
    (Stmt.planAll statements m).Mirrors s.distance? E β m m'
      (Stmt.planAll (Stmt.recodeAll ⟨φ, id⟩ statements) m') := by
  cases statements with
  | nil =>
    rw [Stmt.recodeAll]
    exact .finish (.value h _)
  | cons statement rest =>
    rw [Stmt.recodeAll]
    rw [Stmt.AlignedAll] at ha
    refine .stay h (.execute φ statement ha.1) fun a a' β₁ m₁ m₁' haa h₁ => ?_
    obtain rfl := eq_of_heq haa
    cases a with
    | normal => exact .delegate h₁.mirrors (.executeAll φ rest (ha.2.mono h₁.alignment))
    | returned value => exact .finish (.value h₁.mirrors _)

theorem Stmt.mirrors_loopPlan (condition : Expr NodeId) (body : Stmt NodeId)
    (h : m.Mirrors s.distance? E β m')
    (hc : Reference.AlignedAll s.distance? (E ∘ φ) (m.alignment β m') condition.references)
    (hb : body.Aligned s.distance? (E ∘ φ) (m.alignment β m')) :
    (Stmt.loopPlan condition body m).Mirrors s.distance? E β m m'
      (Stmt.loopPlan (condition.recode ⟨φ, id⟩) (body.recode ⟨φ, id⟩) m') := by
  refine .stay h (.evaluate φ condition hc) fun a a' β₁ m₁ m₁' haa h₁ => ?_
  obtain rfl := eq_of_heq haa
  have hc₁ := Reference.AlignedAll.mono h₁.alignment hc
  have hb₁ := hb.mono h₁.alignment
  split
  · refine .stay h₁.mirrors (.execute φ body hb₁) fun b b' β₂ m₂ m₂' hbb h₂ => ?_
    obtain rfl := eq_of_heq hbb
    cases b with
    | normal =>
      exact .delegate h₂.mirrors (.loop φ condition body (Reference.AlignedAll.mono h₂.alignment hc₁)
        (hb₁.mono h₂.alignment))
    | returned value => exact .finish (.value h₂.mirrors _)
  · exact .finish (.value h₁.mirrors _)

/-- The plans of related tasks are related. -/
theorem Task.mirrors_plan {t t' : Task} (h : m.Mirrors s.distance? E β m')
    (ht : t.Mirrors s.distance? E β m m' t') :
    (t.plan s m).Mirrors s.distance? E β m m' (t'.plan (s.withDistances E) m') := by
  cases ht with
  | evaluate φ e he => exact e.mirrors_plan h he
  | evaluateAll φ es he => exact Expr.mirrors_planAll es h he
  | call callee arguments line => exact callee.mirrors_callPlan arguments line h
  | enter hf arguments line => exact FunctionObject.mirrors_plan arguments line hf h
  | execute φ statement hs => exact statement.mirrors_plan h hs
  | executeAll φ statements hs => exact Stmt.mirrors_planAll statements h hs
  | loop φ condition body hc hb => exact Stmt.mirrors_loopPlan condition body h hc hb

/-- Related tasks run in lockstep. -/
theorem Task.run_mirrors (s : Setting) (n : Nat) {t t' : Task} (h : m.Mirrors s.distance? E β m')
    (ht : t.Mirrors s.distance? E β m m' t') :
    (t.run n s m).Mirrors s.distance? E β m m' (t'.run n (s.withDistances E) m') := by
  induction n generalizing t t' β m m' with
  | zero =>
    rw [Task.run_zero, Task.run_zero]
    exact .outOfFuel
  | succ n ih =>
    rw [Task.run_succ, Task.run_succ]
    exact (Task.mirrors_plan h ht).run fun t t' β m m' h ht => ih h ht

end

end

end Lox
