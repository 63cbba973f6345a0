import Lox.Proofs.Evaluation.Code

/-!
# Disciplines

A discipline asks something of a store, of the values in it, and of the code that
runs in a frame of it. If no single step of the evaluator breaks it
(`Discipline.Lawful`), no run does: it holds of everything that is ever stored, of
every value that a task gives, and of all code in the frame in which it runs.

There is one law for each kind of step. When a subclass is declared, the step may
rely on more than the discipline itself: on what is known of the tasks that occur, and
of the value that the superclass had (`Discipline.declares`).

* `Discipline.Lawful.keptWhere`: every plan keeps a lawful discipline;
* `Discipline.Lawful.evaluate`, `Discipline.Lawful.runStatements`: so every run does;
* `Discipline.Lawful.pre_of_reachesIn`: and every task that a program comes to starts as the
  discipline asks.
-/

namespace Lox

/-! ## What is asked -/

/-- A value that is no object of a store. -/
def Value.IsPlain : Value → Prop
  | .function _ | .class _ | .instance _ => False
  | _ => True

/-- What is asked of a store, of the values in it and of the code that runs in a frame of it. -/
structure Discipline where
  store : Store → Prop
  value : Store → Value → Prop
  code : Store → FrameId → Code → Prop
  /-- How a store may change. -/
  grows : Store → Store → Prop
  /-- What is known when a subclass is declared: its name, the expression for its superclass, its
  methods, the superclass itself, and the store before. -/
  declares : Name → Expr NodeId → List (FunDecl NodeId) → ClassId → Store → Prop

namespace Discipline

/-- A later store that keeps the discipline. -/
structure Keeps (D : Discipline) (s s' : Store) : Prop where
  store : D.store s'
  grows : D.grows s s'

/-- Code can read and write a frame: it lies outward from one in which code runs, or from the
globals. -/
def Sees (D : Discipline) (s : Store) (frame : FrameId) : Prop :=
  ∃ home k, (home = .globals ∨ ∃ c, D.code s home c) ∧ s.ancestor? home k = some frame

/-- The methods of a class can be called: the class is at hand, or one of its instances is. -/
def Offers (D : Discipline) (s : Store) (c : ClassId) : Prop :=
  D.value s (.class c) ∨ ∃ i o, D.value s (.instance i) ∧ s.instance? i = some o ∧ o.class = c

/-- No step of the evaluator breaks the discipline. -/
structure Lawful (D : Discipline) : Prop where
  refl (s : Store) : D.grows s s
  trans {s s' s'' : Store} : D.grows s s' → D.grows s' s'' → D.grows s s''
  value_grows {s s' : Store} {v : Value} : D.grows s s' → D.value s v → D.value s' v
  code_grows {s s' : Store} {f : FrameId} {c : Code} : D.grows s s' → D.code s f c → D.code s' f c
  plain {s : Store} {v : Value} : v.IsPlain → D.value s v
  own {s : Store} {f : FrameId} {name : String} {v : Value} :
    D.store s → D.Sees s f → s.own? f name = some v → D.value s v
  field {s : Store} {i : InstanceId} {o : InstanceObject} {name : String} {v : Value} :
    D.store s → D.value s (.instance i) → s.instance? i = some o → o.fields.get? name = some v →
      D.value s v
  function {s : Store} {id : FunctionId} {f : FunctionObject} :
    D.store s → D.value s (.function id) → s.function? id = some f →
      D.code s f.closure (.decl f.declaration)
  parts {s : Store} {f : FrameId} {c : Code} :
    D.code s f c → c.opens = 0 → ¬ c.IsClass → ∀ c' ∈ c.parts, D.code s f c'
  superclass {s : Store} {f : FrameId} {name : Name} {e : Expr NodeId}
    {methods : List (FunDecl NodeId)} :
    D.code s f (.stmt (.class name (some e) methods)) → D.code s f (.expr e)
  block {s : Store} {f : FrameId} {body : List (Stmt NodeId)} :
    D.store s → D.code s f (.stmt (.block body)) →
      let inside := s.addFrame ⟨∅, some f⟩
      D.Keeps s inside.2 ∧ ∀ statement ∈ body, D.code inside.2 inside.1 (.stmt statement)
  call {s : Store} {f : FunctionObject} {arguments : List Value} :
    D.store s → D.code s f.closure (.decl f.declaration) → (∀ a ∈ arguments, D.value s a) →
      let inside := s.addFrame
        ⟨.ofList ((f.declaration.params.map Name.text).zip arguments), some f.closure⟩
      D.Keeps s inside.2 ∧
        ∀ statement ∈ f.declaration.body, D.code inside.2 inside.1 (.stmt statement)
  var {s : Store} {f : FrameId} {name : Name} {initializer : Option (Expr NodeId)} {v : Value} :
    D.store s → D.code s f (.stmt (.var name initializer)) → D.value s v →
      D.Keeps s (s.define f name.text v)
  assign {s : Store} {f g : FrameId} {id : NodeId} {name : Name} {e : Expr NodeId} {v : Value} :
    D.store s → D.code s f (.expr (.assign id name e)) → D.Sees s g → D.value s v →
      D.Keeps s (s.define g name.text v)
  declareFunction {m : Machine} {declaration : FunDecl NodeId} :
    D.store m.store → D.code m.store m.environment (.stmt (.function declaration)) →
      D.Keeps m.store (declareFunction declaration m).store
  declareClass {m : Machine} {name : Name} {methods : List (FunDecl NodeId)} :
    D.store m.store → D.code m.store m.environment (.stmt (.class name none methods)) →
      D.Keeps m.store (declareClass name none methods m).store
  declareSubclass {m : Machine} {name : Name} {e : Expr NodeId} {methods : List (FunDecl NodeId)}
    {c : ClassId} :
    D.store m.store → D.code m.store m.environment (.stmt (.class name (some e) methods)) →
      D.value m.store (.class c) → D.declares name e methods c m.store →
      D.Keeps m.store (Lox.declareClass name (some c) methods m).store
  setField {s : Store} {i : InstanceId} {name : String} {v : Value} :
    D.store s → D.value s (.instance i) → D.value s v → D.Keeps s (s.setField i name v)
  addInstance {s : Store} {c : ClassId} :
    D.store s → D.value s (.class c) →
      D.Keeps s (s.addInstance ⟨c, ∅⟩).2 ∧
        D.value (s.addInstance ⟨c, ∅⟩).2 (.instance (s.addInstance ⟨c, ∅⟩).1)
  bindMethod {s : Store} {c : ClassId} {name : String} {f : FunctionObject} {i : InstanceId} :
    D.store s → D.Offers s c → s.findMethod c name = some f → D.value s (.instance i) →
      D.Keeps s (s.bindMethod f i).2 ∧
        D.code (s.bindMethod f i).2 (s.bindMethod f i).1.closure
          (.decl (s.bindMethod f i).1.declaration)
  addFunction {s : Store} {f : FunctionObject} :
    D.store s → D.code s f.closure (.decl f.declaration) →
      D.Keeps s (s.addFunction f).2 ∧ D.value (s.addFunction f).2 (.function (s.addFunction f).1)

/-! ## The contract of a discipline -/

variable {D : Discipline}

/-- A value that is returned keeps the discipline. -/
def completion (D : Discipline) (s : Store) : Completion → Prop
  | .normal => True
  | .returned v => D.value s v

/-- What the discipline asks of a task at its start. -/
def starts (D : Discipline) : Task → Machine → Prop
  | .evaluate e, m => D.code m.store m.environment (.expr e)
  | .evaluateAll es, m => ∀ e ∈ es, D.code m.store m.environment (.expr e)
  | .call callee arguments _, m => D.value m.store callee ∧ ∀ a ∈ arguments, D.value m.store a
  | .enter f arguments _, m =>
    D.code m.store f.closure (.decl f.declaration) ∧ ∀ a ∈ arguments, D.value m.store a
  | .execute statement, m => D.code m.store m.environment (.stmt statement)
  | .executeAll statements, m =>
    ∀ statement ∈ statements, D.code m.store m.environment (.stmt statement)
  | .loop condition body, m =>
    D.code m.store m.environment (.expr condition) ∧ D.code m.store m.environment (.stmt body)

/-- What the discipline says of the answer of a task. -/
def answer (D : Discipline) (s : Store) : (t : Task) → t.Answer → Prop
  | .evaluate _, v | .call _ _ _, v | .enter _ _ _, v => D.value s v
  | .evaluateAll _, vs => ∀ v ∈ vs, D.value s v
  | .execute _, completion | .executeAll _, completion | .loop _ _, completion =>
    D.completion s completion

/-- A later state, in the same frame, that keeps the discipline. -/
structure Passes (D : Discipline) (m m' : Machine) : Prop extends D.Keeps m.store m'.store where
  environment : m'.environment = m.environment

/-- A task starts with a store, values and code as the discipline asks, and gives such a value. -/
def contract (D : Discipline) : Contract where
  pre t m := D.store m.store ∧ D.starts t m
  done t m a m' := D.Passes m m' ∧ D.answer m'.store t a
  failed _ m m' := D.Keeps m.store m'.store
  raised _ _ _ _ := True

/-! ## What the evaluator does by itself -/

theorem Lawful.keeps_refl (hD : D.Lawful) {s : Store} (hs : D.store s) : D.Keeps s s :=
  ⟨hs, hD.refl s⟩

theorem Lawful.keeps_trans (hD : D.Lawful) {s s' s'' : Store} (h : D.Keeps s s')
    (h' : D.Keeps s' s'') : D.Keeps s s'' :=
  ⟨h'.store, hD.trans h.grows h'.grows⟩

section

variable (hD : D.Lawful) {go : (t : Task) → Machine → Outcome t.Answer} {t : Task}
  {m m₁ : Machine}

include hD

theorem Lawful.passes_refl (hm : D.store m.store) : D.Passes m m := ⟨hD.keeps_refl hm, rfl⟩

theorem Passes.trans {m₂ : Machine} (h : D.Passes m m₁) (h' : D.Passes m₁ m₂) : D.Passes m m₂ :=
  ⟨hD.keeps_trans h.toKeeps h'.toKeeps, h'.environment.trans h.environment⟩

theorem Passes.withStore (h : D.Passes m m₁) {s : Store} (hs : D.Keeps m₁.store s) :
    D.Passes m { m₁ with store := s } :=
  ⟨hD.keeps_trans h.toKeeps hs, h.environment⟩

/-- Code stays where it runs. -/
theorem Passes.code (h : D.Passes m m₁) {c : Code} (hc : D.code m.store m.environment c) :
    D.code m₁.store m₁.environment c :=
  h.environment ▸ hD.code_grows h.grows hc

/-- A task that starts another one goes on from what that one kept. -/
theorem meetsIn_start (u : Task) (h : D.Passes m m₁) (hu : D.starts u m₁)
    {resume : u.Answer → Machine → Plan t.Answer}
    (hresume : ∀ a m₂, go u m₁ = .done a m₂ → D.Passes m m₂ → D.Passes m₁ m₂ →
      D.answer m₂.store u a → D.contract.MeetsIn go t m (resume a m₂)) :
    D.contract.MeetsIn go t m (.start u m₁ .stay resume) :=
  ⟨⟨h.store, hu⟩, fun a m₂ hgo hd => hresume a m₂ hgo (h.trans hD hd.1) hd.1 hd.2,
    fun _ hf => hD.keeps_trans h.toKeeps hf⟩

omit hD in
/-- What the code of a machine sees, code that keeps the discipline sees. -/
theorem sees_of_code {c : Code} (hc : D.code m.store m.environment c) {frame : FrameId}
    (h : m.Sees frame) : D.Sees m.store frame := by
  obtain ⟨home, k, rfl | rfl, ha⟩ := h
  · exact ⟨m.environment, k, .inr ⟨c, hc⟩, ha⟩
  · exact ⟨.globals, k, .inl rfl, ha⟩

omit hD in
theorem meetsIn_done (h : D.Passes m m₁) {a : t.Answer} (ha : D.answer m₁.store t a) :
    D.contract.MeetsIn go t m (.finish (.done a m₁)) := ⟨h, ha⟩

omit hD in
theorem meetsIn_fault (h : D.Passes m m₁) (cause : RuntimeFault) (line : Nat) :
    D.contract.MeetsIn go t m (.finish (m₁.fault cause line)) := h.toKeeps

/-! ## Values -/

omit hD in
theorem isPlain_ofLiteral (literal : Literal) : (Value.ofLiteral literal).IsPlain := by
  cases literal <;> trivial

omit hD in
theorem isPlain_applyUnary {operator : Token} {right v : Value}
    (h : applyUnary operator right = .ok v) : v.IsPlain := by
  unfold applyUnary at h
  split at h
  · obtain rfl := Except.ok.inj h
    trivial
  · split at h
    · obtain rfl := Except.ok.inj h
      trivial
    · cases h
  · cases h

omit hD in
theorem isPlain_onNumbers {f : Float → Float → Value} {left right v : Value}
    (h : onNumbers f left right = .ok v) (hf : ∀ a b, (f a b).IsPlain) : v.IsPlain := by
  unfold onNumbers at h
  split at h
  · obtain rfl := Except.ok.inj h
    exact hf _ _
  · cases h

omit hD in
theorem isPlain_applyBinary {operator : Token} {left right v : Value}
    (h : applyBinary operator left right = .ok v) : v.IsPlain := by
  unfold applyBinary at h
  split at h
  case h_1 =>
    split at h
    · obtain rfl := Except.ok.inj h
      trivial
    · obtain rfl := Except.ok.inj h
      trivial
    · cases h
  case h_9 | h_10 =>
    obtain rfl := Except.ok.inj h
    trivial
  case h_11 => cases h
  all_goals exact isPlain_onNumbers h fun _ _ => trivial

/-- An operator gives a plain value. -/
theorem meetsIn_settle {e : Expr NodeId} (h : D.Passes m m₁) (line : Nat)
    {result : Except RuntimeFault Value} (hr : ∀ v, result = .ok v → v.IsPlain) :
    D.contract.MeetsIn go (.evaluate e) m (.finish (m₁.settle line result)) := by
  cases result with
  | ok v => exact meetsIn_done h (hD.plain (hr v rfl))
  | error cause => exact meetsIn_fault h cause line

/-- A method that is found is bound to an instance. -/
theorem meetsIn_bound {e : Expr NodeId} (h : D.Passes m m₁) {c : ClassId} {name : String}
    (ho : D.Offers m₁.store c) {method : FunctionObject}
    (hf : m₁.store.findMethod c name = some method) {i : InstanceId}
    (hi : D.value m₁.store (.instance i)) :
    D.contract.MeetsIn go (.evaluate e) m (.finish (bound method i m₁)) := by
  obtain ⟨hb, hcode⟩ := hD.bindMethod h.store ho hf hi
  obtain ⟨ha, hv⟩ := hD.addFunction hb.store hcode
  exact meetsIn_done (h.withStore hD (hD.keeps_trans hb ha)) hv

/-! ## Plans -/

theorem Expr.disciplined_plan (s : Setting) {e : Expr NodeId} (hm : D.store m.store)
    (hc : D.code m.store m.environment (.expr e)) :
    D.contract.MeetsIn go (.evaluate e) m (e.plan s m) := by
  have h := hD.passes_refl hm
  have sub := hD.parts hc rfl id
  cases e with
  | literal value => exact meetsIn_done h (hD.plain (isPlain_ofLiteral value))
  | group inner =>
    exact meetsIn_start hD (.evaluate inner) h (sub (.expr inner) (by simp [Code.parts])) fun _ _ _ h₁ _ hv =>
      meetsIn_done h₁ hv
  | unary operator right =>
    exact meetsIn_start hD (.evaluate right) h (sub (.expr right) (by simp [Code.parts])) fun _ _ _ h₁ _ _ =>
      meetsIn_settle hD h₁ _ fun _ => isPlain_applyUnary
  | binary left operator right =>
    have hright := sub (.expr right) (by simp [Code.parts])
    refine meetsIn_start hD (.evaluate left) h (sub (.expr left) (by simp [Code.parts])) fun _ _ _ h₁ _ _ => ?_
    exact meetsIn_start hD (.evaluate right) h₁ (h₁.code hD hright) fun _ _ _ h₂ _ _ =>
      meetsIn_settle hD h₂ _ fun _ => isPlain_applyBinary
  | logical left operator right =>
    have hright := sub (.expr right) (by simp [Code.parts])
    refine meetsIn_start hD (.evaluate left) h (sub (.expr left) (by simp [Code.parts]))
      fun value m₁ _ h₁ _ hv => ?_
    split
    · exact meetsIn_done h₁ hv
    · exact meetsIn_start hD (.evaluate right) h₁ (h₁.code hD hright) fun _ _ _ h₂ _ hv => meetsIn_done h₂ hv
  | «variable» id name | this id name =>
    rcases readVariable_cases s id name m with ⟨value, frame, hsees, hown, he⟩ | ⟨cause, he⟩ <;>
      rw [Expr.plan, Expr.rule, he]
    · exact meetsIn_done h (hD.own hm (sees_of_code hc hsees) hown)
    · exact meetsIn_fault h cause _
  | assign id name value =>
    refine meetsIn_start hD (.evaluate value) h (sub (.expr value) (by simp [Code.parts]))
      fun value m₁ _ h₁ _ hv => ?_
    have hassign := h₁.code hD hc
    rcases writeVariable_cases s id name value m₁ with ⟨frame, hsees, he⟩ | ⟨cause, he⟩ <;> rw [he]
    · have hk := hD.assign h₁.store hassign (sees_of_code hassign hsees) hv
      exact meetsIn_done (h₁.withStore hD hk) (hD.value_grows hk.grows hv)
    · exact meetsIn_fault h₁ cause _
  | call callee line arguments =>
    have hall : ∀ e ∈ arguments, D.code m.store m.environment (.expr e) := fun e he =>
      sub (.expr e) (List.mem_cons_of_mem _ (List.mem_map_of_mem he))
    refine meetsIn_start hD (.evaluate callee) h (sub (.expr callee) (by simp [Code.parts]))
      fun callee m₁ _ h₁ _ hcallee => ?_
    refine meetsIn_start hD (.evaluateAll arguments) h₁ (fun e he => h₁.code hD (hall e he))
      fun arguments m₂ _ h₂ h₁₂ hargs => ?_
    exact meetsIn_start hD (.call callee arguments line) h₂
      ⟨hD.value_grows h₁₂.grows hcallee, hargs⟩ fun _ _ _ h₃ _ hv => meetsIn_done h₃ hv
  | get object name =>
    refine meetsIn_start hD (.evaluate object) h (sub (.expr object) (by simp [Code.parts]))
      fun object m₁ _ h₁ _ hv => ?_
    rcases readProperty_cases object name m₁ with
      ⟨i, o, value, rfl, ho, hf, he⟩ | ⟨i, o, method, rfl, ho, hf, he⟩ | ⟨cause, he⟩ <;> rw [he]
    · exact meetsIn_done h₁ (hD.field h₁.store hv ho hf)
    · exact meetsIn_bound hD h₁ (.inr ⟨i, o, hv, ho, rfl⟩) hf hv
    · exact meetsIn_fault h₁ cause _
  | set object name value =>
    have hvalue := sub (.expr value) (by simp [Code.parts])
    refine meetsIn_start hD (.evaluate object) h (sub (.expr object) (by simp [Code.parts]))
      fun object m₁ _ h₁ _ hi => ?_
    cases object with
    | «instance» i =>
      refine meetsIn_start hD (.evaluate value) h₁ (h₁.code hD hvalue) fun value m₂ _ h₂ h₁₂ hv => ?_
      have hk : D.Keeps m₂.store (m₂.store.setField i name.text value) :=
        hD.setField h₂.store (hD.value_grows h₁₂.grows hi) hv
      exact meetsIn_done (h₂.withStore hD hk) (hD.value_grows hk.grows hv)
    | _ => exact meetsIn_fault h₁ _ _
  | super id keyword method =>
    rcases readSuper_cases s id keyword method m with
      ⟨c, i, f, outer, inner, hf, houter, hsuper, hinner, hthis, he⟩ | ⟨cause, line, he⟩ <;>
      rw [Expr.plan, Expr.rule, he]
    · have hclass := hD.own hm (sees_of_code hc houter) hsuper
      exact meetsIn_bound hD h (.inl hclass) hf (hD.own hm (sees_of_code hc hinner) hthis)
    · exact meetsIn_fault h cause _

theorem Expr.disciplined_planAll {es : List (Expr NodeId)} (hm : D.store m.store)
    (hc : ∀ e ∈ es, D.code m.store m.environment (.expr e)) :
    D.contract.MeetsIn go (.evaluateAll es) m (Expr.planAll es m) := by
  have h := hD.passes_refl hm
  cases es with
  | nil => exact meetsIn_done h fun _ hv => nomatch hv
  | cons e es =>
    rw [List.forall_mem_cons] at hc
    refine meetsIn_start hD (.evaluate e) h hc.1 fun v _ _ h₁ _ hv => ?_
    refine meetsIn_start hD (.evaluateAll es) h₁ (fun e he => h₁.code hD (hc.2 e he))
      fun vs _ _ h₂ h₁₂ hvs => ?_
    exact meetsIn_done h₂ (List.forall_mem_cons.mpr ⟨hD.value_grows h₁₂.grows hv, hvs⟩)

theorem Value.disciplined_callPlan {callee : Value} {arguments : List Value} (line : Nat)
    (hm : D.store m.store) (hv : D.value m.store callee) (ha : ∀ a ∈ arguments, D.value m.store a) :
    D.contract.MeetsIn go (.call callee arguments line) m (callee.callPlan arguments line m) := by
  have h := hD.passes_refl hm
  cases callee with
  | function id =>
    rw [Value.callPlan, Value.callRule]
    split
    · exact meetsIn_fault h _ _
    · next f hf =>
      split
      · exact meetsIn_start hD (.enter f arguments line) h ⟨hD.function hm hv hf, ha⟩
          fun _ _ _ h₁ _ hv => meetsIn_done h₁ hv
      · exact meetsIn_fault h _ _
  | «class» id =>
    rw [Value.callPlan, Value.callRule]
    split
    · obtain ⟨hi, hvi⟩ := hD.addInstance hm hv
      dsimp only
      split
      · exact meetsIn_done (h.withStore hD hi) hvi
      · next initializer hf =>
        obtain ⟨hb, hcode⟩ := hD.bindMethod hi.store (.inl (hD.value_grows hi.grows hv)) hf hvi
        have hk := hD.keeps_trans hi hb
        refine meetsIn_start hD (.enter _ arguments line) (h.withStore hD hk)
          ⟨hcode, fun a he => hD.value_grows hk.grows (ha a he)⟩ fun _ _ _ h₁ h₂ _ => ?_
        exact meetsIn_done h₁ (hD.value_grows (hD.trans hb.grows h₂.grows) hvi)
    · exact meetsIn_fault h _ _
  | _ => exact meetsIn_fault h _ _

theorem FunctionObject.disciplined_plan (s : Setting) {f : FunctionObject} {arguments : List Value}
    (line : Nat) (hm : D.store m.store) (hc : D.code m.store f.closure (.decl f.declaration))
    (ha : ∀ a ∈ arguments, D.value m.store a) :
    D.contract.MeetsIn go (.enter f arguments line) m (f.plan s arguments line m) := by
  have h := hD.passes_refl hm
  unfold FunctionObject.plan FunctionObject.rule
  split
  · exact meetsIn_fault h _ _
  · obtain ⟨hk, hbody⟩ := hD.call hm hc ha
    refine ⟨⟨hk.store, hbody⟩, fun completion m₁ _ hd => ?_, fun m₁ hf => hD.keeps_trans hk hf⟩
    obtain ⟨hd, hv⟩ := hd
    have h₁ : D.Passes m ((Exit.leave m.environment 1).apply m₁) :=
      ⟨hD.keeps_trans hk hd.toKeeps, rfl⟩
    dsimp only
    rcases f.result_cases completion ((Exit.leave m.environment 1).apply m₁) with
      ⟨value, he, hvalue⟩ | ⟨cause, line, he⟩ <;> rw [he]
    · refine meetsIn_done h₁ ?_
      rcases hvalue with rfl | rfl | hthis
      · exact hD.plain trivial
      · exact hv
      · obtain ⟨frame, ha, hown⟩ := Option.bind_eq_some_iff.mp hthis
        have hcode := hD.code_grows h₁.grows hc
        exact hD.own h₁.store ⟨f.closure, 0, .inr ⟨_, hcode⟩, ha⟩ hown
    · exact meetsIn_fault h₁ cause _

theorem Stmt.disciplined_plan (s : Setting) {statement : Stmt NodeId}
    (hdeclares : ∀ name e methods c m₁, statement = .class name (some e) methods →
      go (.evaluate e) m = .done (.class c) m₁ → D.declares name e methods c m₁.store)
    (hm : D.store m.store) (hc : D.code m.store m.environment (.stmt statement)) :
    D.contract.MeetsIn go (.execute statement) m (statement.plan s m) := by
  have h := hD.passes_refl hm
  cases statement with
  | expression e =>
    have he := hD.parts hc rfl id (.expr e) (by simp [Code.parts])
    exact meetsIn_start hD (.evaluate e) h he fun _ _ _ h₁ _ _ => meetsIn_done h₁ trivial
  | print e =>
    have he := hD.parts hc rfl id (.expr e) (by simp [Code.parts])
    refine meetsIn_start hD (.evaluate e) h he fun value m₁ _ h₁ _ _ => ?_
    rcases printValue_cases s value m₁ with he | ⟨message, he⟩ <;> rw [he]
    · have hp : D.Passes m { m₁ with output := m₁.printed value } :=
        ⟨h₁.toKeeps, h₁.environment⟩
      exact meetsIn_done (t := .execute (.print e)) hp (a := Completion.normal) trivial
    · exact h₁.toKeeps
  | var name initializer =>
    cases initializer with
    | none =>
      have hk := hD.var hm hc (hD.plain (v := .nil) trivial)
      exact meetsIn_done (h.withStore hD hk) trivial
    | some e =>
      have he := hD.parts hc rfl id (.expr e) (by simp [Code.parts])
      refine meetsIn_start hD (.evaluate e) h he fun value m₁ _ h₁ _ hv => ?_
      exact meetsIn_done (h₁.withStore hD (hD.var h₁.store (h₁.code hD hc) hv)) trivial
  | block body =>
    obtain ⟨hk, hbody⟩ := hD.block hm hc
    refine ⟨⟨hk.store, hbody⟩, fun completion m₁ _ hd => ?_, fun m₁ hf => hD.keeps_trans hk hf⟩
    have h₁ : D.Passes m ((Exit.leave m.environment 0).apply m₁) :=
      ⟨hD.keeps_trans hk hd.1.toKeeps, rfl⟩
    exact meetsIn_done (t := .execute (.block body)) h₁ hd.2
  | ifElse condition thenBranch elseBranch =>
    have sub := hD.parts hc rfl id
    refine meetsIn_start hD (.evaluate condition) h (sub (.expr condition) (by simp [Code.parts]))
      fun value m₁ _ h₁ _ _ => ?_
    split
    · have hthen := h₁.code hD (sub (.stmt thenBranch) (by simp [Code.parts]))
      exact meetsIn_start hD (.execute thenBranch) h₁ hthen fun _ _ _ h₂ _ hv => meetsIn_done h₂ hv
    · cases elseBranch with
      | none => exact meetsIn_done h₁ trivial
      | some elseBranch =>
        have helse := h₁.code hD (sub (.stmt elseBranch) (by simp [Code.parts]))
        exact meetsIn_start hD (.execute elseBranch) h₁ helse fun _ _ _ h₂ _ hv =>
          meetsIn_done h₂ hv
  | «while» condition body =>
    have sub := hD.parts hc rfl id
    exact meetsIn_start hD (.loop condition body) h
      ⟨sub (.expr condition) (by simp [Code.parts]), sub (.stmt body) (by simp [Code.parts])⟩ fun _ _ _ h₁ _ hv =>
        meetsIn_done h₁ hv
  | function declaration =>
    exact meetsIn_done ⟨hD.declareFunction hm hc, rfl⟩ trivial
  | «return» keyword value =>
    cases value with
    | none => exact meetsIn_done h (hD.plain (v := .nil) trivial)
    | some e =>
      have he := hD.parts hc rfl id (.expr e) (by simp [Code.parts])
      exact meetsIn_start hD (.evaluate e) h he fun _ _ _ h₁ _ hv => meetsIn_done h₁ hv
  | «class» name superclass methods =>
    cases superclass with
    | none => exact meetsIn_done ⟨hD.declareClass hm hc, rfl⟩ trivial
    | some e =>
      refine meetsIn_start hD (.evaluate e) h (hD.superclass hc) fun value m₁ hgo h₁ _ hv => ?_
      cases value with
      | «class» c =>
        have hk := hD.declareSubclass h₁.store (h₁.code hD hc) hv
          (hdeclares name e methods c m₁ rfl hgo)
        have henv : (declareClass name (some c) methods m₁).environment = m₁.environment := rfl
        exact meetsIn_done ⟨hD.keeps_trans h₁.toKeeps hk, henv.trans h₁.environment⟩ trivial
      | _ => exact meetsIn_fault h₁ _ _

theorem Stmt.disciplined_planAll {statements : List (Stmt NodeId)} (hm : D.store m.store)
    (hc : ∀ statement ∈ statements, D.code m.store m.environment (.stmt statement)) :
    D.contract.MeetsIn go (.executeAll statements) m (Stmt.planAll statements m) := by
  have h := hD.passes_refl hm
  cases statements with
  | nil => exact meetsIn_done h trivial
  | cons statement rest =>
    rw [List.forall_mem_cons] at hc
    refine meetsIn_start hD (.execute statement) h hc.1 fun completion m₁ _ h₁ _ hv => ?_
    cases completion with
    | normal =>
      exact meetsIn_start hD (.executeAll rest) h₁ (fun st hs => h₁.code hD (hc.2 st hs))
        fun _ _ _ h₂ _ hv => meetsIn_done h₂ hv
    | returned value => exact meetsIn_done h₁ hv

theorem Stmt.disciplined_loopPlan {condition : Expr NodeId} {body : Stmt NodeId}
    (hm : D.store m.store) (hcondition : D.code m.store m.environment (.expr condition))
    (hbody : D.code m.store m.environment (.stmt body)) :
    D.contract.MeetsIn go (.loop condition body) m (Stmt.loopPlan condition body m) := by
  have h := hD.passes_refl hm
  refine meetsIn_start hD (.evaluate condition) h hcondition fun value m₁ _ h₁ _ _ => ?_
  split
  · refine meetsIn_start hD (.execute body) h₁ (h₁.code hD hbody) fun completion m₂ _ h₂ _ hv => ?_
    cases completion with
    | normal =>
      exact meetsIn_start hD (.loop condition body) h₂ ⟨h₂.code hD hcondition, h₂.code hD hbody⟩
        fun _ _ _ h₃ _ hv => meetsIn_done h₃ hv
    | returned value => exact meetsIn_done h₂ hv
  · exact meetsIn_done h₁ trivial

/-- What is known of tasks says when a subclass is declared. -/
def Declares (D : Discipline) (s : Setting) (occurs : Task → Machine → Prop) : Prop :=
  ∀ n name e methods c m m₁, occurs (.execute (.class name (some e) methods)) m →
    evaluate n s e m = .done (.class c) m₁ → D.declares name e methods c m₁.store

/-- Every plan keeps a lawful discipline. -/
theorem Lawful.keptWhere {s : Setting} {occurs : Task → Machine → Prop}
    (hd : D.Declares s occurs) : D.contract.KeptWhere s occurs
  | _, .evaluate _, _, _, ⟨hm, hc⟩ => Expr.disciplined_plan hD s hm hc
  | _, .evaluateAll _, _, _, ⟨hm, hc⟩ => Expr.disciplined_planAll hD hm hc
  | _, .call _ _ line, _, _, ⟨hm, hv, ha⟩ => Value.disciplined_callPlan hD line hm hv ha
  | _, .enter _ _ line, _, _, ⟨hm, hc, ha⟩ => FunctionObject.disciplined_plan hD s line hm hc ha
  | n, .execute _, m, ho, ⟨hm, hc⟩ =>
    Stmt.disciplined_plan hD s
      (fun name e methods c m₁ he hgo => hd n name e methods c m m₁ (he ▸ ho) hgo) hm hc
  | _, .executeAll _, _, _, ⟨hm, hc⟩ => Stmt.disciplined_planAll hD hm hc
  | _, .loop _ _, _, _, ⟨hm, hcond, hbody⟩ => Stmt.disciplined_loopPlan hD hm hcond hbody

end

/-! ## Runs -/

section

variable {s : Setting} {occurs : Task → Machine → Prop} {n : Nat}

/-- What an expression gives keeps a lawful discipline, and so does the store in the end. -/
theorem Lawful.evaluate (hD : D.Lawful) (hd : D.Declares s occurs) {e : Expr NodeId} {m : Machine}
    (ho : ∀ u m', s.Reaches n (.evaluate e) m u m' → occurs u m') (hm : D.store m.store)
    (hc : D.code m.store m.environment (.expr e)) :
    (Lox.evaluate n s e m).Ensures fun m' => D.Keeps m.store m'.store :=
  ((hD.keptWhere hd).run ho ⟨hm, hc⟩).ensures (fun _ _ h => h.1.toKeeps) fun _ h => h

/-- The code of a program is as the discipline asks. -/
def Codes (D : Discipline) (program : List (Stmt NodeId)) (m : Machine) : Prop :=
  ∀ statement ∈ program, D.code m.store m.environment (.stmt statement)

variable {program : List (Stmt NodeId)} {m : Machine}

/-- A program keeps a lawful discipline, however it ends. -/
theorem Lawful.runStatements (hD : D.Lawful) (hd : D.Declares s occurs)
    (ho : ∀ u m', s.ReachesIn n program m u m' → occurs u m') (hm : D.store m.store)
    (hc : D.Codes program m) :
    (Lox.runStatements n s program m).Ensures fun m' => D.Keeps m.store m'.store := by
  induction program generalizing m with
  | nil => exact Outcome.ensures_done.mpr (hD.keeps_refl hm)
  | cons statement rest ih =>
    obtain ⟨hc, hrest⟩ := List.forall_mem_cons.mp hc
    have hr := (hD.keptWhere hd).run (t := .execute statement) (fun u m' h => ho u m' (.first h))
      ⟨hm, hc⟩
    simp only [Lox.runStatements]
    cases hx : execute n s statement m with
    | done completion m₁ =>
      have hx' : (Task.execute statement).run n s m = .done completion m₁ := hx
      rw [hx'] at hr
      have h₁ := ih (m := m₁) (fun u m' h => ho u m' (.later hx h)) hr.1.store
        fun st hs => hr.1.code hD (hrest st hs)
      exact fun m' h => hD.keeps_trans hr.1.toKeeps (h₁ m' h)
    | failed failure m₁ =>
      have hx' : (Task.execute statement).run n s m = .failed failure m₁ := hx
      rw [hx'] at hr
      exact Outcome.ensures_failed.mpr hr
    | outOfFuel => exact Outcome.ensures_outOfFuel

/-- Every task that a program comes to starts as the discipline asks. -/
theorem Lawful.pre_of_reachesIn (hD : D.Lawful) (hd : D.Declares s occurs)
    (ho : ∀ u m', s.ReachesIn n program m u m' → occurs u m') (hm : D.store m.store)
    (hc : D.Codes program m) {u : Task} {m' : Machine} (hu : s.ReachesIn n program m u m') :
    D.store m'.store ∧ D.starts u m' := by
  induction hu with
  | @first statement rest m m' u ht =>
    exact (hD.keptWhere hd).pre_of_reaches (fun u m' h => ho u m' (.first h))
      ⟨hm, hc statement List.mem_cons_self⟩ ht
  | @later statement rest m m₁ m' u completion hx ht ih =>
    obtain ⟨hc, hrest⟩ := List.forall_mem_cons.mp hc
    have hr := (hD.keptWhere hd).run (t := .execute statement) (fun u m' h => ho u m' (.first h))
      ⟨hm, hc⟩
    have hx' : (Task.execute statement).run n s m = .done completion m₁ := hx
    rw [hx'] at hr
    exact ih (fun u m' h => ho u m' (.later hx h)) hr.1.store fun st hs => hr.1.code hD (hrest st hs)

end

end Discipline

end Lox
