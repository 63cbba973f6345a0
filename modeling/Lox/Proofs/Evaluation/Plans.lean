import Lox.Evaluation

/-!
# Runs as trees of tasks

The rule for a task, read as a tree, is its `Plan`: the task starts other tasks, one
after another, and then ends. A task that it starts may fail, and then it fails too.

* `Task.run_succ`: a run of a task is a run of its plan;
* `Setting.Reaches`, `Setting.ReachesIn`: the tasks that a run of a task, and a run of
  a program, comes to;
* `Contract`: what holds when a task starts and when it ends. If the plan of
  every task keeps the contract (`Contract.Kept`), so does every run
  (`Contract.Kept.run`), every task that it comes to starts as the contract asks
  (`Contract.Kept.pre_of_reaches`), and a failed run has a task that raised the
  failure itself (`Contract.Kept.exists_raised`);
* `Contract.KeptWhere`: a contract that plans keep as long as the tasks are some that occur, and end
  as they do.
-/

namespace Lox

/-! ## Tasks -/

@[simp] theorem Task.run_zero (s : Setting) (t : Task) (m : Machine) : t.run 0 s m = .outOfFuel := rfl

/-- The state after an exit. -/
def Exit.apply : Exit → Machine → Machine
  | .stay, m => m
  | .leave environment calls, m => m.leave environment calls

@[simp] theorem Exit.store_apply (exit : Exit) (m : Machine) : (exit.apply m).store = m.store := by
  cases exit <;> rfl

/-! ## Plans -/

/-- What a task does by itself: it ends, or it starts another task and goes on with its answer. -/
inductive Plan (α : Type) where
  | finish (o : Outcome α)
  | start (t : Task) (m : Machine) (exit : Exit) (resume : t.Answer → Machine → Plan α)

namespace Plan

variable {α : Type}

/-- Starts a task and gives its answer. -/
def delegate (t : Task) (m : Machine) : Plan t.Answer :=
  .start t m .stay fun a m => .finish (.done a m)

/-- The outcome of a plan, given those of the tasks that it starts. -/
def run (go : (t : Task) → Machine → Outcome t.Answer) : Plan α → Outcome α
  | .finish o => o
  | .start t m exit resume => ((go t m).onExit exit.apply).bind fun a m => (resume a m).run go

end Plan

instance : Evaluator Plan := ⟨.finish, .start, .delegate⟩

@[simp] theorem Plan.evaluator_finish {α : Type} (o : Outcome α) :
    Evaluator.finish o = Plan.finish o := rfl

@[simp] theorem Plan.evaluator_start {α : Type} (t : Task) (m : Machine) (exit : Exit)
    (resume : t.Answer → Machine → Plan α) :
    Evaluator.start t m exit resume = Plan.start t m exit resume := rfl

/-! ## The plans of the evaluator -/

section

variable (s : Setting)

/-- The plan of an expression. -/
def Expr.plan (e : Expr NodeId) (m : Machine) : Plan Value := e.rule s m

/-- The plan of several expressions. -/
def Expr.planAll (es : List (Expr NodeId)) (m : Machine) : Plan (List Value) := Expr.ruleAll es m

/-- The plan of a call. -/
def Value.callPlan (callee : Value) (arguments : List Value) (line : Nat) (m : Machine) :
    Plan Value :=
  callee.callRule arguments line m

/-- The plan of a function. -/
def FunctionObject.plan (f : FunctionObject) (arguments : List Value) (line : Nat) (m : Machine) :
    Plan Value :=
  f.rule s arguments line m

/-- The plan of a statement. -/
def Stmt.plan (statement : Stmt NodeId) (m : Machine) : Plan Completion := statement.rule s m

/-- The plan of several statements. -/
def Stmt.planAll (statements : List (Stmt NodeId)) (m : Machine) : Plan Completion :=
  Stmt.ruleAll statements m

/-- The plan of a loop. -/
def Stmt.loopPlan (condition : Expr NodeId) (body : Stmt NodeId) (m : Machine) : Plan Completion :=
  Stmt.loopRule condition body m

/-- The plan of a task. -/
def Task.plan : (t : Task) → Machine → Plan t.Answer
  | .evaluate e, m => e.plan s m
  | .evaluateAll es, m => Expr.planAll es m
  | .call callee arguments line, m => callee.callPlan arguments line m
  | .enter f arguments line, m => f.plan s arguments line m
  | .execute statement, m => statement.plan s m
  | .executeAll statements, m => Stmt.planAll statements m
  | .loop condition body, m => Stmt.loopPlan condition body m

end

/-! ## A run of a task is a run of its plan -/

namespace Outcome

variable {α β : Type}

@[simp] theorem onExit_stay (o : Outcome α) : o.onExit Exit.stay.apply = o := by
  cases o <;> rfl

@[simp] theorem bind_done (o : Outcome α) : (o.bind fun a m => .done a m) = o := by
  cases o <;> rfl

theorem onExit_apply (exit : Exit) (o : Outcome α) : o.onExit exit.apply = exit.after o := by
  cases exit with
  | stay => exact onExit_stay o
  | leave => rfl

theorem bind_congr {o : Outcome α} {f g : α → Machine → Outcome β} (h : ∀ a m, f a m = g a m) :
    o.bind f = o.bind g := by
  cases o with
  | done a m => exact h a m
  | failed => rfl
  | outOfFuel => rfl

end Outcome

section

variable (go : (t : Task) → Machine → Outcome t.Answer)

theorem Plan.run_delegate (t : Task) (m : Machine) : (delegate t m).run go = go t m := by
  rw [delegate, run, Outcome.onExit_stay]
  exact Outcome.bind_done (go t m)

/-- The plan comes to this outcome, given those of the tasks that it starts. -/
def Plan.Computes {α : Type} (p : Plan α) (d : Direct α) : Prop := p.run go = d go

namespace Plan.Computes

variable {go} {α : Type} {p q : Plan α} {d e : Direct α} {t : Task} {m : Machine}

theorem finish (o : Outcome α) : Computes go (Evaluator.finish o) (Evaluator.finish o) := rfl

theorem start {exit : Exit} {resume : t.Answer → Machine → Plan α}
    {resume' : t.Answer → Machine → Direct α} (h : ∀ a m, Computes go (resume a m) (resume' a m)) :
    Computes go (Evaluator.start t m exit resume) (Evaluator.start t m exit resume') := by
  show ((go t m).onExit exit.apply).bind (fun a m => (resume a m).run go) = _
  rw [Outcome.onExit_apply]
  exact Outcome.bind_congr h

theorem delegate (t : Task) (m : Machine) :
    Computes go (Evaluator.delegate t m) (Evaluator.delegate t m) :=
  run_delegate go t m

theorem ite {c : Prop} [Decidable c] (hp : Computes go p d) (hq : Computes go q e) :
    Computes go (if c then p else q) (if c then d else e) := by
  split
  · exact hp
  · exact hq

end Plan.Computes

variable (s : Setting)

theorem Expr.computes_plan (e : Expr NodeId) (m : Machine) : (e.plan s m).Computes go (e.rule s m) := by
  cases e with
  | group inner => exact .delegate _ m
  | unary operator right => exact .start fun _ _ => .finish _
  | binary left operator right => exact .start fun _ _ => .start fun _ _ => .finish _
  | logical left operator right => exact .start fun _ _ => .ite (.finish _) (.delegate _ _)
  | call callee line arguments => exact .start fun _ _ => .start fun _ _ => .delegate _ _
  | assign id name value => exact .start fun _ _ => .finish _
  | get object name => exact .start fun _ _ => .finish _
  | set object name value =>
    refine .start fun object m => ?_
    cases object with
    | «instance» id => exact .start fun _ _ => .finish _
    | _ => exact .finish _
  | _ => exact .finish _

theorem Expr.computes_planAll (es : List (Expr NodeId)) (m : Machine) :
    (Expr.planAll es m).Computes go (Expr.ruleAll es m) := by
  cases es with
  | nil => exact .finish _
  | cons e es => exact .start fun _ _ => .start fun _ _ => .finish _

theorem Value.computes_callPlan (callee : Value) (arguments : List Value) (line : Nat) (m : Machine) :
    (callee.callPlan arguments line m).Computes go (callee.callRule arguments line m) := by
  unfold callPlan callRule
  cases callee with
  | function id =>
    dsimp only
    cases m.store.function? id with
    | none => exact .finish _
    | some f => exact .ite (.delegate _ m) (.finish _)
  | «class» id =>
    refine .ite ?_ (.finish _)
    dsimp only
    cases (m.store.addInstance ⟨id, ∅⟩).2.findMethod id initializerName with
    | none => exact .finish _
    | some initializer => exact .start fun _ _ => .finish _
  | _ => exact .finish _

theorem FunctionObject.computes_plan (f : FunctionObject) (arguments : List Value) (line : Nat)
    (m : Machine) : (f.plan s arguments line m).Computes go (f.rule s arguments line m) :=
  .ite (.finish _) (.start fun _ _ => .finish _)

theorem Stmt.computes_plan (statement : Stmt NodeId) (m : Machine) :
    (statement.plan s m).Computes go (statement.rule s m) := by
  cases statement with
  | expression | print | block => exact .start fun _ _ => .finish _
  | var name initializer =>
    cases initializer with
    | none => exact .finish _
    | some e => exact .start fun _ _ => .finish _
  | «return» keyword value =>
    cases value with
    | none => exact .finish _
    | some e => exact .start fun _ _ => .finish _
  | ifElse condition thenBranch elseBranch =>
    refine .start fun value m => .ite (.delegate _ m) ?_
    cases elseBranch with
    | none => exact .finish _
    | some elseBranch => exact .delegate _ m
  | «while» condition body => exact .delegate _ m
  | function declaration => exact .finish _
  | «class» name superclass methods =>
    cases superclass with
    | none => exact .finish _
    | some e =>
      refine .start fun value m => ?_
      cases value <;> exact .finish _

theorem Stmt.computes_planAll (statements : List (Stmt NodeId)) (m : Machine) :
    (Stmt.planAll statements m).Computes go (Stmt.ruleAll statements m) := by
  cases statements with
  | nil => exact .finish _
  | cons statement rest =>
    refine .start fun completion m => ?_
    cases completion with
    | normal => exact .delegate _ m
    | returned => exact .finish _

theorem Stmt.computes_loopPlan (condition : Expr NodeId) (body : Stmt NodeId) (m : Machine) :
    (Stmt.loopPlan condition body m).Computes go (Stmt.loopRule condition body m) := by
  refine .start fun value m => .ite (.start fun completion m => ?_) (.finish _)
  cases completion with
  | normal => exact .delegate _ m
  | returned => exact .finish _

theorem Task.computes_plan (t : Task) (m : Machine) : (t.plan s m).Computes go (t.rule s m) := by
  cases t with
  | evaluate e => exact e.computes_plan go s m
  | evaluateAll es => exact Expr.computes_planAll go es m
  | call callee arguments line => exact callee.computes_callPlan go arguments line m
  | enter f arguments line => exact f.computes_plan go s arguments line m
  | execute statement => exact statement.computes_plan go s m
  | executeAll statements => exact Stmt.computes_planAll go statements m
  | loop condition body => exact Stmt.computes_loopPlan go condition body m

end

section

variable {α : Type} (n : Nat) (s : Setting)

/-- The outcome of a plan, when the tasks that it starts run with this fuel. -/
def Plan.runWith (p : Plan α) : Outcome α := p.run fun t m => t.run n s m

@[simp] theorem Plan.runWith_start (t : Task) (m : Machine) (exit : Exit)
    (resume : t.Answer → Machine → Plan α) :
    (Plan.start t m exit resume).runWith n s =
      ((t.run n s m).onExit exit.apply).bind fun a m => (resume a m).runWith n s := rfl

/-- A run of a task is a run of its plan, whose tasks have one unit of fuel less. -/
theorem Task.run_succ (t : Task) (m : Machine) :
    t.run (n + 1) s m = (t.plan s m).runWith n s :=
  (t.computes_plan _ s m).symm

theorem Value.runWith_callPlan (callee : Value) (arguments : List Value) (line : Nat)
    (m : Machine) :
    (callee.callPlan arguments line m).runWith n s = call (n + 1) s callee arguments line m :=
  (Task.run_succ n s (.call callee arguments line) m).symm

theorem FunctionObject.runWith_plan (f : FunctionObject) (arguments : List Value) (line : Nat)
    (m : Machine) : (f.plan s arguments line m).runWith n s = enter (n + 1) s f arguments line m :=
  (Task.run_succ n s (.enter f arguments line) m).symm

end

/-! ## The tasks that a run comes to -/

/-- A plan starts a task in this state, if the tasks that it starts end in these outcomes. -/
inductive Plan.Starts {α : Type} (go : (t : Task) → Machine → Outcome t.Answer) :
    Plan α → Task → Machine → Prop where
  | first (t : Task) (m : Machine) (exit : Exit) (resume : t.Answer → Machine → Plan α) :
    Starts go (.start t m exit resume) t m
  | later {t : Task} {m m' : Machine} {exit : Exit} {resume : t.Answer → Machine → Plan α}
    {a : t.Answer} {u : Task} {m'' : Machine} (ha : go t m = .done a m')
    (hu : Starts go (resume a (exit.apply m')) u m'') : Starts go (.start t m exit resume) u m''

/-- A run of a task comes to a task in a state: it is the task itself, or one that it starts comes
to it. -/
inductive Setting.Reaches (s : Setting) : Nat → Task → Machine → Task → Machine → Prop where
  | here (n : Nat) (t : Task) (m : Machine) : Reaches s n t m t m
  | inside {n : Nat} {t u v : Task} {m m' m'' : Machine}
    (hu : (t.plan s m).Starts (fun t m => t.run n s m) u m') (hv : Reaches s n u m' v m'') :
    Reaches s (n + 1) t m v m''

/-- A run of a program comes to a task in a state: one of its statements does. -/
inductive Setting.ReachesIn (s : Setting) (n : Nat) :
    List (Stmt NodeId) → Machine → Task → Machine → Prop where
  | first {statement : Stmt NodeId} {rest : List (Stmt NodeId)} {m m' : Machine} {t : Task}
    (ht : s.Reaches n (.execute statement) m t m') : ReachesIn s n (statement :: rest) m t m'
  | later {statement : Stmt NodeId} {rest : List (Stmt NodeId)} {m m' m'' : Machine} {t : Task}
    {completion : Completion} (hd : execute n s statement m = .done completion m')
    (ht : ReachesIn s n rest m' t m'') : ReachesIn s n (statement :: rest) m t m''

/-! ## Contracts -/

/-- What holds when a task starts and when it ends. -/
structure Contract where
  /-- What a task may rely on. -/
  pre : Task → Machine → Prop
  /-- What holds of the answer and the state, if there is an answer. -/
  done : (t : Task) → Machine → t.Answer → Machine → Prop
  /-- What holds of the state after a failure. -/
  failed : Task → Machine → Machine → Prop
  /-- What holds of a failure that the task raises itself. -/
  raised : Task → Machine → Failure → Machine → Prop

namespace Contract

variable {c : Contract} {s : Setting}

/-- The plan of a task keeps a contract. -/
def Meets (c : Contract) (t : Task) (m : Machine) : Plan t.Answer → Prop
  | .finish (.done a m') => c.done t m a m'
  | .finish (.failed failure m') => c.failed t m m' ∧ c.raised t m failure m'
  | .finish .outOfFuel => True
  | .start u m₁ exit resume =>
    c.pre u m₁ ∧ (∀ a m', c.done u m₁ a m' → c.Meets t m (resume a (exit.apply m'))) ∧
      ∀ m', c.failed u m₁ m' → c.failed t m (exit.apply m')

/-- The plan of every task keeps a contract. -/
def Kept (c : Contract) (s : Setting) : Prop := ∀ t m, c.pre t m → c.Meets t m (t.plan s m)

/-- How a task may end. -/
def Ends (c : Contract) (t : Task) (m : Machine) : Outcome t.Answer → Prop
  | .done a m' => c.done t m a m'
  | .failed _ m' => c.failed t m m'
  | .outOfFuel => True

/-- The plan of a task keeps a contract, when the tasks that it starts end in these outcomes. -/
def MeetsIn (c : Contract) (go : (t : Task) → Machine → Outcome t.Answer) (t : Task) (m : Machine) :
    Plan t.Answer → Prop
  | .finish o => c.Ends t m o
  | .start u m₁ exit resume =>
    c.pre u m₁ ∧
      (∀ a m', go u m₁ = .done a m' → c.done u m₁ a m' →
        c.MeetsIn go t m (resume a (exit.apply m'))) ∧
      ∀ m', c.failed u m₁ m' → c.failed t m (exit.apply m')

/-- The plan of every task that occurs keeps a contract. -/
def KeptWhere (c : Contract) (s : Setting) (occurs : Task → Machine → Prop) : Prop :=
  ∀ n t m, occurs t m → c.pre t m → c.MeetsIn (fun u m => u.run n s m) t m (t.plan s m)

section

variable {go : (t : Task) → Machine → Outcome t.Answer} {t u : Task} {m m' : Machine}
  {p : Plan t.Answer}

theorem Meets.meetsIn (hp : c.Meets t m p) : c.MeetsIn go t m p := by
  induction p with
  | finish o =>
    cases o with
    | done a m' => exact hp
    | failed failure m' => exact hp.1
    | outOfFuel => trivial
  | start u m₁ exit resume ih =>
    obtain ⟨hpre, hresume, hfail⟩ := hp
    exact ⟨hpre, fun a m' _ hd => ih a (exit.apply m') (hresume a m' hd), hfail⟩

theorem Kept.keptWhere (h : c.Kept s) (occurs : Task → Machine → Prop) : c.KeptWhere s occurs :=
  fun _ t m _ ht => (h t m ht).meetsIn

theorem MeetsIn.ends (hp : c.MeetsIn go t m p)
    (ih : ∀ u m₁, p.Starts go u m₁ → c.pre u m₁ → c.Ends u m₁ (go u m₁)) :
    c.Ends t m (p.run go) := by
  induction p with
  | finish o => exact hp
  | start u m₁ exit resume ihp =>
    obtain ⟨hpre, hresume, hfail⟩ := hp
    have hu := ih u m₁ (.first _ _ _ _) hpre
    rw [Plan.run]
    cases h : go u m₁ with
    | done a m' =>
      rw [h] at hu
      exact ihp a (exit.apply m') (hresume a m' h hu) fun v m₂ hs => ih v m₂ (.later h hs)
    | failed failure m' =>
      rw [h] at hu
      exact hfail m' hu
    | outOfFuel => trivial

theorem MeetsIn.pre_of_starts (hp : c.MeetsIn go t m p)
    (ih : ∀ u m₁, p.Starts go u m₁ → c.pre u m₁ → c.Ends u m₁ (go u m₁))
    (hu : p.Starts go u m') : c.pre u m' := by
  induction hu with
  | first => exact hp.1
  | later ha _ ihs =>
    have hd := ih _ _ (.first _ _ _ _) hp.1
    rw [ha] at hd
    exact ihs (hp.2.1 _ _ ha hd) fun v m₂ hs => ih v m₂ (.later ha hs)

end

variable {occurs : Task → Machine → Prop} {n : Nat} {t u : Task} {m m' : Machine}

/-- A run keeps a contract if all the tasks that it comes to are some that occur. -/
theorem KeptWhere.run (h : c.KeptWhere s occurs)
    (ho : ∀ u m', s.Reaches n t m u m' → occurs u m') (ht : c.pre t m) :
    c.Ends t m (t.run n s m) := by
  induction n generalizing t m with
  | zero =>
    rw [Task.run_zero]
    trivial
  | succ n ih =>
    rw [Task.run_succ]
    exact (h n t m (ho t m (.here _ _ _)) ht).ends fun u m₁ hs hu =>
      ih (fun v m₂ hv => ho v m₂ (.inside hs hv)) hu

/-- Every task that such a run comes to starts as the contract asks. -/
theorem KeptWhere.pre_of_reaches (h : c.KeptWhere s occurs)
    (ho : ∀ u m', s.Reaches n t m u m' → occurs u m') (ht : c.pre t m)
    (hu : s.Reaches n t m u m') : c.pre u m' := by
  induction hu with
  | here => exact ht
  | @inside n t u _ m m' _ hs _ ih =>
    refine ih (fun v m₂ hv => ho v m₂ (.inside hs hv)) ?_
    exact (h n t m (ho t m (.here _ _ _)) ht).pre_of_starts
      (fun v m₂ hv hpre => h.run (fun w m₃ hw => ho w m₃ (.inside hv hw)) hpre) hs

/-- Every run keeps a contract that every plan keeps. -/
theorem Kept.run (h : c.Kept s) (n : Nat) {t : Task} {m : Machine} (ht : c.pre t m) :
    c.Ends t m (t.run n s m) :=
  (h.keptWhere fun _ _ => True).run (fun _ _ _ => trivial) ht

/-- Every task that a run comes to starts as the contract asks. -/
theorem Kept.pre_of_reaches (h : c.Kept s) (ht : c.pre t m) (hu : s.Reaches n t m u m') :
    c.pre u m' :=
  (h.keptWhere fun _ _ => True).pre_of_reaches (fun _ _ _ => trivial) ht hu

/-- A failure that the task raised itself, or one of a task that it started. -/
theorem Kept.raised_or_started (h : c.Kept s) {n : Nat} {t : Task} {m m' : Machine}
    {p : Plan t.Answer} (hp : c.Meets t m p) {failure : Failure}
    (hf : p.runWith n s = .failed failure m') :
    c.raised t m failure m' ∨ ∃ u m₁ m₂, p.Starts (fun t m => t.run n s m) u m₁ ∧ c.pre u m₁ ∧
      u.run n s m₁ = .failed failure m₂ ∧ m₂.store = m'.store := by
  induction p with
  | finish o =>
    obtain rfl : o = .failed failure m' := hf
    exact .inl hp.2
  | start u m₁ exit resume ihp =>
    rw [Plan.runWith_start] at hf
    cases hr : u.run n s m₁ with
    | done a m₂ =>
      rw [hr] at hf
      have hd := h.run n hp.1
      rw [hr] at hd
      refine (ihp a (exit.apply m₂) (hp.2.1 a m₂ hd) hf).imp_right ?_
      rintro ⟨v, m₃, m₄, hs, hv⟩
      exact ⟨v, m₃, m₄, .later hr hs, hv⟩
    | failed failure' m₂ =>
      rw [hr] at hf
      obtain ⟨rfl, rfl⟩ : failure' = failure ∧ exit.apply m₂ = m' := by
        simpa [Outcome.onExit, Outcome.bind] using hf
      exact .inr ⟨u, m₁, m₂, .first _ _ _ _, hp.1, hr, (exit.store_apply m₂).symm⟩
    | outOfFuel =>
      rw [hr] at hf
      cases hf

/-- A failed run comes to a task that raised the failure itself. -/
theorem Kept.exists_raised (h : c.Kept s) {n : Nat} {t : Task} {m m' : Machine}
    (ht : c.pre t m) {failure : Failure} (hf : t.run n s m = .failed failure m') :
    ∃ u m₁ m₂, s.Reaches n t m u m₁ ∧ c.pre u m₁ ∧ c.raised u m₁ failure m₂ ∧
      m₂.store = m'.store := by
  induction n generalizing t m m' with
  | zero =>
    rw [Task.run_zero] at hf
    cases hf
  | succ n ih =>
    rw [Task.run_succ] at hf
    obtain hr | ⟨u, m₁, m₂, hs, hu, hf, hm⟩ := h.raised_or_started (h t m ht) hf
    · exact ⟨t, m, m', .here _ _ _, ht, hr, rfl⟩
    · obtain ⟨v, m₃, m₄, hv, hpre, hr, hm'⟩ := ih hu hf
      exact ⟨v, m₃, m₄, .inside hs hv, hpre, hr, hm'.trans hm⟩

end Contract

end Lox
