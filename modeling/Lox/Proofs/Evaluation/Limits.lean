import Lox.Proofs.Evaluation.Plans

/-!
# More room for calls

A setting bounds how many calls may be in progress, and only a function that is
about to be entered asks for the bound. A run that never found it too small does
not depend on it: it goes the same way under any larger one.

* `Outcome.Fits`: a run that ended, and did not overflow;
* `Task.run_withLimit`, `runProgram_withLimit`: under a larger limit it is the same run.
-/

namespace Lox

/-! ## Runs that fit -/

/-- Whether a run ended for want of room for another call. -/
def Failure.isOverflow : Failure → Bool
  | .fault .stackOverflow _ => true
  | _ => false

theorem Failure.isOverflow_iff {failure : Failure} :
    failure.isOverflow = true ↔ ∃ line, failure = .fault .stackOverflow line := by
  unfold isOverflow
  split <;> simp_all

/-- A run ended, and its calls were never nested too deep. -/
def Outcome.Fits {α : Type} : Outcome α → Prop
  | .done _ _ => True
  | .failed failure _ => failure.isOverflow = false
  | .outOfFuel => False

theorem Outcome.not_fits_overflow {α : Type} (m : Machine) (line : Nat) :
    ¬ (m.fault .stackOverflow line : Outcome α).Fits := nofun

/-- A run fits only if its first part does: whatever goes wrong there ends it. -/
theorem Outcome.Fits.of_bind {α β : Type} {o : Outcome α} {f : α → Machine → Outcome β}
    (h : (o.bind f).Fits) : o.Fits := by
  cases o with
  | done a m => trivial
  | failed failure m => exact h
  | outOfFuel => exact h

theorem Outcome.Fits.of_onExit {α : Type} {o : Outcome α} {f : Machine → Machine}
    (h : (o.onExit f).Fits) : o.Fits := by
  cases o with
  | done a m => trivial
  | failed failure m => exact h
  | outOfFuel => exact h

/-! ## Plans -/

/-- The setting with another bound on the calls in progress. -/
def Setting.withLimit (s : Setting) (limit : Nat) : Setting := { s with maxDepth := limit }

section

variable {s : Setting} {limit n : Nat}

theorem Expr.plan_withLimit (e : Expr NodeId) (m : Machine) :
    e.plan (s.withLimit limit) m = e.plan s m := by
  cases e <;> rfl

theorem Stmt.plan_withLimit (statement : Stmt NodeId) (m : Machine) :
    statement.plan (s.withLimit limit) m = statement.plan s m := by
  cases statement with
  | var name initializer => cases initializer <;> rfl
  | «return» keyword value => cases value <;> rfl
  | «class» name superclass methods => cases superclass <;> rfl
  | _ => rfl

/-- A function that may be entered may also be entered under a larger limit. -/
theorem FunctionObject.plan_withLimit (hle : s.maxDepth ≤ limit) {f : FunctionObject}
    {arguments : List Value} {line : Nat} {m : Machine}
    (h : ((f.plan s arguments line m).runWith n s).Fits) :
    f.plan (s.withLimit limit) arguments line m = f.plan s arguments line m := by
  have hroom : ¬ s.maxDepth ≤ m.depth := fun hfull => by
    rw [plan, rule, if_pos hfull] at h
    exact Outcome.not_fits_overflow m line h
  have hroom' : ¬ (s.withLimit limit).maxDepth ≤ m.depth := fun hfull =>
    hroom (Nat.le_trans hle hfull)
  rw [plan, plan, rule, rule, if_neg hroom, if_neg hroom']

/-- What a task does by itself depends on the limit only if the limit stops it. -/
theorem Task.plan_withLimit (hle : s.maxDepth ≤ limit) {t : Task} {m : Machine}
    (h : ((t.plan s m).runWith n s).Fits) : t.plan (s.withLimit limit) m = t.plan s m := by
  cases t with
  | evaluate e => exact e.plan_withLimit m
  | execute statement => exact statement.plan_withLimit m
  | enter f arguments line => exact FunctionObject.plan_withLimit hle h
  | _ => rfl

theorem Plan.runWith_withLimit {α : Type} {p : Plan α} (h : (p.runWith n s).Fits)
    (ih : ∀ (t : Task) m, (t.run n s m).Fits → t.run n (s.withLimit limit) m = t.run n s m) :
    p.runWith n (s.withLimit limit) = p.runWith n s := by
  induction p with
  | finish o => rfl
  | start t m exit resume ihp =>
    rw [runWith_start] at h
    rw [runWith_start, runWith_start, ih t m h.of_bind.of_onExit]
    cases hr : t.run n s m with
    | done a m' =>
      rw [hr] at h
      exact ihp a (exit.apply m') h
    | failed | outOfFuel => rfl

/-! ## Runs -/

/-- A run of a task that fits is the same under a larger limit. -/
theorem Task.run_withLimit (hle : s.maxDepth ≤ limit) {t : Task} {m : Machine}
    (h : (t.run n s m).Fits) : t.run n (s.withLimit limit) m = t.run n s m := by
  induction n generalizing t m with
  | zero => rw [run_zero, run_zero]
  | succ n ih =>
    rw [run_succ] at h
    rw [run_succ, run_succ, Task.plan_withLimit hle h]
    exact Plan.runWith_withLimit h fun t m => ih

theorem runStatements_withLimit (hle : s.maxDepth ≤ limit) {program : List (Stmt NodeId)}
    {m : Machine} (h : (runStatements n s program m).Fits) :
    runStatements n (s.withLimit limit) program m = runStatements n s program m := by
  induction program generalizing m with
  | nil => rfl
  | cons statement rest ih =>
    rw [runStatements] at h
    have hone : execute n (s.withLimit limit) statement m = execute n s statement m :=
      Task.run_withLimit hle (t := .execute statement) h.of_bind
    rw [runStatements, runStatements, hone]
    cases hr : execute n s statement m with
    | done completion m' =>
      rw [hr] at h
      exact ih h
    | failed | outOfFuel => rfl

/-- A run of a program that fits is the same under a larger limit. -/
theorem runProgram_withLimit (hle : s.maxDepth ≤ limit) {program : List (Stmt NodeId)}
    {m : Machine} (h : (runProgram n s program m).Fits) :
    runProgram n (s.withLimit limit) program m = runProgram n s program m := by
  have hstatements : (runStatements n s program { m with depth := 0 }).Fits := by
    unfold runProgram at h
    split at h
    · next hr => exact hr ▸ trivial
    · next hr => exact hr ▸ h
    · cases h
  rw [runProgram, runProgram, runStatements_withLimit hle hstatements]
  rfl

end

end Lox
