import Lox.Proofs.Evaluation.Plans
import Lox.Proofs.Scope.Accepted

/-!
# How statements end

A statement ends on the way out of a function only if a `return` stands in it,
outside of the functions and methods that it declares (`Stmt.Returns`). The walk of
`resolve` rejects such a `return` where no function is around it. So the statements
of a program that is accepted all end normally, in every state.

* `Stmt.not_returns_of_clean`: what the walk makes sure of;
* `Completion.eq_normal_of_execute`: what it means for a run.
-/

namespace Lox

mutual

/-- A `return` stands in a statement, in no function or method of it. -/
def Stmt.Returns : Stmt NodeId → Prop
  | .block body => Stmt.ReturnsAny body
  | .ifElse _ thenBranch elseBranch => thenBranch.Returns ∨ Stmt.Returns? elseBranch
  | .while _ body => body.Returns
  | .return _ _ => True
  | .expression _ | .print _ | .var _ _ | .function _ | .class _ _ _ => False

/-- A `return` stands in a branch that may be absent. -/
def Stmt.Returns? : Option (Stmt NodeId) → Prop
  | none => False
  | some statement => statement.Returns

/-- A `return` stands in one of several statements. -/
def Stmt.ReturnsAny : List (Stmt NodeId) → Prop
  | [] => False
  | statement :: rest => statement.Returns ∨ Stmt.ReturnsAny rest

end

theorem Stmt.not_returnsAny_iff {statements : List (Stmt NodeId)} :
    ¬ Stmt.ReturnsAny statements ↔ ∀ statement ∈ statements, ¬ statement.Returns := by
  induction statements with
  | nil => simp [Stmt.ReturnsAny]
  | cons statement rest ih => rw [Stmt.ReturnsAny, not_or, ih, List.forall_mem_cons]

/-! ## Outside of functions -/

theorem not_clean_returnFindings {context : Context} (hf : context.inFunction = .none)
    (keyword : Name) (hasValue : Bool) :
    ¬ Finding.Clean (returnFindings context keyword hasValue) := by
  rw [returnFindings, if_pos hf, Finding.clean_append]
  exact fun h => Finding.not_clean_error _ h.1

mutual

/-- Where no function is around a statement, the walk finds every `return` in it. -/
theorem Stmt.not_returns_of_clean {context : Context} (hf : context.inFunction = .none) :
    (statement : Stmt NodeId) → {scopes : Scopes} →
      Finding.Clean (statement.resolve context scopes).2 → ¬ statement.Returns
  | .block body, _, h => by
    rw [Returns]
    exact Stmt.not_returnsAny_of_clean hf body h
  | .ifElse _ thenBranch elseBranch, _, h => by
    simp only [Stmt.resolve, Finding.clean_append] at h
    rw [Returns, not_or]
    exact ⟨thenBranch.not_returns_of_clean hf h.1.2, Stmt.not_returns?_of_clean hf elseBranch h.2⟩
  | .while _ body, _, h => by
    simp only [Stmt.resolve, Finding.clean_append] at h
    rw [Returns]
    exact body.not_returns_of_clean hf h.2
  | .return keyword value, _, h => by
    simp only [Stmt.resolve, Finding.clean_append] at h
    exact absurd h.1 (not_clean_returnFindings hf keyword value.isSome)
  | .expression _, _, _ | .print _, _, _ | .var _ _, _, _ | .function _, _, _
  | .class _ _ _, _, _ => by
    rw [Returns]
    exact id

theorem Stmt.not_returns?_of_clean {context : Context} (hf : context.inFunction = .none) :
    (branch : Option (Stmt NodeId)) → {scopes : Scopes} →
      Finding.Clean (Stmt.resolve? context scopes branch).2 → ¬ Stmt.Returns? branch
  | none, _, _ => id
  | some statement, _, h => by
    rw [Returns?]
    exact statement.not_returns_of_clean hf h

theorem Stmt.not_returnsAny_of_clean {context : Context} (hf : context.inFunction = .none) :
    (statements : List (Stmt NodeId)) → {scopes : Scopes} →
      Finding.Clean (Stmt.resolveAll context scopes statements).2 → ¬ Stmt.ReturnsAny statements
  | [], _, _ => id
  | statement :: rest, _, h => by
    simp only [Stmt.resolveAll, Finding.clean_append] at h
    rw [ReturnsAny, not_or]
    exact ⟨statement.not_returns_of_clean hf h.1, Stmt.not_returnsAny_of_clean hf rest h.2⟩

end

/-- In a program without errors no `return` stands outside of functions. -/
theorem not_returns_of_errors_eq_nil {program : List (Stmt NodeId)}
    (h : (resolve program).errors = []) : ∀ statement ∈ program, ¬ statement.Returns :=
  Stmt.not_returnsAny_iff.mp
    (Stmt.not_returnsAny_of_clean rfl program (Finding.clean_iff_errors_eq_nil.mpr h))

/-! ## Runs -/

/-- A `return` stands in the statements that a task executes by itself. -/
def Task.Returns : Task → Prop
  | .execute statement | .loop _ statement => statement.Returns
  | .executeAll statements => Stmt.ReturnsAny statements
  | .evaluate _ | .evaluateAll _ | .call _ _ _ | .enter _ _ _ => False

/-- The answer of a task is not on the way out of a function. -/
def Task.EndsNormally : (t : Task) → t.Answer → Prop
  | .execute _, completion | .executeAll _, completion | .loop _ _, completion =>
    completion = .normal
  | .evaluate _, _ | .evaluateAll _, _ | .call _ _ _, _ | .enter _ _ _, _ => True

/-- A task in whose statements no `return` stands ends normally. -/
def completing : Contract where
  pre _ _ := True
  done t _ a _ := ¬ t.Returns → t.EndsNormally a
  failed _ _ _ := True
  raised _ _ _ _ := True

section

variable {t : Task} {m m' : Machine}

theorem meets_completing_fault (cause : RuntimeFault) (line : Nat) :
    completing.Meets t m (.finish (m'.fault cause line)) := ⟨trivial, trivial⟩

theorem meets_completing_start (u : Task) (exit : Exit) {resume : u.Answer → Machine → Plan t.Answer}
    (h : ∀ a m'', (¬ u.Returns → u.EndsNormally a) →
      completing.Meets t m (resume a (exit.apply m''))) :
    completing.Meets t m (.start u m' exit resume) :=
  ⟨trivial, h, fun _ _ => trivial⟩

/-- A task that gives a value or several is none of those that the contract speaks of. -/
theorem meets_completing_of_forall (h : ∀ a, t.EndsNormally a) (p : Plan t.Answer) :
    completing.Meets t m p := by
  induction p with
  | finish o =>
    cases o with
    | done a m' => exact fun _ => h a
    | failed failure m' => exact ⟨trivial, trivial⟩
    | outOfFuel => trivial
  | start u m₁ exit resume ih =>
    exact meets_completing_start u exit fun a m'' _ => ih a (exit.apply m'')

theorem Stmt.completing_plan (s : Setting) (statement : Stmt NodeId) :
    completing.Meets (.execute statement) m (statement.plan s m) := by
  cases statement with
  | expression e => exact meets_completing_start (.evaluate e) .stay fun _ _ _ _ => rfl
  | print e =>
    refine meets_completing_start (.evaluate e) .stay fun value m' _ => ?_
    unfold printValue
    split
    · exact ⟨trivial, trivial⟩
    · exact fun _ => rfl
  | var name initializer =>
    cases initializer with
    | none => exact fun _ => rfl
    | some e => exact meets_completing_start (.evaluate e) .stay fun _ _ _ _ => rfl
  | block body =>
    exact meets_completing_start (.executeAll body) (.leave m.environment 0) fun _ _ hd hn =>
      hd (by rwa [Task.Returns, Returns] at hn)
  | ifElse condition thenBranch elseBranch =>
    refine meets_completing_start (.evaluate condition) .stay fun value m' _ => ?_
    split
    · refine meets_completing_start (.execute thenBranch) .stay fun _ _ hd hn => hd ?_
      rw [Task.Returns, Returns] at hn
      exact fun h => hn (.inl h)
    · cases elseBranch with
      | none => exact fun _ => rfl
      | some elseBranch =>
        refine meets_completing_start (.execute elseBranch) .stay fun _ _ hd hn => hd ?_
        rw [Task.Returns, Returns, Returns?] at hn
        exact fun h => hn (.inr h)
  | «while» condition body =>
    exact meets_completing_start (.loop condition body) .stay fun _ _ hd hn =>
      hd (by rwa [Task.Returns, Returns] at hn)
  | function declaration => exact fun _ => rfl
  | «return» keyword value =>
    have hreturns : (Task.execute (.return keyword value)).Returns := by
      rw [Task.Returns, Returns]
      trivial
    cases value with
    | none => exact fun hn => absurd hreturns hn
    | some e =>
      exact meets_completing_start (.evaluate e) .stay fun _ _ _ hn => absurd hreturns hn
  | «class» name superclass methods =>
    cases superclass with
    | none => exact fun _ => rfl
    | some e =>
      refine meets_completing_start (.evaluate e) .stay fun value m' _ => ?_
      cases value with
      | «class» c => exact fun _ => rfl
      | _ => exact meets_completing_fault _ _

theorem Stmt.completing_planAll (statements : List (Stmt NodeId)) :
    completing.Meets (.executeAll statements) m (Stmt.planAll statements m) := by
  cases statements with
  | nil => exact fun _ => rfl
  | cons statement rest =>
    refine meets_completing_start (.execute statement) .stay fun completion m' hd => ?_
    cases completion with
    | normal =>
      refine meets_completing_start (.executeAll rest) .stay fun _ _ hrest hn => hrest ?_
      rw [Task.Returns, ReturnsAny] at hn
      exact fun h => hn (.inr h)
    | returned value =>
      intro hn
      rw [Task.Returns, ReturnsAny] at hn
      exact hd fun h => hn (.inl h)

theorem Stmt.completing_loopPlan (condition : Expr NodeId) (body : Stmt NodeId) :
    completing.Meets (.loop condition body) m (Stmt.loopPlan condition body m) := by
  refine meets_completing_start (.evaluate condition) .stay fun value m' _ => ?_
  split
  · refine meets_completing_start (.execute body) .stay fun completion m'' hd => ?_
    cases completion with
    | normal => exact meets_completing_start (.loop condition body) .stay fun _ _ hrest hn => hrest hn
    | returned value => exact hd
  · exact fun _ => rfl

end

theorem completing_kept (s : Setting) : completing.Kept s := by
  intro t m _
  cases t with
  | execute statement => exact statement.completing_plan s
  | executeAll statements => exact Stmt.completing_planAll statements
  | loop condition body => exact Stmt.completing_loopPlan condition body
  | evaluate e =>
    exact meets_completing_of_forall (t := .evaluate e) (fun _ => trivial) (e.plan s m)
  | evaluateAll es =>
    exact meets_completing_of_forall (t := .evaluateAll es) (fun _ => trivial) (Expr.planAll es m)
  | call callee arguments line =>
    exact meets_completing_of_forall (t := .call callee arguments line) (fun _ => trivial)
      (callee.callPlan arguments line m)
  | enter f arguments line =>
    exact meets_completing_of_forall (t := .enter f arguments line) (fun _ => trivial)
      (f.plan s arguments line m)

/-- A statement in which no `return` stands ends normally, in every state and with any distances. -/
theorem Completion.eq_normal_of_execute {n : Nat} {s : Setting} {statement : Stmt NodeId}
    {m m' : Machine} {completion : Completion} (hn : ¬ statement.Returns)
    (h : execute n s statement m = .done completion m') : completion = .normal := by
  have hends := (completing_kept s).run n (t := .execute statement) (m := m) trivial
  have hrun : (Task.execute statement).run n s m = .done completion m' := h
  rw [hrun] at hends
  exact hends hn

end Lox
