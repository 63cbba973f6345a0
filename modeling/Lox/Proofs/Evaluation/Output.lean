import Lox.Proofs.Evaluation.Plans

/-!
# Output in front of a run

What was printed before a run has no influence on it, as long as the output takes
everything: the run prints the same behind it, and ends in the same way.

* `Plan.Follows`: two plans that do the same, one of them behind an output;
* `Task.run_prepend`, `runStatements_prepend`: so do the runs.
-/

namespace Lox

/-- The state with more output in front. -/
def Machine.prepend (text : String) (m : Machine) : Machine := { m with output := text ++ m.output }

/-- The output takes everything. -/
def Setting.TakesAll (s : Setting) : Prop := ∀ text, s.writeFailure text = none

/-! ## Plans behind an output -/

/-- The second plan does what the first one does, with an output in front of all its states. -/
inductive Plan.Follows {α : Type} (text : String) : Plan α → Plan α → Prop where
  | finish {o o' : Outcome α} (h : o' = o.onExit (.prepend text)) :
    Follows text (.finish o) (.finish o')
  | start {t : Task} {m : Machine} {exit : Exit} {resume resume' : t.Answer → Machine → Plan α}
    (h : ∀ a m, Follows text (resume a m) (resume' a (m.prepend text))) :
    Follows text (.start t m exit resume) (.start t (m.prepend text) exit resume')

section

variable {text : String} {m : Machine}

theorem Exit.apply_prepend (exit : Exit) (text : String) (m : Machine) :
    exit.apply (m.prepend text) = (exit.apply m).prepend text := by
  cases exit <;> rfl

theorem Plan.Follows.run {n : Nat} {s : Setting}
    (ih : ∀ (t : Task) m, t.run n s (m.prepend text) = (t.run n s m).onExit (.prepend text))
    {α : Type} {p p' : Plan α} (h : p.Follows text p') :
    p'.runWith n s = (p.runWith n s).onExit (.prepend text) := by
  induction h with
  | finish h => exact h
  | @start t m exit resume resume' _ ihr =>
    rw [Plan.runWith_start, Plan.runWith_start, ih]
    cases t.run n s m with
    | done a m' =>
      show (resume' a (exit.apply (m'.prepend text))).runWith n s = _
      rw [exit.apply_prepend]
      exact ihr a (exit.apply m')
    | failed failure m' =>
      show Outcome.failed failure (exit.apply (m'.prepend text)) = _
      rw [exit.apply_prepend]
      rfl
    | outOfFuel => rfl

theorem Plan.follows_delegate (t : Task) (m : Machine) :
    (Plan.delegate t m).Follows text (.delegate t (m.prepend text)) :=
  .start fun _ _ => .finish rfl

theorem Plan.Follows.ite {α : Type} {c : Prop} {d d' : Decidable c} {p p' q q' : Plan α}
    (hp : p.Follows text p') (hq : q.Follows text q') :
    Plan.Follows text (@ite _ c d p q) (@ite _ c d' p' q') := by
  by_cases h : c
  · rwa [if_pos h, if_pos h]
  · rwa [if_neg h, if_neg h]

/-! ## Steps behind an output -/

theorem settle_prepend (line : Nat) (result : Except RuntimeFault Value) :
    (m.prepend text).settle line result = (m.settle line result).onExit (.prepend text) := by
  cases result <;> rfl

theorem readVariable_prepend (s : Setting) (id : NodeId) (name : Name) :
    readVariable s id name (m.prepend text) =
      (readVariable s id name m).onExit (.prepend text) := by
  unfold readVariable
  dsimp only [Machine.prepend]
  split <;> rfl

theorem writeVariable_prepend (s : Setting) (id : NodeId) (name : Name) (value : Value) :
    writeVariable s id name value (m.prepend text) =
      (writeVariable s id name value m).onExit (.prepend text) := by
  unfold writeVariable
  dsimp only [Machine.prepend]
  split <;> rfl

theorem readProperty_prepend (object : Value) (name : Name) :
    readProperty object name (m.prepend text) =
      (readProperty object name m).onExit (.prepend text) := by
  unfold readProperty
  dsimp only [Machine.prepend]
  split
  · split
    · rfl
    · split
      · rfl
      · split <;> rfl
  · rfl

theorem readSuper_prepend (s : Setting) (id : NodeId) (keyword method : Name) :
    readSuper s id keyword method (m.prepend text) =
      (readSuper s id keyword method m).onExit (.prepend text) := by
  unfold readSuper
  dsimp only [Machine.prepend]
  split
  · rfl
  split
  · rfl
  split
  · rfl
  split
  · split <;> rfl
  · rfl

theorem printed_prepend (value : Value) :
    (m.prepend text).printed value = text ++ m.printed value := by
  simp only [Machine.printed, Machine.prepend, String.append_assoc]

theorem printValue_prepend {s : Setting} (hs : s.TakesAll) (value : Value) :
    printValue s value (m.prepend text) = (printValue s value m).onExit (.prepend text) := by
  simp only [printValue, hs _, printed_prepend]
  rfl

theorem result_prepend (f : FunctionObject) (completion : Completion) :
    f.result completion (m.prepend text) = (f.result completion m).onExit (.prepend text) := by
  unfold FunctionObject.result
  dsimp only [Machine.prepend]
  split
  · split <;> rfl
  · split <;> rfl

theorem declareClass_prepend (name : Name) (superclass : Option ClassId)
    (methods : List (FunDecl NodeId)) :
    declareClass name superclass methods (m.prepend text) =
      (declareClass name superclass methods m).prepend text := by
  cases superclass <;> rfl

/-! ## Plans of the evaluator -/

theorem Expr.follows_plan (s : Setting) (e : Expr NodeId) :
    (e.plan s m).Follows text (e.plan s (m.prepend text)) := by
  cases e with
  | literal => exact .finish rfl
  | group inner => exact Plan.follows_delegate (.evaluate inner) m
  | unary operator right => exact .start fun _ _ => .finish (settle_prepend _ _)
  | binary left operator right =>
    exact .start fun _ _ => .start fun _ _ => .finish (settle_prepend _ _)
  | logical left operator right =>
    exact .start fun _ m => .ite (.finish rfl) (Plan.follows_delegate (.evaluate right) m)
  | «variable» id name | this id name => exact .finish (readVariable_prepend s id name)
  | assign id name value => exact .start fun _ _ => .finish (writeVariable_prepend s id name _)
  | call callee line arguments =>
    exact .start fun callee _ => .start fun arguments m =>
      Plan.follows_delegate (.call callee arguments line) m
  | get object name => exact .start fun _ _ => .finish (readProperty_prepend _ name)
  | set object name value =>
    refine .start fun object m => ?_
    cases object with
    | «instance» id => exact .start fun _ _ => .finish rfl
    | _ => exact .finish rfl
  | super id keyword method => exact .finish (readSuper_prepend s id keyword method)

theorem Expr.follows_planAll (es : List (Expr NodeId)) :
    (Expr.planAll es m).Follows text (Expr.planAll es (m.prepend text)) := by
  cases es with
  | nil => exact .finish rfl
  | cons e es => exact .start fun _ _ => .start fun _ _ => .finish rfl

theorem Value.follows_callPlan (callee : Value) (arguments : List Value) (line : Nat) :
    (callee.callPlan arguments line m).Follows text
      (callee.callPlan arguments line (m.prepend text)) := by
  have hstore : (m.prepend text).store = m.store := rfl
  cases callee with
  | function id =>
    rw [callPlan, callPlan, callRule, callRule, hstore]
    cases m.store.function? id with
    | none => exact .finish rfl
    | some f => exact .ite (Plan.follows_delegate (.enter f arguments line) m) (.finish rfl)
  | «class» id =>
    rw [callPlan, callPlan, callRule, callRule, hstore]
    refine .ite ?_ (.finish rfl)
    dsimp only
    cases (m.store.addInstance ⟨id, ∅⟩).2.findMethod id initializerName with
    | none => exact .finish rfl
    | some initializer => exact .start fun _ _ => .finish rfl
  | _ => exact .finish rfl

theorem FunctionObject.follows_plan (s : Setting) (f : FunctionObject) (arguments : List Value)
    (line : Nat) :
    (f.plan s arguments line m).Follows text (f.plan s arguments line (m.prepend text)) := by
  exact .ite (.finish rfl) (.start fun completion _ => .finish (result_prepend f completion))

theorem Stmt.follows_plan {s : Setting} (hs : s.TakesAll) (statement : Stmt NodeId) :
    (statement.plan s m).Follows text (statement.plan s (m.prepend text)) := by
  cases statement with
  | expression e => exact .start fun _ _ => .finish rfl
  | print e => exact .start fun value _ => .finish (printValue_prepend hs value)
  | var name initializer =>
    cases initializer with
    | none => exact .finish rfl
    | some e => exact .start fun _ _ => .finish rfl
  | block body => exact .start fun _ _ => .finish rfl
  | ifElse condition thenBranch elseBranch =>
    refine .start fun value m => .ite (Plan.follows_delegate (.execute thenBranch) m) ?_
    cases elseBranch with
    | none => exact .finish rfl
    | some elseBranch => exact Plan.follows_delegate (.execute elseBranch) m
  | «while» condition body => exact Plan.follows_delegate (.loop condition body) m
  | function declaration => exact .finish rfl
  | «return» keyword value =>
    cases value with
    | none => exact .finish rfl
    | some e => exact .start fun _ _ => .finish rfl
  | «class» name superclass methods =>
    cases superclass with
    | none => exact .finish (congrArg _ (declareClass_prepend name none methods))
    | some e =>
      refine .start fun value m => ?_
      cases value with
      | «class» c => exact .finish (congrArg _ (declareClass_prepend name (some c) methods))
      | _ => exact .finish rfl

theorem Stmt.follows_planAll (statements : List (Stmt NodeId)) :
    (Stmt.planAll statements m).Follows text (Stmt.planAll statements (m.prepend text)) := by
  cases statements with
  | nil => exact .finish rfl
  | cons statement rest =>
    refine .start fun completion m => ?_
    cases completion with
    | normal => exact Plan.follows_delegate (.executeAll rest) m
    | returned => exact .finish rfl

theorem Stmt.follows_loopPlan (condition : Expr NodeId) (body : Stmt NodeId) :
    (Stmt.loopPlan condition body m).Follows text
      (Stmt.loopPlan condition body (m.prepend text)) := by
  refine .start fun value m => .ite (.start fun completion m => ?_) (.finish rfl)
  cases completion with
  | normal => exact Plan.follows_delegate (.loop condition body) m
  | returned => exact .finish rfl

/-- Every plan is the same behind an output. -/
theorem Task.follows_plan {s : Setting} (hs : s.TakesAll) (t : Task) (m : Machine) :
    (t.plan s m).Follows text (t.plan s (m.prepend text)) := by
  cases t with
  | evaluate e => exact e.follows_plan s
  | evaluateAll es => exact Expr.follows_planAll es
  | call callee arguments line => exact callee.follows_callPlan arguments line
  | enter f arguments line => exact f.follows_plan s arguments line
  | execute statement => exact statement.follows_plan hs
  | executeAll statements => exact Stmt.follows_planAll statements
  | loop condition body => exact Stmt.follows_loopPlan condition body

end

/-! ## Runs -/

section

variable {s : Setting} (hs : s.TakesAll) (text : String) (n : Nat)

include hs

/-- A run behind an output prints the same and ends in the same way. -/
theorem Task.run_prepend (t : Task) (m : Machine) :
    t.run n s (m.prepend text) = (t.run n s m).onExit (.prepend text) := by
  induction n generalizing t m with
  | zero =>
    rw [run_zero, run_zero]
    rfl
  | succ n ih =>
    rw [run_succ, run_succ]
    exact (t.follows_plan hs m).run ih

theorem runStatements_prepend (program : List (Stmt NodeId)) (m : Machine) :
    runStatements n s program (m.prepend text) =
      (runStatements n s program m).onExit (.prepend text) := by
  induction program generalizing m with
  | nil => rfl
  | cons statement rest ih =>
    have hx : execute n s statement (m.prepend text) =
        (execute n s statement m).onExit (.prepend text) :=
      Task.run_prepend hs text n (.execute statement) m
    simp only [runStatements, hx]
    cases execute n s statement m with
    | done completion m₁ => exact ih m₁
    | failed | outOfFuel => rfl

end

end Lox
