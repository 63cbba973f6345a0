import Lox.Proofs.Evaluation.Steps

/-!
# Every exit restores the place of the machine

The place of a machine is its current frame and the number of calls in progress.
Blocks and calls change it, and put it right again by hand: a block goes back to
the frame before it, and a call takes one from the depth as well. Everything that
runs inside them does the same, so what is put right is exactly what was changed.

This needs nothing of the state and nothing of the distances: `returning` is a
contract without a precondition.

* `returning_kept`: every plan keeps the contract;
* `Task.returns_run`: so does every run of a task, however it ends;
* `returns_runStatements`, `returns_runProgram`: so do programs, which end in the globals;
* `FunctionObject.depth_of_starts`: the depth at which the body of a function starts.
-/

namespace Lox

/-- The second state is in the frame of the first one and at its depth of calls. -/
structure Machine.Returns (m m' : Machine) : Prop where
  environment : m'.environment = m.environment
  depth : m'.depth = m.depth

section

variable {m m₁ m₂ : Machine}

theorem Machine.Returns.refl (m : Machine) : m.Returns m := ⟨rfl, rfl⟩

theorem Machine.Returns.trans (h : m.Returns m₁) (h' : m₁.Returns m₂) : m.Returns m₂ :=
  ⟨h'.environment.trans h.environment, h'.depth.trans h.depth⟩

/-- What is stored changes neither. -/
theorem Machine.Returns.withStore (h : m.Returns m₁) (store : Store) :
    m.Returns { m₁ with store } := ⟨h.environment, h.depth⟩

/-- Leaving what was entered: one takes from the depth what was added to it. -/
theorem Machine.Returns.leave {bindings : Bindings Value} {enclosing : FrameId} {calls : Nat}
    (h : (m.enter bindings enclosing calls).Returns m₁) :
    m.Returns (m₁.leave m.environment calls) where
  environment := rfl
  depth := by
    have hd : m₁.depth = m.depth + calls := h.depth
    show m₁.depth - calls = m.depth
    rw [hd, Nat.add_sub_cancel]

theorem Machine.Returns.define (h : m.Returns m₁) (name : String) (value : Value) :
    m.Returns (m₁.define name value) := h.withStore _

theorem Machine.Returns.declareFunction (h : m.Returns m₁) (declaration : FunDecl NodeId) :
    m.Returns (Lox.declareFunction declaration m₁) := h.withStore _

theorem Machine.Returns.declareClass (h : m.Returns m₁) (name : Name)
    (superclass : Option ClassId) (methods : List (FunDecl NodeId)) :
    m.Returns (Lox.declareClass name superclass methods m₁) := by
  cases superclass <;> exact h.withStore _

/-! ## The contract -/

/-- Every task ends in the frame and at the depth of calls in which it started. -/
def returning : Contract where
  pre _ _ := True
  done _ m _ m' := m.Returns m'
  failed _ m m' := m.Returns m'
  raised _ _ _ _ := True

section

variable {s : Setting} {t : Task}

theorem returning_finish {o : Outcome t.Answer} (h : o.Ensures m.Returns) :
    returning.Meets t m (.finish o) := by
  cases o with
  | done a m' => exact Outcome.ensures_done.mp h
  | failed failure m' => exact ⟨Outcome.ensures_failed.mp h, trivial⟩
  | outOfFuel => trivial

theorem returning_fault (h : m.Returns m₁) (cause : RuntimeFault) (line : Nat) :
    returning.Meets t m (.finish (m₁.fault cause line)) :=
  returning_finish (Outcome.ensures_fault.mpr h)

/-- Binding a method only adds to the store. -/
theorem Machine.Returns.bound (h : m.Returns m₁) (method : FunctionObject) (receiver : InstanceId) :
    (Lox.bound method receiver m₁).Ensures m.Returns :=
  Outcome.ensures_done.mpr (h.withStore _)

/-- A task that starts another one goes on in the place to which that one returned. -/
theorem returning_start (u : Task) (h : m.Returns m₁)
    {resume : u.Answer → Machine → Plan t.Answer}
    (hresume : ∀ a m', m.Returns m' → returning.Meets t m (resume a m')) :
    returning.Meets t m (.start u m₁ .stay resume) :=
  ⟨trivial, fun a m' hd => hresume a m' (h.trans hd), fun _ hf => h.trans hf⟩

/-- A task that enters a new frame and starts another one there is back when it has left the frame. -/
theorem returning_enter (u : Task) (bindings : Bindings Value) (enclosing : FrameId) (calls : Nat)
    {resume : u.Answer → Machine → Plan t.Answer}
    (hresume : ∀ a m', m.Returns m' → returning.Meets t m (resume a m')) :
    returning.Meets t m
      (.start u (m.enter bindings enclosing calls) (.leave m.environment calls) resume) :=
  ⟨trivial, fun a _ hd => hresume a _ hd.leave, fun _ hf => hf.leave⟩

/-! ## Plans -/

theorem Expr.returning_plan (s : Setting) (e : Expr NodeId) (m : Machine) :
    returning.Meets (.evaluate e) m (e.plan s m) := by
  have h := Machine.Returns.refl m
  cases e with
  | literal => exact h
  | group inner => exact returning_start (.evaluate inner) h fun _ _ h₁ => h₁
  | unary operator right =>
    exact returning_start (.evaluate right) h fun _ _ h₁ => returning_finish (ensures_settle h₁ _ _)
  | binary left operator right =>
    exact returning_start (.evaluate left) h fun _ _ h₁ =>
      returning_start (.evaluate right) h₁ fun _ _ h₂ => returning_finish (ensures_settle h₂ _ _)
  | logical left operator right =>
    refine returning_start (.evaluate left) h fun value m₁ h₁ => ?_
    split
    · exact h₁
    · exact returning_start (.evaluate right) h₁ fun _ _ h₂ => h₂
  | «variable» id name | this id name => exact returning_finish (ensures_readVariable s id name h)
  | assign id name value =>
    exact returning_start (.evaluate value) h fun _ _ h₁ =>
      returning_finish (ensures_writeVariable s id name _ h₁ fun _ => h₁.withStore _)
  | call callee line arguments =>
    exact returning_start (.evaluate callee) h fun callee _ h₁ =>
      returning_start (.evaluateAll arguments) h₁ fun arguments _ h₂ =>
        returning_start (.call callee arguments line) h₂ fun _ _ h₃ => h₃
  | get object name =>
    exact returning_start (.evaluate object) h fun _ _ h₁ =>
      returning_finish (ensures_readProperty _ name h₁ fun _ i method _ => h₁.bound method i)
  | set object name value =>
    refine returning_start (.evaluate object) h fun object m₁ h₁ => ?_
    cases object with
    | «instance» id =>
      exact returning_start (.evaluate value) h₁ fun _ _ h₂ => h₂.withStore _
    | _ => exact returning_fault h₁ _ _
  | super id keyword method =>
    exact returning_finish (ensures_readSuper s id keyword method h fun _ i f _ => h.bound f i)

theorem Expr.returning_planAll (es : List (Expr NodeId)) (m : Machine) :
    returning.Meets (.evaluateAll es) m (Expr.planAll es m) := by
  cases es with
  | nil => exact Machine.Returns.refl m
  | cons e es =>
    exact returning_start (.evaluate e) (.refl m) fun _ _ h₁ =>
      returning_start (.evaluateAll es) h₁ fun _ _ h₂ => h₂

theorem Value.returning_callPlan (callee : Value) (arguments : List Value) (line : Nat)
    (m : Machine) :
    returning.Meets (.call callee arguments line) m (callee.callPlan arguments line m) := by
  have h := Machine.Returns.refl m
  cases callee with
  | function id =>
    rw [callPlan, callRule]
    split
    · exact returning_fault h _ _
    · split
      · exact returning_start (.enter _ arguments line) h fun _ _ h₁ => h₁
      · exact returning_fault h _ _
  | «class» id =>
    rw [callPlan, callRule]
    split
    · dsimp only
      split
      · exact h.withStore _
      · exact returning_start (.enter _ arguments line) (h.withStore _) fun _ _ h₁ => h₁
    · exact returning_fault h _ _
  | _ => exact returning_fault h _ _

theorem FunctionObject.returning_plan (s : Setting) (f : FunctionObject) (arguments : List Value)
    (line : Nat) (m : Machine) :
    returning.Meets (.enter f arguments line) m (f.plan s arguments line m) := by
  unfold plan rule
  split
  · exact returning_fault (.refl m) _ _
  · exact returning_enter (.executeAll f.declaration.body) _ _ 1 fun completion _ h₁ =>
      returning_finish (ensures_result f completion h₁)

theorem Stmt.returning_plan (s : Setting) (statement : Stmt NodeId) (m : Machine) :
    returning.Meets (.execute statement) m (statement.plan s m) := by
  have h := Machine.Returns.refl m
  cases statement with
  | expression e => exact returning_start (.evaluate e) h fun _ _ h₁ => h₁
  | print e =>
    exact returning_start (.evaluate e) h fun _ _ h₁ =>
      returning_finish (ensures_printValue s _ h₁ ⟨h₁.environment, h₁.depth⟩)
  | var name initializer =>
    cases initializer with
    | none => exact h.define name.text .nil
    | some e => exact returning_start (.evaluate e) h fun _ _ h₁ => h₁.define name.text _
  | block body => exact returning_enter (.executeAll body) ∅ m.environment 0 fun _ _ h₁ => h₁
  | ifElse condition thenBranch elseBranch =>
    refine returning_start (.evaluate condition) h fun value m₁ h₁ => ?_
    split
    · exact returning_start (.execute thenBranch) h₁ fun _ _ h₂ => h₂
    · cases elseBranch with
      | none => exact h₁
      | some elseBranch => exact returning_start (.execute elseBranch) h₁ fun _ _ h₂ => h₂
  | «while» condition body => exact returning_start (.loop condition body) h fun _ _ h₁ => h₁
  | function declaration => exact h.declareFunction declaration
  | «return» keyword value =>
    cases value with
    | none => exact h
    | some e => exact returning_start (.evaluate e) h fun _ _ h₁ => h₁
  | «class» name superclass methods =>
    cases superclass with
    | none => exact h.declareClass name none methods
    | some e =>
      refine returning_start (.evaluate e) h fun value m₁ h₁ => ?_
      cases value with
      | «class» c => exact h₁.declareClass name (some c) methods
      | _ => exact returning_fault h₁ _ _

theorem Stmt.returning_planAll (statements : List (Stmt NodeId)) (m : Machine) :
    returning.Meets (.executeAll statements) m (Stmt.planAll statements m) := by
  cases statements with
  | nil => exact Machine.Returns.refl m
  | cons statement rest =>
    refine returning_start (.execute statement) (.refl m) fun completion m₁ h₁ => ?_
    cases completion with
    | normal => exact returning_start (.executeAll rest) h₁ fun _ _ h₂ => h₂
    | returned => exact h₁

theorem Stmt.returning_loopPlan (condition : Expr NodeId) (body : Stmt NodeId) (m : Machine) :
    returning.Meets (.loop condition body) m (Stmt.loopPlan condition body m) := by
  refine returning_start (.evaluate condition) (.refl m) fun value m₁ h₁ => ?_
  split
  · refine returning_start (.execute body) h₁ fun completion m₂ h₂ => ?_
    cases completion with
    | normal => exact returning_start (.loop condition body) h₂ fun _ _ h₃ => h₃
    | returned => exact h₂
  · exact h₁

/-- Every task ends in the frame and at the depth of calls in which it started, whatever the
distances are. -/
theorem returning_kept (s : Setting) : returning.Kept s
  | .evaluate e, m, _ => e.returning_plan s m
  | .evaluateAll es, m, _ => Expr.returning_planAll es m
  | .call callee arguments line, m, _ => callee.returning_callPlan arguments line m
  | .enter f arguments line, m, _ => f.returning_plan s arguments line m
  | .execute statement, m, _ => statement.returning_plan s m
  | .executeAll statements, m, _ => Stmt.returning_planAll statements m
  | .loop condition body, m, _ => Stmt.returning_loopPlan condition body m

end

/-! ## Runs -/

section

variable (n : Nat) (s : Setting)

/-- However a run ends, it ends in the frame and at the depth of calls in which it started. -/
theorem Task.returns_run (t : Task) (m : Machine) : (t.run n s m).Ensures m.Returns :=
  ((returning_kept s).run n (t := t) (m := m) trivial).ensures (fun _ _ h => h) fun _ h => h

theorem returns_runStatements (program : List (Stmt NodeId)) (m : Machine) :
    (runStatements n s program m).Ensures m.Returns :=
  ensures_runStatements (fun statement _ m₁ h₁ m₂ h₂ =>
    h₁.trans (Task.returns_run n s (.execute statement) m₁ m₂ h₂)) (.refl m)

/-- A program that starts in the globals ends there, with no call in progress. -/
theorem returns_runProgram (program : List (Stmt NodeId)) {m : Machine}
    (hm : m.environment = .globals) :
    (runProgram n s program m).Ensures { m with depth := 0 }.Returns :=
  ensures_runProgram (returns_runStatements n s program { m with depth := 0 })
    fun _ h => ⟨hm.symm, h.depth⟩

end

/-! ## The bodies of functions -/

/-- The only task that a function starts is its body, with at least one call in progress and not
more than there may be. -/
theorem FunctionObject.depth_of_starts {s : Setting} {f : FunctionObject} {arguments : List Value}
    {line : Nat} {m m' : Machine} {u : Task} {go : (t : Task) → Machine → Outcome t.Answer}
    (h : (f.plan s arguments line m).Starts go u m') :
    u = .executeAll f.declaration.body ∧ 1 ≤ m'.depth ∧ m'.depth ≤ s.maxDepth := by
  unfold plan rule at h
  split at h
  · cases h
  · next hlt =>
    cases h with
    | first => exact ⟨rfl, Nat.le_add_left 1 m.depth, Nat.lt_of_not_le hlt⟩
    | later _ hu => cases hu

end

end Lox
