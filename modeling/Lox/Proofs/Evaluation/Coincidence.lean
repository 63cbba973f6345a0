import Lox.Proofs.Evaluation.Agreement
import Lox.Proofs.Evaluation.Holding

/-!
# A run depends on the distances of its own code

Two settings that agree on the nodes of some code, and on all else, give the same
runs of this code: a run never asks for the distance of a node that is neither in
its program nor in a function of its store.

* `Task.plan_congr`: the plans are the same;
* `Task.run_congr`, `runStatements_congr`: and so are the runs.
-/

namespace Lox

/-- If a piece of code is a node that names a binding, its number is one of these. -/
def Code.NamedIn (ids : NodeId → Prop) : Code → Prop
  | .expr e => ∀ r, e.reference? = some r → ids r.id
  | _ => True

/-- The nodes of a piece of code are among its references. -/
theorem Code.all_namedIn {ids : NodeId → Prop} {c : Code} (h : ∀ r ∈ c.references, ids r.id) :
    c.All (Code.NamedIn ids) := by
  intro c' hc'
  cases c' with
  | expr e =>
    exact fun r hr => h r (Code.references_subset hc' (Expr.mem_references_of_reference? hr))
  | stmt | decl => trivial

/-- Two settings agree on these nodes, and on all else but the end of a program. -/
structure Setting.AgreesOn (ids : NodeId → Prop) (s s' : Setting) : Prop where
  distance {id : NodeId} : ids id → s.distance? id = s'.distance? id
  maxDepth : s.maxDepth = s'.maxDepth
  writeFailure : s.writeFailure = s'.writeFailure

section

variable {ids : NodeId → Prop} {s s' : Setting}

/-! ## Plans -/

theorem Expr.plan_congr (h : s.AgreesOn ids s') {e : Expr NodeId}
    (he : (Code.expr e).NamedIn ids) (m : Machine) : e.plan s m = e.plan s' m := by
  cases e with
  | «variable» id name | this id name =>
    simp only [plan, rule, readVariable, h.distance (he _ rfl)]
  | assign id name value => simp only [plan, rule, writeVariable, h.distance (he _ rfl)]
  | super id keyword method => simp only [plan, rule, readSuper, h.distance (he _ rfl)]
  | _ => rfl

theorem FunctionObject.plan_congr (h : s.AgreesOn ids s') (f : FunctionObject)
    (arguments : List Value) (line : Nat) (m : Machine) :
    f.plan s arguments line m = f.plan s' arguments line m := by
  unfold plan rule
  rw [h.maxDepth]

theorem Stmt.plan_congr (h : s.AgreesOn ids s') (statement : Stmt NodeId) (m : Machine) :
    statement.plan s m = statement.plan s' m := by
  cases statement with
  | print e => simp only [plan, rule, printValue, h.writeFailure]
  | var name initializer => cases initializer <;> rfl
  | «return» keyword value => cases value <;> rfl
  | «class» name superclass methods => cases superclass <;> rfl
  | _ => rfl

/-- What a task does by itself depends on the distance of its own node only. -/
theorem Task.plan_congr (h : s.AgreesOn ids s') {t : Task} {m : Machine}
    (ht : (holding (Code.NamedIn ids)).starts t m) : t.plan s m = t.plan s' m := by
  cases t with
  | evaluate e =>
    have he : (Code.expr e).All (Code.NamedIn ids) := ht
    exact Expr.plan_congr h he.self m
  | enter f arguments line => exact f.plan_congr h arguments line m
  | execute statement => exact statement.plan_congr h m
  | _ => rfl

/-! ## Runs -/

theorem Contract.MeetsIn.runWith_congr {c : Contract} {n : Nat}
    (hc : c.KeptWhere s fun _ _ => True) (ih : ∀ u m, c.pre u m → u.run n s m = u.run n s' m)
    {t : Task} {m : Machine} {p : Plan t.Answer} (hp : c.MeetsIn (fun u m => u.run n s m) t m p) :
    p.runWith n s = p.runWith n s' := by
  induction p with
  | finish o => rfl
  | start u m₁ exit resume ihp =>
    obtain ⟨hpre, hresume, -⟩ := hp
    have hu := hc.run (n := n) (fun _ _ _ => trivial) hpre
    rw [Plan.runWith_start, Plan.runWith_start, ← ih u m₁ hpre]
    cases hr : u.run n s m₁ with
    | done a m₂ =>
      rw [hr] at hu
      exact ihp a (exit.apply m₂) (hresume a m₂ hr hu)
    | failed | outOfFuel => rfl

/-- Settings that agree on all the code give the same runs. -/
theorem Task.run_congr (h : s.AgreesOn ids s') (n : Nat) {t : Task} {m : Machine}
    (ht : (holding (Code.NamedIn ids)).contract.pre t m) : t.run n s m = t.run n s' m := by
  induction n generalizing t m with
  | zero => rw [run_zero, run_zero]
  | succ n ih =>
    have hkept := keptWhere_holding (Code.NamedIn ids) s
    rw [run_succ, run_succ, (hkept n t m trivial ht).runWith_congr hkept fun u m hu => ih hu,
      plan_congr h ht.2]

theorem runStatements_congr (h : s.AgreesOn ids s') (n : Nat) {program : List (Stmt NodeId)}
    {m : Machine} (hm : m.store.Holds (Code.NamedIn ids))
    (hp : ∀ statement ∈ program, (Code.stmt statement).All (Code.NamedIn ids)) :
    runStatements n s program m = runStatements n s' program m := by
  induction program generalizing m with
  | nil => rfl
  | cons statement rest ih =>
    rw [List.forall_mem_cons] at hp
    have hstart : (holding (Code.NamedIn ids)).contract.pre (.execute statement) m := ⟨hm, hp.1⟩
    have hs : execute n s statement m = execute n s' statement m :=
      Task.run_congr h n (t := .execute statement) hstart
    have hone := (keptWhere_holding (Code.NamedIn ids) s).run (n := n) (fun _ _ _ => trivial) hstart
    simp only [runStatements]
    rw [← hs]
    cases hr : execute n s statement m with
    | done completion m₁ =>
      have hr' : (Task.execute statement).run n s m = .done completion m₁ := hr
      rw [hr'] at hone
      exact ih hone.1.store hp.2
    | failed | outOfFuel => rfl

end

end Lox
