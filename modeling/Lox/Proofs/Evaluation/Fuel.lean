import Lox.Proofs.Evaluation.Steps

/-!
# More fuel

A run that ends does not depend on how much fuel it had left: with more fuel it ends in the same way.

* `Outcome.Below`: the second run ends as the first one does, if that ends;
* `Task.run_below`: so it is with a run of a task and one with more fuel.
-/

namespace Lox

namespace Outcome

variable {α β : Type}

/-- The run did not use up its fuel. -/
def Ended : Outcome α → Prop
  | .outOfFuel => False
  | _ => True

theorem ended_of_map_state? {f : Machine → β} {b : β} {o : Outcome α} (h : o.state?.map f = some b) :
    o.Ended := by
  cases o with
  | outOfFuel => cases h
  | _ => trivial

/-- The second run ends as the first one does, if that ends. -/
def Below (o o' : Outcome α) : Prop := o.Ended → o' = o

namespace Below

theorem refl (o : Outcome α) : o.Below o := fun _ => rfl

theorem outOfFuel (o : Outcome α) : Below .outOfFuel o := fun h => h.elim

theorem trans {o₁ o₂ o₃ : Outcome α} (h : o₁.Below o₂) (h' : o₂.Below o₃) : o₁.Below o₃ := by
  intro ho
  obtain rfl := h ho
  exact h' ho

theorem bind {o o' : Outcome α} {f f' : α → Machine → Outcome β} (h : o.Below o')
    (hf : ∀ a m, (f a m).Below (f' a m)) : (o.bind f).Below (o'.bind f') := by
  cases o with
  | done a m =>
    obtain rfl := h trivial
    exact hf a m
  | failed failure m =>
    obtain rfl := h trivial
    exact refl _
  | outOfFuel => exact outOfFuel _

theorem onExit {o o' : Outcome α} (h : o.Below o') (f : Machine → Machine) :
    (o.onExit f).Below (o'.onExit f) := by
  cases o with
  | outOfFuel => exact outOfFuel _
  | _ =>
    obtain rfl := h trivial
    exact refl _

end Below

end Outcome

section

variable {s : Setting} {n k : Nat}

theorem Plan.runWith_below (ih : ∀ (t : Task) m, (t.run n s m).Below (t.run k s m)) {α : Type}
    (p : Plan α) : (p.runWith n s).Below (p.runWith k s) := by
  induction p with
  | finish o => exact .refl o
  | start t m exit resume ihp =>
    rw [runWith_start, runWith_start]
    exact ((ih t m).onExit exit.apply).bind ihp

/-- With more fuel a task ends in the same way. -/
theorem Task.run_below (h : n ≤ k) (t : Task) (m : Machine) :
    (t.run n s m).Below (t.run k s m) := by
  induction n generalizing k t m with
  | zero =>
    rw [run_zero]
    exact .outOfFuel _
  | succ n ih =>
    cases k with
    | zero => exact absurd h (Nat.not_succ_le_zero n)
    | succ k =>
      rw [run_succ, run_succ]
      exact Plan.runWith_below (fun t m => ih (Nat.le_of_succ_le_succ h) t m) _

end

end Lox
