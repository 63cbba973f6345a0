import Lox.Proofs.Evaluation.Plans

/-!
# The tasks of a run in a list

`Setting.Reaches` says which tasks a run comes to, and in which states. Here they are
computed, in the order in which the run comes to them.

* `Setting.mem_trace_iff`: the list of a task holds the tasks that its run comes to;
* `Setting.mem_traceIn_iff`: so it is with a program.
-/

namespace Lox

/-- The tasks that a plan starts, if the tasks that it starts end in these outcomes. -/
def Plan.started {α : Type} (go : (t : Task) → Machine → Outcome t.Answer) :
    Plan α → List (Task × Machine)
  | .finish _ => []
  | .start t m exit resume =>
    (t, m) :: match go t m with
      | .done a m' => (resume a (exit.apply m')).started go
      | .failed _ _ => []
      | .outOfFuel => []

namespace Setting

/-- The tasks that a run of a task comes to. -/
def trace (s : Setting) : Nat → Task → Machine → List (Task × Machine)
  | 0, t, m => [(t, m)]
  | n + 1, t, m =>
    (t, m) :: ((t.plan s m).started fun t m => t.run n s m).flatMap fun p => s.trace n p.1 p.2

/-- The tasks that a run of a program comes to. -/
def traceIn (s : Setting) (n : Nat) : List (Stmt NodeId) → Machine → List (Task × Machine)
  | [], _ => []
  | statement :: rest, m =>
    s.trace n (.execute statement) m ++ match execute n s statement m with
      | .done _ m' => s.traceIn n rest m'
      | .failed _ _ => []
      | .outOfFuel => []

end Setting

/-- The expression that a task evaluates. -/
def Task.expr? : Task → Option (Expr NodeId)
  | .evaluate e => some e
  | _ => none

/-- The callee of a call, its line and its arguments. -/
def Expr.call? : Expr NodeId → Option (Expr NodeId × Nat × List (Expr NodeId))
  | .call callee line arguments => some (callee, line, arguments)
  | _ => none

/-- The object of an assignment to a property, the name of the property and its new value. -/
def Expr.set? : Expr NodeId → Option (Expr NodeId × Name × Expr NodeId)
  | .set object name value => some (object, name, value)
  | _ => none

/-- The function that a task enters, and its arguments. -/
def Task.entered? : Task → Option (FunctionObject × List Value)
  | .enter f arguments _ => some (f, arguments)
  | _ => none

theorem Task.expr?_eq_some_iff {t : Task} {e : Expr NodeId} :
    t.expr? = some e ↔ t = .evaluate e := by
  cases t <;> simp [expr?]

theorem Expr.call?_eq_some_iff {e callee : Expr NodeId} {line : Nat}
    {arguments : List (Expr NodeId)} :
    e.call? = some (callee, line, arguments) ↔ e = .call callee line arguments := by
  cases e <;> simp [call?]

theorem Expr.set?_eq_some_iff {e object value : Expr NodeId} {name : Name} :
    e.set? = some (object, name, value) ↔ e = .set object name value := by
  cases e <;> simp [set?]

theorem Task.entered?_eq_some_iff {t : Task} {f : FunctionObject} {arguments : List Value} :
    t.entered? = some (f, arguments) ↔ ∃ line, t = .enter f arguments line := by
  cases t <;> simp [entered?]

theorem Plan.mem_started_iff {α : Type} {go : (t : Task) → Machine → Outcome t.Answer} {p : Plan α}
    {u : Task} {m' : Machine} : (u, m') ∈ p.started go ↔ p.Starts go u m' := by
  constructor
  · intro h
    induction p with
    | finish o => cases h
    | start t m exit resume ih =>
      rw [started] at h
      rcases List.mem_cons.mp h with he | h
      · obtain ⟨rfl, rfl⟩ := Prod.mk.inj he
        exact .first _ _ _ _
      · cases hgo : go t m with
        | done a m₁ =>
          simp only [hgo] at h
          exact .later hgo (ih a _ h)
        | failed | outOfFuel => simp [hgo] at h
  · intro h
    induction h with
    | first =>
      rw [started]
      exact List.mem_cons_self
    | later ha _ ih =>
      rw [started, ha]
      exact List.mem_cons_of_mem _ ih

namespace Setting

variable {s : Setting} {n : Nat} {t u : Task} {m m' : Machine}

/-- The list of a task holds the tasks that its run comes to. -/
theorem mem_trace_iff : (u, m') ∈ s.trace n t m ↔ s.Reaches n t m u m' := by
  constructor
  · intro h
    induction n generalizing t m with
    | zero =>
      obtain ⟨rfl, rfl⟩ := Prod.mk.inj (List.mem_singleton.mp h)
      exact .here _ _ _
    | succ n ih =>
      rw [trace] at h
      rcases List.mem_cons.mp h with he | h
      · obtain ⟨rfl, rfl⟩ := Prod.mk.inj he
        exact .here _ _ _
      · obtain ⟨p, hp, h⟩ := List.mem_flatMap.mp h
        exact .inside (Plan.mem_started_iff.mp hp) (ih h)
  · intro h
    induction h with
    | here n => cases n <;> exact List.mem_cons_self
    | inside hs _ ih =>
      rw [trace]
      exact List.mem_cons_of_mem _ (List.mem_flatMap.mpr ⟨_, Plan.mem_started_iff.mpr hs, ih⟩)

/-- The list of a program holds the tasks that its run comes to. -/
theorem mem_traceIn_iff {program : List (Stmt NodeId)} :
    (u, m') ∈ s.traceIn n program m ↔ s.ReachesIn n program m u m' := by
  constructor
  · intro h
    induction program generalizing m with
    | nil => cases h
    | cons statement rest ih =>
      rw [traceIn] at h
      rcases List.mem_append.mp h with h | h
      · exact .first (mem_trace_iff.mp h)
      · cases hx : execute n s statement m with
        | done completion m₁ =>
          simp only [hx] at h
          exact .later hx (ih h)
        | failed | outOfFuel => simp [hx] at h
  · intro h
    induction h with
    | first ht => exact List.mem_append_left _ (mem_trace_iff.mpr ht)
    | later hd _ ih =>
      rw [traceIn, hd]
      exact List.mem_append_right _ ih

end Setting

end Lox
