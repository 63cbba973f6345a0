import Lox.Proofs.Evaluation.Disciplines

/-!
# The states of a run in a list

`Setting.states` lists the states that the run of a task passes through, in order, as far as the run
comes: the state in which the task starts, those of each task that it starts, the state after each
of them, and the state in which the task itself ends.

* `Setting.mem_states_of_reaches`: the list holds the states in which the tasks of the run start;
* `Plan.Advances`: a plan relates each state to the one before it. If all plans do, each state of a
  run is related to all that come after it (`Setting.trail_states`, `Setting.trail_statesIn`);
* `Discipline.Lawful.store_of_mem_statesIn`: and the store of each of them is as a discipline asks.
-/

namespace Lox

/-! ## Lists of states -/

/-- The states that a plan passes through, if the tasks that it starts pass through these and end in
these outcomes. -/
def Plan.states {α : Type} (go : (t : Task) → Machine → Outcome t.Answer)
    (inner : Task → Machine → List Machine) : Plan α → List Machine
  | .finish o => o.state?.toList
  | .start t m exit resume =>
    inner t m ++ match go t m with
      | .done a m' => exit.apply m' :: (resume a (exit.apply m')).states go inner
      | .failed _ m' => [exit.apply m']
      | .outOfFuel => []

namespace Setting

/-- The states that a run of a task passes through. -/
def states (s : Setting) : Nat → Task → Machine → List Machine
  | 0, _, m => [m]
  | n + 1, t, m => m :: (t.plan s m).states (fun t m => t.run n s m) (s.states n)

/-- The states that a run of a program passes through. -/
def statesIn (s : Setting) (n : Nat) : List (Stmt NodeId) → Machine → List Machine
  | [], m => [m]
  | statement :: rest, m =>
    s.states n (.execute statement) m ++ match execute n s statement m with
      | .done _ m' => s.statesIn n rest m'
      | .failed _ _ => []
      | .outOfFuel => []

end Setting

/-! ## Every state is listed -/

section

variable {α : Type} {go : (t : Task) → Machine → Outcome t.Answer}
  {inner : Task → Machine → List Machine} {p : Plan α} {u : Task} {m m' : Machine}

/-- A plan passes through all states of each task that it starts. -/
theorem Plan.subset_states_of_starts (h : p.Starts go u m) : inner u m ⊆ p.states go inner := by
  induction h with
  | first =>
    rw [Plan.states]
    exact List.subset_append_left _ _
  | later ha _ ih =>
    rw [Plan.states, ha]
    exact List.subset_append_of_subset_right _ (List.subset_cons_of_subset _ ih)

end

namespace Setting

variable {s : Setting} {n : Nat} {t u : Task} {m m' : Machine}

theorem mem_states_self (s : Setting) (n : Nat) (t : Task) (m : Machine) : m ∈ s.states n t m := by
  cases n <;> exact List.mem_cons_self

/-- The states in which the tasks of a run start are listed. -/
theorem mem_states_of_reaches (h : s.Reaches n t m u m') : m' ∈ s.states n t m := by
  induction h with
  | here n t m => exact s.mem_states_self n t m
  | inside hu _ ih => exact List.mem_cons_of_mem _ (Plan.subset_states_of_starts hu ih)

theorem mem_statesIn_of_reachesIn {program : List (Stmt NodeId)}
    (h : s.ReachesIn n program m u m') : m' ∈ s.statesIn n program m := by
  induction h with
  | first ht => exact List.mem_append_left _ (mem_states_of_reaches ht)
  | later hd _ ih =>
    rw [statesIn, hd]
    exact List.mem_append_right _ ih

end Setting

/-! ## States in order -/

/-- Each state to which a plan comes by itself is related to the one before it, if every task ends
in a state that is related to the one in which it starts. -/
def Plan.Advances {α : Type} (R : Machine → Machine → Prop) : Plan α → Machine → Prop
  | .finish o, m => o.Ensures (R m)
  | .start _ m₁ exit resume, m =>
    R m m₁ ∧ ∀ m₂, R m₁ m₂ → R m₂ (exit.apply m₂) ∧
      ∀ a, (resume a (exit.apply m₂)).Advances R (exit.apply m₂)

/-- What relates states to later ones: it is transitive, and what is later than some state is later
than itself. -/
structure Later (R : Machine → Machine → Prop) : Prop where
  trans {m₁ m₂ m₃ : Machine} : R m₁ m₂ → R m₂ m₃ → R m₁ m₃
  self {m₁ m₂ : Machine} : R m₁ m₂ → R m₂ m₂

/-- From the first state on, each is related to all that come after it, up to the last one, if there
is one. -/
def Trail (R : Machine → Machine → Prop) (m : Machine) (states : List Machine)
    (last? : Option Machine) : Prop :=
  (m :: (states ++ last?.toList)).Pairwise R

namespace Trail

variable {R : Machine → Machine → Prop} {m m₁ m₂ : Machine} {states rest : List Machine}
  {last? : Option Machine}

theorem ends (h : Trail R m states (some m₁)) : R m m₁ :=
  List.rel_of_pairwise_cons h (List.mem_append_right _ (List.mem_singleton_self m₁))

/-- The first state once more. -/
theorem cons (hm : R m m) (h : Trail R m states last?) : Trail R m (m :: states) last? := by
  refine List.pairwise_cons.mpr ⟨fun m' hm' => ?_, h⟩
  rcases List.mem_cons.mp hm' with rfl | hm'
  · exact hm
  · exact List.rel_of_pairwise_cons h hm'

/-- A trail that stays where it is. -/
theorem stay (hm : R m m) : Trail R m [m] (some m) := cons hm (List.pairwise_pair.mpr hm)

/-- A trail from an earlier state. -/
theorem prior (hR : Later R) (hm : R m m₁) (h : Trail R m₁ states last?) :
    Trail R m states last? := by
  obtain ⟨hfirst, hrest⟩ := List.pairwise_cons.mp h
  exact List.pairwise_cons.mpr ⟨fun m' hm' => hR.trans hm (hfirst m' hm'), hrest⟩

/-- A trail whose end is left open. -/
theorem start (h : Trail R m states last?) : Trail R m states none := by
  rw [Trail, ← List.cons_append] at h
  rw [Trail, Option.toList_none, List.append_nil]
  exact (List.pairwise_append.mp h).1

/-- A trail to a state after its end. -/
theorem later (hR : Later R) (h : Trail R m states (some m₁)) (hm : R m₁ m₂) :
    Trail R m states (some m₂) := by
  rw [Trail, ← List.cons_append, List.pairwise_append] at h ⊢
  obtain ⟨hfirst, -, hend⟩ := h
  refine ⟨hfirst, List.pairwise_singleton R m₂, fun a ha b hb => ?_⟩
  rw [List.mem_singleton.mp hb]
  exact hR.trans (hend a ha m₁ (List.mem_singleton_self m₁)) hm

/-- A trail goes on from a state after its end. -/
theorem append (hR : Later R) (h : Trail R m states (some m₁)) (hm : R m₁ m₂)
    (h' : Trail R m₂ rest last?) : Trail R m (states ++ rest) last? := by
  rw [Trail, ← List.cons_append, List.pairwise_append] at h
  obtain ⟨hfirst, -, hend⟩ := h
  obtain ⟨hnext, hrest⟩ := List.pairwise_cons.mp h'
  rw [Trail, List.append_assoc, ← List.cons_append, List.pairwise_append]
  refine ⟨hfirst, hrest, fun a ha b hb => ?_⟩
  have hnow := hR.trans (hend a ha m₁ (List.mem_singleton_self m₁)) hm
  exact hR.trans hnow (hnext b hb)

end Trail

section

variable {R : Machine → Machine → Prop} {α : Type} {m : Machine} (hR : Later R)

include hR

/-- The states of a plan are in order if those of the tasks that it starts are. -/
theorem Plan.Advances.trail {go : (t : Task) → Machine → Outcome t.Answer}
    {inner : Task → Machine → List Machine}
    (hinner : ∀ u m, R m m → Trail R m (inner u m) (go u m).state?) {p : Plan α}
    (h : p.Advances R m) : Trail R m (p.states go inner) (p.run go).state? := by
  induction p generalizing m with
  | finish o =>
    cases o with
    | done a m' | failed failure m' =>
      have hm : R m m' := h m' rfl
      exact (Trail.stay (hR.self hm)).prior hR hm
    | outOfFuel => exact List.pairwise_singleton R m
  | start u m₁ exit resume ih =>
    obtain ⟨hm, hresume⟩ := h
    have hu := hinner u m₁ (hR.self hm)
    have hstarted := hu.prior hR hm
    rw [Plan.states, Plan.run]
    cases hgo : go u m₁ with
    | done a m' =>
      rw [hgo] at hu hstarted
      obtain ⟨hexit, hgoes⟩ := hresume m' hu.ends
      exact hstarted.append hR hexit ((ih a _ (hgoes a)).cons (hR.self hexit))
    | failed failure m' =>
      rw [hgo] at hu hstarted
      obtain ⟨hexit, -⟩ := hresume m' hu.ends
      exact hstarted.append hR hexit (.stay (hR.self hexit))
    | outOfFuel =>
      rw [hgo] at hstarted
      rw [List.append_nil]
      exact hstarted

namespace Setting

variable {s : Setting} (hs : ∀ t m, R m m → (Task.plan s t m).Advances R m)

include hs

/-- The states of a run are in order if every plan advances. -/
theorem trail_states (n : Nat) (t : Task) (hm : R m m) :
    Trail R m (s.states n t m) (t.run n s m).state? := by
  induction n generalizing t m with
  | zero =>
    rw [Task.run_zero]
    exact List.pairwise_pair.mpr hm
  | succ n ih =>
    have hplan := (hs t m hm).trail hR fun u m₁ h => ih u h
    rw [Task.run_succ]
    exact hplan.cons hm

theorem trail_statesIn (n : Nat) (program : List (Stmt NodeId)) (hm : R m m) :
    Trail R m (s.statesIn n program m) (runStatements n s program m).state? := by
  induction program generalizing m with
  | nil => exact .stay hm
  | cons statement rest ih =>
    have hx : Trail R m (s.states n (.execute statement) m) (execute n s statement m).state? :=
      trail_states hR hs n (.execute statement) hm
    rw [statesIn, runStatements]
    cases he : execute n s statement m with
    | done completion m' =>
      rw [he] at hx
      have hm' := hR.self hx.ends
      exact hx.append hR hm' (ih hm')
    | failed failure m' =>
      rw [he] at hx
      rw [List.append_nil]
      exact hx
    | outOfFuel =>
      rw [he] at hx
      rw [List.append_nil]
      exact hx

end Setting

end

/-! ## The stores of all states -/

namespace Contract

variable {c : Contract} {s : Setting} {I : Store → Prop}

/-- A contract says of all stores at the start and at the end of tasks that they are such. -/
structure Asks (c : Contract) (I : Store → Prop) : Prop where
  pre {t : Task} {m : Machine} : c.pre t m → I m.store
  done {t : Task} {m m' : Machine} {a : t.Answer} : c.done t m a m' → I m'.store
  failed {t : Task} {m m' : Machine} : c.failed t m m' → I m'.store

theorem MeetsIn.of_mem_states {go : (t : Task) → Machine → Outcome t.Answer}
    {inner : Task → Machine → List Machine} {t : Task} {m m' : Machine} {p : Plan t.Answer}
    (hp : c.MeetsIn go t m p) (hI : c.Asks I) (hends : ∀ u m, c.pre u m → c.Ends u m (go u m))
    (hinner : ∀ u m, c.pre u m → ∀ m' ∈ inner u m, I m'.store) (hm' : m' ∈ p.states go inner) :
    I m'.store := by
  induction p with
  | finish o =>
    cases o with
    | done a m₁ =>
      obtain rfl := List.mem_singleton.mp hm'
      exact hI.done hp
    | failed failure m₁ =>
      obtain rfl := List.mem_singleton.mp hm'
      exact hI.failed hp
    | outOfFuel => cases hm'
  | start u m₁ exit resume ih =>
    obtain ⟨hpre, hresume, -⟩ := hp
    have hu := hends u m₁ hpre
    rw [Plan.states] at hm'
    rcases List.mem_append.mp hm' with hm' | hm'
    · exact hinner u m₁ hpre m' hm'
    · cases hgo : go u m₁ with
      | done a m₂ =>
        rw [hgo] at hu hm'
        rcases List.mem_cons.mp hm' with rfl | hm'
        · exact exit.store_apply m₂ ▸ hI.done hu
        · exact ih a _ (hresume a m₂ hgo hu) hm'
      | failed failure m₂ =>
        rw [hgo] at hu hm'
        obtain rfl := List.mem_singleton.mp hm'
        exact exit.store_apply m₂ ▸ hI.failed hu
      | outOfFuel =>
        rw [hgo] at hm'
        cases hm'

/-- What a contract asks of stores holds in all states of a run. -/
theorem KeptWhere.of_mem_states (h : c.KeptWhere s fun _ _ => True) (hI : c.Asks I) {n : Nat}
    {t : Task} {m m' : Machine} (ht : c.pre t m) (hm' : m' ∈ s.states n t m) : I m'.store := by
  induction n generalizing t m m' with
  | zero =>
    obtain rfl := List.mem_singleton.mp hm'
    exact hI.pre ht
  | succ n ih =>
    rcases List.mem_cons.mp hm' with rfl | hm'
    · exact hI.pre ht
    · exact (h n t m trivial ht).of_mem_states hI (fun u m₁ hu => h.run (fun _ _ _ => trivial) hu)
        (fun u m₁ hu m₂ h₂ => ih hu h₂) hm'

end Contract

namespace Discipline

variable {D : Discipline} {s : Setting} {n : Nat} {program : List (Stmt NodeId)} {m m' : Machine}

theorem asks_contract (D : Discipline) : D.contract.Asks D.store where
  pre h := h.1
  done h := h.1.store
  failed h := h.store

/-- In all states of a program the store is as a lawful discipline asks. -/
theorem Lawful.store_of_mem_statesIn (hD : D.Lawful) (hd : D.Declares s fun _ _ => True)
    (hm : D.store m.store) (hc : D.Codes program m) (hm' : m' ∈ s.statesIn n program m) :
    D.store m'.store := by
  induction program generalizing m with
  | nil =>
    obtain rfl := List.mem_singleton.mp hm'
    exact hm
  | cons statement rest ih =>
    obtain ⟨hc, hrest⟩ := List.forall_mem_cons.mp hc
    have hkept := hD.keptWhere hd
    rw [Setting.statesIn] at hm'
    rcases List.mem_append.mp hm' with hm' | hm'
    · exact hkept.of_mem_states D.asks_contract (t := .execute statement) ⟨hm, hc⟩ hm'
    · have hr := hkept.run (n := n) (t := .execute statement) (fun _ _ _ => trivial) ⟨hm, hc⟩
      have hx : (Task.execute statement).run n s m = execute n s statement m := rfl
      rw [hx] at hr
      cases he : execute n s statement m with
      | done completion m₁ =>
        rw [he] at hr hm'
        exact ih hr.1.store (fun st hst => hr.1.code hD (hrest st hst)) hm'
      | failed | outOfFuel =>
        rw [he] at hm'
        cases hm'

end Discipline

end Lox
