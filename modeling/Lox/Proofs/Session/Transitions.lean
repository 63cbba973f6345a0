import Lox.Proofs.Evaluation.Instances
import Lox.Proofs.Session.FrameTree

/-!
# From state to state in a session

The states of all runs of a session, one after another, are linked: each has the store of the one
before it, or a task that is on its way at that moment changes it (`Task.Changes`). The code of such
a task was accepted, so that no reserved word is declared or assigned anywhere.

* `Session.Past.stepwise`, `Session.Past.stepwise_append`: the states of a session in order;
* `Session.Past.retains_of_goes`: what frames bind reserved words to stays;
* `Session.Past.pairwise_retains`: from each state to all later ones.
-/

namespace Lox

/-! ## Changes by code without reserved words -/

section

variable {declared : SubclassDecl → FrameId → ClassId → Prop} {vs : List Visit}
  {go : (t : Task) → Machine → Outcome t.Answer} {t : Task} {m x y : Machine}

theorem retains_declareClass {name : Name} (hn : name.IsIdentifier) (c : Option ClassId)
    (methods : List (FunDecl NodeId)) (m : Machine) :
    m.store.Retains (declareClass name c methods m).store := by
  have hnil := Store.Retains.define m.store m.environment hn .nil
  -- whatever store the class is added to, it is bound to its name there
  have hbind {s : Store} (hs : m.store.Retains s) (object : ClassObject) :
      m.store.Retains
        ((s.addClass object).2.define m.environment name.text (.class (s.addClass object).1)) := by
    have hclass : s.Retains (s.addClass object).2 := .of_frames_eq rfl
    exact hs.trans (hclass.trans (.define _ _ hn _))
  cases c with
  | none => exact hbind hnil _
  | some c => exact hbind (hnil.trans (.addFrame _ _)) _

/-- Frames stay inside the same frames, and what they bind reserved words to stays. -/
theorem Task.Changes.retains (h : t.Changes go m x y) (hc : (lineage declared vs).starts t m) :
    x.store.Retains y.store := by
  cases h with
  | keep h => exact .of_frames_eq (congrArg Store.frames h)
  | frame => exact .addFrame _ _
  | var v => exact .define _ _ hc.1.self.wellFormed.1 v
  | assign f v => exact .define _ f hc.1.self.wellFormed.1 v
  | set | new => exact .of_frames_eq rfl
  | bind => exact (Store.Retains.addFrame _ _).trans (.of_frames_eq rfl)
  | @function declaration =>
    have hall := hc.1.part (List.mem_singleton_self (Code.decl declaration))
    have hname := FunDecl.WellFormed.isIdentifier_name hall.self.wellFormed
    have hadd : x.store.Retains (x.store.addFunction ⟨declaration, x.environment, false⟩).2 :=
      .of_frames_eq rfl
    exact hadd.trans (.define _ _ hname _)
  | «class» c => exact retains_declareClass hc.1.self.wellFormed.1 c _ x
  | @construct c =>
    have hadd : x.store.Retains (x.store.addInstance ⟨c, ∅⟩).2 := .of_frames_eq rfl
    exact hadd.trans (.addFrame _ _)

end

namespace Session

/-! ## States in order -/

/-- A task of the program of a source goes by itself from one state to the next, while the source is
run. -/
def Step.Goes (r : Step) (x y : Machine) : Prop :=
  r.session.Accepts r.source ∧ ∃ t m n, r.session.Occurs r.fuel r.source t m ∧
    t.Changes (fun u m => u.run n (r.session.extend r.source).setting m) m x y

/-- A state of a session and the next one: the store is the same, or a step goes from one to the
other. -/
def Transition (steps : List Step) (x y : Machine) : Prop :=
  y.store = x.store ∨ ∃ r ∈ steps, r.Goes x y

variable {maxDepth : Nat} {sink : Sink} {steps steps' : List Step} {s s' : Session} {fuel : Nat}
  {source : String} {report : RunReport} {x y : Machine}

theorem Transition.mono (hs : steps ⊆ steps') (h : Transition steps x y) : Transition steps' x y :=
  h.imp_right fun ⟨r, hr, hg⟩ => ⟨r, hs hr, hg⟩

/-- The states of a source that is accepted, up to the end of its program. -/
theorem stepwise_of_accepts (ha : s.Accepts source) (fuel : Nat) :
    Stepwise (Transition [⟨s, fuel, source⟩]) s.machine (⟨s, fuel, source⟩ : Step).states
      (runStatements fuel (s.extend source).setting (Analysis.ofSource s.nextId source).program
        { s.machine with depth := 0 }).state? := by
  have hm : Transition [⟨s, fuel, source⟩] s.machine { s.machine with depth := 0 } := .inl rfl
  rw [states_of_accepts ha]
  refine .cons hm (Setting.stepwise_statesIn (fun _ => .inl rfl) fun k u m hu => ?_)
  exact (u.eachStep_plan _ m).mono fun x y h =>
    .inr ⟨_, List.mem_singleton_self _, ha, u, m, k, hu, h⟩

theorem stepwise_of_not_accepts (ha : ¬ s.Accepts source) (fuel : Nat) :
    Stepwise (Transition [⟨s, fuel, source⟩]) s.machine (⟨s, fuel, source⟩ : Step).states
      (some s.machine) := by
  rw [states_of_not_accepts ha]
  exact .singleton _

/-- The states of a source, up to one with the store that the session has when it has run it. -/
theorem stepwise_of_run (hr : s.run fuel source = some (report, s')) :
    ∃ m, m.store = s'.machine.store ∧ Stepwise (Transition [⟨s, fuel, source⟩]) s.machine
      (⟨s, fuel, source⟩ : Step).states (some m) := by
  by_cases ha : s.Accepts source
  · obtain ⟨m, hm, hstore⟩ := exists_state_of_run ha hr
    exact ⟨m, hstore, hm ▸ stepwise_of_accepts ha fuel⟩
  · obtain rfl := run_of_not_accepts ha hr
    exact ⟨s.machine, rfl, stepwise_of_not_accepts ha fuel⟩

/-- The states of one more source follow on those of a session. -/
theorem stepwise_append_step {r : Step} {m : Machine} {last : Option Machine}
    (hbefore : Stepwise (Transition steps) .initial (.initial :: steps.flatMap Step.states) (some m))
    (hm : m.store = r.session.machine.store)
    (hr : Stepwise (Transition [r]) r.session.machine r.states last) :
    Stepwise (Transition (steps ++ [r])) .initial
      (.initial :: (steps ++ [r]).flatMap Step.states) last := by
  rw [List.flatMap_append, List.flatMap_singleton, ← List.cons_append]
  have hleft := hbefore.mono fun x y h => h.mono (List.subset_append_left steps [r])
  have hright := hr.mono fun x y h => h.mono (List.subset_append_right steps [r])
  exact hleft.append (.inl hm.symm) hright

/-- The states of a session, up to one with its store. -/
theorem Past.stepwise (h : Past maxDepth sink steps s) :
    ∃ m, m.store = s.machine.store ∧
      Stepwise (Transition steps) .initial (.initial :: steps.flatMap Step.states) (some m) := by
  induction h with
  | start => exact ⟨.initial, rfl, .singleton _⟩
  | run hs hr ih =>
    obtain ⟨m, hm, hbefore⟩ := ih
    obtain ⟨m', hm', hrun⟩ := stepwise_of_run hr
    exact ⟨m', hm', stepwise_append_step hbefore hm hrun⟩
  | redirect _ _ ih => exact ih

/-- And those of one more source, as far as its run comes. -/
theorem Past.stepwise_append (h : Past maxDepth sink steps s) (fuel : Nat) (source : String) :
    Stepwise (Transition (steps ++ [⟨s, fuel, source⟩])) .initial
      (.initial :: (steps ++ [(⟨s, fuel, source⟩ : Step)]).flatMap Step.states) none := by
  obtain ⟨m, hm, hbefore⟩ := h.stepwise
  refine stepwise_append_step hbefore hm ?_
  by_cases ha : s.Accepts source
  · exact (stepwise_of_accepts ha fuel).start
  · exact (stepwise_of_not_accepts ha fuel).start

/-! ## Reserved words -/

theorem Past.retains_of_goes (h : Past maxDepth sink steps s)
    (hg : (⟨s, fuel, source⟩ : Step).Goes x y) : x.store.Retains y.store := by
  obtain ⟨ha, t, m, n, ho, hc⟩ := hg
  obtain ⟨vs, -, hpre⟩ := h.pre_of_occurs ha
  exact hc.retains (hpre _ _ _ ho).2

theorem Past.retains_of_transition (h : Past maxDepth sink steps s)
    (ht : Transition (steps ++ [⟨s, fuel, source⟩]) x y) : x.store.Retains y.store := by
  rcases ht with ht | ⟨r, hr, hg⟩
  · exact .of_frames_eq (congrArg Store.frames ht)
  · obtain ⟨steps', hs⟩ := h.exists_past_of_mem_append hr
    exact hs.retains_of_goes hg

end Session

instance : Trans (fun x y : Machine => x.store.Retains y.store)
    (fun x y : Machine => x.store.Retains y.store) (fun x y : Machine => x.store.Retains y.store) :=
  ⟨Store.Retains.trans⟩

/-- From each state of a session to all later ones, frames keep what they bind reserved words to. -/
theorem Session.Past.pairwise_retains {maxDepth : Nat} {sink : Sink} {steps : List Step}
    {s : Session} (h : Past maxDepth sink steps s) (fuel : Nat) (source : String) :
    ((steps ++ [(⟨s, fuel, source⟩ : Step)]).flatMap Step.states).Pairwise
      fun x y => x.store.Retains y.store := by
  have hchain := (h.stepwise_append fuel source).chain.imp fun x y => h.retains_of_transition
  exact (List.pairwise_cons.mp (List.isChain_iff_pairwise.mp hchain)).2

end Lox
