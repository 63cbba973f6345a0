import Lox.Proofs.Evaluation.Walks
import Lox.Proofs.Session.Supers

/-!
# The tree of frames in a session

Values can reach each other in circles, through fields and bindings. Frames cannot: each lies in one
that is older, up to the globals, and stays there, and so it is with classes and their superclasses.
This holds in all states to which a session comes, in the middle of a source and after a failure
too.

* `Session.Step.states`: the states of the run of a source;
* `Session.Past.trail`: all states of a session, each before those that came later;
* `Session.Past.isTree_of_mem_states`: the frames of each of them form a tree;
* `frames_form_tree`: and so all walks along frames and along superclasses end.
-/

namespace Lox

namespace Session

/-- The states to which a step comes: that of the session, and, if the source has no static errors,
those of its program. -/
def Step.states (r : Step) : List Machine :=
  let a := Analysis.ofSource r.session.nextId r.source
  r.session.machine ::
    if a.rejections.isEmpty then
      (r.session.extend r.source).setting.statesIn r.fuel a.program
        { r.session.machine with depth := 0 }
    else []

variable {maxDepth : Nat} {sink : Sink} {steps : List Step} {s s' : Session} {fuel : Nat}
  {source : String} {report : RunReport} {m : Machine}

/-! ## States in order -/

theorem states_of_accepts (ha : s.Accepts source) (fuel : Nat) :
    (⟨s, fuel, source⟩ : Step).states = s.machine ::
      (s.extend source).setting.statesIn fuel (Analysis.ofSource s.nextId source).program
        { s.machine with depth := 0 } :=
  congrArg (s.machine :: ·) (if_pos (List.isEmpty_iff.mpr ha))

theorem states_of_not_accepts (ha : ¬ s.Accepts source) (fuel : Nat) :
    (⟨s, fuel, source⟩ : Step).states = [s.machine] :=
  congrArg (s.machine :: ·) (if_neg fun he => ha (List.isEmpty_iff.mp he))

/-- Between two runs the current frame is there. -/
theorem Past.precedes_self (h : Past maxDepth sink steps s) : s.machine.Precedes s.machine := by
  obtain ⟨vs, hk⟩ := h.exists_kept
  obtain ⟨frame, hf⟩ := Option.isSome_iff_exists.mp hk.settled.wellScoped.frame?_globals_isSome
  refine ⟨.refl _, ?_⟩
  rw [hk.settled.environment, Store.link?, hf]
  rfl

theorem Past.trail_statesIn (h : Past maxDepth sink steps s) (fuel : Nat) (source : String) :
    Trail Machine.Precedes s.machine
      (s.machine :: (s.extend source).setting.statesIn fuel
        (Analysis.ofSource s.nextId source).program { s.machine with depth := 0 })
      (runStatements fuel (s.extend source).setting (Analysis.ofSource s.nextId source).program
        { s.machine with depth := 0 }).state? := by
  have hm : s.machine.Precedes { s.machine with depth := 0 } :=
    ⟨.refl _, h.precedes_self.environment⟩
  have hprogram := (s.extend source).setting.trail_precedes (Machine.later_precedes.self hm) fuel
    (Analysis.ofSource s.nextId source).program
  exact (hprogram.prior Machine.later_precedes hm).cons h.precedes_self

/-- The states of a source come after that of the session. -/
theorem Past.trail_states (h : Past maxDepth sink steps s) (fuel : Nat) (source : String) :
    Trail Machine.Precedes s.machine (⟨s, fuel, source⟩ : Step).states none := by
  by_cases ha : s.Accepts source
  · rw [states_of_accepts ha]
    exact (h.trail_statesIn fuel source).start
  · rw [states_of_not_accepts ha]
    exact (Trail.stay h.precedes_self).start

/-- The state in which the statements of a source ended differs from that of the session in its place
only. -/
theorem exists_state_of_run (ha : s.Accepts source) (hr : s.run fuel source = some (report, s')) :
    ∃ m, (runStatements fuel (s.extend source).setting (Analysis.ofSource s.nextId source).program
      { s.machine with depth := 0 }).state? = some m ∧ m.store = s'.machine.store := by
  obtain ⟨ran, hi⟩ := exists_interpret_of_run ha hr
  obtain ⟨m, hm, rfl⟩ := exists_state_of_finish hi
  exact ensures_runProgram (n := fuel)
    (Q := fun m => ∃ m₁, (runStatements fuel (s.extend source).setting
      (Analysis.ofSource s.nextId source).program { s.machine with depth := 0 }).state? =
        some m₁ ∧ m₁.store = m.store) (fun m hm => ⟨m, hm, rfl⟩) (fun _ hm => hm) m hm

/-- They come before that in which the session is when it has run the source. -/
theorem Past.trail_run (h : Past maxDepth sink steps s)
    (hr : s.run fuel source = some (report, s')) :
    Trail Machine.Precedes s.machine (⟨s, fuel, source⟩ : Step).states (some s'.machine) := by
  have hs' := (h.run hr).precedes_self.environment
  by_cases ha : s.Accepts source
  · rw [states_of_accepts ha]
    obtain ⟨m, hm, hstore⟩ := exists_state_of_run ha hr
    have htrail := h.trail_statesIn fuel source
    rw [hm] at htrail
    refine htrail.later Machine.later_precedes ⟨?_, hs'⟩
    exact hstore ▸ .refl _
  · rw [states_of_not_accepts ha]
    obtain rfl := run_of_not_accepts ha hr
    exact .stay h.precedes_self

/-- Each state of a session comes before all later ones. -/
theorem Past.trail (h : Past maxDepth sink steps s) :
    Trail Machine.Precedes .initial (steps.flatMap Step.states) (some s.machine) := by
  induction h with
  | start => exact List.pairwise_pair.mpr ⟨.refl _, rfl⟩
  | run hs hr ih =>
    rw [List.flatMap_append, List.flatMap_singleton]
    exact ih.append Machine.later_precedes hs.precedes_self (hs.trail_run hr)
  | redirect _ _ ih => exact ih

theorem Past.trail_append (h : Past maxDepth sink steps s) (fuel : Nat) (source : String) :
    Trail Machine.Precedes .initial
      ((steps ++ [(⟨s, fuel, source⟩ : Step)]).flatMap Step.states) none := by
  rw [List.flatMap_append, List.flatMap_singleton]
  exact h.trail.append Machine.later_precedes h.precedes_self (h.trail_states fuel source)

/-! ## The tree in all states -/

/-- The stores of all states of a source are valid. -/
theorem Past.valid_of_mem_states (h : Past maxDepth sink steps s)
    (hm : m ∈ (⟨s, fuel, source⟩ : Step).states) : m.store.Valid := by
  obtain ⟨vs, hk⟩ := h.exists_kept
  by_cases ha : s.Accepts source
  · rw [states_of_accepts ha] at hm
    rcases List.mem_cons.mp hm with rfl | hm
    · exact hk.valid
    · exact lawful_validity.store_of_mem_statesIn (m := { s.machine with depth := 0 })
        (declares_validity _ _) hk.valid (hk.codes_validity _) hm
  · rw [states_of_not_accepts ha] at hm
    obtain rfl := List.mem_singleton.mp hm
    exact hk.valid

/-- Each step of a session was taken when the session had taken those before it. -/
theorem Past.exists_past_of_mem (h : Past maxDepth sink steps s) {r : Step} (hr : r ∈ steps) :
    ∃ steps', Past maxDepth sink steps' r.session ∧ steps' ++ [r] ⊆ steps := by
  induction h with
  | start => cases hr
  | run hs _ ih =>
    rcases List.mem_append.mp hr with hr | hr
    · obtain ⟨steps', hs', hsub⟩ := ih hr
      exact ⟨steps', hs', List.Subset.trans hsub (List.subset_append_left _ _)⟩
    · obtain rfl := List.mem_singleton.mp hr
      exact ⟨_, hs, List.Subset.refl _⟩
  | redirect _ _ ih => exact ih hr

/-- Each step that a session took, or takes now, was taken when it had taken some others. -/
theorem Past.exists_past_of_mem_append (h : Past maxDepth sink steps s) {r : Step}
    (hr : r ∈ steps ++ [⟨s, fuel, source⟩]) : ∃ steps', Past maxDepth sink steps' r.session := by
  rcases List.mem_append.mp hr with hr | hr
  · obtain ⟨steps', hs, -⟩ := h.exists_past_of_mem hr
    exact ⟨steps', hs⟩
  · obtain rfl := List.mem_singleton.mp hr
    exact ⟨steps, h⟩

/-- The stores of all states of a session are valid. -/
theorem Past.valid_of_mem_flatMap (h : Past maxDepth sink steps s)
    (hm : m ∈ (steps ++ [(⟨s, fuel, source⟩ : Step)]).flatMap Step.states) : m.store.Valid := by
  obtain ⟨r, hr, hm⟩ := List.mem_flatMap.mp hm
  obtain ⟨steps', hs⟩ := h.exists_past_of_mem_append hr
  exact hs.valid_of_mem_states hm

/-- In every state of a session the frames form a tree. -/
theorem Past.isTree_of_mem_states (h : Past maxDepth sink steps s)
    (hm : m ∈ (steps ++ [(⟨s, fuel, source⟩ : Step)]).flatMap Step.states) :
    m.store.IsTree ∧ (m.store.link? m.environment).isSome := by
  have hprecedes : Machine.initial.Precedes m :=
    List.rel_of_pairwise_cons (h.trail_append fuel source) (List.mem_append_left _ hm)
  exact ⟨(h.valid_of_mem_flatMap hm).isTree hprecedes.store, hprecedes.environment⟩

/-- A function that a run calls was made in a frame of the store, also if no value holds it. -/
theorem Past.link?_closure_of_occurs (h : Past maxDepth sink steps s) {f : FunctionObject}
    {arguments : List Value} {line : Nat}
    (ho : s.Occurs fuel source (.enter f arguments line) m) : (m.store.link? f.closure).isSome := by
  obtain ⟨vs, hk⟩ := h.exists_kept
  obtain ⟨-, hclosure, -⟩ := lawful_validity.pre_of_reachesIn (m := { s.machine with depth := 0 })
    (declares_validity _ _) (fun _ _ h => h) hk.valid (hk.codes_validity _) ho
  exact Store.link?_isSome_iff.mpr hclosure

/-- The states in which the tasks of a run start are among its states. -/
theorem mem_states_of_occurs {t : Task} (ha : s.Accepts source) (ho : s.Occurs fuel source t m) :
    m ∈ (⟨s, fuel, source⟩ : Step).states := by
  rw [states_of_accepts ha]
  exact List.mem_cons_of_mem _ (Setting.mem_statesIn_of_reachesIn ho)

end Session

/-! ## The property -/

/-- The frames form a tree whose root is the globals. In a session that ran any sources and runs one
more, take all its states in order: of each source, those in which a task of its program starts or
ends, as far as the fuel reaches, also if it fails. From each state to all later ones, no frame
changes the frame in which it lies, every frame that is new lies in one, and no function and no
class changes. In each state, the globals lie in no frame, every other frame in an older one, and
every class below an older one if it has a superclass; and the current frame and the frames of all
functions and methods, also of a bound one that is only called, are in the store. So from each frame
the frames outward are finitely many, none comes twice, and the last is the globals; likewise the
superclasses of each class. `get`, `assign`, `ancestor?` and `findMethod` are walks along them that
end there at the latest: without any look at the numbers they find the same. -/
theorem frames_form_tree {maxDepth : Nat} {sink : Sink} {steps : List Session.Step} {s : Session}
    (h : Session.Past maxDepth sink steps s) (fuel : Nat) (source : String) :
    let states := (steps ++ [(⟨s, fuel, source⟩ : Session.Step)]).flatMap Session.Step.states
    states.Pairwise (fun m m' => m.store.Extends m'.store) ∧
    (s.Accepts source → ∀ t m, s.Occurs fuel source t m → m ∈ states ∧
      ∀ f arguments line, t = .enter f arguments line → (m.store.link? f.closure).isSome) ∧
    ∀ m ∈ states, m.store.IsTree ∧ (m.store.link? m.environment).isSome ∧
      (∀ f, (m.store.link? f).isSome → ∃ fs, Path m.store.enclosing? f fs ∧ fs.Nodup ∧
        fs.getLast? = some .globals ∧
        (∀ name, climb m.store.enclosing? (m.store.own? · name) fs.length f =
          some (m.store.get f name)) ∧
        (∀ name value, climb m.store.enclosing? (m.store.assignOwn? · name value) fs.length f =
          some (m.store.assign f name value)) ∧
        ∀ distance, m.store.ancestor? f distance = fs[distance]?) ∧
      ∀ id, ∃ ids, Path m.store.superclass? id ids ∧ ids.Nodup ∧
        ∀ name, climb m.store.superclass? (m.store.ownMethod? · name) ids.length id =
          some (m.store.findMethod id name) := by
  intro states
  have hordered : (Machine.initial :: (states ++ [])).Pairwise Machine.Precedes :=
    h.trail_append fuel source
  rw [List.append_nil] at hordered
  refine ⟨hordered.of_cons.imp Machine.Precedes.store, fun ha t m ho => ⟨?_, ?_⟩, fun m hm => ?_⟩
  · rw [List.mem_flatMap]
    exact ⟨_, List.mem_append_right _ (List.mem_singleton_self _),
      Session.mem_states_of_occurs ha ho⟩
  · rintro f arguments line rfl
    exact h.link?_closure_of_occurs ho
  · obtain ⟨htree, hcurrent⟩ := h.isTree_of_mem_states hm
    refine ⟨htree, hcurrent, fun f hf => ?_, fun id => ?_⟩
    · obtain ⟨fs, hp, hnodup, hlast⟩ := htree.exists_path hf
      exact ⟨fs, hp, hnodup, hlast, fun name => hp.climb_eq fun g => htree.get_eq g name,
        fun name value => hp.climb_eq fun g => htree.assign_eq g name value,
        Store.ancestor?_eq_of_path hp⟩
    · obtain ⟨ids, hp, hnodup⟩ := htree.exists_superclass_path id
      exact ⟨ids, hp, hnodup, fun name => hp.climb_eq fun c => htree.findMethod_eq c name⟩

/-- In the body of a method of a subclass, which then fails: the frame of the call lies in that of
the bound method, this one in that of the subclass, and they come to the globals. -/
theorem frames_form_tree_in_bound_method :
    let source := "class A{}class B<A{init(){}m(){nil();}}B().m();"
    let s := Session.start 5 .open
    Session.Past 5 .open [] s ∧
      ∃ m ∈ ([] ++ [(⟨s, 12, source⟩ : Session.Step)]).flatMap Session.Step.states,
        m.store.enclosing? m.environment = some ⟨4⟩ ∧ m.store.enclosing? ⟨4⟩ = some ⟨1⟩ ∧
        ∃ fs, Path m.store.enclosing? m.environment fs ∧ fs.Nodup ∧
          fs.getLast? = some .globals := by
  intro source s
  let a := Analysis.ofSource 0 source
  let setting : Setting := ⟨fun _ => none, 5, fun _ => none, fun _ => none⟩
  have ha : s.Accepts source := by
    unfold Session.Accepts
    decide +kernel
  -- the kernel cannot look into the table of the session
  have hsetting : (s.extend source).setting = setting := by
    have hd : a.resolution.distances = [] := by decide +kernel
    exact Session.setting_extend_start 5 .open hd
  have hany : (setting.statesIn 12 a.program .initial).any (fun m =>
      m.store.enclosing? m.environment = some ⟨4⟩ && m.store.enclosing? ⟨4⟩ = some ⟨1⟩) = true := by
    decide +kernel
  obtain ⟨m, hm, hlinks⟩ := List.any_eq_true.mp hany
  simp only [Bool.and_eq_true, decide_eq_true_eq] at hlinks
  have hstates : m ∈ ([] ++ [(⟨s, 12, source⟩ : Session.Step)]).flatMap Session.Step.states := by
    rw [List.nil_append, List.flatMap_singleton, Session.states_of_accepts ha, hsetting]
    exact List.mem_cons_of_mem _ hm
  obtain ⟨-, hcurrent, hframes, -⟩ := (frames_form_tree .start 12 source).2.2 m hstates
  obtain ⟨fs, hp, hnodup, hlast, -⟩ := hframes m.environment hcurrent
  exact ⟨.start, m, hstates, hlinks.1, hlinks.2, fs, hp, hnodup, hlast⟩

end Lox
