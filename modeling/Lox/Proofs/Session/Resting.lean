import Lox.Proofs.Evaluation.Restoration
import Lox.Session

/-!
# Machines between two steps

A session runs one thing after another on the same machine: programs with any
table of distances, right or wrong, expressions, and sources. Each of them leaves
the machine as it found it, in the globals and with no call in progress: if it
came to its end, if it was given up in the middle of calls and blocks, and if only
the output could not be flushed.

* `Machine.Resting.at_rest`: so does everything that runs on a machine, with any limit and any
  output that may fail at any point;
* `Session.Leads.resting`: the machine of a session only takes such steps;
* `every_exit_restores`: what evaluation, execution, calls and sessions restore.
-/

namespace Lox

/-! ## Machines -/

/-- The machines to which a fresh one comes by running programs and expressions to an end, each in a
setting of its own. In between the output may be taken away. -/
inductive Machine.Resting : Machine → Prop where
  | initial : Resting .initial
  | program {s : Setting} {n : Nat} {program : List (Stmt NodeId)} {m m' : Machine}
    (hm : Resting m) (h : (runProgram n s program m).state? = some m') : Resting m'
  | expression {s : Setting} {n : Nat} {e : Expr NodeId} {m m' : Machine}
    (hm : Resting m) (h : (evaluate n s e m).state? = some m') : Resting m'
  | read {m : Machine} (output : String) (hm : Resting m) : Resting { m with output }

/-- Between two steps the globals are current and no call is in progress. -/
theorem Machine.Resting.at_rest {m : Machine} (h : m.Resting) :
    m.environment = .globals ∧ m.depth = 0 := by
  induction h with
  | initial => exact ⟨rfl, rfl⟩
  | @program s n program m m' _ h ih =>
    have hr := returns_runProgram n s program ih.1 m' h
    exact ⟨hr.environment.trans ih.1, hr.depth⟩
  | @expression s n e m m' _ h ih =>
    have hr := Task.returns_run n s (.evaluate e) m m' h
    exact ⟨hr.environment.trans ih.1, hr.depth.trans ih.2⟩
  | read output _ ih => exact ih

/-! ## Sessions -/

namespace Session

/-- The sessions to which a session comes by steps of any kind. The program of a step need not be
that of a source, nor need the distances be its own. Between two steps the output may be sent
elsewhere. -/
inductive Leads (s : Session) : Session → Prop where
  | refl : Leads s s
  | interpret {s₁ s₂ : Session} {nextId : NodeId} {fuel : Nat} {program : List (Stmt NodeId)}
    {distances : List (NodeId × Nat)} {ran : Ran Unit} (hs : Leads s s₁)
    (h : { s₁ with nextId }.interpret fuel program distances = some (ran, s₂)) : Leads s s₂
  | evaluate {s₁ s₂ : Session} {fuel : Nat} {e : Expr Unit} {ran : Ran Value} (hs : Leads s s₁)
    (h : s₁.evaluate fuel e = some (ran, s₂)) : Leads s s₂
  | run {s₁ s₂ : Session} {fuel : Nat} {source : String} {report : RunReport} (hs : Leads s s₁)
    (h : s₁.run fuel source = some (report, s₂)) : Leads s s₂
  | redirect {s₁ : Session} (other : Sink) (hs : Leads s s₁) : Leads s { s₁ with sink := other }

/-- The machine after a step is the one in which the step ended, without its output. -/
theorem exists_state_of_finish {α : Type} {s s' : Session} {o : Outcome α} {ran : Ran α}
    (h : s.finish o = some (ran, s')) :
    ∃ m, o.state? = some m ∧ s' = { s with machine := { m with output := "" } } := by
  cases o with
  | done value m => exact ⟨m, rfl, (Prod.mk.inj (Option.some.inj h)).2.symm⟩
  | failed failure m => exact ⟨m, rfl, (Prod.mk.inj (Option.some.inj h)).2.symm⟩
  | outOfFuel => cases h

/-- A source that is run is interpreted, or it is rejected and nothing but its numbers is used. -/
theorem run_cases {s s' : Session} {fuel : Nat} {source : String} {report : RunReport}
    (h : s.run fuel source = some (report, s')) :
    let a := Analysis.ofSource s.nextId source
    (∃ ran, { s with nextId := a.nextId }.interpret fuel a.program a.resolution.distances =
        some (ran, s')) ∨
      s' = { s with nextId := a.nextId } := by
  unfold Session.run at h
  dsimp only at h
  split at h
  · obtain ⟨⟨ran, s₁⟩, hi, he⟩ := Option.map_eq_some_iff.mp h
    dsimp only at he
    split at he <;> obtain ⟨-, rfl⟩ := Prod.mk.inj he <;> exact .inl ⟨ran, hi⟩
  · exact .inr (Prod.mk.inj (Option.some.inj h)).2.symm

theorem resting_interpret {s s' : Session} {fuel : Nat} {program : List (Stmt NodeId)}
    {distances : List (NodeId × Nat)} {ran : Ran Unit} (hs : s.machine.Resting)
    (h : s.interpret fuel program distances = some (ran, s')) : s'.machine.Resting := by
  obtain ⟨m, hm, rfl⟩ := exists_state_of_finish h
  exact .read "" (.program hs hm)

/-- Everything that runs in a session is a program or an expression. -/
theorem Leads.resting {s s' : Session} (h : s.Leads s') (hs : s.machine.Resting) :
    s'.machine.Resting := by
  induction h with
  | refl => exact hs
  | @interpret s₁ _ nextId _ _ _ _ _ h ih => exact resting_interpret (s := { s₁ with nextId }) ih h
  | evaluate _ h ih =>
    obtain ⟨m, hm, rfl⟩ := exists_state_of_finish h
    exact .read "" (.expression ih hm)
  | @run s₁ _ _ source _ _ h ih =>
    rcases run_cases h with ⟨ran, hi⟩ | rfl
    · exact resting_interpret
        (s := { s₁ with nextId := (Analysis.ofSource s₁.nextId source).nextId }) ih hi
    · exact ih
  | redirect _ _ ih => exact ih

end Session

/-! ## The property -/

/-- The current frame and the depth of calls are restored on every exit. In every state and for all
distances, right or wrong: where evaluating an expression or executing a statement ends, in whichever
way, the current frame and the depth of calls are those from before; and a function that is entered
runs by its plan, which starts only its body, at a depth from one to the limit. Hence between two
steps the globals are current and no call is in progress: on a machine on which anything ran, in any
settings, and in every session. -/
theorem every_exit_restores (s : Setting) (n : Nat) :
    (∀ e m m', (evaluate n s e m).state? = some m' →
      m'.environment = m.environment ∧ m'.depth = m.depth) ∧
    (∀ statement m m', (execute n s statement m).state? = some m' →
      m'.environment = m.environment ∧ m'.depth = m.depth) ∧
    (∀ (f : FunctionObject) arguments line m,
      enter (n + 1) s f arguments line m = (f.plan s arguments line m).runWith n s ∧
      ∀ u m', (f.plan s arguments line m).Starts (fun t m => t.run n s m) u m' →
        u = .executeAll f.declaration.body ∧ 1 ≤ m'.depth ∧ m'.depth ≤ s.maxDepth) ∧
    (∀ m : Machine, m.Resting → m.environment = .globals ∧ m.depth = 0) ∧
    ∀ maxDepth sink s', (Session.start maxDepth sink).Leads s' →
      s'.machine.environment = .globals ∧ s'.machine.depth = 0 := by
  refine ⟨fun e m m' h => ?_, fun statement m m' h => ?_, ?_, fun m h => h.at_rest, ?_⟩
  · have hr := Task.returns_run n s (.evaluate e) m m' h
    exact ⟨hr.environment, hr.depth⟩
  · have hr := Task.returns_run n s (.execute statement) m m' h
    exact ⟨hr.environment, hr.depth⟩
  · exact fun f arguments line m =>
      ⟨(f.runWith_plan n s arguments line m).symm, fun u m' h => f.depth_of_starts h⟩
  · exact fun maxDepth sink s' h => (h.resting .initial).at_rest

/-- A function at the limit of calls fails in a block: the call ends in the local frame in which it
was made, and after a source with such a call the globals are current. -/
theorem every_exit_restores_in_block_of_call :
    let s : Setting := ⟨fun _ => none, 1, fun _ => none, fun _ => none⟩
    let f : FunctionObject :=
      ⟨.mk ⟨"f", 1⟩ [] [.block [.expression (.variable 0 ⟨"g", 1⟩)]], .globals, false⟩
    let m := (declareFunction f.declaration .initial).enter ∅ .globals 0
    let call : Expr NodeId := .call (.variable 1 ⟨"f", 1⟩) 1 []
    (∃ m', (evaluate 12 s call m).state? = some m' ∧ m'.environment = ⟨1⟩ ∧ m'.depth = 0) ∧
    (∃ m', (execute 12 s (.block [.expression call]) m).state? = some m' ∧
      m'.environment = ⟨1⟩ ∧ m'.depth = 0) ∧
    (∃ u m', (f.plan s [] 1 m).Starts (fun t m => t.run 12 s m) u m' ∧ m'.depth ≤ 1) ∧
    ∃ report s', (Session.start 1 .open).run 12 "fun f(){{-nil;}}f();" = some (report, s') ∧
      report.hadRuntimeError = true ∧ s'.machine.environment = .globals ∧ s'.machine.depth = 0 := by
  intro s f m call
  obtain ⟨hevaluate, hexecute, hstarts, -, hsession⟩ := every_exit_restores s 12
  have he : (evaluate 12 s call m).state?.isSome = true := by decide +kernel
  have hx : (execute 12 s (.block [.expression call]) m).state?.isSome = true := by decide +kernel
  have hrun : ((Session.start 1 .open).run 12 "fun f(){{-nil;}}f();").map
      (RunReport.hadRuntimeError ∘ Prod.fst) = some true := by
    decide +kernel
  obtain ⟨m₁, he⟩ := Option.isSome_iff_exists.mp he
  obtain ⟨m₂, hx⟩ := Option.isSome_iff_exists.mp hx
  obtain ⟨⟨report, s'⟩, hrun, hfailed⟩ := Option.map_eq_some_iff.mp hrun
  have hbody : (f.plan s [] 1 m).Starts (fun t m => t.run 12 s m)
    (.executeAll f.declaration.body) (f.inside [] m) := .first _ _ _ _
  exact ⟨⟨m₁, he, hevaluate call m m₁ he⟩, ⟨m₂, hx, hexecute _ m m₂ hx⟩,
    ⟨_, _, hbody, ((hstarts f [] 1 m).2 _ _ hbody).2.2⟩,
    report, s', hrun, hfailed, hsession 1 .open s' (.run .refl hrun)⟩

end Lox
