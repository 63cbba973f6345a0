import Lox.Proofs.Evaluation.Completions
import Lox.Proofs.Evaluation.Faults
import Lox.Proofs.Session.Supers

/-!
# Branches that no session takes

The evaluator looks out for code that the earlier stages do not let through. In a session that
only runs sources, none of these branches is ever taken: the parser builds every operator
node from its own operators; the walk of `resolve` lets `this`, `super` and `return` stand only
where they mean something; and the frames in which they are looked up stay as they were
made, whatever runs later.

* `Session.Past.this_of_enter`: an initializer finds its instance;
* `defensive_branches_are_unreachable`: so no run takes such a branch.
-/

namespace Lox

/-- A program that fails does so in one of its statements. -/
theorem exists_execute_of_runStatements {n : Nat} {s : Setting} {program : List (Stmt NodeId)}
    {m m' : Machine} {failure : Failure} (h : runStatements n s program m = .failed failure m') :
    ∃ statement m₁, execute n s statement m₁ = .failed failure m' ∧
      ∀ t m₂, s.Reaches n (.execute statement) m₁ t m₂ → s.ReachesIn n program m t m₂ := by
  induction program generalizing m with
  | nil => cases h
  | cons statement rest ih =>
    rw [runStatements] at h
    cases hr : execute n s statement m with
    | done completion m₁ =>
      rw [hr] at h
      obtain ⟨statement', m₂, hf, hreaches⟩ := ih h
      exact ⟨statement', m₂, hf, fun t m₃ ht => .later hr (hreaches t m₃ ht)⟩
    | failed failure' m₁ =>
      rw [hr] at h
      obtain ⟨rfl, rfl⟩ := Outcome.failed.inj h
      exact ⟨statement, m, hr, fun t m₃ ht => .first ht⟩
    | outOfFuel =>
      rw [hr] at h
      cases h

namespace Session

variable {maxDepth : Nat} {sink : Sink} {steps : List Step} {s s' : Session} {fuel : Nat}
  {source : String} {t : Task} {m m' : Machine}

/-- A name that a run finds undefined is no reserved word. -/
theorem Past.isIdentifier_of_undefined (h : Past maxDepth sink steps s) (ha : s.Accepts source)
    {name : String} {line : Nat}
    (hf : runStatements fuel (s.extend source).setting (Analysis.ofSource s.nextId source).program
      { s.machine with depth := 0 } = .failed (.fault (.undefinedVariable name) line) m') :
    (⟨name, line⟩ : Name).IsIdentifier := by
  obtain ⟨vs, -, hpre⟩ := h.pre_of_occurs ha
  obtain ⟨vs', hk⟩ := h.exists_kept
  obtain ⟨t, m₁, m₂, ht, hraised, -⟩ :=
    (hk.settled.ready ha).exists_raised (hk.settled.extend ha).knows hf
  obtain ⟨e, r, rfl, hr, hkind, hname, -⟩ := hraised name line rfl
  have hwf := (hpre _ _ _ ht).2.1.self.wellFormed
  cases e with
  | «variable» id name' =>
    obtain rfl := Option.some.inj hr
    exact hname ▸ hwf
  | assign id name' value =>
    obtain rfl := Option.some.inj hr
    exact hname ▸ hwf.1
  | this | super =>
    obtain rfl := Option.some.inj hr
    rcases hkind with hkind | hkind <;> cases hkind
  | _ => cases hr

/-- No run fails with a fault that the evaluator only looks out for. -/
theorem Past.not_isDefensive (h : Past maxDepth sink steps s) (ha : s.Accepts source)
    {cause : RuntimeFault} {line : Nat}
    (hf : runStatements fuel (s.extend source).setting (Analysis.ofSource s.nextId source).program
      { s.machine with depth := 0 } = .failed (.fault cause line) m') : ¬ cause.IsDefensive := by
  obtain ⟨vs, hknows, hpre⟩ := h.pre_of_occurs ha
  by_cases hname : ∃ name, cause = .undefinedVariable name
  · obtain ⟨name, rfl⟩ := hname
    have hid : Keyword.ofText? name = none := h.isIdentifier_of_undefined ha hf
    rintro (rfl | rfl) <;> cases hid
  · obtain ⟨statement, m₁, hx, hreaches⟩ := exists_execute_of_runStatements hf
    obtain ⟨t, m₂, m₃, ht, -, hraised, -⟩ := (blaming_kept (s.extend source).setting).exists_raised
      (t := .execute statement) trivial hx
    exact (hraised cause line rfl).not_isDefensive hknows (hpre _ t m₂ (hreaches t m₂ ht)).2
      fun name he => hname ⟨name, he⟩

/-- However the body of an initializer ran, its instance is found in the end. -/
theorem Past.this_of_enter (h : Past maxDepth sink steps s) (ha : s.Accepts source)
    {f : FunctionObject} {arguments : List Value} {line : Nat}
    (ho : s.Occurs fuel source (.enter f arguments line) m) (hi : f.isInitializer = true) {n : Nat}
    {completion : Completion}
    (hb : executeAll n (s.extend source).setting f.declaration.body (f.inside arguments m) =
      .done completion m') :
    (m'.store.getAt f.closure 0 "this").isSome := by
  obtain ⟨vs, hk⟩ := h.exists_kept
  have hknows := (hk.settled.extend ha).knows
  obtain ⟨hw, hf, harity⟩ := (hk.settled.ready ha).pre_of_reachesIn hknows ho
  -- what the body relies on does not depend on the limit, so let there be room for the call
  have hmeets := f.meets_plan (s := { (s.extend source).setting with maxDepth := m.depth + 1 })
    arguments line hw hf harity
  rw [FunctionObject.plan, FunctionObject.rule, if_neg (Nat.not_succ_le_self m.depth)] at hmeets
  have hbody := (scoping_kept hknows).run n (t := .executeAll f.declaration.body) hmeets.1
  have hb : (Task.executeAll f.declaration.body).run n (s.extend source).setting
    (f.inside arguments m) = .done completion m' := hb
  rw [hb] at hbody
  have hgrows := (Store.Grows.addFrame m.store _).trans hbody.1.grows
  exact hgrows.own (hf.this hi)

end Session

/-! ## The property -/

/-- The defensive branches of the evaluator are unreachable. Every logical node in the tree of a source,
accepted or not, carries `and` or `or`. And when a source is run, in a session that ran any sources:
the run does not fail because of an invalid operator, a `super` outside of a subclass method, or a
`this` or `super` that is undefined; whenever an initializer is called and its body ends, its
instance is found; every logical node that is evaluated, of this source or an earlier one, carries
`and` or `or`; and no statement of the program ends on the way out of a function. -/
theorem defensive_branches_are_unreachable {maxDepth : Nat} {sink : Sink}
    {steps : List Session.Step} {s : Session} (h : Session.Past maxDepth sink steps s) (fuel : Nat)
    (source : String) :
    let a := Analysis.ofSource s.nextId source
    let setting := (s.extend source).setting
    (∀ statement ∈ a.program, ∀ left operator right,
      (Code.expr (.logical left operator right)).Within (.stmt statement) →
        operator.kind = .keyword .and ∨ operator.kind = .keyword .or) ∧
    (s.Accepts source →
      (∀ ran s', { s with nextId := a.nextId }.interpret fuel a.program a.resolution.distances =
          some (ran, s') →
        ∀ cause line, ran.result = .error (.fault cause line) → ¬ cause.IsDefensive) ∧
      (∀ f arguments line m, s.Occurs fuel source (.enter f arguments line) m →
        f.isInitializer = true → ∀ n completion m',
          executeAll n setting f.declaration.body (f.inside arguments m) = .done completion m' →
            (m'.store.getAt f.closure 0 "this").isSome) ∧
      (∀ left operator right m, s.Occurs fuel source (.evaluate (.logical left operator right)) m →
        operator.kind = .keyword .and ∨ operator.kind = .keyword .or) ∧
      ∀ statement ∈ a.program, ∀ n m completion m',
        execute n setting statement m = .done completion m' → completion = .normal) := by
  intro a setting
  constructor
  · intro statement hs left operator right hwithin
    have hwf := Code.wellFormed_map_stmt (Analysis.wellFormedAll_program s.nextId source) _
      (List.mem_map_of_mem hs)
    have hlogical : (Expr.logical left operator right).WellFormed := hwf.within hwithin
    exact hlogical.1.logical_kind
  · intro ha
    refine ⟨fun ran s' hi cause line hran => ?_, fun f arguments line m ho hi n completion m' hb =>
      h.this_of_enter ha ho hi hb, fun left operator right m ho => ?_, fun statement hs n m completion
      m' hx => Completion.eq_normal_of_execute ?_ hx⟩
    · obtain ⟨m, rfl, ⟨u, -, hok⟩ | ⟨failure, ho, hfailure⟩⟩ :=
        Session.exists_machine_of_finish (s := s.extend source) hi
      · cases hran.symm.trans hok
      · obtain rfl := Except.error.inj (hran.symm.trans hfailure)
        obtain ⟨m₁, hf, -⟩ := exists_runStatements_of_runProgram ho
        exact h.not_isDefensive ha hf
    · obtain ⟨vs, -, hpre⟩ := h.pre_of_occurs ha
      have hlogical : (Expr.logical left operator right).WellFormed :=
        (hpre _ _ _ ho).2.1.self.wellFormed
      exact hlogical.1.logical_kind
    · exact not_returns_of_errors_eq_nil (Analysis.errors_eq_nil ha) statement hs

/-- A class is called whose initializer returns: when its body has ended, its instance is found. -/
theorem defensive_branches_are_unreachable_in_initializer :
    let source := "class A{init(){return;}}A();"
    let s := Session.start 1 .open
    Session.Past 1 .open [] s ∧ s.Accepts source ∧
      ∃ f arguments line m n completion m', s.Occurs 12 source (.enter f arguments line) m ∧
        f.isInitializer = true ∧
        executeAll n (s.extend source).setting f.declaration.body (f.inside arguments m) =
          .done completion m' ∧
        (m'.store.getAt f.closure 0 "this").isSome := by
  intro source s
  let a := Analysis.ofSource 0 source
  let setting := (s.extend source).setting
  let body (f : FunctionObject) (arguments : List Value) (m : Machine) : Outcome Completion :=
    executeAll 9 setting f.declaration.body (f.inside arguments m)
  have ha : s.Accepts source := by
    unfold Session.Accepts
    decide +kernel
  -- a run that has a state, but none after a step that never ends, is one that did not fail
  have hany : (setting.traceIn 12 a.program .initial).any (fun p => p.1.entered?.any fun q =>
      q.1.isInitializer && (body q.1 q.2 p.2).state?.isSome &&
        ((body q.1 q.2 p.2).bind fun _ _ => (.outOfFuel : Outcome Unit)).state?.isNone) = true := by
    decide +kernel
  obtain ⟨⟨t, m⟩, hp, ht⟩ := List.any_eq_true.mp hany
  obtain ⟨⟨f, arguments⟩, hentered, hf⟩ := (Option.any_eq_true _ _).mp ht
  obtain ⟨line, rfl⟩ := Task.entered?_eq_some_iff.mp hentered
  have ho : s.Occurs 12 source (.enter f arguments line) m := Setting.mem_traceIn_iff.mp hp
  simp only [Bool.and_eq_true] at hf
  obtain ⟨⟨hi, hsome⟩, hnone⟩ := hf
  cases hb : body f arguments m with
  | done completion m' =>
    obtain ⟨-, hthis, -⟩ := (defensive_branches_are_unreachable .start 12 source).2 ha
    exact ⟨.start, ha, f, arguments, line, m, 9, completion, m', ho, hi, hb,
      hthis f arguments line m ho hi 9 completion m' hb⟩
  | failed failure m' =>
    rw [hb] at hnone
    cases hnone
  | outOfFuel =>
    rw [hb] at hsome
    cases hsome

end Lox
