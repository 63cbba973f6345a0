import Lox.Proofs.Session.Correspondence

/-!
# Sources that are rejected

A source with static errors leaves one trace in a session: the numbers of its nodes are
taken, so those of later sources are greater than they would be without it. Two sessions
that differ in such numbers are alike with levels in place of the numbers
(`Session.Corresponds`).

* `Analysis.rejections_ofSource`: a source has the same errors with all numbers;
* `Session.Corresponds.run`: sessions that are alike run a source in the same way, and are alike
  afterwards;
* `rejected_sources_are_invisible`: so the sources that are rejected can be left out.
-/

namespace Lox

/-! ## Static errors -/

namespace Analysis

/-- The errors of a source do not depend on the numbers of its nodes. -/
theorem rejections_ofSource (nextId : NodeId) (source : String) :
    (ofSource nextId source).rejections = (ofSource 0 source).rejections :=
  (labels_ofSource 0 source).rejections_eq (labels_ofSource nextId source) rfl rfl

variable (a : Analysis)

theorem syntaxDiagnostics_eq_nil_iff :
    a.syntaxDiagnostics = [] ↔ a.lexical = [] ∧ a.parsed.errors = [] := by
  simp only [syntaxDiagnostics, Parsed.diagnostics, List.append_eq_nil_iff, List.map_eq_nil_iff]

/-- A source is rejected if one of the three stages before its run reports an error. -/
theorem rejections_ne_nil_iff :
    a.rejections ≠ [] ↔ a.lexical ≠ [] ∨ a.parsed.errors ≠ [] ∨ a.resolution.errors ≠ [] := by
  unfold rejections
  by_cases h : a.syntaxDiagnostics = []
  · obtain ⟨hl, hp⟩ := a.syntaxDiagnostics_eq_nil_iff.mp h
    simp [h, hl, hp, scopeDiagnostics]
  · have hor : a.lexical ≠ [] ∨ a.parsed.errors ≠ [] :=
      Decidable.not_and_iff_or_not.mp fun he => h (a.syntaxDiagnostics_eq_nil_iff.mpr he)
    rw [if_neg (by simpa using h), ← or_assoc]
    exact iff_of_true h (.inl hor)

end Analysis

/-! ## Sources in turn -/

namespace Session

/-- A source to run, the fuel to run it, and where its output goes. -/
structure Input where
  fuel : Nat
  source : String
  sink : Sink

/-- The source has static errors. -/
def Input.rejected (input : Input) : Bool := !(Analysis.ofSource 0 input.source).rejections.isEmpty

/-- Runs sources one after another. -/
def runAll : List Input → Session → Option (List RunReport × Session)
  | [], s => some ([], s)
  | input :: rest, s =>
    ({ s with sink := input.sink }.run input.fuel input.source).bind fun (report, s) =>
      (runAll rest s).map fun (reports, s) => (report :: reports, s)

variable {s s' : Session} {input : Input}

theorem accepts_iff : s.Accepts input.source ↔ input.rejected = false := by
  rw [Accepts, Analysis.rejections_ofSource, Input.rejected, Bool.not_eq_false', List.isEmpty_iff]

/-- A source that is rejected takes numbers, and does nothing else. -/
theorem run_of_rejected (h : input.rejected = true) (s : Session) :
    s.run input.fuel input.source =
      some (⟨"", (Analysis.ofSource 0 input.source).rejections.map Diagnostic.report, true, false⟩,
        { s with nextId := (s.extend input.source).nextId }) := by
  have hr : (Analysis.ofSource s.nextId input.source).rejections ≠ [] := by
    rw [Analysis.rejections_ofSource]
    simpa [Input.rejected] using h
  rw [run_eq_runAs, runAs_of_rejects hr, Analysis.rejections_ofSource]
  rfl

theorem Numbered.run (h : s.Numbered) {report : RunReport}
    (hr : s.run input.fuel input.source = some (report, s')) : s'.Numbered := by
  rw [run_eq_runAs] at hr
  exact (h.runAs (Analysis.labels_ofSource _ _) hr).1

/-- Sessions that correspond run a source in the same way, and correspond afterwards. -/
theorem Corresponds.run (h : s.Corresponds id s') (input : Input) :
    Option.Rel (fun r r' => r'.1 = r.1 ∧ r.2.Corresponds id r'.2)
      (s.run input.fuel input.source) (s'.run input.fuel input.source) := by
  rw [run_eq_runAs, run_eq_runAs]
  exact h.runAs (Analysis.labels_ofSource _ _) (Analysis.labels_ofSource _ _) rfl rfl _

/-! ## Sources that are left out -/

/-- A report tells whether the source was rejected, and a source that was rejected did not fail. -/
theorem hadError_of_run {report : RunReport}
    (hr : s.run input.fuel input.source = some (report, s')) :
    report.hadError = input.rejected ∧
      ¬ (report.hadError = true ∧ report.hadRuntimeError = true) := by
  cases h : input.rejected with
  | true =>
    rw [run_of_rejected h] at hr
    obtain ⟨rfl, -⟩ := Prod.mk.inj (Option.some.inj hr)
    exact ⟨rfl, fun hboth => Bool.false_ne_true hboth.2⟩
  | false =>
    rw [run_of_accepts (accepts_iff.mpr h)] at hr
    obtain ⟨⟨ran, s₁⟩, -, he⟩ := Option.map_eq_some_iff.mp hr
    obtain rfl : ran.report = report := congrArg Prod.fst he
    have hran : ran.report.hadError = false := by
      unfold Ran.report
      split <;> rfl
    exact ⟨hran, fun hboth => Bool.false_ne_true (hran.symm.trans hboth.1)⟩

/-- Each source says where its output goes, so it does not matter where it went before. -/
theorem runAll_redirect (other : Sink) (inputs : List Input) (s : Session) :
    (runAll inputs { s with sink := other }).map Prod.fst = (s.runAll inputs).map Prod.fst := by
  cases inputs <;> rfl

/-- In sessions that correspond, sources run in the same way without those that are rejected. -/
theorem Corresponds.runAll (inputs : List Input) (h : s.Corresponds id s') :
    (s'.runAll (inputs.filter fun input => !input.rejected)).map Prod.fst =
      (s.runAll inputs).map fun r => r.1.filter fun report => !report.hadError := by
  induction inputs generalizing s s' with
  | nil => rfl
  | cons input rest ih =>
    cases ha : input.rejected with
    | true =>
      have hrun := run_of_rejected ha { s with sink := input.sink }
      rw [List.filter_cons_of_neg (by simp [ha]), Session.runAll, hrun]
      have hrejected : Corresponds id
          { s with nextId := (s.extend input.source).nextId, sink := input.sink }
          { s' with sink := input.sink } :=
        have hr := h.redirect input.sink
        ⟨⟨hr.machine, hr.maxDepth, hr.sink⟩, hr.numbered.run hrun, hr.numbered'⟩
      -- The sources that are left run in `s'`, not where the output of this one goes.
      rw [← runAll_redirect input.sink, ih hrejected, Option.bind_some, Option.map_map]
      rfl
    | false =>
      rw [List.filter_cons_of_pos (by simp [ha]), Session.runAll, Session.runAll]
      have hr := (h.redirect input.sink).run input
      generalize Session.run input.fuel input.source { s' with sink := input.sink } = o' at hr
      cases hx : Session.run input.fuel input.source { s with sink := input.sink } with
      | none =>
        rw [hx] at hr
        cases hr
        rfl
      | some r =>
        obtain ⟨report, s₁⟩ := r
        rw [hx] at hr
        cases hr with
        | @some _ r' hr =>
          obtain ⟨report', s₁'⟩ := r'
          obtain ⟨rfl, hafter⟩ : report' = report ∧ s₁.Corresponds id s₁' := hr
          have hkept (reports : List RunReport) :
              (report' :: reports).filter (fun report => !report.hadError) =
                report' :: reports.filter fun report => !report.hadError :=
            List.filter_cons_of_pos (by simp [(hadError_of_run hx).1, ha])
          have hrest := congrArg (Option.map (report' :: ·)) (ih hafter)
          simp only [Option.map_map] at hrest
          simp only [Option.bind_some, Option.map_map, Function.comp_def, hkept]
          exact hrest

end Session

/-! ## The property -/

/-- Rejected sources are invisible. In any session, a source is rejected if one of the three stages
before its run reports an error for it alone. Then it prints nothing, leaves the session as it was
but for the numbers that it takes, and reports all lexical and then all syntax errors, or, if there
are none, all scoping errors. A report tells whether the source was rejected, and never also that it
failed. And if all sources that are rejected are left out of a session, and its nodes are numbered
from any other number on, the other sources give the same reports; in particular one of both sessions
ends if the other one does. -/
theorem rejected_sources_are_invisible (maxDepth : Nat) (sink : Sink) (first first' : NodeId) :
    (∀ (s : Session) (input : Session.Input),
      let alone := Analysis.ofSource 0 input.source
      let early := alone.lexical.map LexicalError.toDiagnostic ++ alone.parsed.diagnostics
      let late := alone.resolution.errors.map ScopeError.toDiagnostic
      (input.rejected = true ↔
        alone.lexical ≠ [] ∨ alone.parsed.errors ≠ [] ∨ alone.resolution.errors ≠ []) ∧
      (input.rejected = true → ∃ reports nextId,
        s.run input.fuel input.source = some (⟨"", reports, true, false⟩, { s with nextId }) ∧
        (early ≠ [] → reports = early.map Diagnostic.report) ∧
        (early = [] → reports = late.map Diagnostic.report)) ∧
      ∀ report s', s.run input.fuel input.source = some (report, s') →
        report.hadError = input.rejected ∧
          ¬ (report.hadError = true ∧ report.hadRuntimeError = true)) ∧
    ∀ inputs : List Session.Input,
      (Session.runAll (inputs.filter fun input => !input.rejected)
          { Session.start maxDepth sink with nextId := first' }).map Prod.fst =
        (Session.runAll inputs { Session.start maxDepth sink with nextId := first }).map
          fun r => r.1.filter fun report => !report.hadError := by
  constructor
  · intro s input alone early late
    refine ⟨?_, fun h => ?_, fun report s' => Session.hadError_of_run⟩
    · rw [← alone.rejections_ne_nil_iff, Session.Input.rejected]
      simp only [alone, Bool.not_eq_true', List.isEmpty_eq_false_iff]
    · have hrejections : alone.rejections = if early.isEmpty then late else early := rfl
      refine ⟨_, _, Session.run_of_rejected h s, fun he => ?_, fun he => ?_⟩
      · rw [hrejections, if_neg (by simpa using he)]
      · rw [hrejections, if_pos (by simpa using he)]
  · intro inputs
    exact Session.Corresponds.runAll inputs (.start id maxDepth sink first first')

/-- A source that reads a variable in its own initializer is rejected between two others. -/
theorem rejected_sources_are_invisible_between_two_others :
    let inputs : List Session.Input :=
      [⟨9, "{var a;print a;}", .open⟩, ⟨9, "{print nil;var b=b;}", .open⟩,
        ⟨9, "print nil;", .open⟩]
    inputs.map Session.Input.rejected = [false, true, false] ∧
      ((Session.start 1 .open).runAll inputs).map (fun r => r.1.map RunReport.output) =
        some ["nil\n", "", "nil\n"] ∧
      (Session.runAll (inputs.filter fun input => !input.rejected) (.start 1 .open)).map
        (fun r => r.1.map RunReport.output) = some ["nil\n", "nil\n"] := by
  intro inputs
  have hrun : ((Session.start 1 .open).runAll inputs).map (fun r => r.1.map RunReport.output) =
      some ["nil\n", "", "nil\n"] := by decide +kernel
  have hkept : ((Session.start 1 .open).runAll inputs).map
      (fun r => (r.1.filter fun report => !report.hadError).map RunReport.output) =
        some ["nil\n", "nil\n"] := by decide +kernel
  have h := congrArg (Option.map (List.map RunReport.output))
    ((rejected_sources_are_invisible 1 .open 0 0).2 inputs)
  rw [Option.map_map, Option.map_map] at h
  exact ⟨by decide +kernel, hrun, h.trans hkept⟩

end Lox
