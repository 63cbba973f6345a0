import Lox.Proofs.Evaluation.Limits
import Lox.Proofs.Session.Scopes

/-!
# Sessions with more room for calls

* `Session.finish_runProgram_withLimit`: a program that did not overflow in a session does the same in
  one with a larger limit, and leaves the same state;
* `Session.run_withLimit`: and so does a source.
-/

namespace Lox

namespace Session

variable {α : Type} {s t : Session} {limit fuel : Nat}

/-- The session with another bound on the calls in progress. -/
def withLimit (s : Session) (limit : Nat) : Session := { s with maxDepth := limit }

theorem finish_withLimit (o : Outcome α) :
    (s.withLimit limit).finish o = (s.finish o).map fun r => (r.1, r.2.withLimit limit) := by
  cases o <;> rfl

/-- What a step gave tells whether it fits. -/
theorem fits_of_finish {o : Outcome α} {ran : Ran α} (h : s.finish o = some (ran, t))
    (hran : ∀ line, ran.result ≠ .error (.fault .stackOverflow line)) : o.Fits := by
  cases o with
  | done value m => trivial
  | failed failure m =>
    obtain ⟨rfl, -⟩ := Prod.mk.inj (Option.some.inj h)
    refine Bool.eq_false_iff.mpr fun hoverflow => ?_
    obtain ⟨line, rfl⟩ := Failure.isOverflow_iff.mp hoverflow
    exact hran line rfl
  | outOfFuel => cases h

theorem finish_runProgram_withLimit (hle : s.maxDepth ≤ limit) {program : List (Stmt NodeId)}
    {m : Machine} {ran : Ran Unit}
    (h : s.finish (runProgram fuel s.setting program m) = some (ran, t))
    (hran : ∀ line, ran.result ≠ .error (.fault .stackOverflow line)) :
    (s.withLimit limit).finish (runProgram fuel (s.withLimit limit).setting program m) =
      some (ran, t.withLimit limit) := by
  have hsetting : (s.withLimit limit).setting = s.setting.withLimit limit := rfl
  have hle' : s.setting.maxDepth ≤ limit := hle
  rw [hsetting, runProgram_withLimit hle' (fits_of_finish h hran), finish_withLimit, h]
  rfl

/-- A run whose report tells of no overflow did not overflow. -/
theorem ne_overflow_of_report {ran : Ran Unit}
    (h : ∀ line, .runtime line RuntimeFault.stackOverflow.message ∉ ran.report.reports) :
    ∀ line, ran.result ≠ .error (.fault .stackOverflow line) := by
  intro line hoverflow
  refine h line ?_
  simp only [Ran.report, hoverflow]
  exact List.mem_cons_self

/-- A source that did not overflow does the same, and reports the same, under a larger limit. -/
theorem run_withLimit (hle : s.maxDepth ≤ limit) {source : String} {report : RunReport}
    (h : s.run fuel source = some (report, t))
    (hreport : ∀ line, .runtime line RuntimeFault.stackOverflow.message ∉ report.reports) :
    (s.withLimit limit).run fuel source = some (report, t.withLimit limit) := by
  by_cases ha : s.Accepts source
  · rw [run_of_accepts ha] at h
    obtain ⟨⟨ran, t'⟩, hf, he⟩ := Option.map_eq_some_iff.mp h
    obtain ⟨rfl, rfl⟩ := Prod.mk.inj he
    have ha' : (s.withLimit limit).Accepts source := ha
    have hle' : (s.extend source).maxDepth ≤ limit := hle
    have hlarge := finish_runProgram_withLimit hle' hf (ne_overflow_of_report hreport)
    rw [run_of_accepts ha', Option.map_eq_some_iff]
    exact ⟨_, hlarge, rfl⟩
  · have ha' : ¬ (Analysis.ofSource s.nextId source).rejections.isEmpty := fun hnone =>
      ha (List.isEmpty_iff.mp hnone)
    unfold run at h ⊢
    dsimp only [withLimit] at h ⊢
    rw [if_neg ha'] at h ⊢
    obtain ⟨rfl, rfl⟩ := Prod.mk.inj (Option.some.inj h)
    rfl

end Session

/-! ## The property -/

/-- A larger limit of calls never changes a run that did not overflow. In every session, for every
program and any distances: if interpreting the program ends, and not with an overflow, then with any
larger limit it prints the same, gives the same result, and leaves the same session but for its
limit. -/
theorem larger_limit_keeps_runs {s t : Session} {limit fuel : Nat} {program : List (Stmt NodeId)}
    {distances : List (NodeId × Nat)} {ran : Ran Unit} (hle : s.maxDepth ≤ limit)
    (h : s.interpret fuel program distances = some (ran, t))
    (hran : ∀ line, ran.result ≠ .error (.fault .stackOverflow line)) :
    { s with maxDepth := limit }.interpret fuel program distances =
      some (ran, { t with maxDepth := limit }) := by
  let merged := { s with table := s.table.merge distances }
  have hle' : merged.maxDepth ≤ limit := hle
  exact Session.finish_runProgram_withLimit hle' h hran

/-- A function that calls another one needs room for two calls, and may have room for three. -/
theorem larger_limit_keeps_runs_of_nested_calls :
    let call (name : String) : Stmt NodeId := .expression (.call (.variable 0 ⟨name, 1⟩) 1 [])
    let program : List (Stmt NodeId) :=
      [.function (.mk ⟨"f", 1⟩ [] [.print (.literal .nil)]),
        .function (.mk ⟨"g", 1⟩ [] [call "f"]), call "g", .print (.variable 0 ⟨"x", 2⟩)]
    ∃ ran t, ran.report.output = "nil\n" ∧
      ran.report.reports = [.runtime 2 "Undefined variable 'x'."] ∧
      (Session.start 2 .open).interpret 20 program [] = some (ran, t) ∧
      (Session.start 3 .open).interpret 20 program [] = some (ran, { t with maxDepth := 3 }) := by
  intro call program
  have hrun : ((Session.start 2 .open).interpret 20 program []).map
      (fun r => (r.1.report.output, r.1.report.reports)) =
        some ("nil\n", [.runtime 2 "Undefined variable 'x'."]) := by decide +kernel
  obtain ⟨⟨ran, t⟩, h, hreport⟩ := Option.map_eq_some_iff.mp hrun
  obtain ⟨houtput, hreports⟩ := Prod.mk.inj hreport
  have hran : ∀ line, .runtime line RuntimeFault.stackOverflow.message ∉ ran.report.reports := by
    intro line hmem
    rw [hreports, List.mem_singleton] at hmem
    exact absurd (Report.runtime.inj hmem).2 (by decide)
  have hle : (Session.start 2 .open).maxDepth ≤ 3 := by decide
  have hlarge := larger_limit_keeps_runs hle h (Session.ne_overflow_of_report hran)
  exact ⟨ran, t, houtput, hreports, h, hlarge⟩

end Lox
