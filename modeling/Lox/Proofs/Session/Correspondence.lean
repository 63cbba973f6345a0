import Lox.Proofs.Evaluation.Recoding
import Lox.Proofs.Scope.Recoding
import Lox.Proofs.Session.Resting
import Lox.Proofs.Session.Scopes

/-!
# Sessions that correspond

Two sessions can run the same programs on nodes with different numbers and on different lines.
They are compared with levels in place of the numbers, and with lines made equal by some `ℓ`
(`Session.Alike`). All code in the store of a session has numbers that are taken
(`Session.Numbered`), so the distances of later programs do not change its levels. Sessions that are
alike and both numbered correspond (`Session.Corresponds`).

* `Session.Numbered.interpret`: a program whose numbers are free leaves a session numbered;
* `Session.Corresponds.interpret`: sessions that correspond interpret labelings of programs that
  differ in their lines in the same way, and correspond afterwards;
* `Session.Corresponds.runAs`: and they run a source in the same way, whatever numbers its nodes
  have.
-/

namespace Lox

/-- What a step printed, and what it gave, with a failure on another line. -/
def Ran.relocate {α : Type} (ℓ : Nat → Nat) (r : Ran α) : Ran α :=
  ⟨r.output, r.result.mapError (Failure.relocate ℓ)⟩

theorem Ran.relocate_id {α : Type} (r : Ran α) : r.relocate id = r := by
  obtain ⟨output, result⟩ := r
  cases result with
  | ok => rfl
  | error failure => cases failure <;> rfl

section

variable {statements : List (Stmt Unit)} {first next : NodeId} {program : List (Stmt NodeId)}

theorem Labeling.all_below (h : Labeling statements first next program) :
    ∀ statement ∈ program, (Code.stmt statement).All (Code.Below next) :=
  fun _ hs => Code.Below.all fun _ hr =>
    (h.bounds _ (List.mem_map_of_mem (Stmt.references_subset_of_mem hs hr))).2

/-- A program gives distances to its own nodes only. -/
theorem Labeling.get?_table_eq_none (h : Labeling statements first next program) {id : NodeId}
    (hid : id < first ∨ next ≤ id) : (resolve program).table.get? id = none := by
  refine Option.eq_none_iff_forall_ne_some.mpr fun d hd => ?_
  obtain ⟨hle, hlt⟩ := h.bounds id (mem_idsAll_of_get?_table hd)
  exact hid.elim (Nat.not_lt_of_le hle) (Nat.not_le_of_lt hlt)

end

namespace Session

variable {s s' : Session} {statements statements' : List (Stmt Unit)} {next next' : NodeId}
  {program program' : List (Stmt NodeId)} {ℓ : Nat → Nat}

/-! ## Programs with numbers of their own -/

/-- The session in which a program runs: its numbers are taken, and its distances are in the
table. -/
def load (s : Session) (next : NodeId) (program : List (Stmt NodeId)) : Session :=
  { s with nextId := next, table := s.table.merge (resolve program).distances }

theorem interpret_eq_finish (s : Session) (next : NodeId) (program : List (Stmt NodeId))
    (fuel : Nat) :
    { s with nextId := next }.interpret fuel program (resolve program).distances =
      (s.load next program).finish
        (runProgram fuel (s.load next program).setting program s.machine) := rfl

theorem get?_table_load (h : Labeling statements s.nextId next program) {id : NodeId}
    (hid : id < s.nextId ∨ next ≤ id) :
    (s.load next program).table.get? id = s.table.get? id := by
  rw [load, DistanceTable.get?_merge, h.get?_table_eq_none hid, Option.none_or]

/-- The numbers of all stored code are taken, and a number that is not has no distance. -/
structure Numbered (s : Session) : Prop where
  code : s.machine.store.Holds (Code.Below s.nextId)
  free {id : NodeId} : s.nextId ≤ id → s.table.get? id = none

theorem Numbered.start (maxDepth : Nat) (sink : Sink) (nextId : NodeId) :
    Numbered { Session.start maxDepth sink with nextId } where
  code := by
    refine ⟨fun {id f} hf => ?_, fun {id c name f} hc => ?_⟩
    · simp [Session.start] at hf
    · simp [Session.start] at hc
  free _ := DistanceTable.get?_empty_eq_none _

theorem Numbered.load (h : s.Numbered) (hp : Labeling statements s.nextId next program) :
    (s.load next program).Numbered where
  code := h.code.mono fun _ hc => hc.mono hp.le
  free hid := (get?_table_load hp (.inr hid)).trans (h.free (Nat.le_trans hp.le hid))

/-- Numbers may be taken and not used. -/
theorem Numbered.advance (h : s.Numbered) (hle : s.nextId ≤ next) :
    Numbered { s with nextId := next } where
  code := h.code.mono fun _ hc => hc.mono hle
  free hid := h.free (Nat.le_trans hle hid)

/-- The output may be sent elsewhere. -/
theorem Numbered.redirect (other : Sink) (h : s.Numbered) : Numbered { s with sink := other } :=
  ⟨h.code, h.free⟩

theorem Numbered.interpret (h : s.Numbered) (hp : Labeling statements s.nextId next program)
    {fuel : Nat} {ran : Ran Unit}
    (hr : { s with nextId := next }.interpret fuel program (resolve program).distances =
      some (ran, s')) :
    s'.Numbered ∧ s'.nextId = next ∧ s'.table = (s.load next program).table := by
  rw [interpret_eq_finish] at hr
  obtain ⟨m, hm, rfl⟩ := exists_state_of_finish hr
  have hload := h.load hp
  have hrun := holds_runStatements _ fuel (s.load next program).setting
    (m := { s.machine with depth := 0 }) hload.code hp.all_below
  exact ⟨⟨ensures_runProgram hrun (fun _ h => h) m hm, hload.free⟩, rfl, rfl⟩

/-! ## Sessions with other numbers and lines -/

/-- Two sessions that are the same with levels in place of numbers and lines under `ℓ`. -/
structure Alike (ℓ : Nat → Nat) (s s' : Session) : Prop where
  machine : s'.machine.recode ⟨s'.table.level, ℓ⟩ = s.machine.recode ⟨s.table.level, ℓ⟩
  maxDepth : s'.maxDepth = s.maxDepth
  sink : s'.sink = s.sink

/-- What a program with levels in place of numbers cannot change. -/
def levels (s : Session) : Setting := { s.setting with distance? := levelDistance? }

theorem recodes_levels (s : Session) (ℓ : Nat → Nat) :
    s.setting.Recodes ⟨s.table.level, ℓ⟩ s.levels :=
  ⟨levelDistance?_level s.table, rfl, rfl, rfl⟩

/-- The distances of a program do not change the levels of stored code. -/
theorem Numbered.recode_load (h : s.Numbered) (hp : Labeling statements s.nextId next program)
    (ℓ : Nat → Nat) :
    s.machine.recode ⟨(s.load next program).table.level, ℓ⟩ =
      s.machine.recode ⟨s.table.level, ℓ⟩ := by
  have hstore : s.machine.store.recode ⟨(s.load next program).table.level, ℓ⟩ =
      s.machine.store.recode ⟨s.table.level, ℓ⟩ :=
    h.code.recode_congr fun id hid => by
      rw [DistanceTable.level, DistanceTable.level, get?_table_load hp (.inl hid)]
  rw [Machine.recode, Machine.recode, hstore]

/-- In every session a labeling of a program runs as the program with levels does. -/
theorem Numbered.runProgram_leveled (h : s.Numbered)
    (hp : Labeling statements s.nextId next program) (ℓ : Nat → Nat) (n : Nat) :
    runProgram n s.levels (leveled (Stmt.recodeAll ⟨id, ℓ⟩ statements))
        (s.machine.recode ⟨s.table.level, ℓ⟩) =
      (runProgram n (s.load next program).setting program s.machine).recode
        ⟨(s.load next program).table.level, ℓ⟩ id := by
  have hlevel : Stmt.recodeAll ⟨(s.load next program).table.level, ℓ⟩ program =
      leveled (Stmt.recodeAll ⟨id, ℓ⟩ statements) := hp.recodeAll_level ℓ fun _ => h.free
  rw [← hlevel, ← h.recode_load hp]
  exact runProgram_recode ((s.load next program).recodes_levels ℓ) n _ s.machine

/-- Sessions that are alike print the same and stay alike where a run ends in the same way. -/
theorem Alike.finish (hd : s'.maxDepth = s.maxDepth) (hs : s'.sink = s.sink) {o o' : Outcome Unit}
    (ho : o'.recode ⟨s'.table.level, ℓ⟩ id = o.recode ⟨s.table.level, ℓ⟩ id) :
    Option.Rel (fun r r' => r'.1.relocate ℓ = r.1.relocate ℓ ∧ r.2.Alike ℓ r'.2) (s.finish o)
      (s'.finish o') := by
  have halike {m m' : Machine}
      (hm : m'.recode ⟨s'.table.level, ℓ⟩ = m.recode ⟨s.table.level, ℓ⟩) :
      Alike ℓ { s with machine := { m with output := "" } }
        { s' with machine := { m' with output := "" } } :=
    ⟨congrArg (fun m : Machine => { m with output := "" }) hm, hd, hs⟩
  have houtput {m m' : Machine} {ρ ρ' : Recoding NodeId NodeId} (hm : m'.recode ρ' = m.recode ρ) :
      m'.output = m.output := (congrArg Machine.output hm :)
  cases o with
  | done u m =>
    cases o' with
    | done u' m' =>
      obtain ⟨-, hm⟩ := Outcome.done.inj ho
      exact .some ⟨by rw [houtput hm], halike hm⟩
    | failed | outOfFuel => cases ho
  | failed failure m =>
    cases o' with
    | failed failure' m' =>
      obtain ⟨hf, hm⟩ := Outcome.failed.inj ho
      refine .some ⟨?_, halike hm⟩
      rw [Ran.relocate, Ran.relocate, houtput hm]
      exact congrArg (Ran.mk m.output ∘ Except.error) hf
    | done | outOfFuel => cases ho
  | outOfFuel =>
    cases o' with
    | outOfFuel => exact .none
    | done | failed => cases ho

/-- Two sessions that only differ in the numbers of their nodes and in lines, which are equal under
`ℓ`; in both, numbers that no node has yet are free. -/
structure Corresponds (ℓ : Nat → Nat) (s s' : Session) : Prop extends s.Alike ℓ s' where
  numbered : s.Numbered
  numbered' : s'.Numbered

theorem Corresponds.start (ℓ : Nat → Nat) (maxDepth : Nat) (sink : Sink) (first first' : NodeId) :
    Corresponds ℓ { Session.start maxDepth sink with nextId := first }
      { Session.start maxDepth sink with nextId := first' } :=
  ⟨⟨rfl, rfl, rfl⟩, .start maxDepth sink first, .start maxDepth sink first'⟩

/-- The output of both sessions may be sent elsewhere. -/
theorem Corresponds.redirect (other : Sink) (h : s.Corresponds ℓ s') :
    Corresponds ℓ { s with sink := other } { s' with sink := other } :=
  ⟨⟨h.machine, h.maxDepth, rfl⟩, h.numbered.redirect other, h.numbered'.redirect other⟩

/-- Sessions that correspond interpret labelings of programs that differ in their lines in the same
way, and correspond afterwards. -/
theorem Corresponds.interpret (h : s.Corresponds ℓ s')
    (hp : Labeling statements s.nextId next program)
    (hp' : Labeling statements' s'.nextId next' program')
    (hlines : Stmt.recodeAll ⟨id, ℓ⟩ statements' = Stmt.recodeAll ⟨id, ℓ⟩ statements)
    (fuel : Nat) :
    Option.Rel (fun r r' => r'.1.relocate ℓ = r.1.relocate ℓ ∧ r.2.Corresponds ℓ r'.2)
      ({ s with nextId := next }.interpret fuel program (resolve program).distances)
      ({ s' with nextId := next' }.interpret fuel program' (resolve program').distances) := by
  have hlevels : s'.levels = s.levels := by
    simp only [levels, setting, h.maxDepth, h.sink]
  have ho := h.numbered'.runProgram_leveled hp' ℓ fuel
  rw [hlevels, h.machine, hlines, h.numbered.runProgram_leveled hp ℓ fuel] at ho
  have hdepth : (s'.load next' program').maxDepth = (s.load next program).maxDepth := h.maxDepth
  have hr := Alike.finish hdepth h.sink ho.symm
  rw [← interpret_eq_finish, ← interpret_eq_finish] at hr
  generalize hi : Session.interpret fuel program _ _ = r at hr
  generalize hi' : Session.interpret fuel program' _ _ = r' at hr
  cases hr with
  | none => exact .none
  | some hr =>
    exact .some ⟨hr.1, hr.2, (h.numbered.interpret hp hi).1, (h.numbered'.interpret hp' hi').1⟩

end Session

/-! ## Sources -/

/-- The analysis of a source whose nodes have numbers from `first` on, in whichever order. -/
structure Analysis.Labels (first : NodeId) (a : Analysis) : Prop where
  labeling : Labeling a.parsed.statements first a.nextId a.program
  resolution : a.resolution = resolve a.program

theorem Analysis.labels_ofSource (first : NodeId) (source : String) :
    (ofSource first source).Labels first :=
  ⟨labeling_numberAll _ first, rfl⟩

section

variable {a a' : Analysis} {first first' : NodeId}

/-- A source has the same errors with all numbers. -/
theorem Analysis.Labels.rejections_eq (ha : a.Labels first) (ha' : a'.Labels first')
    (hlexical : a'.lexical = a.lexical) (hparsed : a'.parsed = a.parsed) :
    a'.rejections = a.rejections := by
  have hlabeling := ha'.labeling
  rw [hparsed] at hlabeling
  have herrors : a'.resolution.errors = a.resolution.errors := by
    rw [ha.resolution, ha'.resolution, ha.labeling.errors_eq hlabeling]
  have hsyntax : a'.syntaxDiagnostics = a.syntaxDiagnostics := by
    rw [syntaxDiagnostics, syntaxDiagnostics, hlexical, hparsed]
  rw [rejections, rejections, hsyntax, scopeDiagnostics, scopeDiagnostics, herrors]

end

namespace Session

variable {s s' : Session} {a a' : Analysis} {fuel : Nat} {report : RunReport}

/-- Runs a source of which all is known, unless it has static errors. -/
def runAs (fuel : Nat) (a : Analysis) (s : Session) : Option (RunReport × Session) :=
  let s := { s with nextId := a.nextId }
  if a.rejections.isEmpty then
    (s.interpret fuel a.program a.resolution.distances).map fun (ran, s) => (Ran.report ran, s)
  else some (⟨"", a.rejections.map Diagnostic.report, true, false⟩, s)

theorem run_eq_runAs (fuel : Nat) (source : String) (s : Session) :
    s.run fuel source = s.runAs fuel (Analysis.ofSource s.nextId source) := by
  rw [run, runAs]
  refine ite_congr rfl (fun _ => ?_) fun _ => rfl
  refine congrFun (congrArg Option.map (funext fun r => ?_)) _
  cases hr : r.1.result <;> simp [Ran.report, hr]

theorem runAs_of_accepts (ha : a.rejections = []) (fuel : Nat) (s : Session) :
    s.runAs fuel a = ({ s with nextId := a.nextId }.interpret fuel a.program
      a.resolution.distances).map fun (ran, s) => (Ran.report ran, s) :=
  if_pos (List.isEmpty_iff.mpr ha)

theorem runAs_of_rejects (ha : a.rejections ≠ []) (fuel : Nat) (s : Session) :
    s.runAs fuel a = some (⟨"", a.rejections.map Diagnostic.report, true, false⟩,
      { s with nextId := a.nextId }) :=
  if_neg (by simpa using ha)

/-- A source leaves a session numbered, and a table to which the distances of an accepted source
were added. -/
theorem Numbered.runAs (h : s.Numbered) (ha : a.Labels s.nextId)
    (hr : s.runAs fuel a = some (report, s')) :
    s'.Numbered ∧ s'.nextId = a.nextId ∧
      s'.table = if a.rejections = [] then (s.load a.nextId a.program).table else s.table := by
  by_cases hrejections : a.rejections = []
  · rw [runAs_of_accepts hrejections, ha.resolution] at hr
    obtain ⟨⟨ran, s₁⟩, hi, he⟩ := Option.map_eq_some_iff.mp hr
    obtain rfl : s₁ = s' := congrArg Prod.snd he
    rw [if_pos hrejections]
    exact h.interpret ha.labeling hi
  · rw [runAs_of_rejects hrejections] at hr
    obtain ⟨-, rfl⟩ := Prod.mk.inj (Option.some.inj hr)
    rw [if_neg hrejections]
    exact ⟨h.advance ha.labeling.le, rfl, rfl⟩

/-- Sessions that correspond run a source in the same way, and correspond afterwards. -/
theorem Corresponds.runAs (h : s.Corresponds id s') (ha : a.Labels s.nextId)
    (ha' : a'.Labels s'.nextId) (hlexical : a'.lexical = a.lexical) (hparsed : a'.parsed = a.parsed)
    (fuel : Nat) :
    Option.Rel (fun r r' => r'.1 = r.1 ∧ r.2.Corresponds id r'.2) (s.runAs fuel a)
      (s'.runAs fuel a') := by
  have hrejections : a'.rejections = a.rejections := ha.rejections_eq ha' hlexical hparsed
  by_cases haccepts : a.rejections = []
  · have hr := h.interpret ha.labeling ha'.labeling (congrArg _ (congrArg _ hparsed)) fuel
    rw [runAs_of_accepts haccepts, runAs_of_accepts (hrejections.trans haccepts), ha.resolution,
      ha'.resolution]
    generalize Session.interpret fuel a.program _ _ = r at hr
    generalize Session.interpret fuel a'.program _ _ = r' at hr
    cases hr with
    | @some r r' hr =>
      rw [Ran.relocate_id, Ran.relocate_id] at hr
      exact .some ⟨congrArg Ran.report hr.1, hr.2⟩
    | none => exact .none
  · rw [runAs_of_rejects haccepts, runAs_of_rejects (hrejections ▸ haccepts), hrejections]
    exact .some ⟨rfl, ⟨h.machine, h.maxDepth, h.sink⟩, h.numbered.advance ha.labeling.le,
      h.numbered'.advance ha'.labeling.le⟩

end Session

end Lox
