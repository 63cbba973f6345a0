import Lox.Proofs.Renaming.Locals
import Lox.Proofs.Renaming.Runs
import Lox.Proofs.Renaming.Sources
import Lox.Proofs.Session.Scopes

/-!
# Renaming a local in a session

A session that ran any sources runs a source and the source with one local renamed
in the same way. Between two runs nothing in the store is renamed, so the store is
related to itself (`Store.WellScoped.renames_self`), and the two runs of the
programs stay related.

* `exists_source_of_renames`: the renamed program has a source;
* `Session.Settled.renames_run`: its run prints and reports the same.
-/

namespace Lox

section

variable {ρ : Renaming} {distance? : NodeId → Option Nat} {vs : List Visit}

/-! ## A store in which nothing is renamed -/

theorem FunctionObject.InScope.renames_self {s : Store} {f : FunctionObject} (h : f.InScope vs s) :
    f.Renames ρ distance? s (fun _ => false) [] f := by
  obtain ⟨scopes, hc, -⟩ := h.scopes
  refine ⟨rfl, rfl, scopes.map fun _ => false, hc.marked, ?_⟩
  exact FunDecl.renames_self (by simp) f.declaration

theorem FunctionObject.MethodInScope.renames_self {s : Store} {f : FunctionObject}
    (h : f.MethodInScope vs s) : f.Renames ρ distance? s (fun _ => false) [false] f := by
  obtain ⟨-, scopes, hc, -⟩ := h
  refine ⟨rfl, rfl, scopes.map fun _ => false, hc.marked, ?_⟩
  exact FunDecl.renames_self (by simp) f.declaration

theorem Store.WellScoped.renames_self {s : Store} (h : s.WellScoped vs) :
    s.Renames ρ distance? (fun _ => false) s where
  root := by
    obtain ⟨frame, hf, -⟩ := h.globals
    exact ⟨by rw [hf]; rfl, h.enclosing_globals, rfl⟩
  size := rfl
  enclosing _ := rfl
  own _ _ := rfl
  numFunctions := rfl
  function id := by
    cases hf : s.function? id with
    | none => exact .none
    | some f => exact .some (h.function hf).renames_self
  numClasses := rfl
  «class» id := by
    cases hc : s.class? id with
    | none => exact .none
    | some c =>
      refine .some ⟨rfl, rfl, fun name => ?_⟩
      cases hm : c.methods.get? name with
      | none => exact .none
      | some f => exact .some (h.method hc hm).renames_self
  instances := rfl

/-! ## Runs of programs -/

section

variable {s : Setting} {marks : Marks} {m m' : Machine} {program program' : List (Stmt NodeId)}
  (n : Nat)

/-- The statements of a renamed program run in the same way, one after the other. -/
theorem Ready.runStatements_renames (hk : s.Knows vs) (h : Ready vs program m)
    (hm : m.Renames ρ s.distance? marks m')
    (hr : Stmt.RenamesAll ρ s.distance? [] program program') :
    (runStatements n s program m).Renames ρ s.distance? marks m.store
      (runStatements n s program' m') := by
  induction program generalizing m m' marks program' with
  | nil =>
    cases hr
    exact .value hm ()
  | cons statement rest ih =>
    cases hr with
    | @cons _ _ statement' _ rest' hs hss =>
      have hmarked : m.store.Marked marks m.environment [] := h.environment
      have ho := Task.run_renames hk n h.pre hm (.execute hmarked hs)
      have ho : (execute n s statement m).Renames ρ s.distance? marks m.store
        (execute n s statement' m') := ho
      simp only [runStatements]
      cases hx : execute n s statement m with
      | done completion m₁ =>
        have hkeeps := h.keeps_of_done hk hx
        rw [hx] at ho
        generalize execute n s statement' m' = o' at ho
        cases ho with
        | done ha he hm₁ => exact (ih (h.tail hkeeps) hm₁ hss).since he
      | failed failure m₁ =>
        rw [hx] at ho
        generalize execute n s statement' m' = o' at ho
        cases ho with
        | failed _ he hm₁ => exact .failed failure he hm₁
      | outOfFuel =>
        rw [hx] at ho
        generalize execute n s statement' m' = o' at ho
        cases ho
        exact .outOfFuel

theorem Ready.runProgram_renames (hk : s.Knows vs) (h : Ready vs program { m with depth := 0 })
    (hm : m.Renames ρ s.distance? marks m')
    (hr : Stmt.RenamesAll ρ s.distance? [] program program') :
    (Lox.runProgram n s program m).Renames ρ s.distance? marks m.store
      (Lox.runProgram n s program' m') := by
  have hstart : Machine.Renames ρ s.distance? marks { m with depth := 0 }
      { m' with depth := 0 } := ⟨hm.store, hm.environment, rfl, hm.output⟩
  have ho := h.runStatements_renames n hk hstart hr
  unfold Lox.runProgram
  generalize runStatements n s program { m with depth := 0 } = o at ho
  generalize runStatements n s program' { m' with depth := 0 } = o' at ho
  cases ho with
  | done _ he hm₁ =>
    simp only [flush, hm₁.output]
    cases s.flushFailure _ with
    | none => exact .done .rfl he hm₁
    | some message => exact .failed _ he hm₁
  | failed failure he hm₁ => exact .failed failure he ⟨hm₁.store, rfl, hm₁.depth, hm₁.output⟩
  | outOfFuel => exact .outOfFuel

end

/-- Steps that end in the same way print the same and give the same. -/
theorem Outcome.Renames.fst_finish {marks : Marks} {store : Store} {α : Type} {o o' : Outcome α}
    (h : o.Renames ρ distance? marks store o') (s s' : Session) :
    (s'.finish o').map Prod.fst = (s.finish o).map Prod.fst := by
  cases h with
  | done ha he hm =>
    cases ha
    simp [Session.finish, hm.output]
  | failed failure he hm => simp [Session.finish, hm.output]
  | outOfFuel => rfl

end

/-! ## The source of a renamed program -/

theorem Analysis.errors_eq_nil_of_syntaxDiagnostics {nextId : NodeId} {source : String}
    (h : (Analysis.ofSource nextId source).syntaxDiagnostics = []) :
    errorsOf (scan .skip source) = [] ∧ (parse (tokensOf (scan .skip source))).errors = [] := by
  obtain ⟨hl, hp⟩ := List.append_eq_nil_iff.mp h
  exact ⟨List.map_eq_nil_iff.mp hl, List.map_eq_nil_iff.mp hp⟩

/-- A renamed program has a source, which differs from the first one in words only. -/
theorem exists_source_of_renames {ρ : Renaming} {distance? : NodeId → Option Nat}
    {nextId : NodeId} {source : String} {program : List (Stmt NodeId)}
    (hs : (Analysis.ofSource nextId source).syntaxDiagnostics = [])
    (hn : ρ.new ∉ Stmt.namesAll (Analysis.ofSource nextId source).program)
    (hr : Stmt.RenamesAll ρ distance? [] (Analysis.ofSource nextId source).program program) :
    ∃ source', List.Forall₂ (Piece.Respells ρ) (pieces source.toList) (pieces source'.toList) ∧
      (Analysis.ofSource nextId source').syntaxDiagnostics = [] ∧
      (Analysis.ofSource nextId source').program = program := by
  obtain ⟨hlexical, hsyntax⟩ := Analysis.errors_eq_nil_of_syntaxDiagnostics hs
  obtain ⟨ss, hss, hnumber⟩ := Stmt.exists_numberAll nextId (hr.respellsAll hn)
  obtain ⟨ts, hts, hparse⟩ := exists_parse_of_respellsAll hsyntax hss
  obtain ⟨source', hpieces, htokens, herrors⟩ := exists_source_of_respells hts
  obtain ⟨hsyntax', hstatements⟩ := hparse _ htokens
  refine ⟨source', hpieces, ?_, ?_⟩
  · refine List.append_eq_nil_iff.mpr ⟨List.map_eq_nil_iff.mpr ?_, List.map_eq_nil_iff.mpr hsyntax'⟩
    exact herrors.trans hlexical
  · rw [← hnumber, ← hstatements]
    rfl

/-! ## Runs of sources -/

namespace Session

variable {s : Session} {source source' : String}

theorem fst_run_of_accepts (ha : s.Accepts source) (fuel : Nat) :
    (s.run fuel source).map Prod.fst =
      (((s.extend source).finish (runProgram fuel (s.extend source).setting
        (Analysis.ofSource s.nextId source).program s.machine)).map Prod.fst).map Ran.report := by
  rw [run_of_accepts ha, Option.map_map, Option.map_map]
  rfl

/-- A source is accepted if it is read without errors and its program has none. -/
theorem accepts_of_errors_eq_nil
    (hs : (Analysis.ofSource s.nextId source).syntaxDiagnostics = [])
    (hr : (resolve (Analysis.ofSource s.nextId source).program).errors = []) :
    s.Accepts source := by
  have hd : (Analysis.ofSource s.nextId source).scopeDiagnostics = [] := List.map_eq_nil_iff.mpr hr
  rw [Accepts, Analysis.rejections, hs, hd]
  rfl

theorem syntaxDiagnostics_eq_nil (ha : s.Accepts source) :
    (Analysis.ofSource s.nextId source).syntaxDiagnostics = [] := by
  unfold Accepts Analysis.rejections at ha
  split at ha
  · next he => exact List.isEmpty_iff.mp he
  · exact ha

section

variable {vs : List Visit} {ρ : Renaming}

/-- The walk finds the same in the program of a source and in a renamed one. -/
theorem Settled.resolve_eq (h : s.Settled vs) (ha : s.Accepts source)
    {program' : List (Stmt NodeId)}
    (hn : ρ.new ∉ Stmt.namesAll (Analysis.ofSource s.nextId source).program)
    (hr : Stmt.RenamesAll ρ (s.extend source).table.get? []
      (Analysis.ofSource s.nextId source).program program') :
    resolve program' = resolve (Analysis.ofSource s.nextId source).program := by
  have hknown : Visit.AllKnown (s.extend source).table.get? (s.visits source) :=
    fun v hv => (h.extend ha).knows.distance? v (List.mem_append_right vs hv)
  exact hr.resolve_eq (Analysis.wellFormedAll_program s.nextId source) hn hknown
    (Analysis.errors_eq_nil ha)

/-- A source whose program is a renamed one is accepted, with the same distances. -/
theorem Settled.accepts_of_renames (h : s.Settled vs) (ha : s.Accepts source)
    (hn : ρ.new ∉ Stmt.namesAll (Analysis.ofSource s.nextId source).program)
    (hr : Stmt.RenamesAll ρ (s.extend source).table.get? []
      (Analysis.ofSource s.nextId source).program (Analysis.ofSource s.nextId source').program)
    (hs : (Analysis.ofSource s.nextId source').syntaxDiagnostics = []) :
    s.Accepts source' ∧ (s.extend source').table = (s.extend source).table := by
  have he : (Analysis.ofSource s.nextId source').resolution =
      (Analysis.ofSource s.nextId source).resolution := h.resolve_eq ha hn hr
  constructor
  · refine accepts_of_errors_eq_nil hs ?_
    rw [h.resolve_eq ha hn hr]
    exact Analysis.errors_eq_nil ha
  · simp only [Session.extend, he]

/-- It runs in the same way. -/
theorem Settled.renames_run (h : s.Settled vs) (ha : s.Accepts source)
    (hn : ρ.new ∉ Stmt.namesAll (Analysis.ofSource s.nextId source).program)
    (hr : Stmt.RenamesAll ρ (s.extend source).table.get? []
      (Analysis.ofSource s.nextId source).program (Analysis.ofSource s.nextId source').program)
    (hs : (Analysis.ofSource s.nextId source').syntaxDiagnostics = []) (fuel : Nat) :
    (s.run fuel source').map Prod.fst = (s.run fuel source).map Prod.fst := by
  obtain ⟨ha', ht⟩ := h.accepts_of_renames ha hn hr hs
  have he := h.extend ha
  have hsetting : (s.extend source').setting = (s.extend source).setting := by
    simp only [setting, ht]
    rfl
  have hm : s.machine.Renames ρ (s.extend source).setting.distance? (fun _ => false) s.machine :=
    ⟨he.wellScoped.renames_self, rfl, rfl, rfl⟩
  have ho := (h.ready ha).runProgram_renames fuel he.knows hm hr
  have hf := ho.fst_finish (s.extend source) (s.extend source')
  rw [fst_run_of_accepts ha', fst_run_of_accepts ha, hsetting, hf]

end

end Session

/-- Renaming a local does not change a program. Let a session that ran any sources accept a source,
let `b` be one of the bodies of its program, and let one of the variables and parameters of `b` be
renamed, together with the variables and assignments whose distances lead to it, to a name that
occurs nowhere in the program. The renamed program has a source, which differs in the spelling of
some words. Every source of it is accepted, has the same distance or none at each reference, and
its run prints and reports the same, if either of the two runs ends. -/
theorem renaming_local_keeps_runs {maxDepth : Nat} {sink : Sink}
    {programs : List (List (Stmt NodeId))} {s : Session}
    (h : Session.Reached maxDepth sink programs s) {source : String} (ha : s.Accepts source)
    (ρ : Renaming) {k : Nat} {b : Body}
    (hb : (Stmt.bodiesAll (Analysis.ofSource s.nextId source).program)[k]? = some b)
    (ho : ρ.old ∈ b.locals)
    (hn : ρ.new ∉ Stmt.namesAll (Analysis.ofSource s.nextId source).program) :
    let a := Analysis.ofSource s.nextId source
    let table := (s.extend source).table
    let renamed := Stmt.renameAll ρ table.get? [] (fun i => i == k) a.program
    (∃ source', List.Forall₂ (Piece.Respells ρ) (pieces source.toList) (pieces source'.toList) ∧
      (Analysis.ofSource s.nextId source').syntaxDiagnostics = [] ∧
      (Analysis.ofSource s.nextId source').program = renamed) ∧
    ∀ source', (Analysis.ofSource s.nextId source').syntaxDiagnostics = [] →
      (Analysis.ofSource s.nextId source').program = renamed →
      s.Accepts source' ∧
      List.Forall₂ (fun r r' => r'.kind = r.kind ∧
          (s.extend source').table.get? r'.id = table.get? r.id)
        (Stmt.referencesAll a.program) (Stmt.referencesAll renamed) ∧
      ∀ fuel, (s.run fuel source').map Prod.fst = (s.run fuel source).map Prod.fst := by
  intro a table renamed
  have hw : Stmt.WellFormedAll a.program := Analysis.wellFormedAll_program s.nextId source
  -- the body declares the name once, so it has no function or class of this name
  have hfree : b.Frees ρ.old := by
    refine b.frees_of_nodup ?_ ho
    exact nodup_declared_of_errors_eq_nil hw (Analysis.errors_eq_nil ha) b
      (List.mem_of_getElem? hb)
  have hchosen : ChosenFree ρ.old (fun i => i == k) (Stmt.bodiesAll a.program) := by
    intro i c hc hi
    rw [eq_of_beq hi, hb] at hc
    cases hc
    exact hfree
  have hr : Stmt.RenamesAll ρ table.get? [] a.program renamed :=
    Stmt.renamesAll_renameAll hw hn (fun hf => by cases hf) hchosen
  refine ⟨exists_source_of_renames (Session.syntaxDiagnostics_eq_nil ha) hn hr, ?_⟩
  intro source' hs hp
  rw [← hp] at hr ⊢
  obtain ⟨ha', ht⟩ := h.settled.accepts_of_renames ha hn hr hs
  refine ⟨ha', ?_, h.settled.renames_run ha hn hr hs⟩
  refine (hr.respellsAll hn).references.imp fun r r' hrr => ⟨hrr.kind, ?_⟩
  rw [ht, hrr.id]

/-- A variable of a block is renamed. -/
theorem renaming_local_keeps_runs_in_block :
    let s := Session.start 1 .open
    let ρ : Renaming := ⟨"a", "b", by decide, by decide, by decide, by decide⟩
    let a := Analysis.ofSource s.nextId "{var a;print a;}"
    s.Accepts "{var a;print a;}" ∧ ρ.new ∉ Stmt.namesAll a.program ∧
      ∃ source', List.Forall₂ (Piece.Respells ρ) (pieces "{var a;print a;}".toList)
          (pieces source'.toList) ∧ s.Accepts source' ∧
        (s.run 9 source').map (RunReport.output ∘ Prod.fst) = some "nil\n" := by
  intro s ρ a
  have ha : s.Accepts "{var a;print a;}" := by
    unfold Session.Accepts
    decide +kernel
  have hn : ρ.new ∉ Stmt.namesAll a.program := by decide +kernel
  have hl : (Stmt.bodiesAll a.program)[0]?.map Body.locals = some ["a"] := by decide +kernel
  obtain ⟨b, hb, hl⟩ := Option.map_eq_some_iff.mp hl
  have ho : ρ.old ∈ b.locals := by
    rw [hl]
    exact List.mem_singleton_self _
  obtain ⟨⟨source', hps, hs, hp⟩, hall⟩ := renaming_local_keeps_runs
    (.start : Session.Reached 1 .open [] s) ha ρ hb ho hn
  obtain ⟨ha', -, hrun⟩ := hall source' hs hp
  refine ⟨ha, hn, source', hps, ha', ?_⟩
  have hout : (s.run 9 "{var a;print a;}").map (RunReport.output ∘ Prod.fst) = some "nil\n" := by
    decide +kernel
  rw [← Option.map_map, hrun 9, Option.map_map, hout]

end Lox
