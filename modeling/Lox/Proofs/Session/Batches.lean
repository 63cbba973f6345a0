import Lox.Proofs.Evaluation.Coincidence
import Lox.Proofs.Evaluation.Output
import Lox.Proofs.Evaluation.Restoration
import Lox.Proofs.Scope.Batches
import Lox.Proofs.Session.Analysis
import Lox.Proofs.Session.Resting

/-!
# One program or two

A program can be given to a session at once or in two parts, the second one when
the first one has ended. The walk finds the same, because it carries nothing
from statement to statement; and the run is the same, because

* a part does not ask for the distances of the other part (`Session.Serves`: all code
  in the store is of programs of which the table has the distances);
* between two statements the globals are current and no call is in progress;
* what was printed before has no influence on the rest.

Main result: `batch_equals_its_parts`.
-/

namespace Lox

/-! ## Sessions that ran programs -/

/-- The sessions to which a fresh one comes by running some of these programs, each with the
distances of its own, as sources or as trees, and expressions. Between two steps the output may be
sent elsewhere. -/
inductive Session.Batched (programs : Set (List (Stmt NodeId))) : Session → Prop where
  | start (maxDepth : Nat) (sink : Sink) : Batched programs (.start maxDepth sink)
  | interpret {s s' : Session} {nextId : NodeId} {fuel : Nat} {program : List (Stmt NodeId)}
    {ran : Ran Unit} (hs : Batched programs s) (hp : program ∈ programs)
    (h : { s with nextId }.interpret fuel program (resolve program).distances = some (ran, s')) :
    Batched programs s'
  | run {s s' : Session} {fuel : Nat} {source : String} {report : RunReport}
    (hs : Batched programs s) (hp : (Analysis.ofSource s.nextId source).program ∈ programs)
    (h : s.run fuel source = some (report, s')) : Batched programs s'
  | evaluate {s s' : Session} {fuel : Nat} {e : Expr Unit} {ran : Ran Value}
    (hs : Batched programs s) (h : s.evaluate fuel e = some (ran, s')) : Batched programs s'
  | redirect {s : Session} (hs : Batched programs s) (sink : Sink) : Batched programs { s with sink }

/-- Runs two programs, the second one only if the first one came to its end. -/
def Session.interpretInTurn (fuel : Nat) (p₁ p₂ : List (Stmt NodeId)) (s : Session) :
    Option (Ran Unit × Session) :=
  (s.interpret fuel p₁ (resolve p₁).distances).bind fun (ran₁, s₁) =>
    match ran₁.result with
    | .error _ => some (ran₁, s₁)
    | .ok () =>
      (s₁.interpret fuel p₂ (resolve p₂).distances).map fun (ran₂, s₂) =>
        (⟨ran₁.output ++ ran₂.output, ran₂.result⟩, s₂)

/-! ## The code in the store -/

/-- A table has the distances of a program. -/
def DistanceTable.Covers (table : DistanceTable) (program : List (Stmt NodeId)) : Prop :=
  ∀ id d, (resolve program).table.get? id = some d → table.get? id = some d

section

variable {programs : Set (List (Stmt NodeId))} {table : DistanceTable}
  {program p q : List (Stmt NodeId)}

theorem DistanceTable.covers_merge (table : DistanceTable) (program : List (Stmt NodeId)) :
    (table.merge (resolve program).distances).Covers program := by
  intro id d hd
  rw [get?_merge, hd]
  rfl

theorem DistanceTable.Covers.merge (h : NumberedApart programs) (hp : p ∈ programs)
    (hq : q ∈ programs) (hc : table.Covers p) :
    (table.merge (resolve q).distances).Covers p := by
  intro id d hd
  rw [get?_merge]
  cases hd' : (resolve q).table.get? id with
  | none => exact hc id d hd
  | some d' => rw [h.get?_table_eq hp hq hd hd']; rfl

/-- The numbers of those programs of which a table has the distances. -/
def DistanceTable.Serves (table : DistanceTable) (programs : Set (List (Stmt NodeId)))
    (id : NodeId) : Prop :=
  ∃ p ∈ programs, table.Covers p ∧ id ∈ Stmt.idsAll p

theorem DistanceTable.Serves.merge (h : NumberedApart programs) (hq : q ∈ programs) {id : NodeId}
    (hs : table.Serves programs id) : (table.merge (resolve q).distances).Serves programs id := by
  obtain ⟨p, hp, hc, hid⟩ := hs
  exact ⟨p, hp, hc.merge h hp hq, hid⟩

/-- A program that is served has no distance that the table lacks. -/
theorem DistanceTable.Serves.get?_merge (h : NumberedApart programs) (hq : q ∈ programs)
    {id : NodeId} (hs : table.Serves programs id) :
    (table.merge (resolve q).distances).get? id = table.get? id := by
  obtain ⟨p, hp, hc, hid⟩ := hs
  rw [DistanceTable.get?_merge]
  cases hd : (resolve q).table.get? id with
  | none => rfl
  | some d =>
    obtain rfl := h p hp q hq id hid (mem_idsAll_of_get?_table hd)
    rw [hc id d hd]
    rfl

/-- A store whose code is that of programs of which the table has the distances. -/
abbrev Store.Served (store : Store) (table : DistanceTable) (programs : Set (List (Stmt NodeId))) :
    Prop :=
  store.Holds (Code.NamedIn (table.Serves programs))

theorem Code.NamedIn.mono {ids ids' : NodeId → Prop} (h : ∀ id, ids id → ids' id) {c : Code}
    (hc : c.NamedIn ids) : c.NamedIn ids' := by
  cases c with
  | expr e => exact fun r hr => h _ (hc r hr)
  | stmt | decl => trivial

theorem Store.Served.merge {store : Store} (hs : store.Served table programs)
    (h : NumberedApart programs) (hp : p ∈ programs) :
    store.Served (table.merge (resolve p).distances) programs :=
  hs.mono fun _ hc => hc.mono fun _ hid => hid.merge h hp

/-- With the distances of a program, its code is served. -/
theorem all_served (hp : p ∈ programs) (table : DistanceTable) :
    ∀ statement ∈ p, (Code.stmt statement).All
      (Code.NamedIn ((table.merge (resolve p).distances).Serves programs)) :=
  fun _ hs => Code.all_namedIn fun _ hr =>
    ⟨p, hp, table.covers_merge p, List.mem_map_of_mem (Stmt.references_subset_of_mem hs hr)⟩

namespace Session

/-- The code in the store of a session is that of programs of which it has the distances. -/
def Serves (s : Session) (programs : Set (List (Stmt NodeId))) : Prop :=
  s.machine.store.Served s.table programs

variable {s s' : Session} {fuel : Nat}

theorem Serves.interpret (h : NumberedApart programs) (hs : s.Serves programs) (hp : p ∈ programs)
    {ran : Ran Unit} (hi : s.interpret fuel p (resolve p).distances = some (ran, s')) :
    s'.Serves programs := by
  obtain ⟨m, hm, rfl⟩ := exists_state_of_finish hi
  have hstart : s.machine.store.Served (s.table.merge (resolve p).distances) programs :=
    Store.Served.merge hs h hp
  have hrun := holds_runStatements _ fuel
    { s with table := s.table.merge (resolve p).distances }.setting
    (m := { s.machine with depth := 0 }) hstart (all_served hp s.table)
  exact ensures_runProgram hrun (fun _ h => h) m hm

theorem Batched.serves (h : NumberedApart programs) (hs : s.Batched programs) :
    s.Serves programs := by
  induction hs with
  | start maxDepth sink =>
    refine ⟨fun {id f} hf => ?_, fun {id c name f} hc => ?_⟩
    · simp [Session.start] at hf
    · simp [Session.start] at hc
  | @interpret s _ nextId _ _ _ _ hp hi ih =>
    exact Serves.interpret (s := { s with nextId }) h ih hp hi
  | @run s _ _ source _ _ hp hr ih =>
    rcases run_cases hr with ⟨ran, hi⟩ | rfl
    · exact Serves.interpret
        (s := { s with nextId := (Analysis.ofSource s.nextId source).nextId }) h ih hp hi
    · exact ih
  | evaluate _ he ih =>
    obtain ⟨m, hm, rfl⟩ := exists_state_of_finish he
    exact holds_evaluate _ _ _ _ ih m hm
  | redirect _ _ ih => exact ih

end Session

end

/-! ## Runs in two parts -/

theorem runStatements_append (n : Nat) (s : Setting) (p₁ p₂ : List (Stmt NodeId)) (m : Machine) :
    runStatements n s (p₁ ++ p₂) m =
      (runStatements n s p₁ m).bind fun _ m => runStatements n s p₂ m := by
  induction p₁ generalizing m with
  | nil => rfl
  | cons statement rest ih =>
    simp only [List.cons_append, runStatements]
    cases execute n s statement m with
    | done completion m₁ => exact ih m₁
    | failed | outOfFuel => rfl

/-- After a failure the globals are current. -/
def Outcome.recover : Outcome Unit → Outcome Unit
  | .failed failure m => .failed failure { m with environment := .globals }
  | o => o

namespace Session

variable {programs : Set (List (Stmt NodeId))} {s : Session} {p₁ p₂ : List (Stmt NodeId)}

/-- If the output takes everything, nothing follows the statements of a program. -/
theorem interpret_of_open (ho : s.sink = .open) (fuel : Nat) (program : List (Stmt NodeId))
    (distances : List (NodeId × Nat)) :
    s.interpret fuel program distances =
      { s with table := s.table.merge distances }.finish
        (runStatements fuel { s with table := s.table.merge distances }.setting program
          { s.machine with depth := 0 }).recover := by
  unfold interpret runProgram flush
  dsimp only [setting]
  rw [ho]
  cases runStatements fuel _ program { s.machine with depth := 0 } <;> rfl

/-- The first part of what is printed comes first, and then nothing else tells the runs apart. -/
theorem finish_recover_prepend (s s' : Session) (text : String) (o : Outcome Unit) :
    (s.finish (o.onExit (.prepend text)).recover).map (fun (ran, s) => (ran, s.machine)) =
      (s'.finish o.recover).map fun (ran, s') =>
        (⟨text ++ ran.output, ran.result⟩, s'.machine) := by
  cases o <;> rfl

/-- The first part does not need the distances of the second. -/
theorem runStatements_fst_part (h : NumberedApart programs) (hs : s.Serves programs)
    (h₁ : p₁ ∈ programs) (h₂ : p₂ ∈ programs) (fuel : Nat) :
    runStatements fuel { s with table := s.table.merge (resolve (p₁ ++ p₂)).distances }.setting p₁
        { s.machine with depth := 0 } =
      runStatements fuel { s with table := s.table.merge (resolve p₁).distances }.setting p₁
        { s.machine with depth := 0 } := by
  let table := s.table.merge (resolve p₁).distances
  have hagree : Setting.AgreesOn (table.Serves programs)
      { s with table := s.table.merge (resolve (p₁ ++ p₂)).distances }.setting
      { s with table }.setting := by
    refine ⟨fun {id} hid => ?_, rfl, rfl⟩
    show (s.table.merge (resolve (p₁ ++ p₂)).distances).get? id = table.get? id
    rw [distances_resolve_append, DistanceTable.merge_append]
    exact hid.get?_merge h h₂
  exact runStatements_congr hagree fuel (Store.Served.merge hs h h₁) (all_served h₁ s.table)

/-- A program runs as its two parts do, in a session that serves programs numbered apart. -/
theorem interpret_append (h : NumberedApart programs) (hs : s.Serves programs)
    (h₁ : p₁ ∈ programs) (h₂ : p₂ ∈ programs) (ho : s.sink = .open) (fuel : Nat) :
    (s.interpret fuel (p₁ ++ p₂) (resolve (p₁ ++ p₂)).distances).map
        (fun (ran, s') => (ran, s'.machine)) =
      (s.interpretInTurn fuel p₁ p₂).map fun (ran, s') => (ran, s'.machine) := by
  let whole : Session := { s with table := s.table.merge (resolve (p₁ ++ p₂)).distances }
  let first : Session := { s with table := s.table.merge (resolve p₁).distances }
  have htakes : whole.setting.TakesAll := by
    intro text
    simp only [whole, setting, ho, Sink.writeFailure, Sink.open, Option.filter_none, Option.map_none]
  have hreturns := returns_runStatements fuel first.setting p₁ { s.machine with depth := 0 }
  rw [interpretInTurn, interpret_of_open ho, interpret_of_open ho, runStatements_append,
    runStatements_fst_part h hs h₁ h₂]
  cases hr : runStatements fuel first.setting p₁ { s.machine with depth := 0 } with
  | outOfFuel | failed failure m => rfl
  | done u m =>
    -- the second part starts in the state in which the first one ended, but for the output
    let second : Session := { first with machine := { m with output := "" } }
    have hdepth : m.depth = 0 := (hreturns m (congrArg Outcome.state? hr)).depth
    have hprepend : m = { m with output := "", depth := 0 }.prepend m.output := by
      rw [← hdepth]
      simp only [Machine.prepend, String.append_empty]
    have htable : second.table.merge (resolve p₂).distances = whole.table := by
      show (s.table.merge _).merge _ = s.table.merge _
      rw [distances_resolve_append, DistanceTable.merge_append]
    have hrun : runStatements fuel whole.setting p₂ m =
        (runStatements fuel whole.setting p₂ { second.machine with depth := 0 }).onExit
          (.prepend m.output) := by
      rw [← runStatements_prepend htakes]
      exact congrArg _ hprepend
    show (whole.finish (runStatements fuel whole.setting p₂ m).recover).map _ =
      ((second.interpret fuel p₂ (resolve p₂).distances).map _).map _
    rw [hrun, finish_recover_prepend whole { second with table := whole.table },
      interpret_of_open (s := second) ho, htable, Option.map_map]
    rfl

end Session

/-! ## The property -/

/-- One program equals its two parts. Let programs be numbered apart, as programs that were parsed
are, and let a session have run any of them. The walk finds in two of them, one after the other, the
errors of the first and then those of the second, and the union of their distances. And if the
output takes everything, they run as one program as they do one after the other, the second only if
the first succeeds: with the same output and the same result, and they leave the same machine
behind, with all its globals and objects; in particular one of both runs ends if the other one
does. -/
theorem batch_equals_its_parts {programs : Set (List (Stmt NodeId))} (hn : NumberedApart programs)
    {s : Session} (hs : s.Batched programs) {p₁ p₂ : List (Stmt NodeId)} (h₁ : p₁ ∈ programs)
    (h₂ : p₂ ∈ programs) :
    (resolve (p₁ ++ p₂)).errors = (resolve p₁).errors ++ (resolve p₂).errors ∧
    (∀ id d, (resolve (p₁ ++ p₂)).table.get? id = some d ↔
      (resolve p₁).table.get? id = some d ∨ (resolve p₂).table.get? id = some d) ∧
    (s.sink = .open → ∀ fuel,
      (s.interpret fuel (p₁ ++ p₂) (resolve (p₁ ++ p₂)).distances).map
          (fun (ran, s') => (ran, s'.machine)) =
        (s.interpretInTurn fuel p₁ p₂).map fun (ran, s') => (ran, s'.machine)) :=
  ⟨errors_resolve_append p₁ p₂, fun _ _ => hn.get?_table_append h₁ h₂,
    Session.interpret_append hn (hs.serves hn) h₁ h₂⟩

/-- The second part of a program fails, after a source that declared a function. -/
theorem batch_equals_its_parts_of_three_sources :
    let read (source : String) := (parse (tokensOf (scan .skip source))).statements
    let programs := Stmt.numberEach 0
      [read "fun f(x){print x;}", read "print nil;", read "fun g(y){print y;}-nil;"]
    ∃ (s : Session) (p₁ p₂ : List (Stmt NodeId)), s.Batched {p | p ∈ programs} ∧
      p₁ ∈ programs ∧ p₂ ∈ programs ∧ s.sink = .open ∧
      (s.interpret 12 (p₁ ++ p₂) (resolve (p₁ ++ p₂)).distances).map
          (fun r => (r.1.output, r.1.result)) =
        some ("nil\n", .error (.fault .operandNotNumber 1)) := by
  intro read programs
  let start := Session.start 1 .open
  let p₀ := (Stmt.numberAll (read "fun f(x){print x;}")).run 0
  let p₁ := (Stmt.numberAll (read "print nil;")).run p₀.2
  let p₂ := (Stmt.numberAll (read "fun g(y){print y;}-nil;")).run p₁.2
  have hprograms : programs = [p₀.1, p₁.1, p₂.1] := rfl
  have h₀ : p₀.1 ∈ programs := by simp [hprograms]
  have h₁ : p₁.1 ∈ programs := by simp [hprograms]
  have h₂ : p₂.1 ∈ programs := by simp [hprograms]
  have hrun : (start.run 12 "fun f(x){print x;}").isSome = true := by decide +kernel
  obtain ⟨⟨report, s⟩, hrun⟩ := Option.isSome_iff_exists.mp hrun
  let ended (r : Ran Unit × Session) := (r.1.output, r.1.result)
  have hturn : ((start.run 12 "fun f(x){print x;}").bind fun r =>
      (Session.interpretInTurn 12 p₁.1 p₂.1 { r.2 with sink := .open }).map ended) =
        some ("nil\n", .error (.fault .operandNotNumber 1)) := by
    decide +kernel
  rw [hrun] at hturn
  have hs : Session.Batched {p | p ∈ programs} { s with sink := .open } :=
    .redirect (.run (.start 1 .open) h₀ hrun) .open
  have heq := (batch_equals_its_parts (numberedApart_numberEach 0 _) hs h₁ h₂).2.2 rfl 12
  refine ⟨_, p₁.1, p₂.1, hs, h₁, h₂, rfl, Eq.trans ?_ hturn⟩
  have hfst := congrArg (Option.map fun r : Ran Unit × Machine => (r.1.output, r.1.result)) heq
  rw [Option.map_map, Option.map_map] at hfst
  exact hfst

end Lox
