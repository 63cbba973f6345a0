import Mathlib
import Lox.Proofs.Evaluation.Holding
import Lox.Proofs.Loops.Turns
import Lox.Proofs.Session.Supers

/-!
# `for` loops in a session

The statement that expresses a `for` loop does what the loop does when it runs directly in one scope. The clauses
that run directly are a copy with numbers of its own, since the numbers of the program belong to the distances
that its blocks have, and functions of earlier turns of the same loop may still be called.

* `Store.WellScoped.mirrors_self`: a store mirrors itself, also when distances of new nodes become known;
* `Session.Reached.holds_proper`: all code of a session is well-formed, and numbers its nodes apart;
* `Session.Settled.runInBlocks_mirrors`: a loop in its blocks and a copy of it in one scope run in lockstep;
* `for_loop_runs_directly`: the statement and the copy end in the same way, with the same output and effects.
-/

namespace Lox

/-! ## A store and itself -/

/-- Each frame of a store stands for itself. -/
def Store.selfPairing (s : Store) : Pairing := fun f => if (s.frame? f).isSome then some f else none

section

variable {vs : List Visit} {s : Store} {D E : NodeId → Option Nat} {f g : FrameId} {scopes : Scopes}

theorem Store.selfPairing_of_isSome (h : (s.frame? f).isSome) : s.selfPairing f = some f := if_pos h

theorem Store.selfPairing_eq_some_iff : s.selfPairing f = some g ↔ (s.frame? f).isSome ∧ f = g := by
  unfold selfPairing
  split
  · next h => simp [h]
  · next h => simp [h]

/-- In the frames of scopes, a distance leads to a frame that stands for itself. -/
theorem Store.Chain.alignment (hw : s.WellScoped vs) (hc : s.Chain f scopes) :
    ∀ d d', Alignment.same scopes.length d d' → s.alignment s.selfPairing s f f d d' := by
  rintro _ d ⟨rfl, hd⟩
  induction scopes generalizing f d with
  | nil => exact absurd hd (Nat.not_lt_zero d)
  | cons scope outer ih =>
    have hf := hc.frame?_isSome hw
    obtain ⟨-, g, he, hout⟩ := hc
    cases d with
    | zero => exact alignment_zero.mpr (selfPairing_of_isSome hf)
    | succ d =>
      obtain ⟨g₁, g₂, h₁, h₂, hp⟩ := ih hout d (Nat.lt_of_succ_lt_succ hd)
      refine ⟨g₁, g₂, ?_, ?_, hp⟩
      · rw [ancestor?, he]
        exact h₁
      · rw [ancestor?, he]
        exact h₂

/-- A scope that is opened inside the same scopes is the same. -/
theorem Alignment.push_of_same (n : Nat) : ∀ d d', same (n + 1) d d' → (same n).push d d'
  | 0, _, ⟨rfl, _⟩ => trivial
  | _ + 1, _, ⟨rfl, hd⟩ => ⟨rfl, Nat.lt_of_succ_lt_succ hd⟩

/-- A store mirrors itself, if its code has the distances of its visits in both settings. -/
theorem Store.WellScoped.mirrors_self (hw : s.WellScoped vs) (hcode : s.Holds Code.WellFormed)
    (hD : ∀ v ∈ vs, v.Found D) (hE : ∀ v ∈ vs, E v.reference.id = v.distance?) :
    s.Mirrors D E s.selfPairing s where
  globals := selfPairing_of_isSome hw.frame?_globals_isSome
  rootLeft := hw.enclosing_globals
  rootRight := hw.enclosing_globals
  injective hf hg :=
    (selfPairing_eq_some_iff.mp hf).2.trans (selfPairing_eq_some_iff.mp hg).2.symm
  isSomeLeft hp := (selfPairing_eq_some_iff.mp hp).1
  isSomeRight hp := by
    obtain ⟨hf, rfl⟩ := selfPairing_eq_some_iff.mp hp
    exact hf
  own name hp := by
    obtain ⟨-, rfl⟩ := selfPairing_eq_some_iff.mp hp
    rfl
  bareLeft {f} name hp := by
    by_contra hown
    have hf := frame?_isSome_of_own? (Option.isSome_iff_ne_none.mpr hown)
    rw [selfPairing_of_isSome hf] at hp
    cases hp
  bareRight {f} name hp := by
    by_contra hown
    exact hp f (selfPairing_of_isSome (frame?_isSome_of_own? (Option.isSome_iff_ne_none.mpr hown)))
  numFunctions := rfl
  function i := by
    cases hf : s.function? i with
    | none => exact .none
    | some f =>
      obtain ⟨-, ⟨scopes, hc, hv⟩, -⟩ := hw.function hf
      have hwell : f.declaration.WellFormed := (hcode.function hf).self
      refine .some ⟨selfPairing_of_isSome (hc.frame?_isSome hw), rfl, id, f.declaration.recode_id.symm, ?_⟩
      exact (FunDecl.aligned_of_visits hwell (Scopes.aligned_self scopes) (fun v h => hD v (hv h))
        fun v h => hE v (hv h)).mono (hc.alignment hw)
  numClasses := rfl
  «class» i := by
    cases hclass : s.class? i with
    | none => exact .none
    | some c =>
      refine .some ⟨rfl, rfl, fun name => ?_⟩
      cases hf : c.methods.get? name with
      | none => exact .none
      | some f =>
        obtain ⟨-, scopes, hc, hv⟩ := hw.method hclass hf
        have hwell : f.declaration.WellFormed := (hcode.method hclass hf).self
        refine .some ⟨selfPairing_of_isSome (hc.frame?_isSome hw), rfl, id, f.declaration.recode_id.symm, ?_⟩
        exact ((FunDecl.aligned_of_visits hwell (Scopes.aligned_self _) (fun v h => hD v (hv h))
          fun v h => hE v (hv h)).mono (Alignment.push_of_same scopes.length)).mono
            (Alignment.push_mono (hc.alignment hw))
  instances := rfl

end

/-! ## Code of a session -/

/-- What the code of a session is like: well-formed, with numbers of their own for its nodes. -/
def Code.Proper (c : Code) : Prop := c.WellFormed ∧ c.Distinct

theorem Analysis.proper_of_mem_program {first : NodeId} {source : String} {statement : Stmt NodeId}
    (h : statement ∈ (Analysis.ofSource first source).program) : (Code.stmt statement).All Code.Proper := by
  have hwell : (Code.stmt statement).WellFormed :=
    Code.wellFormed_map_stmt (wellFormedAll_program first source) _ (List.mem_map_of_mem h)
  have hdistinct : (Code.stmt statement).Distinct :=
    (nodup_ids_ofParsed first _ _).sublist ((Stmt.references_sublist_of_mem h).map Reference.id)
  exact fun c hw => ⟨hwell.within hw, hdistinct.all c hw⟩

namespace Session

variable {maxDepth : Nat} {sink : Sink} {programs : List (List (Stmt NodeId))} {s s' : Session}
  {fuel : Nat} {source : String} {statement : Stmt NodeId} {m : Machine} {vs ws : List Visit}

theorem codes_proper (s : Session) (source : String) (m : Machine) :
    (holding Code.Proper).Codes (Analysis.ofSource s.nextId source).program m :=
  fun _ hs => Analysis.proper_of_mem_program hs

/-- All code of a session is proper. -/
theorem Reached.holds_proper (h : Reached maxDepth sink programs s) :
    s.machine.store.Holds Code.Proper := by
  induction h with
  | start => exact ⟨nofun, nofun⟩
  | accepted _ ha hr ih =>
    exact keeps_run (lawful_holding _) ha hr (declares_holding _ _ _) ih (codes_proper _ _ _)
  | rejected _ ha hr ih =>
    obtain rfl := run_of_not_accepts ha hr
    exact ih
  | redirect _ _ ih => exact ih

/-- So is the code that a run comes to. -/
theorem Reached.proper_of_executes (h : Reached maxDepth sink programs s)
    (he : s.Executes fuel source statement m) :
    m.store.Holds Code.Proper ∧ (Code.stmt statement).Proper := by
  have hpre := (lawful_holding Code.Proper).pre_of_reachesIn (m := { s.machine with depth := 0 })
    (declares_holding _ _ _) (fun _ _ h => h) h.holds_proper (codes_proper s source _) he.2
  exact ⟨hpre.1, hpre.2.self⟩

/-- A statement is executed in the frames of the scopes in which it was visited. -/
theorem Settled.scopes_of_executes (h : s.Settled vs) (he : s.Executes fuel source statement m) :
    m.store.WellScoped (vs ++ s.visits source) ∧
      ∃ scopes, m.store.Chain m.environment scopes ∧
        statement.visits scopes ⊆ vs ++ s.visits source := by
  obtain ⟨hw, -, hscopes⟩ := (h.ready he.1).pre_of_reachesIn (h.extend he.1).knows he.2
  exact ⟨hw, hscopes⟩

/-! ## A copy of a loop -/

/-- A loop with numbers that a session has not used. -/
def renumber (s : Session) (l : ForLoop NodeId) : ForLoop NodeId := l.recode ⟨(s.nextId + ·), id⟩

/-- A session in which the distances that these visits find are known, too. -/
def knowing (s : Session) (ws : List Visit) : Session :=
  { s with table := s.table.merge (Visit.entries ws) }

/-- The distances of new nodes are known beside those of the others. -/
theorem Settled.get?_knowing (h : s.Settled vs) (hn : (Visit.ids ws).Nodup)
    (hfree : ∀ id ∈ Visit.ids ws, s.nextId ≤ id) :
    ∀ v ∈ vs ++ ws, (s.knowing ws).table.get? v.reference.id = v.distance? := by
  intro v hv
  rcases List.mem_append.mp hv with hv | hv
  · have hnew : v.reference.id ∉ Visit.ids ws := fun hid =>
      absurd (hfree _ hid) (Nat.not_le_of_lt (h.used (List.mem_map_of_mem hv)))
    exact (DistanceTable.get?_merge_of_notMem _ hnew).trans (h.knows.distance? v hv)
  · exact DistanceTable.get?_merge_of_mem hn hv (h.free (hfree _ (List.mem_map_of_mem hv)))

section

variable {l : ForLoop NodeId} {scopes : Scopes}

theorem ids_visits_renumber (s : Session) (l : ForLoop NodeId) (scopes : Scopes) :
    Visit.ids ((s.renumber l).visits scopes) = (Visit.ids (l.visits scopes)).map (s.nextId + ·) := by
  rw [renumber, ForLoop.visits_recode, Visit.ids, Visit.ids, List.map_map, List.map_map]
  rfl

/-- A loop in its blocks and its copy in one scope run in lockstep. -/
theorem Settled.runInBlocks_mirrors (h : s.Settled vs) (hw : m.store.WellScoped vs)
    (hp : m.store.Holds Code.Proper) (hl : (Code.stmt l.statement).Proper) (hb : l.body.declares = [])
    (hc : m.store.Chain m.environment scopes) (hv : l.statement.visits scopes ⊆ vs) (n : Nat) :
    let direct := (s.knowing ((s.renumber l).visits scopes)).setting
    (l.runInBlocks s.setting n m).Mirrors s.setting.distance? direct.distance? m.store.selfPairing m m
      ((s.renumber l).run direct n m) := by
  intro direct
  have hids := ids_visits_renumber s l scopes
  have hnodup : (Visit.ids ((s.renumber l).visits scopes)).Nodup := by
    have hperm := (l.references_visits_perm scopes).map Reference.id
    rw [Visit.references, List.map_map] at hperm
    rw [hids]
    exact (hperm.nodup_iff.mpr hl.2).map fun _ _ => Nat.add_left_cancel
  have hfree : ∀ id ∈ Visit.ids ((s.renumber l).visits scopes), s.nextId ≤ id := by
    rw [hids]
    intro id hid
    obtain ⟨i, -, rfl⟩ := List.mem_map.mp hid
    exact Nat.le_add_right _ _
  have hget := h.get?_knowing hnodup hfree
  have hfound : ∀ v ∈ vs, v.Found s.setting.distance? := fun v hv =>
    ⟨h.knows.sound v hv, h.knows.distance? v hv⟩
  have hself : m.Mirrors s.setting.distance? direct.distance? m.store.selfPairing m :=
    ⟨hw.mirrors_self (hp.mono fun _ hc => hc.1) hfound fun v hv => hget v (List.mem_append_left _ hv),
      rfl, rfl⟩
  have haligned : l.Aligned s.setting.distance? (direct.distance? ∘ (s.nextId + ·)) (.same scopes.length) := by
    refine ForLoop.aligned_of_visits hl.1 hb (fun v h => hfound v (hv h)) fun v hv => ?_
    have hrecoded : v.recode ⟨(s.nextId + ·), id⟩ ∈ (s.renumber l).visits scopes := by
      rw [renumber, ForLoop.visits_recode]
      exact List.mem_map_of_mem hv
    exact hget _ (List.mem_append_right _ hrecoded)
  exact ForLoop.runInBlocks_mirrors n hself (haligned.mono (hc.alignment hw))

end

end Session

/-! ## The statement and the loop -/

/-- Wherever a session executes the statement that expresses a `for` loop, it does what the loop does when it runs
directly, in one new scope for all its clauses. For this the loop is copied: with numbers that the session has
not used, and with the distances that the walk finds when it opens this one scope. The copy ends if
the statement ends, and the statement, with some more fuel, if the copy ends. Then both complete or fail in the
same way and with the same output, and leave the same in every frame from before, which stands for
itself, and in all objects; what closures they made stand for each other. All turns start in one frame, which was
not there before. The body declares nothing where it stands, as in all loops of the grammar
(`ForLoop.exists_of_derives`). -/
theorem for_loop_runs_directly {maxDepth : Nat} {sink : Sink} {programs : List (List (Stmt NodeId))}
    {s : Session} (h : Session.Reached maxDepth sink programs s) {fuel : Nat} {source : String}
    (l : ForLoop NodeId) (hb : l.body.declares = []) {m : Machine}
    (he : s.Executes fuel source l.statement m) :
    ∃ scopes, m.store.Chain m.environment scopes ∧
      l.statement.visits scopes ⊆
        Visit.ofPrograms (programs ++ [(Analysis.ofSource s.nextId source).program]) ∧
      let t := s.extend source
      let copy := t.renumber l
      let direct := (t.knowing (copy.visits scopes)).setting
      let Same : Outcome Completion → Outcome Completion → Prop :=
        Outcome.Mirrors t.setting.distance? direct.distance? m.store.selfPairing m m
      (∀ n, (execute n t.setting l.statement m).Ended →
        Same (execute n t.setting l.statement m) (copy.run direct n m)) ∧
      (∀ n, (copy.run direct n m).Ended →
        Same (execute (n + 10) t.setting l.statement m) (copy.run direct n m)) ∧
      ∀ n m', copy.Comes direct n m m' →
        m'.environment = (m.enter ∅ m.environment 0).environment ∧
          m.store.frame? m'.environment = none := by
  obtain ⟨hw, scopes, hc, hv⟩ := h.settled.scopes_of_executes he
  obtain ⟨hp, hl⟩ := h.proper_of_executes he
  have hmirrors := (h.settled.extend he.1).runInBlocks_mirrors hw hp hl hb hc hv
  refine ⟨scopes, hc, ?_, fun n hended => ?_, fun n hended => ?_, fun n m' hcomes => ?_⟩
  · rwa [Visit.ofPrograms_append]
  · have hblocks := hmirrors n
    rwa [l.execute_below _ n m hended] at hblocks
  · have hblocks := hmirrors n
    rwa [← l.below_execute _ n m (hblocks.ended_iff.mpr hended)] at hblocks
  · exact ⟨hcomes.returns.environment, hcomes.frame?_eq_none⟩

/-- The increment calls a function that the body declared and gave to the variable of the loop. The function
prints this variable and sets it to `nil`, which the condition finds next. It looks for the variable one frame
further out when it runs in the blocks of the statement. -/
theorem for_loop_runs_directly_with_closure :
    let source := "for(var i=true;i;i()){fun f(){print i;i=nil;}i=f;}"
    let s := Session.start 5 .open
    let l : ForLoop NodeId :=
      ⟨some (.var ⟨"i", 1⟩ (some (.literal (.bool true)))), some (.variable 0 ⟨"i", 1⟩),
        some (.call (.variable 5 ⟨"i", 1⟩) 1 []),
        .block [.function (.mk ⟨"f", 1⟩ []
            [.print (.variable 1 ⟨"i", 1⟩), .expression (.assign 2 ⟨"i", 1⟩ (.literal .nil))]),
          .expression (.assign 3 ⟨"i", 1⟩ (.variable 4 ⟨"f", 1⟩))]⟩
    Session.Reached 5 .open [] s ∧ l.body.declares = [] ∧ s.Executes 30 source l.statement .initial ∧
      ∃ scopes,
        let t := s.extend source
        let copy := t.renumber l
        (copy.run (t.knowing (copy.visits scopes)).setting 30 .initial).state?.map Machine.output =
          some "<fn f>\n" := by
  intro source s l
  have hprogram : (Analysis.ofSource 0 source).program = [l.statement] := by
    subst source
    cbv
  let a := Analysis.ofSource 0 source
  let distances : List (NodeId × Nat) := [(0, 0), (1, 3), (2, 3), (4, 0), (3, 2), (5, 1)]
  let setting : Setting :=
    ⟨fun id => distances.findSomeRev? fun e => if e.1 == id then some e.2 else none, 5, fun _ => none,
      fun _ => none⟩
  have ha : s.Accepts source := by
    unfold Session.Accepts
    decide +kernel
  -- the kernel cannot look into the table of the session
  have hsetting : (s.extend source).setting = setting := by
    have hd : a.resolution.distances = distances := by decide +kernel
    exact Session.setting_extend_start 5 .open hd
  have he : s.Executes 30 source l.statement .initial := by
    refine ⟨ha, ?_⟩
    show Setting.ReachesIn _ 30 (Analysis.ofSource 0 source).program _ _ _
    rw [hprogram]
    exact .first (.here _ _ _)
  have hrun : (execute 30 (s.extend source).setting l.statement .initial).state?.map Machine.output =
      some "<fn f>\n" := by
    rw [hsetting]
    decide +kernel
  obtain ⟨scopes, -, -, hsame, -⟩ := for_loop_runs_directly .start l rfl he
  exact ⟨.start, rfl, he, scopes, (hsame 30 (Outcome.ended_of_map_state? hrun)).output_eq.trans hrun⟩

end Lox
