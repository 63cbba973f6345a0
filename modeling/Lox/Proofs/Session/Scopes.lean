import Lox.Proofs.Evaluation.Agreement
import Lox.Proofs.Session.Analysis

/-!
# Scopes in a session

A session runs one source after another, each with numbers and distances of its
own, and functions of earlier sources are called from later ones. Whatever
sources it ran (`Session.Reached`), its store is well-scoped for the visits of
all the programs that it accepted, and its table holds what these visits found
(`Session.Settled`).

* `Session.Settled.run_of_accepts`, `Session.Settled.run_of_not_accepts`: a run keeps this, however it
  ends;
* `resolver_and_evaluator_agree`: every node that names a binding is evaluated
  in as many frames as the walk had scopes open, its distance leads to a frame
  that is there and binds its name, and only names that are looked up in the
  globals are ever undefined.
-/

namespace Lox

/-! ## A run of a program -/

theorem Scopes.bindAll_empty (names : List String) : Scopes.bindAll [] names = [] := by
  induction names with
  | nil => rfl
  | cons name names ih => exact ih

/-- A program that can run: its code was visited, with no scope around it. -/
structure Ready (vs : List Visit) (program : List (Stmt NodeId)) (m : Machine) : Prop where
  wellScoped : m.store.WellScoped vs
  environment : m.environment = .globals
  grounded : Stmt.GroundedAll program
  visits : Stmt.visitsAll [] program ⊆ vs

section

variable {vs : List Visit} {s : Setting} {m m' : Machine} {statement : Stmt NodeId}
  {rest program : List (Stmt NodeId)} {n : Nat}

theorem Ready.pre (h : Ready vs (statement :: rest) m) :
    (scoping vs s).pre (.execute statement) m := by
  have hg := h.grounded
  have hv := h.visits
  rw [Stmt.GroundedAll] at hg
  rw [Stmt.visitsAll, List.append_subset] at hv
  exact ⟨h.wellScoped, hg.1, [], h.environment, hv.1⟩

theorem Ready.tail (h : Ready vs (statement :: rest) m) (hk : m.Keeps vs m') :
    Ready vs rest m' := by
  have hg := h.grounded
  have hv := h.visits
  rw [Stmt.GroundedAll] at hg
  rw [Stmt.visitsAll, List.append_subset, Scopes.bindAll_empty] at hv
  exact ⟨hk.wellScoped, hk.environment.trans h.environment, hg.2, hv.2⟩

theorem Ready.keeps_of_done (hk : s.Knows vs) (h : Ready vs (statement :: rest) m)
    {completion : Completion} (hd : execute n s statement m = .done completion m') :
    m.Keeps vs m' := by
  have he := (scoping_kept hk).run n (t := .execute statement) h.pre
  have hd : (Task.execute statement).run n s m = .done completion m' := hd
  rw [hd] at he
  exact he.1

/-- However a program ends, the store stays well-scoped. -/
theorem Ready.keeps (hk : s.Knows vs) (h : Ready vs program m) :
    (∀ u, runStatements n s program m = .done u m' → m.Keeps vs m') ∧
      ∀ failure, runStatements n s program m = .failed failure m' → m.Keeps vs m' := by
  induction program generalizing m with
  | nil =>
    constructor
    · intro u hd
      obtain rfl : m = m' := by simpa [runStatements] using hd
      exact .refl h.wellScoped
    · intro failure hf
      cases hf
  | cons statement rest ih =>
    have he := (scoping_kept hk).run n (t := .execute statement) h.pre
    simp only [runStatements]
    cases hr : execute n s statement m with
    | done completion m₁ =>
      have h₁ := h.keeps_of_done hk hr
      obtain ⟨hd, hf⟩ := ih (h.tail h₁)
      exact ⟨fun u e => h₁.trans (hd u e), fun failure e => h₁.trans (hf failure e)⟩
    | failed failure m₁ =>
      have hr : (Task.execute statement).run n s m = .failed failure m₁ := hr
      rw [hr] at he
      refine ⟨fun u e => (by cases e), fun failure' e => ?_⟩
      obtain ⟨-, rfl⟩ : failure = failure' ∧ m₁ = m' := by simpa [Outcome.bind] using e
      exact he
    | outOfFuel => exact ⟨fun _ e => (by cases e), fun _ e => (by cases e)⟩

/-- Every task that a program comes to starts in the frames of its scopes. -/
theorem Ready.pre_of_reachesIn (hk : s.Knows vs) (h : Ready vs program m) {t : Task}
    (ht : s.ReachesIn n program m t m') : (scoping vs s).pre t m' := by
  induction ht with
  | first ht => exact (scoping_kept hk).pre_of_reaches h.pre ht
  | later hd _ ih => exact ih (h.tail (h.keeps_of_done hk hd))

/-- A program that fails comes to a task that raised the failure itself. -/
theorem Ready.exists_raised (hk : s.Knows vs) (h : Ready vs program m) {failure : Failure}
    (hf : runStatements n s program m = .failed failure m') :
    ∃ t m₁ m₂, s.ReachesIn n program m t m₁ ∧ t.Raises s failure m₂ ∧ m₂.store = m'.store := by
  induction program generalizing m with
  | nil => cases hf
  | cons statement rest ih =>
    simp only [runStatements] at hf
    cases hr : execute n s statement m with
    | done completion m₁ =>
      rw [hr] at hf
      obtain ⟨t, m₂, m₃, ht, hraised⟩ := ih (h.tail (h.keeps_of_done hk hr)) hf
      exact ⟨t, m₂, m₃, .later hr ht, hraised⟩
    | failed failure' m₁ =>
      rw [hr] at hf
      obtain ⟨rfl, rfl⟩ : failure' = failure ∧ m₁ = m' := by simpa [Outcome.bind] using hf
      have hr : (Task.execute statement).run n s m = .failed failure' m₁ := hr
      obtain ⟨t, m₂, m₃, ht, -, hraised⟩ := (scoping_kept hk).exists_raised h.pre hr
      exact ⟨t, m₂, m₃, .first ht, hraised⟩
    | outOfFuel =>
      rw [hr] at hf
      cases hf

/-- However a program ends, the globals are current again. -/
theorem Ready.runProgram (hk : s.Knows vs) (h : Ready vs program { m with depth := 0 })
    {o : Outcome Unit} (ho : runProgram n s program m = o) :
    (∀ u m', o = .done u m' → m'.store.WellScoped vs ∧ m'.environment = .globals) ∧
      ∀ failure m', o = .failed failure m' → m'.store.WellScoped vs ∧ m'.environment = .globals := by
  subst ho
  unfold Lox.runProgram
  cases hr : runStatements n s program { m with depth := 0 } with
  | done u m₁ =>
    have h₁ := (h.keeps hk).1 u hr
    have hend : m₁.store.WellScoped vs ∧ m₁.environment = .globals :=
      ⟨h₁.wellScoped, h₁.environment.trans h.environment⟩
    simp only [flush]
    cases s.flushFailure m₁.output with
    | none =>
      refine ⟨fun u' m' e => ?_, fun _ _ e => (by cases e)⟩
      obtain rfl : m₁ = m' := by simpa using e
      exact hend
    | some message =>
      refine ⟨fun _ _ e => (by cases e), fun failure m' e => ?_⟩
      obtain ⟨-, rfl⟩ : _ ∧ m₁ = m' := by simpa using e
      exact hend
  | failed failure m₁ =>
    have h₁ := (h.keeps hk).2 failure hr
    refine ⟨fun _ _ e => (by cases e), fun failure' m' e => ?_⟩
    obtain ⟨-, rfl⟩ : failure = failure' ∧ { m₁ with environment := .globals } = m' := by
      simpa using e
    exact ⟨h₁.wellScoped, rfl⟩
  | outOfFuel => exact ⟨fun _ _ e => (by cases e), fun _ _ e => (by cases e)⟩

/-- A fault of a program is one of its statements. -/
theorem exists_runStatements_of_runProgram {cause : RuntimeFault} {line : Nat}
    (h : Lox.runProgram n s program m = .failed (.fault cause line) m') :
    ∃ m₁, runStatements n s program { m with depth := 0 } = .failed (.fault cause line) m₁ ∧
      m₁.store = m'.store := by
  unfold Lox.runProgram at h
  cases hr : runStatements n s program { m with depth := 0 } with
  | done u m₁ =>
    simp only [hr, flush] at h
    split at h <;> cases h
  | failed failure m₁ =>
    simp only [hr] at h
    obtain ⟨rfl, rfl⟩ : failure = _ ∧ { m₁ with environment := .globals } = m' := by simpa using h
    exact ⟨m₁, rfl, rfl⟩
  | outOfFuel =>
    simp only [hr] at h
    cases h

end

/-! ## Sessions that ran sources -/

/-- A source without static errors. -/
def Session.Accepts (s : Session) (source : String) : Prop :=
  (Analysis.ofSource s.nextId source).rejections = []

/-- The sessions to which a fresh one comes by running sources, with the programs that it accepted
on the way. Between two sources the output may be sent elsewhere. -/
inductive Session.Reached (maxDepth : Nat) (sink : Sink) :
    List (List (Stmt NodeId)) → Session → Prop where
  | start : Reached maxDepth sink [] (.start maxDepth sink)
  | accepted {programs : List (List (Stmt NodeId))} {s s' : Session} {fuel : Nat}
    {source : String} {report : RunReport} (hs : Reached maxDepth sink programs s)
    (ha : s.Accepts source) (hr : s.run fuel source = some (report, s')) :
    Reached maxDepth sink (programs ++ [(Analysis.ofSource s.nextId source).program]) s'
  | rejected {programs : List (List (Stmt NodeId))} {s s' : Session} {fuel : Nat}
    {source : String} {report : RunReport} (hs : Reached maxDepth sink programs s)
    (ha : ¬ s.Accepts source) (hr : s.run fuel source = some (report, s')) :
    Reached maxDepth sink programs s'
  | redirect {programs : List (List (Stmt NodeId))} {s : Session} (other : Sink)
    (hs : Reached maxDepth sink programs s) : Reached maxDepth sink programs { s with sink := other }

/-- The visits of programs, each without a scope around it. -/
def Visit.ofPrograms (programs : List (List (Stmt NodeId))) : List Visit :=
  programs.flatMap (Stmt.visitsAll [])

theorem Visit.ofPrograms_append (programs : List (List (Stmt NodeId))) (program : List (Stmt NodeId)) :
    ofPrograms (programs ++ [program]) = ofPrograms programs ++ Stmt.visitsAll [] program := by
  rw [ofPrograms, List.flatMap_append, List.flatMap_singleton]
  rfl

/-- What the visits of all accepted programs say of a session between two runs. -/
structure Session.Settled (vs : List Visit) (s : Session) : Prop where
  wellScoped : s.machine.store.WellScoped vs
  environment : s.machine.environment = .globals
  knows : s.setting.Knows vs
  nodup : (Visit.ids vs).Nodup
  used {id : NodeId} : id ∈ Visit.ids vs → id < s.nextId
  free {id : NodeId} : s.nextId ≤ id → s.table.get? id = none

/-- The session in which the code of a source runs: its numbers are taken, and its distances are in
the table. -/
def Session.extend (s : Session) (source : String) : Session :=
  let a := Analysis.ofSource s.nextId source
  { s with nextId := a.nextId, table := s.table.merge a.resolution.distances }

/-- What a run of an accepted source reports. -/
def Ran.report (ran : Ran Unit) : RunReport :=
  match ran.result with
  | .ok () => ⟨ran.output, [], false, false⟩
  | .error failure => ⟨ran.output, [failure.toDiagnostic.report], false, true⟩

namespace Session

variable {vs : List Visit} {s s' : Session} {source : String} {fuel : Nat} {report : RunReport}

/-- The visits of a source in a session. -/
def visits (s : Session) (source : String) : List Visit :=
  Stmt.visitsAll [] (Analysis.ofSource s.nextId source).program

theorem mem_ids_visits {id : NodeId} :
    id ∈ Visit.ids (s.visits source) ↔ s.nextId ≤ id ∧ id < (s.extend source).nextId := by
  obtain ⟨hle, hids⟩ := Analysis.ids_program s.nextId source
  rw [visits, (ids_visitsAll_perm [] _).mem_iff, hids, List.mem_range'_1]
  show _ ∧ _ < s.nextId + (_ - s.nextId) ↔ _
  rw [Nat.add_sub_cancel' hle]
  rfl

theorem nodup_ids_visits : (Visit.ids (s.visits source)).Nodup :=
  (ids_visitsAll_perm [] _).nodup_iff.mpr (Analysis.nodup_ids_ofParsed s.nextId _ _)

theorem table_extend :
    (s.extend source).table = s.table.merge (Visit.entries (s.visits source)) :=
  congrArg s.table.merge (distances_resolve (Analysis.wellFormedAll_program s.nextId source))

/-- A source gives distances to its own nodes only. -/
theorem get?_table_extend {id : NodeId} (h : id < s.nextId ∨ (s.extend source).nextId ≤ id) :
    (s.extend source).table.get? id = s.table.get? id := by
  rw [table_extend, DistanceTable.get?_merge_of_notMem]
  intro hm
  obtain ⟨hle, hlt⟩ := mem_ids_visits.mp hm
  exact h.elim (Nat.not_lt_of_le hle) (Nat.not_le_of_lt hlt)

/-- For the first source of a session the table holds its distances only. -/
theorem setting_extend_start (maxDepth : Nat) (sink : Sink) {ds : List (NodeId × Nat)}
    (h : (Analysis.ofSource 0 source).resolution.distances = ds) :
    ((Session.start maxDepth sink).extend source).setting =
      ⟨fun id => ds.findSomeRev? fun e => if e.1 == id then some e.2 else none, maxDepth,
        sink.writeFailure, sink.flushFailure⟩ := by
  subst h
  exact congrArg (Setting.mk · _ _ _) (funext fun id => DistanceTable.get?_merge_empty _ id)

theorem Settled.start (maxDepth : Nat) (sink : Sink) : (Session.start maxDepth sink).Settled [] where
  wellScoped := by
    refine ⟨⟨_, rfl, rfl⟩, fun {id f} h => ?_, fun {id c name f} h => ?_⟩
    · simp [Session.start] at h
    · simp [Session.start] at h
  environment := rfl
  knows := ⟨fun _ h => (by cases h), fun _ h => (by cases h)⟩
  nodup := .nil
  used h := by cases h
  free _ := DistanceTable.get?_empty_eq_none _

/-- The numbers of a source are free for it. -/
theorem Settled.extend (h : s.Settled vs) (ha : s.Accepts source) :
    (s.extend source).Settled (vs ++ s.visits source) where
  wellScoped := h.wellScoped.mono (List.subset_append_left _ _)
  environment := h.environment
  knows := by
    constructor
    · intro v hv
      rcases List.mem_append.mp hv with hv | hv
      · exact h.knows.sound v hv
      · exact sound_visits_of_errors_eq_nil (Analysis.wellFormedAll_program _ _)
          (Analysis.errors_eq_nil ha) v hv
    · intro v hv
      show (s.extend source).table.get? _ = _
      rcases List.mem_append.mp hv with hv | hv
      · rw [get?_table_extend (.inl (h.used (List.mem_map_of_mem hv)))]
        exact h.knows.distance? v hv
      · have hfree := h.free (mem_ids_visits.mp (List.mem_map_of_mem hv)).1
        rw [table_extend]
        exact DistanceTable.get?_merge_of_mem nodup_ids_visits hv hfree
  nodup := by
    have hids : Visit.ids (vs ++ s.visits source) = Visit.ids vs ++ Visit.ids (s.visits source) :=
      List.map_append
    rw [hids]
    refine h.nodup.append nodup_ids_visits fun id hid hid' => ?_
    exact absurd (mem_ids_visits.mp hid').1 (Nat.not_le_of_lt (h.used hid))
  used {id} hid := by
    have hids : Visit.ids (vs ++ s.visits source) = Visit.ids vs ++ Visit.ids (s.visits source) :=
      List.map_append
    rw [hids] at hid
    rcases List.mem_append.mp hid with hid | hid
    · exact Nat.lt_of_lt_of_le (h.used hid) (Analysis.ids_program s.nextId source).1
    · exact (mem_ids_visits.mp hid).2
  free {id} hid := by
    rw [get?_table_extend (.inr hid)]
    exact h.free (Nat.le_trans (Analysis.ids_program s.nextId source).1 hid)

/-- The program of a source that is accepted can run. -/
theorem Settled.ready (h : s.Settled vs) (ha : s.Accepts source) :
    Ready (vs ++ s.visits source) (Analysis.ofSource s.nextId source).program
      { s.machine with depth := 0 } where
  wellScoped := (h.extend ha).wellScoped
  environment := h.environment
  grounded := groundedAll_of_errors_eq_nil (Analysis.wellFormedAll_program _ _)
    (Analysis.errors_eq_nil ha)
  visits := List.subset_append_right _ _

/-- The session after a program ended. -/
theorem exists_machine_of_finish {o : Outcome Unit} {ran : Ran Unit}
    (h : s.finish o = some (ran, s')) :
    ∃ m, s' = { s with machine := { m with output := "" } } ∧
      ((∃ u, o = .done u m ∧ ran.result = .ok u) ∨
        ∃ failure, o = .failed failure m ∧ ran.result = .error failure) := by
  cases o with
  | done u m =>
    obtain ⟨rfl, rfl⟩ := Prod.mk.inj (Option.some.inj h)
    exact ⟨m, rfl, .inl ⟨u, rfl, rfl⟩⟩
  | failed failure m =>
    obtain ⟨rfl, rfl⟩ := Prod.mk.inj (Option.some.inj h)
    exact ⟨m, rfl, .inr ⟨failure, rfl, rfl⟩⟩
  | outOfFuel => cases h

/-- A source that is accepted is interpreted. -/
theorem run_of_accepts (ha : s.Accepts source) (fuel : Nat) :
    s.run fuel source =
      ((s.extend source).finish (runProgram fuel (s.extend source).setting
        (Analysis.ofSource s.nextId source).program s.machine)).map fun (ran, s') =>
          (ran.report, s') := by
  have ha : (Analysis.ofSource s.nextId source).rejections.isEmpty := List.isEmpty_iff.mpr ha
  rw [run]
  simp only [ha, if_true]
  refine congrFun (congrArg Option.map (funext fun r => ?_)) _
  cases hr : r.1.result <;> simp [Ran.report, hr]

theorem exists_interpret_of_run (ha : s.Accepts source)
    (hr : s.run fuel source = some (report, s')) :
    ∃ ran, (s.extend source).finish (runProgram fuel (s.extend source).setting
      (Analysis.ofSource s.nextId source).program s.machine) = some (ran, s') := by
  rw [run_of_accepts ha] at hr
  obtain ⟨⟨ran, s₁⟩, hf, he⟩ := Option.map_eq_some_iff.mp hr
  obtain rfl : s₁ = s' := congrArg Prod.snd he
  exact ⟨ran, hf⟩

/-- A run keeps what is known of a session, however it ends. -/
theorem Settled.run_of_accepts (h : s.Settled vs) (ha : s.Accepts source)
    (hr : s.run fuel source = some (report, s')) : s'.Settled (vs ++ s.visits source) := by
  obtain ⟨ran, hf⟩ := exists_interpret_of_run ha hr
  obtain ⟨m, rfl, ho⟩ := exists_machine_of_finish hf
  have he := h.extend ha
  obtain ⟨hdone, hfailed⟩ := (h.ready ha).runProgram he.knows rfl
  have hm : m.store.WellScoped (vs ++ s.visits source) ∧ m.environment = .globals := by
    rcases ho with ⟨u, ho, _⟩ | ⟨failure, ho, _⟩
    · exact hdone u m ho
    · exact hfailed failure m ho
  exact ⟨hm.1, hm.2, he.knows, he.nodup, he.used, he.free⟩

/-- A source that is rejected only uses up its numbers. -/
theorem run_of_not_accepts (ha : ¬ s.Accepts source)
    (hr : s.run fuel source = some (report, s')) :
    s' = { s with nextId := (Analysis.ofSource s.nextId source).nextId } := by
  have ha : ¬ (Analysis.ofSource s.nextId source).rejections.isEmpty := fun he =>
    ha (List.isEmpty_iff.mp he)
  rw [run] at hr
  simp only [ha] at hr
  exact (Prod.mk.inj (Option.some.inj hr)).2.symm

theorem Settled.run_of_not_accepts (h : s.Settled vs) (ha : ¬ s.Accepts source)
    (hr : s.run fuel source = some (report, s')) : s'.Settled vs := by
  have hle := (Analysis.ids_program s.nextId source).1
  obtain rfl := Session.run_of_not_accepts ha hr
  exact ⟨h.wellScoped, h.environment, h.knows, h.nodup,
    fun hid => Nat.lt_of_lt_of_le (h.used hid) hle, fun hid => h.free (Nat.le_trans hle hid)⟩

theorem Settled.redirect (other : Sink) (h : s.Settled vs) : { s with sink := other }.Settled vs :=
  ⟨h.wellScoped, h.environment, ⟨h.knows.sound, h.knows.distance?⟩, h.nodup, h.used, h.free⟩

theorem Reached.settled {maxDepth : Nat} {sink : Sink} {programs : List (List (Stmt NodeId))}
    (h : Session.Reached maxDepth sink programs s) : s.Settled (Visit.ofPrograms programs) := by
  induction h with
  | start => exact .start maxDepth sink
  | accepted hs ha hr ih =>
    rw [Visit.ofPrograms_append]
    exact ih.run_of_accepts ha hr
  | rejected hs ha hr ih => exact ih.run_of_not_accepts ha hr
  | redirect other hs ih => exact ih.redirect other

/-- The run of a source comes to evaluating an expression in a state. -/
def Evaluates (s : Session) (fuel : Nat) (source : String) (e : Expr NodeId) (m : Machine) :
    Prop :=
  s.Accepts source ∧ (s.extend source).setting.ReachesIn fuel
    (Analysis.ofSource s.nextId source).program { s.machine with depth := 0 } (.evaluate e) m

end Session

/-- The walk that resolves names and the evaluator agree on scopes. In every session that ran
sources, whenever the run of a source comes to evaluating a node that names a binding, the walk has
visited this node once, the table holds the distance that it found there, there are as many local
frames as it had scopes open, and the frame at that distance is there and binds the name (if the
node is no assignment). If the run fails because a variable is undefined, it is one for which the
table holds no distance and which the globals do not bind. -/
theorem resolver_and_evaluator_agree {maxDepth : Nat} {sink : Sink}
    {programs : List (List (Stmt NodeId))} {s : Session}
    (h : Session.Reached maxDepth sink programs s) (fuel : Nat) (source : String) :
    let a := Analysis.ofSource s.nextId source
    let vs := Visit.ofPrograms (programs ++ [a.program])
    let table := (s.extend source).table
    (∀ e m r, s.Evaluates fuel source e m → e.reference? = some r →
      ∃ v ∈ vs, v.reference = r ∧ (∀ w ∈ vs, w.reference.id = r.id → w = v) ∧
        table.get? r.id = v.distance? ∧ m.store.HasLocalFrames m.environment v.scopes.length ∧
        ∀ d, table.get? r.id = some d → ∃ f, m.store.ancestor? m.environment d = some f ∧
          (r.kind ≠ .assign → (m.store.own? f r.name.text).isSome)) ∧
    ∀ name line ran s', s.Accepts source →
      { s with nextId := a.nextId }.interpret fuel a.program a.resolution.distances =
        some (ran, s') →
      ran.result = .error (.fault (.undefinedVariable name) line) →
      ∃ e m r, s.Evaluates fuel source e m ∧ e.reference? = some r ∧
        (r.kind = .variable ∨ r.kind = .assign) ∧ r.name = ⟨name, line⟩ ∧
        table.get? r.id = none ∧ s'.machine.store.own? .globals name = none := by
  intro a vs table
  have hvs : vs = Visit.ofPrograms programs ++ s.visits source :=
    Visit.ofPrograms_append programs a.program
  constructor
  · rintro e m r ⟨ha, he⟩ hr
    have hs := h.settled.extend ha
    have hpre := (h.settled.ready ha).pre_of_reachesIn hs.knows he
    rw [← hvs] at hs hpre
    obtain ⟨v, hv, rfl, hfits⟩ := hpre.2 r (Expr.mem_references_of_reference? hr)
    have hd : table.get? v.reference.id = v.distance? := hs.knows.distance? v hv
    refine ⟨v, hv, rfl, fun w hw hid => Visit.eq_of_id_eq hs.nodup hw hv hid, hd, hfits.frames, ?_⟩
    intro d hdist
    rw [hd] at hdist
    obtain ⟨f, hf⟩ := Option.isSome_iff_exists.mp (hfits.ancestor hdist)
    refine ⟨f, hf, fun hk => ?_⟩
    have hread := hfits.reads hk hdist
    rwa [Store.getAt, hf] at hread
  · intro name line ran s' ha hi hran
    have hs := h.settled.extend ha
    obtain ⟨m, rfl, ho⟩ := Session.exists_machine_of_finish (s := s.extend source) hi
    rcases ho with ⟨u, ho, hok⟩ | ⟨failure, ho, hfailure⟩
    · rw [hran] at hok
      cases hok
    · rw [hran] at hfailure
      obtain rfl := Except.error.inj hfailure
      obtain ⟨m₁, hf, hm⟩ := exists_runStatements_of_runProgram ho
      obtain ⟨t, m₂, m₃, ht, hraised, hm'⟩ := (h.settled.ready ha).exists_raised hs.knows hf
      obtain ⟨e, r, rfl, hr, hkind, hname, hd, hown⟩ := hraised name line rfl
      refine ⟨e, m₂, r, ⟨ha, ht⟩, hr, hkind, hname, hd, ?_⟩
      rw [hm', hm] at hown
      exact hown

/-- A variable that nothing declares is evaluated inside a block: in one frame, as the walk had one
scope open, and the globals do not bind it. -/
theorem resolver_and_evaluator_agree_in_block :
    let s := Session.start 1 .open
    Session.Reached 1 .open [] s ∧
      ∃ e m r, s.Evaluates 9 "{var b;a;}" e m ∧ e.reference? = some r ∧ r.name = ⟨"a", 1⟩ ∧
        (s.extend "{var b;a;}").table.get? r.id = none ∧
        m.store.HasLocalFrames m.environment 1 := by
  intro s
  let a := Analysis.ofSource s.nextId "{var b;a;}"
  have hagree := resolver_and_evaluator_agree (.start : Session.Reached 1 .open [] s) 9 "{var b;a;}"
  have ha : s.Accepts "{var b;a;}" := by
    unfold Session.Accepts
    decide +kernel
  have hrun : ({ s with nextId := a.nextId }.interpret 9 a.program a.resolution.distances).map
      (Ran.result ∘ Prod.fst) = some (Except.error (.fault (.undefinedVariable "a") 1)) := by
    decide +kernel
  have hone : ∀ v ∈ Visit.ofPrograms [a.program], v.scopes.length = 1 := by decide +kernel
  obtain ⟨⟨ran, s'⟩, hi, hran⟩ := Option.map_eq_some_iff.mp hrun
  obtain ⟨e, m, r, he, hr, -, hname, hd, -⟩ := hagree.2 "a" 1 ran s' ha hi hran
  obtain ⟨v, hv, -, -, -, hframes, -⟩ := hagree.1 e m r he hr
  exact ⟨.start, e, m, r, he, hr, hname, hd, hone v hv ▸ hframes⟩

end Lox
