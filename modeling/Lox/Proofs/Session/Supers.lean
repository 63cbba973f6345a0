import Lox.Proofs.Evaluation.Supers
import Lox.Proofs.Evaluation.Traces
import Lox.Proofs.Session.Resting
import Lox.Proofs.Session.Scopes

/-!
# `super` in a session

A session remembers what it ran (`Session.Past`): so it can be asked which execution
of a class declaration made the frame in which a method was declared
(`Session.Step.Declares`), and what the name of the superclass stood for then. Methods
of one source run in later ones, after the name was given another value, or the class was
declared again; and a method of a class runs for instances of all its subclasses.

* `Session.keeps_run`: a session keeps every discipline that its runs keep;
* `Session.Past.exists_kept`: so methods stay in the frames of their declarations;
* `super_finds_method_of_declared_superclass`: `super` looks for a method at the superclass that its
  class had when it was declared, and binds it to `this`.
-/

namespace Lox

namespace Session

/-! ## What a session ran -/

/-- A source that is run in a session. -/
structure Step where
  session : Session
  fuel : Nat
  source : String

/-- The program of a source comes to a task in a state, if it is run. -/
def Occurs (s : Session) (fuel : Nat) (source : String) (t : Task) (m : Machine) : Prop :=
  (s.extend source).setting.ReachesIn fuel (Analysis.ofSource s.nextId source).program
    { s.machine with depth := 0 } t m

/-- The run of a source comes to executing a statement in a state. -/
def Executes (s : Session) (fuel : Nat) (source : String) (statement : Stmt NodeId) (m : Machine) :
    Prop :=
  s.Accepts source ∧ s.Occurs fuel source (.execute statement) m

/-- The run of a source executes the declaration of a subclass. The name of the superclass stands for
this class then, and the declaration adds this frame for the methods. -/
def Step.Declares (r : Step) (C : SubclassDecl) (closure : FrameId) (superclass : ClassId) : Prop :=
  ∃ n m m₁, r.session.Executes r.fuel r.source C.statement m ∧
    Lox.evaluate n (r.session.extend r.source).setting C.superclass m =
      .done (.class superclass) m₁ ∧
    m₁.store.frame? closure = none ∧
    ((declareClass C.name (some superclass) C.methods m₁).store.frame? closure).isSome

/-- The sessions to which a fresh one comes by running sources, with all the steps on the way. Between
two steps the output may be sent elsewhere. -/
inductive Past (maxDepth : Nat) (sink : Sink) : List Step → Session → Prop where
  | start : Past maxDepth sink [] (.start maxDepth sink)
  | run {steps : List Step} {s s' : Session} {fuel : Nat} {source : String} {report : RunReport}
    (hs : Past maxDepth sink steps s) (hr : s.run fuel source = some (report, s')) :
    Past maxDepth sink (steps ++ [⟨s, fuel, source⟩]) s'
  | redirect {steps : List Step} {s : Session} (other : Sink) (hs : Past maxDepth sink steps s) :
    Past maxDepth sink steps { s with sink := other }

/-- One of these steps executed the declaration. -/
def DeclaredIn (steps : List Step) (C : SubclassDecl) (closure : FrameId) (superclass : ClassId) :
    Prop :=
  ∃ r ∈ steps, r.Declares C closure superclass

/-! ## Disciplines in a session -/

section

variable {s s' : Session} {fuel : Nat} {source : String} {report : RunReport} {D : Discipline}

/-- A session keeps every discipline that the evaluator keeps, if the code of the sources does. -/
theorem keeps_run (hD : D.Lawful) (ha : s.Accepts source)
    (hr : s.run fuel source = some (report, s'))
    (hd : D.Declares (s.extend source).setting (s.Occurs fuel source)) (hs : D.store s.machine.store)
    (hc : D.Codes (Analysis.ofSource s.nextId source).program { s.machine with depth := 0 }) :
    D.store s'.machine.store := by
  obtain ⟨ran, hf⟩ := exists_interpret_of_run ha hr
  obtain ⟨m, hm, rfl⟩ := exists_state_of_finish hf
  have hrun := hD.runStatements hd (fun _ _ h => h) (m := { s.machine with depth := 0 }) hs hc
  exact (ensures_runProgram hrun (fun _ h => h) m hm).store

end

/-! ## Methods in the frames of their declarations -/

/-- What is known of a session between two runs, if these declarations were executed. -/
structure Kept (declared : SubclassDecl → FrameId → ClassId → Prop) (vs : List Visit)
    (s : Session) : Prop where
  settled : s.Settled vs
  valid : s.machine.store.Valid
  lineage : (lineage declared vs).store s.machine.store

section

variable {declared : SubclassDecl → FrameId → ClassId → Prop} {vs : List Visit} {s s' : Session}
  {fuel : Nat} {source : String} {report : RunReport}

theorem Kept.start (maxDepth : Nat) (sink : Sink) : (Session.start maxDepth sink).Kept declared [] where
  settled := .start maxDepth sink
  valid := .initial
  lineage := by
    refine ⟨fun id f hf => ?_, fun id c name f hc => ?_⟩
    · simp [Session.start] at hf
    · simp [Session.start] at hc

theorem Kept.codes_validity (h : s.Kept declared vs) (program : List (Stmt NodeId)) :
    validity.Codes program { s.machine with depth := 0 } := by
  intro statement _
  obtain ⟨frame, hf⟩ := Option.isSome_iff_exists.mp h.settled.wellScoped.frame?_globals_isSome
  have hlt := (Array.getElem?_eq_some_iff.mp hf).1
  show s.machine.environment.index < _
  rwa [h.settled.environment]

theorem codes_lineage (ha : s.Accepts source) (m : Machine) :
    (lineage declared (vs ++ s.visits source)).Codes (Analysis.ofSource s.nextId source).program m := by
  intro statement hs
  obtain ⟨hall, hfree⟩ := Code.all_resolved_of_errors_eq_nil
    (Analysis.wellFormedAll_program s.nextId source) (Analysis.errors_eq_nil ha) statement hs
  exact ⟨hall.mono fun c hc => hc.mono (List.subset_append_right _ _), .inl hfree⟩

/-- The next frame is the one that a declaration adds for its methods. -/
theorem declares_lineage {steps : List Step} (hr : (⟨s, fuel, source⟩ : Step) ∈ steps)
    (ha : s.Accepts source) :
    (lineage (DeclaredIn steps) vs).Declares (s.extend source).setting (s.Occurs fuel source) := by
  intro n name e methods c m m₁ hx he
  refine ⟨_, hr, n, m, m₁, ⟨ha, hx⟩, he, ?_, ?_⟩
  · exact Array.getElem?_eq_none (Nat.le_refl _)
  · exact isSome_frame?_declareClass name c methods m₁

variable {steps : List Step}

theorem DeclaredIn.append {steps' : List Step} {C : SubclassDecl} {closure : FrameId}
    {superclass : ClassId} (h : DeclaredIn steps C closure superclass) :
    DeclaredIn (steps ++ steps') C closure superclass := by
  obtain ⟨r, hr, hd⟩ := h
  exact ⟨r, List.mem_append_left _ hr, hd⟩

/-- What was stored before a run is stored in the frames of these declarations and of those to come. -/
theorem Kept.lineage_extend (h : s.Kept (DeclaredIn steps) vs) (step : Step) (source : String) :
    (Lox.lineage (DeclaredIn (steps ++ [step])) (vs ++ s.visits source)).store s.machine.store :=
  lineage_mono (fun _ _ _ hd => hd.append) (List.subset_append_left _ _) h.lineage

theorem Kept.run_of_accepts (h : s.Kept (DeclaredIn steps) vs) (ha : s.Accepts source)
    (hr : s.run fuel source = some (report, s')) :
    s'.Kept (DeclaredIn (steps ++ [⟨s, fuel, source⟩])) (vs ++ s.visits source) where
  settled := h.settled.run_of_accepts ha hr
  valid := keeps_run lawful_validity ha hr (declares_validity _ _) h.valid (h.codes_validity _)
  lineage := keeps_run lawful_lineage ha hr
    (declares_lineage (List.mem_append_right _ (List.mem_singleton_self _)) ha)
    (h.lineage_extend _ source) (codes_lineage ha _)

theorem Kept.run_of_not_accepts (h : s.Kept (DeclaredIn steps) vs) (ha : ¬ s.Accepts source)
    (hr : s.run fuel source = some (report, s')) (step : Step) :
    s'.Kept (DeclaredIn (steps ++ [step])) vs := by
  have hs := h.settled.run_of_not_accepts ha hr
  obtain rfl := Session.run_of_not_accepts ha hr
  exact ⟨hs, h.valid, lineage_mono (fun _ _ _ hd => hd.append) (List.Subset.refl _) h.lineage⟩

/-- Whatever a session ran, methods stay in the frames of their declarations. -/
theorem Past.exists_kept {maxDepth : Nat} {sink : Sink} (h : Past maxDepth sink steps s) :
    ∃ vs, s.Kept (DeclaredIn steps) vs := by
  induction h with
  | start => exact ⟨[], .start maxDepth sink⟩
  | @run _ s _ _ source _ _ hr ih =>
    obtain ⟨vs, hk⟩ := ih
    by_cases ha : s.Accepts source
    · exact ⟨_, hk.run_of_accepts ha hr⟩
    · exact ⟨vs, hk.run_of_not_accepts ha hr _⟩
  | redirect other _ ih =>
    obtain ⟨vs, hk⟩ := ih
    exact ⟨vs, hk.settled.redirect other, hk.valid, hk.lineage⟩

end

/-- Whatever subclasses were declared. -/
theorem declares_lineage_true (vs : List Visit) (setting : Setting)
    (occurs : Task → Machine → Prop) :
    (lineage (fun _ _ _ => True) vs).Declares setting occurs :=
  fun _ _ _ _ _ _ _ _ _ => trivial

/-- The setting of a run knows the visits of all code that it comes to. All of this code is resolved,
and a `super` in it is in the frames of its method. -/
theorem Past.pre_of_occurs {maxDepth : Nat} {sink : Sink} {steps : List Step} {s : Session}
    (h : Past maxDepth sink steps s) {source : String} (ha : s.Accepts source) :
    ∃ vs, (s.extend source).setting.Knows vs ∧ ∀ fuel t m, s.Occurs fuel source t m →
      (lineage (fun _ _ _ => True) vs).contract.pre t m := by
  obtain ⟨vs, hk⟩ := h.exists_kept
  have hstore := lineage_mono (fun _ _ _ _ => trivial) (List.subset_append_left vs (s.visits source))
    hk.lineage
  refine ⟨vs ++ s.visits source, (hk.settled.extend ha).knows, fun fuel t m ho => ?_⟩
  exact lawful_lineage.pre_of_reachesIn (m := { s.machine with depth := 0 })
    (declares_lineage_true _ _ _) (fun _ _ h => h) hstore (codes_lineage ha _) ho

/-- Where a run evaluates `super.m`, it is in the frames of a method of a subclass: one of them binds
`super` to the superclass that an execution of the declaration had, and one inside it binds `this`. -/
theorem Past.exists_home_of_super {maxDepth : Nat} {sink : Sink} {steps : List Step} {s : Session}
    (h : Past maxDepth sink steps s) {fuel : Nat} {source : String} {id : NodeId}
    {keyword method : Name} {m : Machine}
    (he : s.Evaluates fuel source (.super id keyword method) m) :
    m.store.Valid ∧ ∃ C closure superclass k i,
      DeclaredIn (steps ++ [⟨s, fuel, source⟩]) C closure superclass ∧
      (∃ d ∈ C.methods, (Code.decl d).Lies k (.expr (.super id keyword method))) ∧
      keyword.text = "super" ∧ (s.extend source).setting.distance? id = some (k + 1) ∧
      m.store.own? closure "super" = some (.class superclass) ∧
      m.store.Home closure i m.environment k := by
  obtain ⟨ha, hin⟩ := he
  obtain ⟨vs, hk⟩ := h.exists_kept
  have hknows := (hk.settled.extend ha).knows
  have hvalid := (lawful_validity.pre_of_reachesIn (declares_validity _ _) (fun _ _ h => h)
    (m := { s.machine with depth := 0 }) hk.valid (hk.codes_validity _) hin).1
  have hplaced := (lawful_lineage.pre_of_reachesIn
    (declares_lineage (List.mem_append_right _ (List.mem_singleton_self _)) ha)
    (fun _ _ h => h) (hk.lineage_extend _ source) (codes_lineage ha _) hin).2.2
  rcases hplaced with hfree | ⟨C, closure, superclass, i, k, hl, ⟨d, hd, hlies⟩, hh⟩
  · exact absurd .here (hfree 0 id keyword method)
  obtain ⟨htext, v, hv, href, hdist⟩ := hl.locates d hd k id keyword method hlies
  have hdist : (s.extend source).setting.distance? id = some (k + 1) := by
    have hknown := hknows.distance? v hv
    rwa [href, hdist] at hknown
  exact ⟨hvalid, C, closure, superclass, k, i, hl.declared, ⟨d, hd, hlies⟩, htext, hdist, hl.own, hh⟩

end Session

/-! ## The property -/

/-- `super` is lexical in the class and dynamic in the instance. In every session that ran sources,
whenever the run of a source comes to evaluating `super.m`, this node lies in a method of the
declaration of a subclass, in some functions and blocks and in no class inside it. Some
execution of that declaration, in this or an earlier run, added the frame in which the running
method was declared. The method `m` is looked up from the class on that the name of the superclass
stood for in that execution, whatever it stands for now: the result is the nearest
method on the chain of this class, bound to the instance that `this` stands for, or, if there is
none, the error that the property is undefined, on the line of `m`. -/
theorem super_finds_method_of_declared_superclass {maxDepth : Nat} {sink : Sink}
    {steps : List Session.Step} {s : Session} (h : Session.Past maxDepth sink steps s) (fuel : Nat)
    (source : String) {id : NodeId} {keyword method : Name} {m : Machine}
    (he : s.Evaluates fuel source (.super id keyword method) m) :
    let find n := evaluate (n + 1) (s.extend source).setting (.super id keyword method) m
    ∃ C closure superclass k i,
      Session.DeclaredIn (steps ++ [⟨s, fuel, source⟩]) C closure superclass ∧
      (∃ d ∈ C.methods, (Code.decl d).Lies k (.expr (.super id keyword method))) ∧
      m.store.ancestor? m.environment (k + 1) = some closure ∧
      m.store.get m.environment "this" = some (.instance i) ∧
      (∀ f, m.store.Nearest method.text superclass f →
        ∀ n, ∃ v m', find n = .done v m' ∧ m'.store.IsBound v f i) ∧
      ((∀ f, ¬ m.store.Nearest method.text superclass f) →
        ∀ n, find n = m.fault (.undefinedProperty method.text) method.line) := by
  obtain ⟨hvalid, C, closure, superclass, k, i, hdeclared, hlies, htext, hdist, hown, hh⟩ :=
    h.exists_home_of_super he
  obtain ⟨hfound, hnone⟩ := readSuper_of_home method hdist htext hown hh
  refine ⟨C, closure, superclass, k, i, hdeclared, hlies, hh.ancestor_eq,
    hvalid.get_of_getAt hh.getAt_this fun j hj => hh.getAt_eq_none hj, fun f hf n => ?_,
    fun hf n => ?_⟩
  · obtain ⟨v, m', hb, hbound⟩ := exists_bound_eq f i m
    exact ⟨v, m', (hfound f (hvalid.findMethod_eq_some_iff.mpr hf)).trans hb, hbound⟩
  · refine hnone ?_
    rw [Option.eq_none_iff_forall_ne_some]
    exact fun f he => hf f (hvalid.findMethod_eq_some_iff.mp he)

/-- An initializer reads `super.m`, after the name of the superclass was given another value: it is
found from the class on that had this name. -/
theorem super_finds_method_of_declared_superclass_in_initializer :
    let source := "class A{m(){}}class B<A{init(){super.m;}}A=nil;B();"
    let s := Session.start 1 .open
    Session.Past 1 .open [] s ∧ ∃ id keyword method m,
      s.Evaluates 9 source (.super id keyword method) m ∧ ∃ C closure superclass i,
        Session.DeclaredIn [⟨s, 9, source⟩] C closure superclass ∧
        m.store.get m.environment "this" = some (.instance i) := by
  intro source s
  let a := Analysis.ofSource 0 source
  let setting : Setting :=
    ⟨fun id => [(1, 2)].findSomeRev? fun e => if e.1 == id then some e.2 else none, 1, fun _ => none,
      fun _ => none⟩
  have ha : s.Accepts source := by
    unfold Session.Accepts
    decide +kernel
  -- the kernel cannot look into the table of the session
  have hsetting : (s.extend source).setting = setting := by
    have hd : a.resolution.distances = [(1, 2)] := by decide +kernel
    exact Session.setting_extend_start 1 .open hd
  have hmem : some ⟨.super, 1, ⟨"super", 1⟩⟩ ∈
      (setting.traceIn 9 a.program .initial).map fun p => p.1.expr?.bind Expr.reference? := by
    decide +kernel
  obtain ⟨⟨t, m⟩, hp, hr⟩ := List.mem_map.mp hmem
  obtain ⟨e, ht, hr⟩ := Option.bind_eq_some_iff.mp hr
  obtain rfl := Task.expr?_eq_some_iff.mp ht
  obtain ⟨method, rfl⟩ : ∃ method, e = .super 1 ⟨"super", 1⟩ method := by
    cases e <;> simp_all [Expr.reference?]
  have he : s.Evaluates 9 source (.super 1 ⟨"super", 1⟩ method) m := by
    refine ⟨ha, ?_⟩
    rw [hsetting]
    exact Setting.mem_traceIn_iff.mp hp
  obtain ⟨C, closure, superclass, k, i, hdeclared, -, -, hthis, -⟩ :=
    super_finds_method_of_declared_superclass .start 9 source he
  exact ⟨.start, _, _, method, m, he, C, closure, superclass, i, hdeclared, hthis⟩

end Lox
