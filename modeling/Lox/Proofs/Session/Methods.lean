import Lox.Proofs.Evaluation.Origins
import Lox.Proofs.Evaluation.Recoding
import Lox.Proofs.Scope.Bodies
import Lox.Proofs.Session.FrameTree

/-!
# Methods and arguments in a session

A class has the methods of its declaration, and behind them those of its superclasses. Each time a
function is called, there are as many arguments as it has parameters: of those with which a class is
called its initializer gets them all, which may be the one of a superclass.

* `Code.bodies_subset`: the bodies in a part of some code are bodies in that code;
* `Session.Past.written`: all functions and classes of a session come from the sources that it ran;
* `methods_follow_nearest_declaration`: in all states of a session a method is found at the first class
  that declares one of its name, and the frame of a call binds every parameter.
-/

namespace Lox

/-! ## Bodies in code -/

theorem Stmt.bodies_subset_of_mem {statement : Stmt NodeId} {ss : List (Stmt NodeId)}
    (h : statement ∈ ss) : statement.bodies ⊆ Stmt.bodiesAll ss := by
  induction ss with
  | nil => cases h
  | cons s ss ih =>
    rw [bodiesAll]
    rcases List.mem_cons.mp h with rfl | h
    · exact List.subset_append_left _ _
    · exact List.Subset.trans (ih h) (List.subset_append_right _ _)

theorem FunDecl.bodies_subset_of_mem {d : FunDecl NodeId} {ds : List (FunDecl NodeId)} (h : d ∈ ds) :
    d.bodies ⊆ FunDecl.bodiesAll ds := by
  induction ds with
  | nil => cases h
  | cons d' ds ih =>
    rw [bodiesAll]
    rcases List.mem_cons.mp h with rfl | h
    · exact List.subset_append_left _ _
    · exact List.Subset.trans (ih h) (List.subset_append_right _ _)

namespace Code

variable {c c' : Code}

/-- The bodies in a piece of code. -/
def bodies : Code → List Body
  | .expr _ => []
  | .stmt statement => statement.bodies
  | .decl declaration => declaration.bodies

theorem bodies_eq_nil_of_mem_map_expr {es : List (Expr NodeId)} (h : c' ∈ es.map .expr) :
    c'.bodies = [] := by
  obtain ⟨e, -, rfl⟩ := List.mem_map.mp h
  rfl

theorem bodies_subset_of_mem_map_stmt {ss : List (Stmt NodeId)} (h : c' ∈ ss.map .stmt) :
    c'.bodies ⊆ Stmt.bodiesAll ss := by
  obtain ⟨s, hs, rfl⟩ := List.mem_map.mp h
  exact Stmt.bodies_subset_of_mem hs

theorem bodies_subset_of_mem_parts (h : c' ∈ c.parts) : c'.bodies ⊆ c.bodies := by
  cases c with
  | expr e =>
    obtain ⟨e', rfl⟩ := (Within.part h (.refl c')).exists_expr
    exact List.nil_subset _
  | decl declaration =>
    cases declaration with
    | mk name params body =>
      exact List.Subset.trans (bodies_subset_of_mem_map_stmt h) (List.subset_cons_self _ _)
  | stmt statement =>
    cases statement with
    | expression | print =>
      obtain rfl := List.mem_singleton.mp h
      exact List.nil_subset _
    | var | «return» =>
      rw [bodies_eq_nil_of_mem_map_expr h]
      exact List.nil_subset _
    | block body =>
      exact List.Subset.trans (bodies_subset_of_mem_map_stmt h) (List.subset_cons_self _ _)
    | ifElse condition thenBranch elseBranch =>
      rcases List.mem_cons.mp h with rfl | h
      · exact List.nil_subset _
      rcases List.mem_cons.mp h with rfl | h
      · exact List.subset_append_left _ _
      · cases elseBranch with
        | none => cases h
        | some elseBranch =>
          obtain rfl := List.mem_singleton.mp h
          exact List.subset_append_right _ _
    | «while» condition body =>
      rcases List.mem_cons.mp h with rfl | h
      · exact List.nil_subset _
      · obtain rfl := List.mem_singleton.mp h
        exact List.Subset.refl _
    | function declaration =>
      obtain rfl := List.mem_singleton.mp h
      exact List.Subset.refl _
    | «class» name superclass methods =>
      rcases List.mem_append.mp h with h | h
      · rw [bodies_eq_nil_of_mem_map_expr h]
        exact List.nil_subset _
      · obtain ⟨d, hd, rfl⟩ := List.mem_map.mp h
        exact FunDecl.bodies_subset_of_mem hd

/-- The bodies in a part of some code, at any depth, are bodies in that code. -/
theorem bodies_subset (h : c'.Within c) : c'.bodies ⊆ c.bodies := by
  induction h with
  | refl => exact List.Subset.refl _
  | part hp _ ih => exact List.Subset.trans ih (bodies_subset_of_mem_parts hp)

end Code

/-! ## Code of a session -/

namespace Session

variable {maxDepth : Nat} {sink : Sink} {steps : List Step} {s s' : Session} {fuel : Nat}
  {source : String} {m : Machine}

/-- The code stands in a source without static errors that was run in one of these steps. -/
def WrittenIn (steps : List Step) (c : Code) : Prop :=
  ∃ r ∈ steps, r.session.Accepts r.source ∧
    ∃ statement ∈ (Analysis.ofSource r.session.nextId r.source).program, c.Within (.stmt statement)

theorem WrittenIn.mono {steps' : List Step} (hs : steps ⊆ steps') {c : Code}
    (h : WrittenIn steps c) : WrittenIn steps' c := by
  obtain ⟨r, hr, h⟩ := h
  exact ⟨r, hs hr, h⟩

/-- The parameters of a function that was accepted have names of their own. -/
theorem WrittenIn.nodup_params {declaration : FunDecl NodeId}
    (h : WrittenIn steps (.decl declaration)) : (declaration.params.map Name.text).Nodup := by
  obtain ⟨r, -, ha, statement, hs, hw⟩ := h
  have hbody : ⟨declaration.params, declaration.body⟩ ∈
      Stmt.bodiesAll (Analysis.ofSource r.session.nextId r.source).program := by
    refine Stmt.bodies_subset_of_mem hs (Code.bodies_subset hw ?_)
    cases declaration with
    | mk name params body => exact List.mem_cons_self
  have hdeclared := nodup_declared_of_errors_eq_nil
    (Analysis.wellFormedAll_program r.session.nextId r.source) (Analysis.errors_eq_nil ha) _ hbody
  exact (List.nodup_append.mp hdeclared).1

theorem codes_writing (ha : s.Accepts source) (fuel : Nat) (steps : List Step) (m : Machine) :
    (writing (WrittenIn (steps ++ [⟨s, fuel, source⟩]))).Codes
      (Analysis.ofSource s.nextId source).program m :=
  fun statement hs _ hw =>
    ⟨_, List.mem_append_right _ (List.mem_singleton_self _), ha, statement, hs, hw⟩

/-- The functions and classes of a session come from the sources that it ran. -/
theorem Past.written (h : Past maxDepth sink steps s) :
    s.machine.store.Written (WrittenIn steps) := by
  induction h with
  | start =>
    refine ⟨fun hf => ?_, fun hc => ?_⟩
    · simp [Session.start] at hf
    · simp [Session.start] at hc
  | @run steps s s' fuel source report _ hr ih =>
    have hs : s.machine.store.Written (WrittenIn (steps ++ [⟨s, fuel, source⟩])) :=
      ih.mono fun _ hc => hc.mono (List.subset_append_left _ _)
    by_cases ha : s.Accepts source
    · exact keeps_run (lawful_writing _) ha hr (declares_writing _ _ _) hs
        (codes_writing ha fuel steps _)
    · obtain rfl := run_of_not_accepts ha hr
      exact hs
  | redirect _ _ ih => exact ih

/-- So it is in all states of a session. -/
theorem Past.written_of_mem_states (h : Past maxDepth sink steps s)
    (hm : m ∈ (steps ++ [(⟨s, fuel, source⟩ : Step)]).flatMap Step.states) :
    m.store.Written (WrittenIn (steps ++ [⟨s, fuel, source⟩])) := by
  have hstep {steps' : List Step} {r : Step} (hr : Past maxDepth sink steps' r.session)
      (hm : m ∈ r.states) : m.store.Written (WrittenIn (steps' ++ [r])) := by
    have hs : r.session.machine.store.Written (WrittenIn (steps' ++ [r])) :=
      hr.written.mono fun _ hc => hc.mono (List.subset_append_left _ _)
    by_cases ha : r.session.Accepts r.source
    · rw [states_of_accepts ha] at hm
      rcases List.mem_cons.mp hm with rfl | hm
      · exact hs
      · exact (lawful_writing _).store_of_mem_statesIn (m := { r.session.machine with depth := 0 })
          (declares_writing _ _ _) hs (codes_writing ha r.fuel steps' _) hm
    · rw [states_of_not_accepts ha] at hm
      obtain rfl := List.mem_singleton.mp hm
      exact hs
  obtain ⟨r, hr, hm⟩ := List.mem_flatMap.mp hm
  rcases List.mem_append.mp hr with hr | hr
  · obtain ⟨steps', hs, hsub⟩ := h.exists_past_of_mem hr
    have hsub := List.Subset.trans hsub (List.subset_append_left steps [⟨s, fuel, source⟩])
    exact (hstep hs hm).mono fun _ hc => hc.mono hsub
  · obtain rfl := List.mem_singleton.mp hr
    exact hstep h hm

/-- A function that a run calls comes from a source of the session. -/
theorem Past.writtenIn_of_enter (h : Past maxDepth sink steps s) (ha : s.Accepts source)
    {f : FunctionObject} {arguments : List Value} {line : Nat}
    (ho : s.Occurs fuel source (.enter f arguments line) m) :
    WrittenIn (steps ++ [⟨s, fuel, source⟩]) (.decl f.declaration) := by
  have hs : s.machine.store.Written (WrittenIn (steps ++ [⟨s, fuel, source⟩])) :=
    h.written.mono fun _ hc => hc.mono (List.subset_append_left _ _)
  obtain ⟨-, hcode, -⟩ := (lawful_writing _).pre_of_reachesIn (m := { s.machine with depth := 0 })
    (declares_writing _ _ _) (fun _ _ h => h) hs (codes_writing ha fuel steps _) ho
  exact hcode.self

/-- It is called with as many arguments as it has parameters. -/
theorem Past.length_of_enter (h : Past maxDepth sink steps s) (ha : s.Accepts source)
    {f : FunctionObject} {arguments : List Value} {line : Nat}
    (ho : s.Occurs fuel source (.enter f arguments line) m) :
    arguments.length = f.declaration.params.length := by
  obtain ⟨vs, hk⟩ := h.exists_kept
  exact ((hk.settled.ready ha).pre_of_reachesIn (hk.settled.extend ha).knows ho).2.2

end Session

/-! ## Calls -/

section

variable {go : (t : Task) → Machine → Outcome t.Answer} {t : Task} {m m' : Machine}

theorem Plan.not_starts_finish {α : Type} {o : Outcome α} : ¬ (Plan.finish o).Starts go t m :=
  nofun

/-- A plan that starts one task and then ends. -/
theorem Plan.eq_of_starts {α : Type} {u : Task} {exit : Exit} {o : u.Answer → Machine → Outcome α}
    (h : (Plan.start u m exit fun a m => .finish (o a m)).Starts go t m') : t = u ∧ m' = m := by
  cases h with
  | first => exact ⟨rfl, rfl⟩
  | later _ hu => exact absurd hu not_starts_finish

/-- A call enters the function that is called, with its arguments, or the initializer of the class, bound
to the new instance. -/
theorem Value.enters_of_call {callee : Value} {arguments : List Value} {line : Nat}
    (h : (callee.callPlan arguments line m).Starts go t m') :
    ∃ f, t = .enter f arguments line ∧ arguments.length = f.declaration.params.length ∧
      ((∃ id, callee = .function id ∧ m.store.function? id = some f) ∨
        ∃ id method, callee = .class id ∧ m.store.findMethod id initializerName = some method ∧
          f.declaration = method.declaration) := by
  cases callee with
  | function id =>
    rw [callPlan, callRule] at h
    cases hf : m.store.function? id with
    | none =>
      rw [hf] at h
      exact absurd h Plan.not_starts_finish
    | some f =>
      simp only [hf] at h
      split at h
      · next ha => exact ⟨f, (Plan.eq_of_starts h).1, ha, .inl ⟨id, rfl, hf⟩⟩
      · exact absurd h Plan.not_starts_finish
  | «class» id =>
    rw [callPlan, callRule] at h
    split at h
    · next ha =>
      have hfind := m.store.findMethod_addInstance ⟨id, ∅⟩ id initializerName
      cases hf : m.store.findMethod id initializerName with
      | none =>
        simp only [hfind, hf] at h
        exact absurd h Plan.not_starts_finish
      | some method =>
        simp only [hfind, hf] at h
        rw [Store.classArity, hf] at ha
        exact ⟨_, (Plan.eq_of_starts h).1, ha, .inr ⟨id, method, rfl, hf, rfl⟩⟩
    · exact absurd h Plan.not_starts_finish
  | _ => exact absurd h Plan.not_starts_finish

/-- A function starts its body in the frame of the call. -/
theorem FunctionObject.eq_of_starts {s : Setting} {f : FunctionObject} {arguments : List Value}
    {line : Nat} (h : (f.plan s arguments line m).Starts go t m') :
    t = .executeAll f.declaration.body ∧ m' = f.inside arguments m := by
  rw [plan, rule] at h
  split at h
  · exact absurd h Plan.not_starts_finish
  · exact Plan.eq_of_starts h

/-- The frame of a call binds each parameter to the argument at its place. -/
theorem FunctionObject.own?_inside {f : FunctionObject} {arguments : List Value}
    (hn : (f.declaration.params.map Name.text).Nodup)
    (hlength : arguments.length = f.declaration.params.length) (m : Machine) {i : Nat} {name : String}
    (hi : (f.declaration.params.map Name.text)[i]? = some name) :
    (f.inside arguments m).store.own? (f.inside arguments m).environment name = arguments[i]? := by
  have hi' : i < arguments.length := by
    rw [hlength, ← f.declaration.params.length_map Name.text]
    exact (List.getElem?_eq_some_iff.mp hi).1
  have hzip : ((f.declaration.params.map Name.text).zip arguments)[i]? = some (name, arguments[i]) :=
    List.getElem?_zip_eq_some.mpr ⟨hi, List.getElem?_eq_getElem hi'⟩
  have hkeys : (((f.declaration.params.map Name.text).zip arguments).map Prod.fst).Nodup := by
    rwa [List.map_fst_zip (by simp [hlength])]
  rw [Store.own?, frame?_inside hn hlength, Option.bind_some, List.getElem?_eq_getElem hi']
  exact Bindings.find?_of_mem hkeys (List.mem_of_getElem? hzip)

/-- Each expression gives one value. -/
theorem length_evaluateAll {n : Nat} {s : Setting} {es : List (Expr NodeId)} {values : List Value}
    (h : evaluateAll n s es m = .done values m') : values.length = es.length := by
  induction es generalizing n values m m' with
  | nil =>
    cases n with
    | zero => cases h
    | succ n =>
      obtain ⟨rfl, -⟩ := Outcome.done.inj h
      rfl
  | cons e es ih =>
    cases n with
    | zero => cases h
    | succ n =>
      obtain ⟨value, m₁, -, h⟩ := Outcome.exists_of_bind_eq_done h
      obtain ⟨rest, m₂, hes, h⟩ := Outcome.exists_of_bind_eq_done h
      obtain ⟨rfl, -⟩ := Outcome.done.inj h
      rw [List.length_cons, List.length_cons, ih hes]

end

/-! ## The property -/

/-- Methods and initializers come from the nearest declaration, and calls drop no argument. In a session
that ran any sources and runs one more, in all its states: there is a chain of classes from each class
up, and the method of some name that is found is that of the first class on it that has one, if any has
one; a class is called with as many arguments as the initializer so found has parameters, or with none.
Every class was declared in a source of the session, with or without a superclass, and has the methods
that stand there, the last of those with the same name.

Whenever the run of the source enters a function, in whatever way it is called: there are as many
arguments as parameters; the frame in which the body starts binds each parameter to the argument at its
place, and nothing else. A call enters the function that is called, which may be a method bound
to an instance, or the initializer of the class that is called; and the arguments are the values of as
many expressions. Entering a function and calling a value are runs of the plans that are spoken of
here. -/
theorem methods_follow_nearest_declaration {maxDepth : Nat} {sink : Sink} {steps : List Session.Step}
    {s : Session} (h : Session.Past maxDepth sink steps s) (fuel : Nat) (source : String) :
    let steps' := steps ++ [(⟨s, fuel, source⟩ : Session.Step)]
    let setting := (s.extend source).setting
    (∀ m ∈ steps'.flatMap Session.Step.states,
      (∀ id, ∃ ids, Path m.store.superclass? id ids ∧
        (∀ name, m.store.findMethod id name = ids.findSome? (m.store.ownMethod? · name) ∧
          (m.store.findMethod id name = none ↔ ∀ c ∈ ids, m.store.ownMethod? c name = none)) ∧
        m.store.classArity id = ((ids.findSome? (m.store.ownMethod? · initializerName)).map
          fun f : FunctionObject => f.declaration.params.length).getD 0) ∧
      ∀ id c, m.store.class? id = some c → ∃ name superclass methods closure,
        Session.WrittenIn steps' (.stmt (.class name superclass methods)) ∧
        c.name = name.text ∧ c.superclass.isSome = superclass.isSome ∧
        ∀ method, m.store.ownMethod? id method =
          (methods.reverse.find? fun d => d.name.text = method).map fun d =>
            ⟨d, closure, d.isInitializer⟩) ∧
    (s.Accepts source → ∀ f arguments line m, s.Occurs fuel source (.enter f arguments line) m →
      let inside := f.inside arguments m
      let names := f.declaration.params.map Name.text
      arguments.length = f.declaration.params.length ∧
      inside.store.frame? inside.environment = some ⟨⟨names.zip arguments⟩, some f.closure⟩ ∧
      (∀ (i : Nat) (name : String), names[i]? = some name →
        inside.store.own? inside.environment name = arguments[i]?) ∧
      (∀ n, enter (n + 1) setting f arguments line m =
        (f.plan setting arguments line m).runWith n setting) ∧
      ∀ go t m', (f.plan setting arguments line m).Starts go t m' →
        t = .executeAll f.declaration.body ∧ m' = inside) ∧
    (∀ (callee : Value) arguments line m,
      (∀ n, call (n + 1) setting callee arguments line m =
        (callee.callPlan arguments line m).runWith n setting) ∧
      ∀ go t m', (callee.callPlan arguments line m).Starts go t m' →
        ∃ f, t = .enter f arguments line ∧ arguments.length = f.declaration.params.length ∧
          ((∃ id, callee = .function id ∧ m.store.function? id = some f) ∨
            ∃ id method, callee = .class id ∧
              m.store.findMethod id initializerName = some method ∧
              f.declaration = method.declaration)) ∧
    ∀ n es m values m', evaluateAll n setting es m = .done values m' →
      values.length = es.length := by
  intro steps' setting
  refine ⟨fun m hm => ⟨fun id => ?_, fun id c hc => ?_⟩, fun ha f arguments line m ho => ?_,
    fun callee arguments line m => ⟨fun n => (callee.runWith_callPlan n setting arguments line m).symm,
      fun _ _ _ => Value.enters_of_call⟩, fun _ _ _ _ _ => length_evaluateAll⟩
  · obtain ⟨htree, -⟩ := h.isTree_of_mem_states hm
    obtain ⟨ids, hp, -⟩ := htree.exists_superclass_path id
    have hfind (name : String) :
        m.store.findMethod id name = ids.findSome? (m.store.ownMethod? · name) :=
      hp.search_eq_findSome? fun c => htree.findMethod_eq c name
    refine ⟨ids, hp, fun name => ⟨hfind name, ?_⟩, ?_⟩
    · rw [hfind, List.findSome?_eq_none_iff]
    · rw [Store.classArity, hfind]
      cases ids.findSome? _ <;> rfl
  · obtain ⟨name, superclass, methods, closure, hd, hall⟩ := (h.written_of_mem_states hm).class hc
    refine ⟨name, superclass, methods, closure, hall.self, hd.name, hd.superclass, fun method => ?_⟩
    rw [Store.ownMethod?, hc, Option.bind_some, hd.methods, get?_methodTable]
  · intro inside names
    have hlength := h.length_of_enter ha ho
    have hnodup := (h.writtenIn_of_enter ha ho).nodup_params
    have hframe := FunctionObject.frame?_inside hnodup hlength m
    exact ⟨hlength, hframe, fun _ _ hi => FunctionObject.own?_inside hnodup hlength m hi,
      fun n => (f.runWith_plan n setting arguments line m).symm,
      fun _ _ _ => FunctionObject.eq_of_starts⟩

/-- A class is called that has no initializer, and its superclass has two: the last one gets both
arguments. -/
theorem methods_follow_nearest_declaration_in_inherited_initializer :
    let source := "class A{init(){}init(a,b){}}class B<A{}B(1,2);"
    let s := Session.start 5 .open
    Session.Past 5 .open [] s ∧ s.Accepts source ∧
      ∃ f arguments line m, s.Occurs 12 source (.enter f arguments line) m ∧ arguments.length = 2 ∧
        f.declaration.params.map Name.text = ["a", "b"] ∧
        (f.inside arguments m).store.frame? (f.inside arguments m).environment =
          some ⟨⟨["a", "b"].zip arguments⟩, some f.closure⟩ := by
  intro source s
  let a := Analysis.ofSource 0 source
  let setting : Setting := ⟨fun _ => none, 5, fun _ => none, fun _ => none⟩
  have ha : s.Accepts source := by
    unfold Session.Accepts
    decide +kernel
  -- the kernel cannot look into the table of the session
  have hsetting : (s.extend source).setting = setting := by
    have hd : a.resolution.distances = [] := by decide +kernel
    exact Session.setting_extend_start 5 .open hd
  have hany : (setting.traceIn 12 a.program .initial).any (fun p => p.1.entered?.any fun q =>
      q.1.declaration.params.map Name.text = ["a", "b"] && q.2.length = 2) = true := by
    decide +kernel
  obtain ⟨⟨t, m⟩, hp, ht⟩ := List.any_eq_true.mp hany
  obtain ⟨⟨f, arguments⟩, hentered, hf⟩ := (Option.any_eq_true _ _).mp ht
  obtain ⟨line, rfl⟩ := Task.entered?_eq_some_iff.mp hentered
  simp only [Bool.and_eq_true, decide_eq_true_eq] at hf
  have ho : s.Occurs 12 source (.enter f arguments line) m := by
    unfold Session.Occurs
    rw [hsetting]
    exact Setting.mem_traceIn_iff.mp hp
  obtain ⟨-, hcalls, -⟩ := methods_follow_nearest_declaration .start 12 source
  obtain ⟨-, hframe, -⟩ := hcalls ha f arguments line m ho
  rw [hf.1] at hframe
  exact ⟨.start, ha, f, arguments, line, m, ho, hf.2, hf.1, hframe⟩

end Lox
