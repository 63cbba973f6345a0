import Lox.Proofs.Scope.Accepted

/-!
# The bodies of a program

A `Body` is what shares one local scope: the parameters and the statements of a
function, or the statements of a block. `Stmt.bodiesAll program` lists the bodies
of a program in the order in which they begin.

* `nodup_declared_of_errors_eq_nil`: in a program without errors, no body declares
  a name twice.
-/

namespace Lox

/-- What shares one local scope. A block has no parameters. -/
structure Body where
  params : List Name
  statements : List (Stmt NodeId)

/-- The names that a body declares in its own scope. -/
def Body.declared (b : Body) : List String :=
  b.params.map Name.text ++ b.statements.flatMap Stmt.declares

mutual

/-- The bodies in a statement, in the order in which they begin. -/
def Stmt.bodies : Stmt NodeId → List Body
  | .block body => ⟨[], body⟩ :: Stmt.bodiesAll body
  | .ifElse _ thenBranch elseBranch => thenBranch.bodies ++ Stmt.bodies? elseBranch
  | .while _ body => body.bodies
  | .function declaration => declaration.bodies
  | .class _ _ methods => FunDecl.bodiesAll methods
  | .expression _ | .print _ | .var _ _ | .return _ _ => []

/-- The bodies in a statement, if there is one. -/
def Stmt.bodies? : Option (Stmt NodeId) → List Body
  | none => []
  | some s => s.bodies

/-- The bodies in several statements. -/
def Stmt.bodiesAll : List (Stmt NodeId) → List Body
  | [] => []
  | s :: ss => s.bodies ++ Stmt.bodiesAll ss

/-- The bodies in a function: its own, and those in it. -/
def FunDecl.bodies : FunDecl NodeId → List Body
  | .mk _ params body => ⟨params, body⟩ :: Stmt.bodiesAll body

/-- The bodies in several functions. -/
def FunDecl.bodiesAll : List (FunDecl NodeId) → List Body
  | [] => []
  | f :: fs => f.bodies ++ FunDecl.bodiesAll fs

end

/-! ## The innermost scope -/

/-- The innermost scope declares these names. -/
def Scopes.Holds (scopes : Scopes) (names : List String) : Prop :=
  ∃ inner outer, scopes = inner :: outer ∧ ∀ name, inner.contains name ↔ name ∈ names

namespace Scopes.Holds

variable {scopes : Scopes} {names : List String}

theorem push (scopes : Scopes) : Holds (∅ :: scopes) [] :=
  ⟨∅, scopes, rfl, fun name => by simp⟩

theorem bind (h : scopes.Holds names) (name : String) :
    (scopes.bind name).Holds (names ++ [name]) := by
  obtain ⟨inner, outer, rfl, hi⟩ := h
  refine ⟨_, outer, rfl, fun other => ?_⟩
  have ho := hi other
  simp only [Bindings.contains_insert, Bool.or_eq_true, decide_eq_true_eq, ho, List.mem_append,
    List.mem_singleton, eq_comm (a := name)]
  tauto

theorem bindAll (h : scopes.Holds names) (names' : List String) :
    (scopes.bindAll names').Holds (names ++ names') := by
  induction names' generalizing scopes names with
  | nil => rwa [List.append_nil]
  | cons name rest ih =>
    have hr := ih (h.bind name)
    rwa [List.append_assoc, List.singleton_append] at hr

/-- What is declared without error was not declared before. -/
theorem notMem_of_clean (h : scopes.Holds names) {name : Name}
    (hc : Finding.Clean (declarationFindings scopes name)) : name.text ∉ names := by
  obtain ⟨inner, outer, rfl, hi⟩ := h
  intro hm
  rw [declarationFindings, if_pos ((hi name.text).mpr hm)] at hc
  exact Finding.not_clean_error _ hc

theorem nodup_append_singleton (h : scopes.Holds names) (hn : names.Nodup) {name : Name}
    (hc : Finding.Clean (declarationFindings scopes name)) : (names ++ [name.text]).Nodup := by
  have hm := h.notMem_of_clean hc
  simp only [List.nodup_append, hn, List.nodup_singleton, List.mem_singleton, true_and]
  rintro a ha b rfl rfl
  exact hm ha

theorem nodup_append_params (h : scopes.Holds names) (hn : names.Nodup) {params : List Name}
    (hc : Finding.Clean (resolveParams scopes params).2) :
    (names ++ params.map Name.text).Nodup := by
  induction params generalizing scopes names with
  | nil => rwa [List.map_nil, List.append_nil]
  | cons p ps ih =>
    rw [resolveParams_cons, Finding.clean_append] at hc
    have hs := ih (h.bind p.text) (h.nodup_append_singleton hn hc.1) hc.2
    rwa [List.append_assoc, List.singleton_append] at hs

theorem nodup_append_declares (h : scopes.Holds names) (hn : names.Nodup) {context : Context}
    {s : Stmt NodeId} (hc : Finding.Clean (s.resolve context scopes).2) :
    (names ++ s.declares).Nodup := by
  cases s with
  | var name initializer =>
    simp only [Stmt.resolve, Finding.clean_append] at hc
    exact h.nodup_append_singleton hn hc.1
  | function declaration =>
    simp only [Stmt.resolve, Finding.clean_append] at hc
    exact h.nodup_append_singleton hn hc.1
  | «class» name superclass methods =>
    simp only [Stmt.resolve, Finding.clean_append] at hc
    exact h.nodup_append_singleton hn hc.1.1
  | _ => simpa only [Stmt.declares, List.append_nil] using hn

theorem nodup_append_flatMap (h : scopes.Holds names) (hn : names.Nodup) {context : Context}
    {ss : List (Stmt NodeId)} (hw : Stmt.WellFormedAll ss)
    (hc : Finding.Clean (Stmt.resolveAll context scopes ss).2) :
    (names ++ ss.flatMap Stmt.declares).Nodup := by
  induction ss generalizing scopes names with
  | nil => rwa [List.flatMap_nil, List.append_nil]
  | cons s ss ih =>
    obtain ⟨hs, hss⟩ := hw
    rw [Stmt.resolveAll_cons, Finding.clean_append, Stmt.fst_resolve hs] at hc
    have hr := ih (h.bindAll s.declares) (h.nodup_append_declares hn hc.1) hss hc.2
    rwa [List.append_assoc, ← List.flatMap_cons] at hr

end Scopes.Holds

/-! ## Programs without errors -/

mutual

/-- In a statement without errors, no body declares a name twice. -/
theorem Stmt.nodup_declared {context : Context} {scopes : Scopes} :
    {s : Stmt NodeId} → s.WellFormed → Finding.Clean (s.resolve context scopes).2 →
      ∀ b ∈ s.bodies, b.declared.Nodup
  | .expression _, _, _ => by simp [Stmt.bodies]
  | .print _, _, _ => by simp [Stmt.bodies]
  | .var _ _, _, _ => by simp [Stmt.bodies]
  | .return _ _, _, _ => by simp [Stmt.bodies]
  | .block body, hw, h => by
    rw [Stmt.resolve] at h
    rw [Stmt.bodies, List.forall_mem_cons]
    refine ⟨?_, Stmt.nodup_declaredAll hw h⟩
    exact (Scopes.Holds.push scopes).nodup_append_flatMap .nil hw h
  | .ifElse _ _ _, ⟨_, ⟨_, hthen⟩, helse⟩, h => by
    rw [Stmt.resolve_ifElse, Finding.clean_append, Finding.clean_append] at h
    rw [Stmt.bodies, List.forall_mem_append]
    exact ⟨Stmt.nodup_declared hthen h.1.2, Stmt.nodup_declared? helse h.2⟩
  | .while _ _, ⟨_, _, hb⟩, h => by
    rw [Stmt.resolve_while, Finding.clean_append] at h
    rw [Stmt.bodies]
    exact Stmt.nodup_declared hb h.2
  | .function _, hw, h => by
    rw [Stmt.resolve, Finding.clean_append] at h
    rw [Stmt.bodies]
    exact FunDecl.nodup_declared hw h.2
  | .class _ _ _, ⟨_, _, hm⟩, h => by
    simp only [Stmt.resolve, Finding.clean_append] at h
    rw [Stmt.bodies]
    exact FunDecl.nodup_declaredAll hm h.2

theorem Stmt.nodup_declared? {context : Context} {scopes : Scopes} :
    {o : Option (Stmt NodeId)} → Stmt.WellFormed? o →
      Finding.Clean (Stmt.resolve? context scopes o).2 →
        ∀ b ∈ Stmt.bodies? o, b.declared.Nodup
  | none, _, _ => by simp [Stmt.bodies?]
  | some _, hw, h => by
    rw [Stmt.resolve?] at h
    rw [Stmt.bodies?]
    exact Stmt.nodup_declared hw.2 h

theorem Stmt.nodup_declaredAll {context : Context} {scopes : Scopes} :
    {ss : List (Stmt NodeId)} → Stmt.WellFormedAll ss →
      Finding.Clean (Stmt.resolveAll context scopes ss).2 →
        ∀ b ∈ Stmt.bodiesAll ss, b.declared.Nodup
  | [], _, _ => by simp [Stmt.bodiesAll]
  | _ :: _, ⟨hs, hss⟩, h => by
    rw [Stmt.resolveAll_cons, Finding.clean_append] at h
    rw [Stmt.bodiesAll, List.forall_mem_append]
    exact ⟨Stmt.nodup_declared hs h.1, Stmt.nodup_declaredAll hss h.2⟩

theorem FunDecl.nodup_declared {context : Context} {scopes : Scopes} :
    {f : FunDecl NodeId} → f.WellFormed → Finding.Clean (f.resolve context scopes) →
      ∀ b ∈ f.bodies, b.declared.Nodup
  | .mk _ params _, ⟨_, _, hb⟩, h => by
    rw [FunDecl.resolve_mk, Finding.clean_append] at h
    rw [FunDecl.bodies, List.forall_mem_cons]
    refine ⟨?_, Stmt.nodup_declaredAll hb h.2⟩
    -- the statements of the body come after its parameters, in the same scope
    have hp := Scopes.Holds.push scopes
    have hn := hp.nodup_append_params .nil h.1
    have hi := hp.bindAll (params.map Name.text)
    rw [fst_resolveParams] at h
    exact hi.nodup_append_flatMap hn hb h.2

theorem FunDecl.nodup_declaredAll {context : Context} {scopes : Scopes} :
    {fs : List (FunDecl NodeId)} → FunDecl.WellFormedAll fs →
      Finding.Clean (FunDecl.resolveMethods context scopes fs) →
        ∀ b ∈ FunDecl.bodiesAll fs, b.declared.Nodup
  | [], _, _ => by simp [FunDecl.bodiesAll]
  | _ :: _, ⟨hf, hfs⟩, h => by
    rw [FunDecl.resolveMethods, Finding.clean_append] at h
    rw [FunDecl.bodiesAll, List.forall_mem_append]
    exact ⟨FunDecl.nodup_declared hf h.1, FunDecl.nodup_declaredAll hfs h.2⟩

end

/-- In a program without errors, no body declares a name twice. -/
theorem nodup_declared_of_errors_eq_nil {program : List (Stmt NodeId)}
    (hw : Stmt.WellFormedAll program) (h : (resolve program).errors = []) :
    ∀ b ∈ Stmt.bodiesAll program, b.declared.Nodup :=
  Stmt.nodup_declaredAll hw (Finding.clean_iff_errors_eq_nil.mpr h)

end Lox
