import Lox.Proofs.Evaluation.Code
import Lox.Proofs.Scope.Accepted

/-!
# Where `super` stands

A `super` belongs to the class declaration that is nearest around it: it lies in one
of the methods, in so many functions and blocks, and no other class lies between
(`Code.Lies`). In a program without errors the nearest class has a superclass, and
the walk finds `super` one scope further out than the functions and blocks around it.

* `Code.Walked`: the walk finds no error in a piece of code. So it is with its parts
  (`Code.Walked.part`), with the methods of a class (`Code.Walked.method`), and with everything that
  lies in it (`Code.Walked.lies`);
* `Code.Walked.free`, `Code.Walked.locates`: so `super` stands in methods of subclasses only, at the
  distance at which it lies there;
* `all_resolved_of_errors_eq_nil`: all classes of a program without errors are so.
-/

namespace Lox

namespace Code

/-! ## Code in code -/

/-- A piece of code lies in another one, in so many functions and blocks of it, and in no class of
it. -/
inductive Lies (c : Code) : Nat → Code → Prop where
  | here : Lies c 0 c
  | inside {k : Nat} {c₁ c₂ : Code} (h : Lies c k c₁) (hn : ¬ c₁.IsClass) (hp : c₂ ∈ c₁.parts) :
    Lies c (k + c₁.opens) c₂

/-- What lies in a part lies in the whole. -/
theorem Lies.of_part {c c' c'' : Code} {k : Nat} (h : Lies c' k c'') (hn : ¬ c.IsClass)
    (hp : c' ∈ c.parts) : c.Lies (k + c.opens) c'' := by
  induction h with
  | here => exact .inside .here hn hp
  | inside _ hn₁ hp₁ ih =>
    have hin := ih.inside hn₁ hp₁
    rwa [Nat.add_right_comm] at hin

/-- Nothing but itself lies in code without parts. -/
theorem Lies.eq_of_parts_eq_nil {c c' : Code} {k : Nat} (h : c.Lies k c') (hp : c.parts = []) :
    c' = c := by
  induction h with
  | here => rfl
  | inside _ _ hmem ih =>
    rw [ih, hp] at hmem
    cases hmem

/-- No `super` lies in a piece of code. -/
def Free (c : Code) : Prop :=
  ∀ k id keyword method, ¬ c.Lies k (.expr (.super id keyword method))

theorem Free.part {c c' : Code} (h : c.Free) (hn : ¬ c.IsClass) (hp : c' ∈ c.parts) : c'.Free :=
  fun _ _ _ _ hl => h _ _ _ _ (hl.of_part hn hp)

/-- Every `super` that lies in a method was visited, and found one scope further out than it lies. -/
def Locates (vs : List Visit) (c : Code) : Prop :=
  ∀ k id keyword method, c.Lies k (.expr (.super id keyword method)) →
    keyword.text = "super" ∧ ∃ v ∈ vs, v.reference = ⟨.super, id, keyword⟩ ∧ v.distance? = some (k + 1)

/-! ## Well-formed code -/

/-- What code of a source is like. -/
def WellFormed : Code → Prop
  | .expr e => e.WellFormed
  | .stmt statement => statement.WellFormed
  | .decl declaration => declaration.WellFormed

theorem wellFormed_map_expr {es : List (Expr NodeId)} (h : Expr.WellFormedAll es) :
    ∀ c ∈ es.map Code.expr, c.WellFormed := by
  induction es with
  | nil => simp
  | cons e es ih => exact List.forall_mem_cons.mpr ⟨h.1, ih h.2⟩

theorem wellFormed_map_stmt {ss : List (Stmt NodeId)} (h : Stmt.WellFormedAll ss) :
    ∀ c ∈ ss.map Code.stmt, c.WellFormed := by
  induction ss with
  | nil => simp
  | cons s ss ih => exact List.forall_mem_cons.mpr ⟨h.1, ih h.2⟩

theorem wellFormed_map_decl {ds : List (FunDecl NodeId)} (h : FunDecl.WellFormedAll ds) :
    ∀ c ∈ ds.map Code.decl, c.WellFormed := by
  induction ds with
  | nil => simp
  | cons d ds ih => exact List.forall_mem_cons.mpr ⟨h.1, ih h.2⟩

theorem wellFormed_toList {e? : Option (Expr NodeId)} (h : Expr.WellFormed? e?) :
    ∀ c ∈ e?.toList.map Code.expr, c.WellFormed := by
  cases e? with
  | none => simp
  | some e => exact List.forall_mem_singleton.mpr h

/-- The parts of well-formed code are well-formed. -/
theorem WellFormed.part {c : Code} (h : c.WellFormed) : ∀ c' ∈ c.parts, c'.WellFormed := by
  cases c with
  | expr e =>
    cases e with
    | literal | «variable» | this | super => simp [parts]
    | group | get => exact List.forall_mem_singleton.mpr h
    | unary | assign => exact List.forall_mem_singleton.mpr h.2
    | binary | logical => exact List.forall_mem_cons.mpr ⟨h.2.1, List.forall_mem_singleton.mpr h.2.2⟩
    | set => exact List.forall_mem_cons.mpr ⟨h.1, List.forall_mem_singleton.mpr h.2⟩
    | call => exact List.forall_mem_cons.mpr ⟨h.1, wellFormed_map_expr h.2⟩
  | stmt statement =>
    cases statement with
    | expression | print | function => exact List.forall_mem_singleton.mpr h
    | var => exact wellFormed_toList h.2
    | «return» => exact wellFormed_toList h
    | block => exact wellFormed_map_stmt h
    | ifElse condition thenBranch elseBranch =>
      obtain ⟨hcond, hthen, helse⟩ := h
      refine List.forall_mem_cons.mpr ⟨hcond, List.forall_mem_cons.mpr ⟨hthen.2, ?_⟩⟩
      cases elseBranch with
      | none => simp
      | some elseBranch => exact List.forall_mem_singleton.mpr helse.2
    | «while» => exact List.forall_mem_cons.mpr ⟨h.1, List.forall_mem_singleton.mpr h.2.2⟩
    | «class» name superclass methods =>
      obtain ⟨-, hs, hm⟩ := h
      refine List.forall_mem_append.mpr ⟨wellFormed_toList ?_, wellFormed_map_decl hm⟩
      cases superclass with
      | none => trivial
      | some e =>
        obtain ⟨id, own, rfl, hown⟩ := (hs e rfl).exists_eq
        exact hown
  | decl declaration =>
    cases declaration with
    | mk name params body => exact wellFormed_map_stmt h.2.2

theorem WellFormed.within {c c' : Code} (h : c.WellFormed) (hw : c'.Within c) : c'.WellFormed := by
  induction hw with
  | refl => exact h
  | part hp _ ih => exact ih (h.part _ hp)

/-! ## Code that was walked -/

/-- What the walk finds in a piece of code. -/
def findings (context : Context) (scopes : Scopes) : Code → List Finding
  | .expr e => e.resolve context scopes
  | .stmt statement => (statement.resolve context scopes).2
  | .decl declaration => declaration.resolve context scopes

/-- The visits of a piece of code. -/
def visits (scopes : Scopes) : Code → List Visit
  | .expr e => e.visits scopes
  | .stmt statement => statement.visits scopes
  | .decl declaration => declaration.visits scopes

/-- The walk comes to a piece of code in a class of this kind, where `super` lies so many scopes out,
and finds no error. Its visits are among these. -/
def Walked (vs : List Visit) (inClass : ClassContext) (distance : Option Nat) (c : Code) : Prop :=
  ∃ context scopes, Finding.Clean (c.findings context scopes) ∧ c.visits scopes ⊆ vs ∧
    context.inClass = inClass ∧ scopes.distance? "super" = distance

section

variable {vs : List Visit} {context : Context} {scopes : Scopes}

theorem walked_map_expr {es : List (Expr NodeId)}
    (h : Finding.Clean (Expr.resolveAll context scopes es)) (hv : Expr.visitsAll scopes es ⊆ vs) :
    ∀ c ∈ es.map Code.expr, c.Walked vs context.inClass (scopes.distance? "super") := by
  induction es with
  | nil => simp
  | cons e es ih =>
    rw [Expr.resolveAll, Finding.clean_append] at h
    rw [Expr.visitsAll, List.append_subset] at hv
    exact List.forall_mem_cons.mpr ⟨⟨context, scopes, h.1, hv.1, rfl, rfl⟩, ih h.2 hv.2⟩

theorem walked_toList {e? : Option (Expr NodeId)}
    (h : Finding.Clean (Expr.resolve? context scopes e?)) (hv : Expr.visits? scopes e? ⊆ vs) :
    ∀ c ∈ e?.toList.map Code.expr, c.Walked vs context.inClass (scopes.distance? "super") := by
  cases e? with
  | none => simp
  | some e => exact List.forall_mem_singleton.mpr ⟨context, scopes, h, hv, rfl, rfl⟩

theorem walked_map_stmt {ss : List (Stmt NodeId)} (hw : Stmt.WellFormedAll ss)
    (h : Finding.Clean (Stmt.resolveAll context scopes ss).2)
    (hv : Stmt.visitsAll scopes ss ⊆ vs) :
    ∀ c ∈ ss.map Code.stmt, c.Walked vs context.inClass (scopes.distance? "super") := by
  induction ss generalizing scopes with
  | nil => simp
  | cons s ss ih =>
    rw [Stmt.resolveAll_cons, Finding.clean_append, Stmt.fst_resolve hw.1] at h
    rw [Stmt.visitsAll, List.append_subset] at hv
    refine List.forall_mem_cons.mpr ⟨⟨context, scopes, h.1, hv.1, rfl, rfl⟩, ?_⟩
    have hrest := ih hw.2 h.2 hv.2
    rwa [Scopes.distance?_bindAll_of_ne _ fun n hn => (hw.1.ne_of_mem_declares n hn).2] at hrest

theorem walked_map_decl {ds : List (FunDecl NodeId)}
    (h : Finding.Clean (FunDecl.resolveMethods context scopes ds))
    (hv : FunDecl.visitsAll scopes ds ⊆ vs) :
    ∀ d ∈ ds, (Code.decl d).Walked vs context.inClass (scopes.distance? "super") := by
  induction ds with
  | nil => simp
  | cons d ds ih =>
    rw [FunDecl.resolveMethods, Finding.clean_append] at h
    rw [FunDecl.visitsAll, List.append_subset] at hv
    exact List.forall_mem_cons.mpr
      ⟨⟨methodContext context d, scopes, h.1, hv.1, rfl, rfl⟩, ih h.2 hv.2⟩

end

namespace Walked

variable {vs : List Visit} {inClass : ClassContext} {distance : Option Nat} {c c' : Code}

theorem part_expr {e : Expr NodeId} (h : (Code.expr e).Walked vs inClass distance) :
    ∀ c' ∈ (Code.expr e).parts, c'.Walked vs inClass distance := by
  obtain ⟨context, scopes, h, hv, rfl, rfl⟩ := h
  have here {e : Expr NodeId} (h : Finding.Clean (e.resolve context scopes))
      (hv : e.visits scopes ⊆ vs) :
      (Code.expr e).Walked vs context.inClass (scopes.distance? "super") :=
    ⟨context, scopes, h, hv, rfl, rfl⟩
  simp only [findings] at h
  simp only [visits] at hv
  cases e with
  | literal | «variable» | this | super => simp [parts]
  | group | unary | get =>
    rw [Expr.resolve] at h
    rw [Expr.visits] at hv
    exact List.forall_mem_singleton.mpr (here h hv)
  | assign =>
    rw [Expr.resolve, Finding.clean_append] at h
    rw [Expr.visits, List.append_subset] at hv
    exact List.forall_mem_singleton.mpr (here h.1 hv.1)
  | binary | logical =>
    rw [Expr.resolve, Finding.clean_append] at h
    rw [Expr.visits, List.append_subset] at hv
    exact List.forall_mem_cons.mpr ⟨here h.1 hv.1, List.forall_mem_singleton.mpr (here h.2 hv.2)⟩
  | set =>
    -- the walk comes to the value before the object
    rw [Expr.resolve, Finding.clean_append] at h
    rw [Expr.visits, List.append_subset] at hv
    exact List.forall_mem_cons.mpr ⟨here h.2 hv.2, List.forall_mem_singleton.mpr (here h.1 hv.1)⟩
  | call =>
    rw [Expr.resolve, Finding.clean_append] at h
    rw [Expr.visits, List.append_subset] at hv
    exact List.forall_mem_cons.mpr ⟨here h.1 hv.1, walked_map_expr h.2 hv.2⟩

theorem part_stmt {statement : Stmt NodeId} (h : (Code.stmt statement).Walked vs inClass distance)
    (hw : statement.WellFormed) (hn : ¬ (Code.stmt statement).IsClass) :
    ∀ c' ∈ (Code.stmt statement).parts,
      c'.Walked vs inClass (distance.map (· + (Code.stmt statement).opens)) := by
  obtain ⟨context, scopes, h, hv, rfl, rfl⟩ := h
  simp only [findings] at h
  simp only [visits] at hv
  cases statement with
  | expression | print =>
    rw [Stmt.resolve] at h
    rw [Stmt.visits] at hv
    simp only [opens, Nat.add_zero, Option.map_id']
    exact List.forall_mem_singleton.mpr ⟨context, scopes, h, hv, rfl, rfl⟩
  | var name initializer =>
    rw [Stmt.resolve, Finding.clean_append] at h
    rw [Stmt.visits] at hv
    simp only [opens, Nat.add_zero, Option.map_id']
    have hi := walked_toList h.2 hv
    rw [Scopes.distance?_declare_of_ne hw.1.ne_super] at hi
    have hc : (if scopes.isEmpty then { context with initializing := some name.text }
        else context).inClass = context.inClass := by
      split <;> rfl
    rwa [hc] at hi
  | block body =>
    rw [Stmt.resolve] at h
    rw [Stmt.visits] at hv
    have hb := walked_map_stmt hw h hv
    rwa [Scopes.distance?_push] at hb
  | ifElse condition thenBranch elseBranch =>
    obtain ⟨-, ⟨hd, hthen⟩, -⟩ := hw
    rw [Stmt.resolve_ifElse, Finding.clean_append, Finding.clean_append, Stmt.fst_resolve hthen, hd,
      Scopes.bindAll_nil] at h
    rw [Stmt.visits, List.append_subset, List.append_subset] at hv
    simp only [opens, Nat.add_zero, Option.map_id']
    refine List.forall_mem_cons.mpr ⟨⟨context, scopes, h.1.1, hv.1.1, rfl, rfl⟩,
      List.forall_mem_cons.mpr ⟨⟨context, scopes, h.1.2, hv.1.2, rfl, rfl⟩, ?_⟩⟩
    cases elseBranch with
    | none => simp
    | some elseBranch =>
      rw [Stmt.resolve?] at h
      rw [Stmt.visits?] at hv
      exact List.forall_mem_singleton.mpr ⟨context, scopes, h.2, hv.2, rfl, rfl⟩
  | «while» =>
    rw [Stmt.resolve_while, Finding.clean_append] at h
    rw [Stmt.visits, List.append_subset] at hv
    simp only [opens, Nat.add_zero, Option.map_id']
    exact List.forall_mem_cons.mpr ⟨⟨context, scopes, h.1, hv.1, rfl, rfl⟩,
      List.forall_mem_singleton.mpr ⟨context, scopes, h.2, hv.2, rfl, rfl⟩⟩
  | function declaration =>
    rw [Stmt.resolve, Finding.clean_append] at h
    rw [Stmt.visits] at hv
    simp only [opens, Nat.add_zero, Option.map_id']
    have hname := FunDecl.WellFormed.isIdentifier_name hw
    exact List.forall_mem_singleton.mpr
      ⟨_, _, h.2, hv, rfl, Scopes.distance?_bind_of_ne hname.ne_super scopes⟩
  | «return» =>
    rw [Stmt.resolve, Finding.clean_append] at h
    rw [Stmt.visits] at hv
    simp only [opens, Nat.add_zero, Option.map_id']
    exact walked_toList h.2 hv
  | «class» => exact absurd trivial hn

/-- The parts of code that was walked, where functions and blocks put `super` further out. -/
theorem part (h : c.Walked vs inClass distance) (hw : c.WellFormed) (hn : ¬ c.IsClass) :
    ∀ c' ∈ c.parts, c'.Walked vs inClass (distance.map (· + c.opens)) := by
  cases c with
  | expr e =>
    simp only [opens, Nat.add_zero, Option.map_id']
    exact part_expr h
  | stmt statement => exact part_stmt h hw hn
  | decl declaration =>
    obtain ⟨context, scopes, h, hv, rfl, rfl⟩ := h
    cases declaration with
    | mk name params body =>
      simp only [findings, FunDecl.resolve_mk, Finding.clean_append, fst_resolveParams] at h
      simp only [visits, FunDecl.visits] at hv
      have hb := walked_map_stmt hw.2.2 h.2 hv
      rwa [Scopes.distance?_bindAll_of_ne _ fun n hn => (hw.ne_of_mem_params n hn).2,
        Scopes.distance?_push] at hb

/-- The methods of a class. Those of a subclass find `super` one scope out. -/
theorem method {name : Name} {superclass : Option (Expr NodeId)} {methods : List (FunDecl NodeId)}
    (h : (Code.stmt (.class name superclass methods)).Walked vs inClass distance) :
    ∀ d ∈ methods, ∃ distance', (Code.decl d).Walked vs
      (if superclass.isSome then .subclass else .class) distance' ∧
        (superclass.isSome → distance' = some 1) := by
  obtain ⟨context, scopes, h, hv, rfl, rfl⟩ := h
  simp only [findings, Stmt.resolve, Finding.clean_append] at h
  simp only [visits, Stmt.visits, List.append_subset] at hv
  refine fun d hd => ⟨_, walked_map_decl h.2 hv.2 d hd, fun hs => ?_⟩
  simp [hs, methodScopes, Scopes.distance?_cons, Bindings.contains_insert]

/-- The superclass of a class. -/
theorem superclass {name : Name} {e : Expr NodeId} {methods : List (FunDecl NodeId)}
    (h : (Code.stmt (.class name (some e) methods)).Walked vs inClass distance) :
    ∃ distance', (Code.expr e).Walked vs .subclass distance' := by
  obtain ⟨context, scopes, h, hv, rfl, rfl⟩ := h
  simp only [findings, Stmt.resolve, Finding.clean_append] at h
  simp only [visits, Stmt.visits, List.append_subset] at hv
  exact ⟨_, _, _, h.1.2.2, hv.1, rfl, rfl⟩

/-- What lies in code that was walked was walked, with `super` so many scopes further out. -/
theorem lies (h : c.Walked vs inClass distance) (hw : c.WellFormed) {k : Nat} (hl : c.Lies k c') :
    c'.WellFormed ∧ c'.Walked vs inClass (distance.map (· + k)) := by
  induction hl with
  | here => exact ⟨hw, by simpa using h⟩
  | inside _ hn hp ih =>
    have hpart := ih.2.part ih.1 hn _ hp
    rw [Option.map_map] at hpart
    exact ⟨ih.1.part _ hp, by simpa [Function.comp_def, Nat.add_assoc] using hpart⟩

/-- Where `super` may stand, the nearest class around it is a subclass. -/
theorem eq_subclass {id : NodeId} {keyword name : Name}
    (h : (Code.expr (.super id keyword name)).Walked vs inClass distance) : inClass = .subclass := by
  obtain ⟨context, scopes, h, -, rfl, -⟩ := h
  simp only [findings, Expr.resolve, Finding.clean_append] at h
  cases hk : context.inClass with
  | subclass => rfl
  | _ =>
    rw [hk] at h
    exact absurd h.1 (Finding.not_clean_error _)

/-- No `super` lies outside of subclasses. -/
theorem free (h : c.Walked vs inClass distance) (hw : c.WellFormed) (hn : inClass ≠ .subclass) :
    c.Free :=
  fun _ _ _ _ hl => hn (h.lies hw hl).2.eq_subclass

/-- Every `super` in a method of a subclass is found one scope further out than it lies. -/
theorem locates (h : c.Walked vs inClass (some 1)) (hw : c.WellFormed) : c.Locates vs := by
  intro k id keyword name hl
  obtain ⟨hsuper, context, scopes, -, hv, -, hd⟩ := h.lies hw hl
  have htext : keyword.text = "super" := hsuper
  have hmem : ⟨⟨.super, id, keyword⟩, scopes⟩ ∈ vs := hv List.mem_cons_self
  refine ⟨htext, _, hmem, rfl, ?_⟩
  rw [Visit.distance?, htext, hd]
  exact congrArg some (Nat.add_comm 1 k)

end Walked

/-! ## Classes -/

/-- In the methods of a class without a superclass no `super` lies, and in those of a subclass every
`super` is found one scope further out than it lies. -/
structure Resolved (vs : List Visit) (c : Code) : Prop where
  wellFormed : c.WellFormed
  free {name : Name} {methods : List (FunDecl NodeId)} : c = .stmt (.class name none methods) →
    ∀ d ∈ methods, (Code.decl d).Free
  locates {name : Name} {e : Expr NodeId} {methods : List (FunDecl NodeId)} :
    c = .stmt (.class name (some e) methods) → ∀ d ∈ methods, (Code.decl d).Locates vs

theorem Locates.mono {vs ws : List Visit} {c : Code} (h : c.Locates vs) (hs : vs ⊆ ws) :
    c.Locates ws := by
  intro k id keyword method hl
  obtain ⟨ht, v, hv, hr⟩ := h k id keyword method hl
  exact ⟨ht, v, hs hv, hr⟩

theorem Resolved.mono {vs ws : List Visit} {c : Code} (h : c.Resolved vs) (hs : vs ⊆ ws) :
    c.Resolved ws :=
  ⟨h.wellFormed, h.free, fun he d hd => (h.locates he d hd).mono hs⟩

section

variable {vs : List Visit} {inClass : ClassContext} {distance : Option Nat} {c c' : Code}

theorem Walked.exists_part (h : c.Walked vs inClass distance) (hw : c.WellFormed)
    (hp : c' ∈ c.parts) : ∃ inClass' distance', c'.Walked vs inClass' distance' := by
  by_cases hn : c.IsClass
  · cases c with
    | stmt statement =>
      cases statement with
      | «class» name superclass methods =>
        rcases List.mem_append.mp hp with hp | hp
        · cases superclass with
          | none => cases hp
          | some e =>
            obtain rfl := List.mem_singleton.mp hp
            exact ⟨_, h.superclass⟩
        · obtain ⟨d, hd, rfl⟩ := List.mem_map.mp hp
          obtain ⟨distance', hwalked, -⟩ := h.method d hd
          exact ⟨_, _, hwalked⟩
      | _ => exact hn.elim
    | _ => exact hn.elim
  · exact ⟨_, _, h.part hw hn c' hp⟩

theorem Walked.resolved (h : c.Walked vs inClass distance) (hw : c.WellFormed) : c.Resolved vs where
  wellFormed := hw
  free he d hd := by
    subst he
    obtain ⟨distance', hwalked, -⟩ := h.method d hd
    exact hwalked.free (hw.part _ (List.mem_append_right _ (List.mem_map_of_mem hd))) nofun
  locates he d hd := by
    subst he
    obtain ⟨distance', hwalked, hone⟩ := h.method d hd
    obtain rfl := hone rfl
    exact hwalked.locates (hw.part _ (List.mem_append_right _ (List.mem_map_of_mem hd)))

/-- All classes in code that was walked are resolved. -/
theorem Walked.all_resolved (h : c.Walked vs inClass distance) (hw : c.WellFormed) :
    c.All (Resolved vs) := by
  intro c' hin
  induction hin generalizing inClass distance with
  | refl => exact h.resolved hw
  | part hp _ ih =>
    obtain ⟨inClass', distance', hpart⟩ := h.exists_part hw hp
    exact ih hpart (hw.part _ hp)

end

/-- All classes of a program without errors are resolved, and no `super` lies outside of them. -/
theorem all_resolved_of_errors_eq_nil {program : List (Stmt NodeId)}
    (hw : Stmt.WellFormedAll program) (h : (resolve program).errors = []) :
    ∀ statement ∈ program, (Code.stmt statement).All (Resolved (Stmt.visitsAll [] program)) ∧
      (Code.stmt statement).Free := by
  intro statement hs
  have hclean := Finding.clean_iff_errors_eq_nil.mpr h
  have hmem : Code.stmt statement ∈ program.map Code.stmt := List.mem_map_of_mem hs
  have hwalked := walked_map_stmt hw hclean (List.Subset.refl _) _ hmem
  have hwf := wellFormed_map_stmt hw _ hmem
  exact ⟨hwalked.all_resolved hwf, hwalked.free hwf nofun⟩

end Code

end Lox
