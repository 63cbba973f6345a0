import Lox.Proofs.Evaluation.Steps
import Lox.Proofs.Evaluation.WellScoped

/-!
# Code

A piece of code is an expression, a statement or a function, and is made of others
(`Code.parts`). A property may hold of it with all its parts, at any depth (`Code.All`).

* `Code.opens`: whether code opens a scope around its parts;
* `Code.references_sublist`: the references of the parts of a code are its own, each as often at most;
* `Code.Distinct`: they have numbers of their own.
-/

namespace Lox

/-! ## Parts of code -/

/-- A piece of code. -/
inductive Code where
  | expr (e : Expr NodeId)
  | stmt (statement : Stmt NodeId)
  | decl (declaration : FunDecl NodeId)

namespace Code

/-- The pieces of which a piece of code is made directly. -/
def parts : Code → List Code
  | .expr (.literal _) | .expr (.variable _ _) | .expr (.this _ _) | .expr (.super _ _ _) => []
  | .expr (.group inner) => [.expr inner]
  | .expr (.unary _ right) => [.expr right]
  | .expr (.binary left _ right) | .expr (.logical left _ right) => [.expr left, .expr right]
  | .expr (.assign _ _ value) => [.expr value]
  | .expr (.call callee _ arguments) => .expr callee :: arguments.map .expr
  | .expr (.get object _) => [.expr object]
  | .expr (.set object _ value) => [.expr object, .expr value]
  | .stmt (.expression e) | .stmt (.print e) => [.expr e]
  | .stmt (.var _ initializer) => initializer.toList.map .expr
  | .stmt (.block body) => body.map .stmt
  | .stmt (.ifElse condition thenBranch elseBranch) =>
    .expr condition :: .stmt thenBranch :: elseBranch.toList.map .stmt
  | .stmt (.while condition body) => [.expr condition, .stmt body]
  | .stmt (.function declaration) => [.decl declaration]
  | .stmt (.return _ value) => value.toList.map .expr
  | .stmt (.class _ superclass methods) => superclass.toList.map .expr ++ methods.map .decl
  | .decl declaration => declaration.body.map .stmt

/-- A piece of code is another one or part of it, at any depth. -/
inductive Within : Code → Code → Prop where
  | refl (c : Code) : Within c c
  | part {c c₁ c₂ : Code} (h : c₁ ∈ c.parts) (hw : Within c₂ c₁) : Within c₂ c

/-- A property holds of a piece of code and of all its parts. -/
def All (P : Code → Prop) (c : Code) : Prop := ∀ c', c'.Within c → P c'

variable {P : Code → Prop} {c c' : Code}

theorem All.self (h : c.All P) : P c := h c (.refl c)

theorem All.part (h : c.All P) (hc : c' ∈ c.parts) : c'.All P := fun _ hw => h _ (.part hc hw)

theorem All.mono {P' : Code → Prop} (h : c.All P) (hP : ∀ c, P c → P' c) : c.All P' :=
  fun c' hw => hP c' (h c' hw)

theorem Within.trans {c₁ c₂ : Code} (h : c₂.Within c₁) (h' : c₁.Within c) : c₂.Within c := by
  induction h' with
  | refl => exact h
  | part hp _ ih => exact .part hp (ih h)

/-- All parts of an expression are expressions. -/
theorem Within.exists_expr {e : Expr NodeId} (h : c.Within (.expr e)) : ∃ e', c = .expr e' := by
  generalize hc : Code.expr e = c₀ at h
  induction h generalizing e with
  | refl => exact ⟨e, hc.symm⟩
  | @part c₀ c₁ _ hp _ ih =>
    subst hc
    have hex : ∃ e', Code.expr e' = c₁ := by
      cases e <;> simp only [parts, List.mem_cons, List.mem_map, List.not_mem_nil, or_false] at hp
      all_goals grind
    obtain ⟨e', he⟩ := hex
    exact ih he

/-- How many scopes a piece of code opens around its parts. A class does not count: its methods have
scopes of their own. -/
def opens : Code → Nat
  | .stmt (.block _) | .decl _ => 1
  | _ => 0

/-- A class. -/
def IsClass : Code → Prop
  | .stmt (.class _ _ _) => True
  | _ => False

/-- The references of a piece of code. -/
def references : Code → List Reference
  | .expr e => e.references
  | .stmt statement => statement.references
  | .decl declaration => declaration.references

end Code

/-! ## References -/

theorem Expr.references_sublist_of_mem {e : Expr NodeId} {es : List (Expr NodeId)} (h : e ∈ es) :
    e.references.Sublist (Expr.referencesAll es) := by
  induction es with
  | nil => cases h
  | cons e' es ih =>
    rw [referencesAll]
    rcases List.mem_cons.mp h with rfl | h
    · exact List.sublist_append_left _ _
    · exact List.Sublist.trans (ih h) (List.sublist_append_right _ _)

theorem Stmt.references_sublist_of_mem {statement : Stmt NodeId} {ss : List (Stmt NodeId)}
    (h : statement ∈ ss) : statement.references.Sublist (Stmt.referencesAll ss) := by
  induction ss with
  | nil => cases h
  | cons s ss ih =>
    rw [referencesAll]
    rcases List.mem_cons.mp h with rfl | h
    · exact List.sublist_append_left _ _
    · exact List.Sublist.trans (ih h) (List.sublist_append_right _ _)

theorem FunDecl.references_sublist_of_mem {d : FunDecl NodeId} {ds : List (FunDecl NodeId)}
    (h : d ∈ ds) : d.references.Sublist (FunDecl.referencesAll ds) := by
  induction ds with
  | nil => cases h
  | cons d' ds ih =>
    rw [referencesAll]
    rcases List.mem_cons.mp h with rfl | h
    · exact List.sublist_append_left _ _
    · exact List.Sublist.trans (ih h) (List.sublist_append_right _ _)

/-- Each statement of a program has its references among those of the program. -/
theorem Stmt.references_subset_of_mem {statement : Stmt NodeId} {ss : List (Stmt NodeId)}
    (h : statement ∈ ss) : statement.references ⊆ Stmt.referencesAll ss :=
  (references_sublist_of_mem h).subset

namespace Code

variable {c c' : Code}

theorem references_sublist_of_mem_map_expr {es : List (Expr NodeId)} (h : c' ∈ es.map .expr) :
    c'.references.Sublist (Expr.referencesAll es) := by
  obtain ⟨e, he, rfl⟩ := List.mem_map.mp h
  exact Expr.references_sublist_of_mem he

theorem references_sublist_of_mem_map_stmt {ss : List (Stmt NodeId)} (h : c' ∈ ss.map .stmt) :
    c'.references.Sublist (Stmt.referencesAll ss) := by
  obtain ⟨s, hs, rfl⟩ := List.mem_map.mp h
  exact Stmt.references_sublist_of_mem hs

theorem references_sublist_of_mem_map_decl {ds : List (FunDecl NodeId)} (h : c' ∈ ds.map .decl) :
    c'.references.Sublist (FunDecl.referencesAll ds) := by
  obtain ⟨d, hd, rfl⟩ := List.mem_map.mp h
  exact FunDecl.references_sublist_of_mem hd

theorem references_sublist_of_mem_toList {e? : Option (Expr NodeId)}
    (h : c' ∈ e?.toList.map .expr) : c'.references.Sublist (Expr.references? e?) := by
  cases e? with
  | none => cases h
  | some e =>
    obtain rfl := List.mem_singleton.mp h
    exact List.Sublist.refl _

theorem references_sublist_of_mem_parts_expr {e : Expr NodeId} (h : c' ∈ (Code.expr e).parts) :
    c'.references.Sublist e.references := by
  cases e with
  | literal | «variable» | this | super => cases h
  | group | unary | get =>
    obtain rfl := List.mem_singleton.mp h
    exact List.Sublist.refl _
  | assign =>
    obtain rfl := List.mem_singleton.mp h
    exact List.sublist_cons_self _ _
  | binary left _ right | logical left _ right | set left _ right =>
    rcases List.mem_cons.mp h with rfl | h
    · exact List.sublist_append_left _ _
    · obtain rfl := List.mem_singleton.mp h
      exact List.sublist_append_right _ _
  | call callee _ arguments =>
    rcases List.mem_cons.mp h with rfl | h
    · exact List.sublist_append_left _ _
    · exact List.Sublist.trans (references_sublist_of_mem_map_expr h) (List.sublist_append_right _ _)

theorem references_sublist_of_mem_parts_stmt {statement : Stmt NodeId}
    (h : c' ∈ (Code.stmt statement).parts) : c'.references.Sublist statement.references := by
  cases statement with
  | expression | print | function =>
    obtain rfl := List.mem_singleton.mp h
    exact List.Sublist.refl _
  | var _ initializer | «return» _ initializer =>
    exact references_sublist_of_mem_toList h
  | block body => exact references_sublist_of_mem_map_stmt h
  | ifElse condition thenBranch elseBranch =>
    rw [Stmt.references]
    rcases List.mem_cons.mp h with rfl | h
    · exact List.Sublist.trans (List.sublist_append_left _ _) (List.sublist_append_left _ _)
    rcases List.mem_cons.mp h with rfl | h
    · exact List.Sublist.trans (List.sublist_append_right _ _) (List.sublist_append_left _ _)
    · cases elseBranch with
      | none => cases h
      | some elseBranch =>
        obtain rfl := List.mem_singleton.mp h
        exact List.sublist_append_right _ _
  | «while» condition body =>
    rcases List.mem_cons.mp h with rfl | h
    · exact List.sublist_append_left _ _
    · obtain rfl := List.mem_singleton.mp h
      exact List.sublist_append_right _ _
  | «class» name superclass methods =>
    rcases List.mem_append.mp h with h | h
    · exact List.Sublist.trans (references_sublist_of_mem_toList h) (List.sublist_append_left _ _)
    · exact List.Sublist.trans (references_sublist_of_mem_map_decl h) (List.sublist_append_right _ _)

theorem references_sublist_of_mem_parts (h : c' ∈ c.parts) : c'.references.Sublist c.references := by
  cases c with
  | expr e => exact references_sublist_of_mem_parts_expr h
  | stmt statement => exact references_sublist_of_mem_parts_stmt h
  | decl declaration =>
    cases declaration with
    | mk name params body => exact references_sublist_of_mem_map_stmt h

/-- The references of a part of a piece of code are among its own, each as often at most. -/
theorem references_sublist (h : c'.Within c) : c'.references.Sublist c.references := by
  induction h with
  | refl => exact List.Sublist.refl _
  | part hp _ ih => exact List.Sublist.trans ih (references_sublist_of_mem_parts hp)

theorem references_subset (h : c'.Within c) : c'.references ⊆ c.references :=
  (references_sublist h).subset

/-- The nodes of a piece of code that name bindings have numbers of their own. -/
def Distinct (c : Code) : Prop := (Reference.ids c.references).Nodup

/-- So have those of its parts. -/
theorem Distinct.all (h : c.Distinct) : c.All Distinct :=
  fun _ hw => h.sublist ((references_sublist hw).map Reference.id)

end Code

/-! ## Methods -/

/-- The methods of a class are those that were declared. -/
theorem exists_mem_of_methodTable {closure : FrameId} {methods : List (FunDecl NodeId)}
    {name : String} {f : FunctionObject} (hf : (methodTable closure methods).get? name = some f) :
    ∃ d ∈ methods, f = ⟨d, closure, d.isInitializer⟩ := by
  obtain ⟨d, hd, he⟩ := List.mem_map.mp (Bindings.mem_of_get?_ofList hf)
  exact ⟨d, hd, (Prod.mk.inj he).2.symm⟩

end Lox
