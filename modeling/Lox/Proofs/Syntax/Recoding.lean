import Lox.Syntax.References
import Mathlib.Logic.Basic

/-!
# Trees with other labels and lines

A `Recoding` gives each label and each line another one, and `Expr.recode ρ e` is `e` with these.
Everything else in a tree is what the program means.

* `Stmt.recodeAll_recodeAll`: recoding twice is recoding once;
* `Stmt.recodeAll_congr`: only the labels that occur matter;
* `Stmt.referencesAll_recodeAll`: the references of a recoded program are those of the program,
  recoded.
-/

namespace Lox

/-! ## Lines -/

/-- A name on another line. -/
def Name.relocate (ℓ : Nat → Nat) (n : Name) : Name := { n with line := ℓ n.line }

/-- A token on another line. -/
def Token.relocate (ℓ : Nat → Nat) (t : Token) : Token := { t with line := ℓ t.line }

@[simp] theorem Name.text_relocate (ℓ : Nat → Nat) (n : Name) : (n.relocate ℓ).text = n.text := rfl

@[simp] theorem Name.line_relocate (ℓ : Nat → Nat) (n : Name) : (n.relocate ℓ).line = ℓ n.line :=
  rfl

@[simp] theorem Token.lexeme_relocate (ℓ : Nat → Nat) (t : Token) :
    (t.relocate ℓ).lexeme = t.lexeme := rfl

@[simp] theorem Token.line_relocate (ℓ : Nat → Nat) (t : Token) : (t.relocate ℓ).line = ℓ t.line :=
  rfl

theorem Name.map_relocate_map_relocate (ℓ ℓ' : Nat → Nat) (ns : List Name) :
    (ns.map (relocate ℓ)).map (relocate ℓ') = ns.map (relocate (ℓ' ∘ ℓ)) := List.map_map

theorem Name.map_text_map_relocate (ℓ : Nat → Nat) (ns : List Name) :
    (ns.map (relocate ℓ)).map text = ns.map text := List.map_map

/-! ## Recodings -/

/-- Other labels, and other lines. -/
structure Recoding (ι κ : Type) where
  label : ι → κ
  line : Nat → Nat

namespace Recoding

variable {ι κ μ : Type}

/-- One recoding after another. -/
def comp (σ : Recoding κ μ) (ρ : Recoding ι κ) : Recoding ι μ :=
  ⟨σ.label ∘ ρ.label, σ.line ∘ ρ.line⟩

/-- Leaves out the labels. -/
def forget : Recoding ι Unit := ⟨fun _ => (), id⟩

end Recoding

section

variable {ι κ : Type} (ρ : Recoding ι κ)

mutual

/-- An expression with other labels and lines. -/
def Expr.recode : Expr ι → Expr κ
  | .literal value => .literal value
  | .group inner => .group inner.recode
  | .unary operator right => .unary (operator.relocate ρ.line) right.recode
  | .binary left operator right => .binary left.recode (operator.relocate ρ.line) right.recode
  | .logical left operator right => .logical left.recode (operator.relocate ρ.line) right.recode
  | .variable label name => .variable (ρ.label label) (name.relocate ρ.line)
  | .assign label name value => .assign (ρ.label label) (name.relocate ρ.line) value.recode
  | .call callee line arguments => .call callee.recode (ρ.line line) (Expr.recodeAll arguments)
  | .get object name => .get object.recode (name.relocate ρ.line)
  | .set object name value => .set object.recode (name.relocate ρ.line) value.recode
  | .this label keyword => .this (ρ.label label) (keyword.relocate ρ.line)
  | .super label keyword method =>
    .super (ρ.label label) (keyword.relocate ρ.line) (method.relocate ρ.line)

/-- Several expressions with other labels and lines. -/
def Expr.recodeAll : List (Expr ι) → List (Expr κ)
  | [] => []
  | e :: es => e.recode :: Expr.recodeAll es

end

mutual

/-- A statement with other labels and lines. -/
def Stmt.recode : Stmt ι → Stmt κ
  | .expression e => .expression (e.recode ρ)
  | .print e => .print (e.recode ρ)
  | .var name initializer => .var (name.relocate ρ.line) (initializer.map (Expr.recode ρ))
  | .block body => .block (Stmt.recodeAll body)
  | .ifElse condition thenBranch elseBranch =>
    .ifElse (condition.recode ρ) thenBranch.recode (Stmt.recode? elseBranch)
  | .while condition body => .while (condition.recode ρ) body.recode
  | .function declaration => .function declaration.recode
  | .return keyword value => .return (keyword.relocate ρ.line) (value.map (Expr.recode ρ))
  | .class name superclass methods =>
    .class (name.relocate ρ.line) (superclass.map (Expr.recode ρ)) (FunDecl.recodeAll methods)

/-- A statement with other labels and lines, if there is one. -/
def Stmt.recode? : Option (Stmt ι) → Option (Stmt κ)
  | none => none
  | some s => some s.recode

/-- Several statements with other labels and lines. -/
def Stmt.recodeAll : List (Stmt ι) → List (Stmt κ)
  | [] => []
  | s :: ss => s.recode :: Stmt.recodeAll ss

/-- A function with other labels and lines. -/
def FunDecl.recode : FunDecl ι → FunDecl κ
  | .mk name params body =>
    .mk (name.relocate ρ.line) (params.map (Name.relocate ρ.line)) (Stmt.recodeAll body)

/-- Several functions with other labels and lines. -/
def FunDecl.recodeAll : List (FunDecl ι) → List (FunDecl κ)
  | [] => []
  | f :: fs => f.recode :: FunDecl.recodeAll fs

end

@[simp] theorem FunDecl.name_recode (f : FunDecl ι) :
    (f.recode ρ).name = f.name.relocate ρ.line := by
  cases f
  rfl

@[simp] theorem FunDecl.params_recode (f : FunDecl ι) :
    (f.recode ρ).params = f.params.map (Name.relocate ρ.line) := by
  cases f
  rfl

@[simp] theorem FunDecl.body_recode (f : FunDecl ι) :
    (f.recode ρ).body = Stmt.recodeAll ρ f.body := by
  cases f
  rfl

@[simp] theorem FunDecl.isInitializer_recode (f : FunDecl ι) :
    (f.recode ρ).isInitializer = f.isInitializer := by
  cases f
  rfl

theorem FunDecl.recodeAll_eq_map (fs : List (FunDecl ι)) :
    FunDecl.recodeAll ρ fs = fs.map (FunDecl.recode ρ) := by
  induction fs with
  | nil => rfl
  | cons f fs ih => exact congrArg _ ih

end

/-! ## Recoding twice -/

section

variable {ι κ μ : Type} (ρ : Recoding ι κ) (σ : Recoding κ μ)

mutual

theorem Expr.recode_recode : (e : Expr ι) → (e.recode ρ).recode σ = e.recode (σ.comp ρ)
  | .literal _ | .variable _ _ | .this _ _ | .super _ _ _ => rfl
  | .group inner => congrArg Expr.group inner.recode_recode
  | .unary _ right => congrArg (Expr.unary _) right.recode_recode
  | .binary left _ right => congrArg₂ (Expr.binary · _ ·) left.recode_recode right.recode_recode
  | .logical left _ right => congrArg₂ (Expr.logical · _ ·) left.recode_recode right.recode_recode
  | .assign _ _ value => congrArg (Expr.assign _ _) value.recode_recode
  | .call callee _ arguments =>
    congrArg₂ (Expr.call · _ ·) callee.recode_recode (Expr.recodeAll_recodeAll arguments)
  | .get object _ => congrArg (Expr.get · _) object.recode_recode
  | .set object _ value => congrArg₂ (Expr.set · _ ·) object.recode_recode value.recode_recode

theorem Expr.recodeAll_recodeAll :
    (es : List (Expr ι)) → Expr.recodeAll σ (Expr.recodeAll ρ es) = Expr.recodeAll (σ.comp ρ) es
  | [] => rfl
  | e :: es => congrArg₂ List.cons e.recode_recode (Expr.recodeAll_recodeAll es)

end

theorem Expr.map_recode_map_recode (o : Option (Expr ι)) :
    (o.map (Expr.recode ρ)).map (Expr.recode σ) = o.map (Expr.recode (σ.comp ρ)) := by
  cases o with
  | none => rfl
  | some e => exact congrArg some (e.recode_recode ρ σ)

mutual

theorem Stmt.recode_recode : (s : Stmt ι) → (s.recode ρ).recode σ = s.recode (σ.comp ρ)
  | .expression e => congrArg Stmt.expression (e.recode_recode ρ σ)
  | .print e => congrArg Stmt.print (e.recode_recode ρ σ)
  | .var _ initializer => congrArg (Stmt.var _) (Expr.map_recode_map_recode ρ σ initializer)
  | .block body => congrArg Stmt.block (Stmt.recodeAll_recodeAll body)
  | .ifElse condition thenBranch elseBranch => by
    simp only [Stmt.recode, condition.recode_recode ρ σ, thenBranch.recode_recode,
      Stmt.recode?_recode? elseBranch]
  | .while condition body => congrArg₂ Stmt.while (condition.recode_recode ρ σ) body.recode_recode
  | .function declaration => congrArg Stmt.function declaration.recode_recode
  | .return _ value => congrArg (Stmt.return _) (Expr.map_recode_map_recode ρ σ value)
  | .class _ superclass methods =>
    congrArg₂ (Stmt.class _) (Expr.map_recode_map_recode ρ σ superclass)
      (FunDecl.recodeAll_recodeAll methods)

theorem Stmt.recode?_recode? :
    (o : Option (Stmt ι)) → Stmt.recode? σ (Stmt.recode? ρ o) = Stmt.recode? (σ.comp ρ) o
  | none => rfl
  | some s => congrArg some s.recode_recode

theorem Stmt.recodeAll_recodeAll :
    (ss : List (Stmt ι)) → Stmt.recodeAll σ (Stmt.recodeAll ρ ss) = Stmt.recodeAll (σ.comp ρ) ss
  | [] => rfl
  | s :: ss => congrArg₂ List.cons s.recode_recode (Stmt.recodeAll_recodeAll ss)

theorem FunDecl.recode_recode : (f : FunDecl ι) → (f.recode ρ).recode σ = f.recode (σ.comp ρ)
  | .mk _ params body =>
    congrArg₂ (FunDecl.mk _) (Name.map_relocate_map_relocate ρ.line σ.line params)
      (Stmt.recodeAll_recodeAll body)

theorem FunDecl.recodeAll_recodeAll :
    (fs : List (FunDecl ι)) →
      FunDecl.recodeAll σ (FunDecl.recodeAll ρ fs) = FunDecl.recodeAll (σ.comp ρ) fs
  | [] => rfl
  | f :: fs => congrArg₂ List.cons f.recode_recode (FunDecl.recodeAll_recodeAll fs)

end

end

/-! ## The same labels and lines -/

section

variable {ι : Type}

mutual

theorem Expr.recode_id : (e : Expr ι) → e.recode ⟨id, id⟩ = e
  | .literal _ | .variable _ _ | .this _ _ | .super _ _ _ => rfl
  | .group inner => congrArg Expr.group inner.recode_id
  | .unary _ right => congrArg (Expr.unary _) right.recode_id
  | .binary left _ right => congrArg₂ (Expr.binary · _ ·) left.recode_id right.recode_id
  | .logical left _ right => congrArg₂ (Expr.logical · _ ·) left.recode_id right.recode_id
  | .assign _ _ value => congrArg (Expr.assign _ _) value.recode_id
  | .call callee _ arguments =>
    congrArg₂ (Expr.call · _ ·) callee.recode_id (Expr.recodeAll_id arguments)
  | .get object _ => congrArg (Expr.get · _) object.recode_id
  | .set object _ value => congrArg₂ (Expr.set · _ ·) object.recode_id value.recode_id

theorem Expr.recodeAll_id : (es : List (Expr ι)) → Expr.recodeAll ⟨id, id⟩ es = es
  | [] => rfl
  | e :: es => congrArg₂ List.cons e.recode_id (Expr.recodeAll_id es)

end

theorem Expr.map_recode_id (o : Option (Expr ι)) : o.map (Expr.recode ⟨id, id⟩) = o := by
  cases o with
  | none => rfl
  | some e => exact congrArg some e.recode_id

mutual

theorem Stmt.recode_id : (s : Stmt ι) → s.recode ⟨id, id⟩ = s
  | .expression e => congrArg Stmt.expression e.recode_id
  | .print e => congrArg Stmt.print e.recode_id
  | .var _ initializer => congrArg (Stmt.var _) (Expr.map_recode_id initializer)
  | .block body => congrArg Stmt.block (Stmt.recodeAll_id body)
  | .ifElse condition thenBranch elseBranch => by
    simp only [Stmt.recode, condition.recode_id, thenBranch.recode_id, Stmt.recode?_id elseBranch]
  | .while condition body => congrArg₂ Stmt.while condition.recode_id body.recode_id
  | .function declaration => congrArg Stmt.function declaration.recode_id
  | .return _ value => congrArg (Stmt.return _) (Expr.map_recode_id value)
  | .class _ superclass methods =>
    congrArg₂ (Stmt.class _) (Expr.map_recode_id superclass) (FunDecl.recodeAll_id methods)

theorem Stmt.recode?_id : (o : Option (Stmt ι)) → Stmt.recode? ⟨id, id⟩ o = o
  | none => rfl
  | some s => congrArg some s.recode_id

theorem Stmt.recodeAll_id : (ss : List (Stmt ι)) → Stmt.recodeAll ⟨id, id⟩ ss = ss
  | [] => rfl
  | s :: ss => congrArg₂ List.cons s.recode_id (Stmt.recodeAll_id ss)

theorem FunDecl.recode_id : (f : FunDecl ι) → f.recode ⟨id, id⟩ = f
  | .mk _ params body => congrArg₂ (FunDecl.mk _) (List.map_id params) (Stmt.recodeAll_id body)

theorem FunDecl.recodeAll_id : (fs : List (FunDecl ι)) → FunDecl.recodeAll ⟨id, id⟩ fs = fs
  | [] => rfl
  | f :: fs => congrArg₂ List.cons f.recode_id (FunDecl.recodeAll_id fs)

end

end

/-! ## Labels that occur -/

section

variable {κ : Type} {φ ψ : NodeId → κ} {ℓ : Nat → Nat}

mutual

theorem Expr.recode_congr : (e : Expr NodeId) → (∀ r ∈ e.references, φ r.id = ψ r.id) →
    e.recode ⟨φ, ℓ⟩ = e.recode ⟨ψ, ℓ⟩
  | .literal _, _ => rfl
  | .group inner, h => congrArg Expr.group (inner.recode_congr h)
  | .unary _ right, h => congrArg (Expr.unary _) (right.recode_congr h)
  | .binary left _ right, h => by
    rw [Expr.references, List.forall_mem_append] at h
    rw [Expr.recode, Expr.recode, left.recode_congr h.1, right.recode_congr h.2]
  | .logical left _ right, h => by
    rw [Expr.references, List.forall_mem_append] at h
    rw [Expr.recode, Expr.recode, left.recode_congr h.1, right.recode_congr h.2]
  | .variable _ _, h => congrArg (Expr.variable · _) (h _ (List.mem_singleton_self _))
  | .assign _ _ value, h => by
    rw [Expr.references, List.forall_mem_cons] at h
    rw [Expr.recode, Expr.recode, value.recode_congr h.2]
    exact congrArg (Expr.assign · _ _) h.1
  | .call callee _ arguments, h => by
    rw [Expr.references, List.forall_mem_append] at h
    rw [Expr.recode, Expr.recode, callee.recode_congr h.1, Expr.recodeAll_congr arguments h.2]
  | .get object _, h => congrArg (Expr.get · _) (object.recode_congr h)
  | .set object _ value, h => by
    rw [Expr.references, List.forall_mem_append] at h
    rw [Expr.recode, Expr.recode, object.recode_congr h.1, value.recode_congr h.2]
  | .this _ _, h => congrArg (Expr.this · _) (h _ (List.mem_singleton_self _))
  | .super _ _ _, h => congrArg (Expr.super · _ _) (h _ (List.mem_singleton_self _))

theorem Expr.recodeAll_congr : (es : List (Expr NodeId)) →
    (∀ r ∈ Expr.referencesAll es, φ r.id = ψ r.id) →
      Expr.recodeAll ⟨φ, ℓ⟩ es = Expr.recodeAll ⟨ψ, ℓ⟩ es
  | [], _ => rfl
  | e :: es, h => by
    rw [Expr.referencesAll, List.forall_mem_append] at h
    rw [Expr.recodeAll, Expr.recodeAll, e.recode_congr h.1, Expr.recodeAll_congr es h.2]

end

theorem Expr.map_recode_congr (o : Option (Expr NodeId))
    (h : ∀ r ∈ Expr.references? o, φ r.id = ψ r.id) :
    o.map (Expr.recode ⟨φ, ℓ⟩) = o.map (Expr.recode ⟨ψ, ℓ⟩) := by
  cases o with
  | none => rfl
  | some e => exact congrArg some (e.recode_congr h)

mutual

theorem Stmt.recode_congr : (s : Stmt NodeId) → (∀ r ∈ s.references, φ r.id = ψ r.id) →
    s.recode ⟨φ, ℓ⟩ = s.recode ⟨ψ, ℓ⟩
  | .expression e, h => congrArg Stmt.expression (e.recode_congr h)
  | .print e, h => congrArg Stmt.print (e.recode_congr h)
  | .var _ initializer, h => congrArg (Stmt.var _) (Expr.map_recode_congr initializer h)
  | .block body, h => congrArg Stmt.block (Stmt.recodeAll_congr body h)
  | .ifElse condition thenBranch elseBranch, h => by
    rw [Stmt.references, List.forall_mem_append, List.forall_mem_append] at h
    rw [Stmt.recode, Stmt.recode, condition.recode_congr h.1.1, thenBranch.recode_congr h.1.2,
      Stmt.recode?_congr elseBranch h.2]
  | .while condition body, h => by
    rw [Stmt.references, List.forall_mem_append] at h
    rw [Stmt.recode, Stmt.recode, condition.recode_congr h.1, body.recode_congr h.2]
  | .function declaration, h => congrArg Stmt.function (declaration.recode_congr h)
  | .return _ value, h => congrArg (Stmt.return _) (Expr.map_recode_congr value h)
  | .class _ superclass methods, h => by
    rw [Stmt.references, List.forall_mem_append] at h
    rw [Stmt.recode, Stmt.recode, Expr.map_recode_congr superclass h.1,
      FunDecl.recodeAll_congr methods h.2]

theorem Stmt.recode?_congr : (o : Option (Stmt NodeId)) →
    (∀ r ∈ Stmt.references? o, φ r.id = ψ r.id) → Stmt.recode? ⟨φ, ℓ⟩ o = Stmt.recode? ⟨ψ, ℓ⟩ o
  | none, _ => rfl
  | some s, h => congrArg some (s.recode_congr h)

theorem Stmt.recodeAll_congr : (ss : List (Stmt NodeId)) →
    (∀ r ∈ Stmt.referencesAll ss, φ r.id = ψ r.id) →
      Stmt.recodeAll ⟨φ, ℓ⟩ ss = Stmt.recodeAll ⟨ψ, ℓ⟩ ss
  | [], _ => rfl
  | s :: ss, h => by
    rw [Stmt.referencesAll, List.forall_mem_append] at h
    rw [Stmt.recodeAll, Stmt.recodeAll, s.recode_congr h.1, Stmt.recodeAll_congr ss h.2]

theorem FunDecl.recode_congr : (f : FunDecl NodeId) → (∀ r ∈ f.references, φ r.id = ψ r.id) →
    f.recode ⟨φ, ℓ⟩ = f.recode ⟨ψ, ℓ⟩
  | .mk _ _ body, h => congrArg (FunDecl.mk _ _) (Stmt.recodeAll_congr body h)

theorem FunDecl.recodeAll_congr : (fs : List (FunDecl NodeId)) →
    (∀ r ∈ FunDecl.referencesAll fs, φ r.id = ψ r.id) →
      FunDecl.recodeAll ⟨φ, ℓ⟩ fs = FunDecl.recodeAll ⟨ψ, ℓ⟩ fs
  | [], _ => rfl
  | f :: fs, h => by
    rw [FunDecl.referencesAll, List.forall_mem_append] at h
    rw [FunDecl.recodeAll, FunDecl.recodeAll, f.recode_congr h.1, FunDecl.recodeAll_congr fs h.2]

end

end

/-! ## References -/

/-- A reference with another number and line. -/
def Reference.recode (ρ : Recoding NodeId NodeId) (r : Reference) : Reference :=
  ⟨r.kind, ρ.label r.id, r.name.relocate ρ.line⟩

section

variable (ρ : Recoding NodeId NodeId)

mutual

theorem Expr.references_recode : (e : Expr NodeId) →
    (e.recode ρ).references = e.references.map (Reference.recode ρ)
  | .literal _ | .variable _ _ | .this _ _ | .super _ _ _ => rfl
  | .group inner => inner.references_recode
  | .unary _ right => right.references_recode
  | .binary left _ right => by
    rw [Expr.recode, Expr.references, Expr.references, List.map_append, left.references_recode,
      right.references_recode]
  | .logical left _ right => by
    rw [Expr.recode, Expr.references, Expr.references, List.map_append, left.references_recode,
      right.references_recode]
  | .assign _ _ value => congrArg (List.cons _) value.references_recode
  | .call callee _ arguments => by
    rw [Expr.recode, Expr.references, Expr.references, List.map_append, callee.references_recode,
      Expr.referencesAll_recodeAll arguments]
  | .get object _ => object.references_recode
  | .set object _ value => by
    rw [Expr.recode, Expr.references, Expr.references, List.map_append, object.references_recode,
      value.references_recode]

theorem Expr.referencesAll_recodeAll : (es : List (Expr NodeId)) →
    Expr.referencesAll (Expr.recodeAll ρ es) = (Expr.referencesAll es).map (Reference.recode ρ)
  | [] => rfl
  | e :: es => by
    rw [Expr.recodeAll, Expr.referencesAll, Expr.referencesAll, List.map_append,
      e.references_recode, Expr.referencesAll_recodeAll es]

end

theorem Expr.references?_map_recode (o : Option (Expr NodeId)) :
    Expr.references? (o.map (Expr.recode ρ)) = (Expr.references? o).map (Reference.recode ρ) := by
  cases o with
  | none => rfl
  | some e => exact e.references_recode ρ

mutual

theorem Stmt.references_recode : (s : Stmt NodeId) →
    (s.recode ρ).references = s.references.map (Reference.recode ρ)
  | .expression e | .print e => e.references_recode ρ
  | .var _ o | .return _ o => Expr.references?_map_recode ρ o
  | .block body => Stmt.referencesAll_recodeAll body
  | .ifElse condition thenBranch elseBranch => by
    rw [Stmt.recode, Stmt.references, Stmt.references, List.map_append, List.map_append,
      condition.references_recode ρ, thenBranch.references_recode,
      Stmt.references?_recode? elseBranch]
  | .while condition body => by
    rw [Stmt.recode, Stmt.references, Stmt.references, List.map_append,
      condition.references_recode ρ, body.references_recode]
  | .function declaration => declaration.references_recode
  | .class _ superclass methods => by
    rw [Stmt.recode, Stmt.references, Stmt.references, List.map_append,
      Expr.references?_map_recode ρ superclass, FunDecl.referencesAll_recodeAll methods]

theorem Stmt.references?_recode? : (o : Option (Stmt NodeId)) →
    Stmt.references? (Stmt.recode? ρ o) = (Stmt.references? o).map (Reference.recode ρ)
  | none => rfl
  | some s => s.references_recode

theorem Stmt.referencesAll_recodeAll : (ss : List (Stmt NodeId)) →
    Stmt.referencesAll (Stmt.recodeAll ρ ss) = (Stmt.referencesAll ss).map (Reference.recode ρ)
  | [] => rfl
  | s :: ss => by
    rw [Stmt.recodeAll, Stmt.referencesAll, Stmt.referencesAll, List.map_append,
      s.references_recode, Stmt.referencesAll_recodeAll ss]

theorem FunDecl.references_recode : (f : FunDecl NodeId) →
    (f.recode ρ).references = f.references.map (Reference.recode ρ)
  | .mk _ _ body => Stmt.referencesAll_recodeAll body

theorem FunDecl.referencesAll_recodeAll : (fs : List (FunDecl NodeId)) →
    FunDecl.referencesAll (FunDecl.recodeAll ρ fs) =
      (FunDecl.referencesAll fs).map (Reference.recode ρ)
  | [] => rfl
  | f :: fs => by
    rw [FunDecl.recodeAll, FunDecl.referencesAll, FunDecl.referencesAll, List.map_append,
      f.references_recode, FunDecl.referencesAll_recodeAll fs]

end

end

end Lox
