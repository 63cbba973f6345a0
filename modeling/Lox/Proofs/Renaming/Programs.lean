import Lox.Proofs.Scope.Visits
import Lox.Proofs.Syntax.Pieces

/-!
# Renaming the locals of a program

A `Renaming` takes an old name to a new one. It is applied in some of the scopes
of a program and not in others: a list of flags says for each open scope, the
innermost first, whether it is one of them. A variable or an assignment is
renamed if its distance leads to such a scope, and a variable declaration or a
parameter if it stands in one. Nothing else is renamed, so no function or class
of such a scope may have the old name.

`Stmt.RenamesAll ρ distance? [] program program'` says that `program'` is `program`
with some of its scopes renamed. A scope declares a name at most once. So if one
scope is renamed, and the new name is not among `Stmt.namesAll program`, one local
variable or parameter is renamed, together with all that refers to it.

The renaming swaps the two names. Then it is one to one on all names, and what
holds of a scope or a frame before holds of it afterwards (`Renaming.swap_inj`).
-/

namespace Lox

/-! ## Names -/

/-- An old name and a new one. Both are identifiers. -/
structure Renaming where
  old : String
  new : String
  isIdentifier_old : Keyword.ofText? old = none
  isIdentifier_new : Keyword.ofText? new = none
  isWord_old : IsWord old.toList
  isWord_new : IsWord new.toList

namespace Renaming

variable (ρ : Renaming)

/-- The name in a scope, which is renamed or not. -/
def swap (renamed : Bool) (name : String) : String :=
  if renamed then
    if name = ρ.old then ρ.new else if name = ρ.new then ρ.old else name
  else name

/-- A declared name in a scope, which is renamed or not. -/
def name (renamed : Bool) (n : Name) : Name := ⟨ρ.swap renamed n.text, n.line⟩

@[simp] theorem swap_false (name : String) : ρ.swap false name = name := rfl

@[simp] theorem name_false (n : Name) : ρ.name false n = n := rfl

theorem swap_true_new : ρ.swap true ρ.new = ρ.old := by
  unfold swap
  by_cases h : ρ.new = ρ.old <;> simp [h]

@[simp] theorem text_name (b : Bool) (n : Name) : (ρ.name b n).text = ρ.swap b n.text := rfl

theorem name_eq_self {b : Bool} {n : Name} (h : ρ.swap b n.text = n.text) : ρ.name b n = n := by
  rw [name, h]

@[simp] theorem swap_swap (b : Bool) (name : String) : ρ.swap b (ρ.swap b name) = name := by
  unfold swap
  cases b with
  | false => rfl
  | true =>
    simp only [if_true]
    by_cases ho : name = ρ.old
    · rw [if_pos ho]
      by_cases hn : ρ.new = ρ.old
      · rw [if_pos hn, hn, ho]
      · rw [if_neg hn, if_pos rfl, ho]
    · rw [if_neg ho]
      by_cases hn : name = ρ.new
      · rw [if_pos hn, if_pos rfl, hn]
      · rw [if_neg hn, if_neg ho, if_neg hn]

theorem swap_inj (b : Bool) {name other : String} : ρ.swap b name = ρ.swap b other ↔ name = other := by
  constructor
  · intro h
    have hs := congrArg (ρ.swap b) h
    rwa [swap_swap, swap_swap] at hs
  · exact congrArg (ρ.swap b)

theorem swap_of_ne (b : Bool) {name : String} (ho : name ≠ ρ.old) (hn : name ≠ ρ.new) :
    ρ.swap b name = name := by
  cases b with
  | false => rfl
  | true => simp [swap, ho, hn]

/-- Where the new name does not occur, a name is kept or it is the old one. -/
theorem swap_eq_or (b : Bool) {name : String} (hn : name ≠ ρ.new) :
    ρ.swap b name = name ∨ (name = ρ.old ∧ ρ.swap b name = ρ.new) := by
  cases b with
  | false => exact .inl rfl
  | true =>
    by_cases ho : name = ρ.old
    · exact .inr ⟨ho, by simp [swap, ho]⟩
    · exact .inl (ρ.swap_of_ne true ho hn)

theorem swap_keyword (b : Bool) {name : String} (h : (Keyword.ofText? name).isSome) :
    ρ.swap b name = name := by
  refine ρ.swap_of_ne b ?_ ?_
  · rintro rfl
    simp [ρ.isIdentifier_old] at h
  · rintro rfl
    simp [ρ.isIdentifier_new] at h

@[simp] theorem swap_this (b : Bool) : ρ.swap b "this" = "this" :=
  ρ.swap_keyword b (by decide +kernel)

@[simp] theorem swap_super (b : Bool) : ρ.swap b "super" = "super" :=
  ρ.swap_keyword b (by decide +kernel)

end Renaming

/-- Whether the scope at a distance is renamed. The global scope is not. -/
def flagAt (flags : List Bool) : Option Nat → Bool
  | none => false
  | some d => flags.getD d false

@[simp] theorem flagAt_none (flags : List Bool) : flagAt flags none = false := rfl

@[simp] theorem flagAt_nil (d? : Option Nat) : flagAt [] d? = false := by
  cases d? <;> rfl

@[simp] theorem flagAt_cons_zero (b : Bool) (flags : List Bool) :
    flagAt (b :: flags) (some 0) = b := rfl

theorem flagAt_eq_false {flags : List Bool} (h : ∀ b ∈ flags, b = false) (d? : Option Nat) :
    flagAt flags d? = false := by
  induction flags generalizing d? with
  | nil => exact flagAt_nil d?
  | cons b flags ih =>
    have hb := h b List.mem_cons_self
    have hs := ih fun b hb => h b (List.mem_cons_of_mem _ hb)
    match d? with
    | none => rfl
    | some 0 => exact hb
    | some (d + 1) => exact hs (some d)

/-- The flags in a method: the scopes of `this` and `super` are not renamed. -/
def methodFlags (flags : List Bool) (hasSuperclass : Bool) : List Bool :=
  false :: if hasSuperclass then false :: flags else flags

/-! ## Programs -/

section

variable (ρ : Renaming) (distance? : NodeId → Option Nat)

mutual

/-- Renames the variables and assignments of an expression. -/
def Expr.rename (flags : List Bool) : Expr NodeId → Expr NodeId
  | .literal value => .literal value
  | .group inner => .group (inner.rename flags)
  | .unary operator right => .unary operator (right.rename flags)
  | .binary left operator right => .binary (left.rename flags) operator (right.rename flags)
  | .logical left operator right => .logical (left.rename flags) operator (right.rename flags)
  | .variable id name => .variable id (ρ.name (flagAt flags (distance? id)) name)
  | .assign id name value =>
    .assign id (ρ.name (flagAt flags (distance? id)) name) (value.rename flags)
  | .call callee line arguments => .call (callee.rename flags) line (Expr.renameAll flags arguments)
  | .get object name => .get (object.rename flags) name
  | .set object name value => .set (object.rename flags) name (value.rename flags)
  | .this id keyword => .this id keyword
  | .super id keyword method => .super id keyword method

/-- Renames the variables and assignments of several expressions. -/
def Expr.renameAll (flags : List Bool) : List (Expr NodeId) → List (Expr NodeId)
  | [] => []
  | e :: es => e.rename flags :: Expr.renameAll flags es

end

mutual

/-- The second statement is the first one with some of its scopes renamed. It stands in scopes with
these flags. -/
inductive Stmt.Renames : List Bool → Stmt NodeId → Stmt NodeId → Prop
  | expression {flags : List Bool} (e : Expr NodeId) :
    Stmt.Renames flags (.expression e) (.expression (e.rename ρ distance? flags))
  | print {flags : List Bool} (e : Expr NodeId) :
    Stmt.Renames flags (.print e) (.print (e.rename ρ distance? flags))
  | var {flags : List Bool} (name : Name) (initializer : Option (Expr NodeId)) :
    Stmt.Renames flags (.var name initializer)
      (.var (ρ.name (flagAt flags (some 0)) name)
        (initializer.map (Expr.rename ρ distance? flags)))
  | block {flags : List Bool} (renamed : Bool) {body body' : List (Stmt NodeId)}
    (hb : Stmt.RenamesAll (renamed :: flags) body body') :
    Stmt.Renames flags (.block body) (.block body')
  | ifThen {flags : List Bool} (condition : Expr NodeId) {branch branch' : Stmt NodeId}
    (hb : Stmt.Renames flags branch branch') :
    Stmt.Renames flags (.ifElse condition branch none)
      (.ifElse (condition.rename ρ distance? flags) branch' none)
  | ifElse {flags : List Bool} (condition : Expr NodeId)
    {branch branch' elseBranch elseBranch' : Stmt NodeId}
    (hb : Stmt.Renames flags branch branch') (he : Stmt.Renames flags elseBranch elseBranch') :
    Stmt.Renames flags (.ifElse condition branch (some elseBranch))
      (.ifElse (condition.rename ρ distance? flags) branch' (some elseBranch'))
  | «while» {flags : List Bool} (condition : Expr NodeId) {body body' : Stmt NodeId}
    (hb : Stmt.Renames flags body body') :
    Stmt.Renames flags (.while condition body) (.while (condition.rename ρ distance? flags) body')
  | function {flags : List Bool} {f f' : FunDecl NodeId}
    (hn : ρ.swap (flagAt flags (some 0)) f.name.text = f.name.text)
    (hf : FunDecl.Renames flags f f') : Stmt.Renames flags (.function f) (.function f')
  | «return» {flags : List Bool} (keyword : Name) (value : Option (Expr NodeId)) :
    Stmt.Renames flags (.return keyword value)
      (.return keyword (value.map (Expr.rename ρ distance? flags)))
  | «class» {flags : List Bool} (name : Name) (superclass : Option (Expr NodeId))
    {methods methods' : List (FunDecl NodeId)}
    (hn : ρ.swap (flagAt flags (some 0)) name.text = name.text)
    (hm : FunDecl.RenamesAll (methodFlags flags superclass.isSome) methods methods') :
    Stmt.Renames flags (.class name superclass methods)
      (.class name (superclass.map (Expr.rename ρ distance? flags)) methods')

/-- The same for several statements. -/
inductive Stmt.RenamesAll : List Bool → List (Stmt NodeId) → List (Stmt NodeId) → Prop
  | nil {flags : List Bool} : Stmt.RenamesAll flags [] []
  | cons {flags : List Bool} {s s' : Stmt NodeId} {ss ss' : List (Stmt NodeId)}
    (hs : Stmt.Renames flags s s') (hss : Stmt.RenamesAll flags ss ss') :
    Stmt.RenamesAll flags (s :: ss) (s' :: ss')

/-- The same for a function. Its parameters are in the scope of its body. -/
inductive FunDecl.Renames : List Bool → FunDecl NodeId → FunDecl NodeId → Prop
  | mk {flags : List Bool} (renamed : Bool) (name : Name) (params : List Name)
    {body body' : List (Stmt NodeId)} (hb : Stmt.RenamesAll (renamed :: flags) body body') :
    FunDecl.Renames flags (.mk name params body) (.mk name (params.map (ρ.name renamed)) body')

/-- The same for several functions. -/
inductive FunDecl.RenamesAll : List Bool → List (FunDecl NodeId) → List (FunDecl NodeId) → Prop
  | nil {flags : List Bool} : FunDecl.RenamesAll flags [] []
  | cons {flags : List Bool} {f f' : FunDecl NodeId} {fs fs' : List (FunDecl NodeId)}
    (hf : FunDecl.Renames flags f f') (hfs : FunDecl.RenamesAll flags fs fs') :
    FunDecl.RenamesAll flags (f :: fs) (f' :: fs')

end

variable {ρ distance?} in
/-- A function keeps its name. -/
theorem FunDecl.Renames.name_eq {flags : List Bool} {f f' : FunDecl NodeId}
    (h : f.Renames ρ distance? flags f') : f'.name = f.name := by
  cases h
  rfl

variable {ρ distance?} in
theorem FunDecl.Renames.isInitializer_eq {flags : List Bool} {f f' : FunDecl NodeId}
    (h : f.Renames ρ distance? flags f') : f'.isInitializer = f.isInitializer := by
  rw [FunDecl.isInitializer, FunDecl.isInitializer, h.name_eq]

variable {ρ distance?} in
/-- A function keeps the number of its parameters. -/
theorem FunDecl.Renames.length_params {flags : List Bool} {f f' : FunDecl NodeId}
    (h : f.Renames ρ distance? flags f') : f'.params.length = f.params.length := by
  cases h
  exact List.length_map _

/-! ## Programs in which nothing is renamed -/

mutual

theorem Expr.rename_eq_self {flags : List Bool} (h : ∀ b ∈ flags, b = false) :
    (e : Expr NodeId) → e.rename ρ distance? flags = e
  | .literal _ => by rw [Expr.rename]
  | .group inner => by rw [Expr.rename, Expr.rename_eq_self h inner]
  | .unary _ right => by rw [Expr.rename, Expr.rename_eq_self h right]
  | .binary left _ right => by
    rw [Expr.rename, Expr.rename_eq_self h left, Expr.rename_eq_self h right]
  | .logical left _ right => by
    rw [Expr.rename, Expr.rename_eq_self h left, Expr.rename_eq_self h right]
  | .variable _ _ => by rw [Expr.rename, flagAt_eq_false h, Renaming.name_false]
  | .assign _ _ value => by
    rw [Expr.rename, flagAt_eq_false h, Renaming.name_false, Expr.rename_eq_self h value]
  | .call callee _ arguments => by
    rw [Expr.rename, Expr.rename_eq_self h callee, Expr.renameAll_eq_self h arguments]
  | .get object _ => by rw [Expr.rename, Expr.rename_eq_self h object]
  | .set object _ value => by
    rw [Expr.rename, Expr.rename_eq_self h object, Expr.rename_eq_self h value]
  | .this _ _ => by rw [Expr.rename]
  | .super _ _ _ => by rw [Expr.rename]

theorem Expr.renameAll_eq_self {flags : List Bool} (h : ∀ b ∈ flags, b = false) :
    (es : List (Expr NodeId)) → Expr.renameAll ρ distance? flags es = es
  | [] => by rw [Expr.renameAll]
  | e :: es => by rw [Expr.renameAll, Expr.rename_eq_self h e, Expr.renameAll_eq_self h es]

end

variable {ρ distance?}

theorem Expr.map_rename_eq_self {flags : List Bool} (h : ∀ b ∈ flags, b = false)
    (o : Option (Expr NodeId)) : o.map (Expr.rename ρ distance? flags) = o := by
  cases o with
  | none => rfl
  | some e => exact congrArg some (Expr.rename_eq_self ρ distance? h e)

theorem eq_false_of_mem_cons_false {flags : List Bool} (h : ∀ b ∈ flags, b = false) :
    ∀ b ∈ false :: flags, b = false := by
  intro b hb
  rcases List.mem_cons.mp hb with rfl | hb
  · rfl
  · exact h b hb

theorem eq_false_of_mem_methodFlags {flags : List Bool} (h : ∀ b ∈ flags, b = false)
    (hasSuperclass : Bool) : ∀ b ∈ methodFlags flags hasSuperclass, b = false := by
  cases hasSuperclass with
  | false => exact eq_false_of_mem_cons_false h
  | true => exact eq_false_of_mem_cons_false (eq_false_of_mem_cons_false h)

mutual

/-- A statement is itself with no scope renamed. -/
theorem Stmt.renames_self {flags : List Bool} (h : ∀ b ∈ flags, b = false) :
    (s : Stmt NodeId) → s.Renames ρ distance? flags s
  | .expression e => by
    have hs := @Stmt.Renames.expression ρ distance? flags e
    rwa [Expr.rename_eq_self ρ distance? h] at hs
  | .print e => by
    have hs := @Stmt.Renames.print ρ distance? flags e
    rwa [Expr.rename_eq_self ρ distance? h] at hs
  | .var name initializer => by
    have hs := @Stmt.Renames.var ρ distance? flags name initializer
    rwa [flagAt_eq_false h, Renaming.name_false, Expr.map_rename_eq_self h] at hs
  | .block body => .block false (Stmt.renamesAll_self (eq_false_of_mem_cons_false h) body)
  | .ifElse condition branch none => by
    have hs := Stmt.Renames.ifThen condition (Stmt.renames_self h branch)
    rwa [Expr.rename_eq_self ρ distance? h] at hs
  | .ifElse condition branch (some elseBranch) => by
    have hs := Stmt.Renames.ifElse condition (Stmt.renames_self h branch)
      (Stmt.renames_self h elseBranch)
    rwa [Expr.rename_eq_self ρ distance? h] at hs
  | .while condition body => by
    have hs := Stmt.Renames.while condition (Stmt.renames_self h body)
    rwa [Expr.rename_eq_self ρ distance? h] at hs
  | .function declaration =>
    .function (by rw [flagAt_eq_false h, Renaming.swap_false]) (FunDecl.renames_self h declaration)
  | .return keyword value => by
    have hs := @Stmt.Renames.return ρ distance? flags keyword value
    rwa [Expr.map_rename_eq_self h] at hs
  | .class name superclass methods => by
    have hn : ρ.swap (flagAt flags (some 0)) name.text = name.text := by
      rw [flagAt_eq_false h, Renaming.swap_false]
    have hs := Stmt.Renames.class name superclass hn
      (FunDecl.renamesAll_self (eq_false_of_mem_methodFlags h superclass.isSome) methods)
    rwa [Expr.map_rename_eq_self h] at hs

theorem Stmt.renamesAll_self {flags : List Bool} (h : ∀ b ∈ flags, b = false) :
    (ss : List (Stmt NodeId)) → Stmt.RenamesAll ρ distance? flags ss ss
  | [] => .nil
  | s :: ss => .cons (Stmt.renames_self h s) (Stmt.renamesAll_self h ss)

theorem FunDecl.renames_self {flags : List Bool} (h : ∀ b ∈ flags, b = false) :
    (f : FunDecl NodeId) → f.Renames ρ distance? flags f
  | .mk name params body => by
    have hf := FunDecl.Renames.mk false name params
      (Stmt.renamesAll_self (eq_false_of_mem_cons_false h) body)
    rwa [List.map_congr_left fun p _ => ρ.name_false p, List.map_id'] at hf

theorem FunDecl.renamesAll_self {flags : List Bool} (h : ∀ b ∈ flags, b = false) :
    (fs : List (FunDecl NodeId)) → FunDecl.RenamesAll ρ distance? flags fs fs
  | [] => .nil
  | f :: fs => .cons (FunDecl.renames_self h f) (FunDecl.renamesAll_self h fs)

end

end

/-! ## Names -/

/-- The names to which an expression refers. -/
def Expr.names (e : Expr NodeId) : List String := e.references.map fun r => r.name.text

/-- The names to which an expression refers, if there is one. -/
def Expr.names? (o : Option (Expr NodeId)) : List String :=
  (Expr.references? o).map fun r => r.name.text

mutual

/-- The names that a statement declares or refers to. -/
def Stmt.names : Stmt NodeId → List String
  | .expression e => e.names
  | .print e => e.names
  | .var name initializer => name.text :: Expr.names? initializer
  | .block body => Stmt.namesAll body
  | .ifElse condition thenBranch elseBranch =>
    condition.names ++ thenBranch.names ++ Stmt.names? elseBranch
  | .while condition body => condition.names ++ body.names
  | .function declaration => declaration.names
  | .return _ value => Expr.names? value
  | .class name superclass methods =>
    name.text :: (Expr.names? superclass ++ FunDecl.namesAll methods)

/-- The names in a statement, if there is one. -/
def Stmt.names? : Option (Stmt NodeId) → List String
  | none => []
  | some s => s.names

/-- The names in several statements. -/
def Stmt.namesAll : List (Stmt NodeId) → List String
  | [] => []
  | s :: ss => s.names ++ Stmt.namesAll ss

/-- The names in a function. -/
def FunDecl.names : FunDecl NodeId → List String
  | .mk name params body => name.text :: (params.map Name.text ++ Stmt.namesAll body)

/-- The names in several functions. -/
def FunDecl.namesAll : List (FunDecl NodeId) → List String
  | [] => []
  | f :: fs => f.names ++ FunDecl.namesAll fs

end

end Lox
