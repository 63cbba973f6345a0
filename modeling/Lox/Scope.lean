import Std.Data.HashMap
import Lox.Bindings
import Lox.Diagnostic
import Lox.Syntax

/-!
# Scopes

- `Scope` holds the names that a block, function or class declares; the global scope is not held.
- `resolve` finds out for each reference how many scopes out its binding lies, and which static
  rules a program breaks.
- An expression changes no scope; a statement changes the innermost one at most (`Stmt.resolve`
  returns it).

The findings come in the order in which the walk makes them: the value of an
assignment before its target, the value of a property before its object.
-/

namespace Lox

/-! ## Errors -/

/-- The static rules that a program can break. -/
inductive ScopeFault where
  | alreadyDeclared
  | readInOwnInitializer
  | returnOutsideFunction
  | valueFromInitializer
  | inheritsFromItself
  | thisOutsideClass
  | superOutsideClass
  | superWithoutSuperclass
  deriving DecidableEq, Repr

/-- The wording of a fault. -/
def ScopeFault.message : ScopeFault → String
  | .alreadyDeclared => "Already a variable with this name in this scope."
  | .readInOwnInitializer => "Can't read local variable in its own initializer."
  | .returnOutsideFunction => "Can't return from top-level code."
  | .valueFromInitializer => "Can't return a value from an initializer."
  | .inheritsFromItself => "A class can't inherit from itself."
  | .thisOutsideClass => "Can't use 'this' outside of a class."
  | .superOutsideClass => "Can't use 'super' outside of a class."
  | .superWithoutSuperclass => "Can't use 'super' in a class with no superclass."

/-- A fault and the name or keyword at which it was found. -/
structure ScopeError where
  fault : ScopeFault
  found : Name
  deriving DecidableEq, Repr

/-- A scoping error as a diagnostic. -/
def ScopeError.toDiagnostic (e : ScopeError) : Diagnostic :=
  .scoping e.found.line (.lexeme e.found.text) e.fault.message

/-! ## Scopes -/

/-- The names of a scope, and for each whether it may be read yet. -/
abbrev Scope := Bindings Bool

/-- The scopes around a place, the innermost first. -/
abbrev Scopes := List Scope

/-- What kind of function a place is in. -/
inductive FunctionContext where
  | none
  | function
  | method
  | initializer
  deriving DecidableEq, Repr

/-- What kind of class a place is in. -/
inductive ClassContext where
  | none
  | «class»
  | subclass
  deriving DecidableEq, Repr

/-- What surrounds a place besides its scopes. -/
structure Context where
  inFunction : FunctionContext
  inClass : ClassContext
  /-- The global variable whose initializer the place is in. -/
  initializing : Option String

/-- The surroundings of a program. -/
def Context.top : Context := ⟨.none, .none, .none⟩

/-- Something that the walk finds. -/
inductive Finding where
  | distance (id : NodeId) (distance : Nat)
  | error (e : ScopeError)
  deriving DecidableEq, Repr

/-- How many scopes out a name is declared. -/
def Scopes.distance? (scopes : Scopes) (name : String) : Option Nat :=
  scopes.findIdx? fun scope => scope.contains name

/-- Declares a name in the innermost scope, where it may not be read yet. -/
def Scopes.declare (scopes : Scopes) (name : String) : Scopes :=
  match scopes with
  | [] => []
  | inner :: outer => inner.insert name false :: outer

/-- Makes a name of the innermost scope readable. -/
def Scopes.define (scopes : Scopes) (name : String) : Scopes :=
  match scopes with
  | [] => []
  | inner :: outer => inner.insert name true :: outer

/-- Declares a name and makes it readable. -/
def Scopes.bind (scopes : Scopes) (name : String) : Scopes := (scopes.declare name).define name

/-- A name is declared once in a scope. Global names are free. -/
def declarationFindings (scopes : Scopes) (name : Name) : List Finding :=
  match scopes with
  | [] => []
  | inner :: _ => if inner.contains name.text then [.error ⟨.alreadyDeclared, name⟩] else []

/-- The distance of a reference, unless it is global. -/
def distanceFindings (scopes : Scopes) (id : NodeId) (name : Name) : List Finding :=
  match scopes.distance? name.text with
  | some d => [.distance id d]
  | none => []

/-- Whether a name is read inside its own initializer. -/
def inOwnInitializer (context : Context) (scopes : Scopes) (name : String) : Bool :=
  match scopes with
  | [] => context.initializing = some name
  | inner :: _ => inner.get? name = some false

/-- The parameters of a function, each declared after those before it. -/
def resolveParams (scopes : Scopes) : List Name → Scopes × List Finding
  | [] => (scopes, [])
  | p :: ps =>
    let (inner, findings) := resolveParams (scopes.bind p.text) ps
    (inner, declarationFindings scopes p ++ findings)

/-! ## Expressions -/

mutual

/-- What the walk finds in an expression. -/
def Expr.resolve (context : Context) (scopes : Scopes) : Expr NodeId → List Finding
  | .literal _ => []
  | .group inner => inner.resolve context scopes
  | .unary _ right => right.resolve context scopes
  | .binary left _ right => left.resolve context scopes ++ right.resolve context scopes
  | .logical left _ right => left.resolve context scopes ++ right.resolve context scopes
  | .variable id name =>
    (if inOwnInitializer context scopes name.text then [.error ⟨.readInOwnInitializer, name⟩]
      else []) ++ distanceFindings scopes id name
  | .assign id name value => value.resolve context scopes ++ distanceFindings scopes id name
  | .call callee _ arguments =>
    callee.resolve context scopes ++ Expr.resolveAll context scopes arguments
  | .get object _ => object.resolve context scopes
  | .set object _ value => value.resolve context scopes ++ object.resolve context scopes
  | .this id keyword =>
    match context.inClass with
    | .none => [.error ⟨.thisOutsideClass, keyword⟩]
    | _ => distanceFindings scopes id keyword
  | .super id keyword _ =>
    (match context.inClass with
      | .none => [.error ⟨.superOutsideClass, keyword⟩]
      | .class => [.error ⟨.superWithoutSuperclass, keyword⟩]
      | .subclass => []) ++ distanceFindings scopes id keyword

/-- What the walk finds in several expressions. -/
def Expr.resolveAll (context : Context) (scopes : Scopes) : List (Expr NodeId) → List Finding
  | [] => []
  | e :: es => e.resolve context scopes ++ Expr.resolveAll context scopes es

end

/-- What the walk finds in an expression, if there is one. -/
def Expr.resolve? (context : Context) (scopes : Scopes) : Option (Expr NodeId) → List Finding
  | none => []
  | some e => e.resolve context scopes

/-! ## Statements -/

/-- The rules for a `return`. -/
def returnFindings (context : Context) (keyword : Name) (hasValue : Bool) : List Finding :=
  (if context.inFunction = .none then [.error ⟨.returnOutsideFunction, keyword⟩] else []) ++
    if hasValue ∧ context.inFunction = .initializer then [.error ⟨.valueFromInitializer, keyword⟩]
    else []

/-- A class may not name itself as its superclass. -/
def superclassFindings (name : Name) : Expr NodeId → List Finding
  | .variable _ superclass =>
    if superclass.text = name.text then [.error ⟨.inheritsFromItself, superclass⟩] else []
  | _ => []

/-- The scopes of the methods of a class: one that holds `this`, and around it, in a subclass, one
that holds `super`. -/
def methodScopes (scopes : Scopes) (hasSuperclass : Bool) : Scopes :=
  let around := if hasSuperclass then (∅ : Scope).insert "super" true :: scopes else scopes
  (∅ : Scope).insert "this" true :: around

/-- The surroundings of a method. -/
def methodContext (context : Context) (method : FunDecl NodeId) : Context :=
  { context with inFunction := if method.isInitializer then .initializer else .method }

mutual

/-- The scopes after a statement, and what the walk finds in it. -/
def Stmt.resolve (context : Context) (scopes : Scopes) : Stmt NodeId → Scopes × List Finding
  | .expression e => (scopes, e.resolve context scopes)
  | .print e => (scopes, e.resolve context scopes)
  | .var name initializer =>
    let declared := scopes.declare name.text
    let inside := if scopes.isEmpty then { context with initializing := some name.text } else context
    (declared.define name.text,
      declarationFindings scopes name ++ Expr.resolve? inside declared initializer)
  | .block body => (scopes, (Stmt.resolveAll context (∅ :: scopes) body).2)
  | .ifElse condition thenBranch elseBranch =>
    let (scopes₁, found₁) := thenBranch.resolve context scopes
    let (scopes₂, found₂) := Stmt.resolve? context scopes₁ elseBranch
    (scopes₂, condition.resolve context scopes ++ found₁ ++ found₂)
  | .while condition body =>
    let (scopes', found) := body.resolve context scopes
    (scopes', condition.resolve context scopes ++ found)
  | .function declaration =>
    let inside := scopes.bind declaration.name.text
    (inside, declarationFindings scopes declaration.name ++
      declaration.resolve { context with inFunction := .function } inside)
  | .return keyword value =>
    (scopes, returnFindings context keyword value.isSome ++ Expr.resolve? context scopes value)
  | .class name superclass methods =>
    let inside := scopes.bind name.text
    let context' :=
      { context with inClass := if superclass.isSome then .subclass else .class }
    let heritage := match superclass with
      | none => []
      | some e => superclassFindings name e ++ e.resolve context' inside
    (inside, declarationFindings scopes name ++ heritage ++
      FunDecl.resolveMethods context' (methodScopes inside superclass.isSome) methods)

/-- The same for a statement that may be absent. -/
def Stmt.resolve? (context : Context) (scopes : Scopes) :
    Option (Stmt NodeId) → Scopes × List Finding
  | none => (scopes, [])
  | some s => s.resolve context scopes

/-- The same for several statements, each in the scopes that those before it leave. -/
def Stmt.resolveAll (context : Context) (scopes : Scopes) :
    List (Stmt NodeId) → Scopes × List Finding
  | [] => (scopes, [])
  | s :: ss =>
    let (scopes₁, found₁) := s.resolve context scopes
    let (scopes₂, found₂) := Stmt.resolveAll context scopes₁ ss
    (scopes₂, found₁ ++ found₂)

/-- What the walk finds in a function. Its parameters and its body share one scope. -/
def FunDecl.resolve (context : Context) (scopes : Scopes) : FunDecl NodeId → List Finding
  | .mk _ params body =>
    let (inside, found) := resolveParams (∅ :: scopes) params
    found ++ (Stmt.resolveAll context inside body).2

/-- What the walk finds in the methods of a class. -/
def FunDecl.resolveMethods (context : Context) (scopes : Scopes) :
    List (FunDecl NodeId) → List Finding
  | [] => []
  | f :: fs =>
    f.resolve (methodContext context f) scopes ++ FunDecl.resolveMethods context scopes fs

end

/-! ## Programs -/

/-- What is known of a program: the distances of its local references, and its errors. -/
structure Resolution where
  distances : List (NodeId × Nat)
  errors : List ScopeError

/-- Sorts findings into distances and errors. -/
def Resolution.ofFindings (findings : List Finding) : Resolution where
  distances := findings.filterMap fun
    | .distance id d => some (id, d)
    | .error _ => none
  errors := findings.filterMap fun
    | .distance _ _ => none
    | .error e => some e

/-- Resolves a program. -/
def resolve (program : List (Stmt NodeId)) : Resolution :=
  Resolution.ofFindings (Stmt.resolveAll .top [] program).2

/-- Distances by node. A node that is not in the table refers to a global name. -/
structure DistanceTable where
  entries : Std.HashMap NodeId Nat

namespace DistanceTable

/-- No distances. -/
def empty : DistanceTable := ⟨∅⟩

/-- The distance of a node. -/
def get? (table : DistanceTable) (id : NodeId) : Option Nat := table.entries[id]?

/-- Adds the distances of a program. -/
def merge (table : DistanceTable) (distances : List (NodeId × Nat)) : DistanceTable :=
  ⟨table.entries.insertMany distances⟩

end DistanceTable

end Lox
