import Lox.Scope

/-!
# The walk with one state

`resolve` hands the surroundings of a place down to it and the findings back up. A `Walker` goes
through the same tree with one state: it opens and closes scopes, notes on the way what surrounds
it, and adds what it finds to a table and to a list.

- `Walker.beginScope`, `Walker.declare`, `Walker.record` and so on are its steps.
- `Expr.walk`, `Stmt.walk` and `FunDecl.walk` lead it through a tree.

What surrounded the walker before a construct is put back by hand after it.
-/

namespace Lox

/-- Adds the distance of a node. -/
def DistanceTable.insert (table : DistanceTable) (id : NodeId) (distance : Nat) : DistanceTable :=
  ⟨table.entries.insert id distance⟩

/-- Where a walker is, and what it has found. -/
structure Walker where
  scopes : Scopes
  table : DistanceTable
  errors : List ScopeError
  inFunction : FunctionContext
  inClass : ClassContext
  /-- The global variables whose initializers the walker is in, the last one innermost. -/
  initializing : List String

namespace Walker

/-- A walker in front of a program. -/
def start : Walker where
  scopes := []
  table := .empty
  errors := []
  inFunction := .none
  inClass := .none
  initializing := []

/-! ## Steps -/

/-- Opens a scope. -/
def beginScope (w : Walker) : Walker := { w with scopes := ∅ :: w.scopes }

/-- Closes the innermost scope. -/
def endScope (w : Walker) : Walker := { w with scopes := w.scopes.tail }

/-- Notes an error. -/
def note (w : Walker) (fault : ScopeFault) (found : Name) : Walker :=
  { w with errors := w.errors ++ [⟨fault, found⟩] }

/-- Declares a name in the innermost scope, where it may not be read yet. Global names are free. -/
def declare (w : Walker) (name : Name) : Walker :=
  match w.scopes with
  | [] => w
  | inner :: outer =>
    let declared := { w with scopes := inner.insert name.text false :: outer }
    if inner.contains name.text then declared.note .alreadyDeclared name else declared

/-- Makes a name of the innermost scope readable. -/
def define (w : Walker) (name : String) : Walker := { w with scopes := w.scopes.define name }

/-- Declares a name and makes it readable. -/
def bind (w : Walker) (name : Name) : Walker := (w.declare name).define name.text

/-- Records how many scopes out a name is declared, unless it is global. -/
def record (w : Walker) (id : NodeId) (name : Name) : Walker :=
  match w.scopes.distance? name.text with
  | some d => { w with table := w.table.insert id d }
  | none => w

/-- Whether a name is read inside its own initializer. -/
def inOwnInitializer (w : Walker) (name : String) : Bool :=
  match w.scopes with
  | [] => w.initializing.contains name
  | inner :: _ => inner.get? name = some false

/-- Notes what kind of function surrounds the walker. -/
def setFunction (w : Walker) (kind : FunctionContext) : Walker := { w with inFunction := kind }

/-- Notes what kind of class surrounds the walker. -/
def setClass (w : Walker) (kind : ClassContext) : Walker := { w with inClass := kind }

/-- Goes into the initializer of a global variable. -/
def beginInitializer (w : Walker) (name : String) : Walker :=
  { w with initializing := w.initializing ++ [name] }

/-- Comes out of the initializer of a global variable. -/
def endInitializer (w : Walker) : Walker := { w with initializing := w.initializing.dropLast }

end Walker

/-! ## Expressions -/

mutual

/-- Walks through an expression. -/
def Expr.walk (w : Walker) : Expr NodeId → Walker
  | .literal _ => w
  | .group inner => inner.walk w
  | .unary _ right => right.walk w
  | .binary left _ right => right.walk (left.walk w)
  | .logical left _ right => right.walk (left.walk w)
  | .variable id name =>
    let noted := if w.inOwnInitializer name.text then w.note .readInOwnInitializer name else w
    noted.record id name
  | .assign id name value => (value.walk w).record id name
  | .call callee _ arguments => Expr.walkAll (callee.walk w) arguments
  | .get object _ => object.walk w
  | .set object _ value => object.walk (value.walk w)
  | .this id keyword =>
    match w.inClass with
    | .none => w.note .thisOutsideClass keyword
    | _ => w.record id keyword
  | .super id keyword _ =>
    let noted := match w.inClass with
      | .none => w.note .superOutsideClass keyword
      | .class => w.note .superWithoutSuperclass keyword
      | .subclass => w
    noted.record id keyword

/-- Walks through several expressions. -/
def Expr.walkAll (w : Walker) : List (Expr NodeId) → Walker
  | [] => w
  | e :: es => Expr.walkAll (e.walk w) es

end

/-! ## Statements -/

/-- Walks through the initializer of a variable, if there is one. -/
def Expr.walkInitializer (w : Walker) (name : String) : Option (Expr NodeId) → Walker
  | none => w
  | some e =>
    if w.scopes.isEmpty then (e.walk (w.beginInitializer name)).endInitializer else e.walk w

/-- Walks through a `return`. -/
def Expr.walkReturn (w : Walker) (keyword : Name) (value : Option (Expr NodeId)) : Walker :=
  let noted := if w.inFunction = .none then w.note .returnOutsideFunction keyword else w
  match value with
  | none => noted
  | some e =>
    let noted :=
      if noted.inFunction = .initializer then noted.note .valueFromInitializer keyword else noted
    e.walk noted

/-- Notes that a class names itself as its superclass. -/
def Walker.noteSuperclass (w : Walker) (name : Name) : Expr NodeId → Walker
  | .variable _ superclass =>
    if superclass.text = name.text then w.note .inheritsFromItself superclass else w
  | _ => w

/-- Walks through the superclass of a class, and opens the scope that holds `super`. -/
def Expr.walkSuperclass (w : Walker) (name : Name) : Option (Expr NodeId) → Walker
  | none => w
  | some e =>
    (e.walk ((w.noteSuperclass name e).setClass .subclass)).beginScope.define "super"

mutual

/-- Walks through a statement. -/
def Stmt.walk (w : Walker) : Stmt NodeId → Walker
  | .expression e => e.walk w
  | .print e => e.walk w
  | .var name initializer =>
    (Expr.walkInitializer (w.declare name) name.text initializer).define name.text
  | .block body => (Stmt.walkAll w.beginScope body).endScope
  | .ifElse condition thenBranch elseBranch =>
    Stmt.walk? (thenBranch.walk (condition.walk w)) elseBranch
  | .while condition body => body.walk (condition.walk w)
  | .function declaration => declaration.walk (w.bind declaration.name) .function
  | .return keyword value => Expr.walkReturn w keyword value
  | .class name superclass methods =>
    let inside := Expr.walkSuperclass ((w.setClass .class).bind name) name superclass
    let left := (FunDecl.walkMethods (inside.beginScope.define "this") methods).endScope
    let left := if superclass.isSome then left.endScope else left
    left.setClass w.inClass

/-- Walks through a statement, if there is one. -/
def Stmt.walk? (w : Walker) : Option (Stmt NodeId) → Walker
  | none => w
  | some s => s.walk w

/-- Walks through several statements. -/
def Stmt.walkAll (w : Walker) : List (Stmt NodeId) → Walker
  | [] => w
  | s :: ss => Stmt.walkAll (s.walk w) ss

/-- Walks through a function. Its parameters and its body share one scope. -/
def FunDecl.walk (w : Walker) (kind : FunctionContext) : FunDecl NodeId → Walker
  | .mk _ params body =>
    let inside := params.foldl Walker.bind (w.setFunction kind).beginScope
    (Stmt.walkAll inside body).endScope.setFunction w.inFunction

/-- Walks through the methods of a class. -/
def FunDecl.walkMethods (w : Walker) : List (FunDecl NodeId) → Walker
  | [] => w
  | f :: fs =>
    FunDecl.walkMethods (f.walk w (if f.isInitializer then .initializer else .method)) fs

end

/-- Walks through a program from its beginning. -/
def walkProgram (program : List (Stmt NodeId)) : Walker := Stmt.walkAll .start program

end Lox
