import Lox.Token

/-!
# Syntax trees

- `Expr`, `Stmt` and `FunDecl` are the trees of programs. The nodes that name a binding (a
  variable, an assignment, `this`, `super`) carry a label of type `ι`.
- The parser leaves the labels out (`ι` is `Unit`); `Stmt.number` gives every such node a number of
  its own, so that facts about nodes can be kept in tables.
- `Stmt.forLoop` is how a `for` loop is expressed by the other statements.

Operators are kept as tokens: which operation they stand for is decided when they
are applied.
-/

namespace Lox

/-- A constant in a program. -/
inductive Literal where
  | nil
  | bool (value : Bool)
  | number (value : Float)
  | string (value : String)

/-- An expression. -/
inductive Expr (ι : Type) where
  | literal (value : Literal)
  | group (inner : Expr ι)
  | unary (operator : Token) (right : Expr ι)
  | binary (left : Expr ι) (operator : Token) (right : Expr ι)
  | logical (left : Expr ι) (operator : Token) (right : Expr ι)
  | variable (label : ι) (name : Name)
  | assign (label : ι) (name : Name) (value : Expr ι)
  /-- A call, with the line of its closing parenthesis. -/
  | call (callee : Expr ι) (line : Nat) (arguments : List (Expr ι))
  | get (object : Expr ι) (name : Name)
  | set (object : Expr ι) (name : Name) (value : Expr ι)
  | this (label : ι) (keyword : Name)
  | super (label : ι) (keyword method : Name)

mutual

/-- A statement. -/
inductive Stmt (ι : Type) where
  | expression (e : Expr ι)
  | print (e : Expr ι)
  | var (name : Name) (initializer : Option (Expr ι))
  | block (body : List (Stmt ι))
  | ifElse (condition : Expr ι) (thenBranch : Stmt ι) (elseBranch : Option (Stmt ι))
  | while (condition : Expr ι) (body : Stmt ι)
  | function (declaration : FunDecl ι)
  | return (keyword : Name) (value : Option (Expr ι))
  | «class» (name : Name) (superclass : Option (Expr ι)) (methods : List (FunDecl ι))

/-- A function or method. -/
inductive FunDecl (ι : Type) where
  | mk (name : Name) (params : List Name) (body : List (Stmt ι))

end

namespace FunDecl

variable {ι : Type}

def name : FunDecl ι → Name
  | mk name _ _ => name

def params : FunDecl ι → List Name
  | mk _ params _ => params

def body : FunDecl ι → List (Stmt ι)
  | mk _ _ body => body

end FunDecl

/-- The name of the method that sets up a new instance. -/
def initializerName : String := "init"

/-- Whether a method sets up new instances. -/
def FunDecl.isInitializer {ι : Type} (f : FunDecl ι) : Bool := f.name.text == initializerName

/-- A `for` loop: a `while` loop whose body is followed by the increment, in a block that opens
with the initializer. An absent condition is true. -/
def Stmt.forLoop {ι : Type} (initializer : Option (Stmt ι)) (condition increment : Option (Expr ι))
    (body : Stmt ι) : Stmt ι :=
  let body := match increment with
    | some e => .block [body, .expression e]
    | none => body
  let loop := .while (condition.getD (.literal (.bool true))) body
  match initializer with
  | some s => .block [s, loop]
  | none => loop

/-! ## Numbering -/

/-- The number of a node that names a binding. -/
abbrev NodeId := Nat

/-- Takes the next number. -/
def freshId : StateM Nat NodeId := fun next => (next, next + 1)

mutual

/-- Numbers the nodes of an expression. -/
def Expr.number {ι : Type} : Expr ι → StateM Nat (Expr NodeId)
  | .literal value => pure (.literal value)
  | .group inner => return .group (← inner.number)
  | .unary operator right => return .unary operator (← right.number)
  | .binary left operator right => return .binary (← left.number) operator (← right.number)
  | .logical left operator right => return .logical (← left.number) operator (← right.number)
  | .variable _ name => return .variable (← freshId) name
  | .assign _ name value => return .assign (← freshId) name (← value.number)
  | .call callee line arguments => return .call (← callee.number) line (← Expr.numberAll arguments)
  | .get object name => return .get (← object.number) name
  | .set object name value => return .set (← object.number) name (← value.number)
  | .this _ keyword => return .this (← freshId) keyword
  | .super _ keyword method => return .super (← freshId) keyword method

/-- Numbers the nodes of several expressions. -/
def Expr.numberAll {ι : Type} : List (Expr ι) → StateM Nat (List (Expr NodeId))
  | [] => pure []
  | e :: es => return (← e.number) :: (← Expr.numberAll es)

end

/-- Numbers the nodes of an expression, if there is one. -/
def Expr.number? {ι : Type} : Option (Expr ι) → StateM Nat (Option (Expr NodeId))
  | none => pure none
  | some e => return some (← e.number)

mutual

/-- Numbers the nodes of a statement. -/
def Stmt.number {ι : Type} : Stmt ι → StateM Nat (Stmt NodeId)
  | .expression e => return .expression (← e.number)
  | .print e => return .print (← e.number)
  | .var name initializer => return .var name (← Expr.number? initializer)
  | .block body => return .block (← Stmt.numberAll body)
  | .ifElse condition thenBranch elseBranch =>
    return .ifElse (← condition.number) (← thenBranch.number) (← Stmt.number? elseBranch)
  | .while condition body => return .while (← condition.number) (← body.number)
  | .function declaration => return .function (← declaration.number)
  | .return keyword value => return .return keyword (← Expr.number? value)
  | .class name superclass methods =>
    return .class name (← Expr.number? superclass) (← FunDecl.numberAll methods)

/-- Numbers the nodes of a statement, if there is one. -/
def Stmt.number? {ι : Type} : Option (Stmt ι) → StateM Nat (Option (Stmt NodeId))
  | none => pure none
  | some s => return some (← s.number)

/-- Numbers the nodes of several statements. -/
def Stmt.numberAll {ι : Type} : List (Stmt ι) → StateM Nat (List (Stmt NodeId))
  | [] => pure []
  | s :: ss => return (← s.number) :: (← Stmt.numberAll ss)

/-- Numbers the nodes of a function. -/
def FunDecl.number {ι : Type} : FunDecl ι → StateM Nat (FunDecl NodeId)
  | .mk name params body => return .mk name params (← Stmt.numberAll body)

/-- Numbers the nodes of several functions. -/
def FunDecl.numberAll {ι : Type} : List (FunDecl ι) → StateM Nat (List (FunDecl NodeId))
  | [] => pure []
  | f :: fs => return (← f.number) :: (← FunDecl.numberAll fs)

end

end Lox
