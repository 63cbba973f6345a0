import Lox.Decimal.Style
import Lox.Syntax

/-!
# Trees as text

- `Expr.text` and `Stmt.text` write a tree in parentheses, the operator or the kind of node first.

Strings are written as they are, without quotes; groupings and blocks are kept.
-/

namespace Lox

/-- Numbers in trees: a whole number has all its digits and one zero after the point. -/
def treeNumber : Decimal.Style where
  exactIntegers := true
  pointZero := true
  tie := .up
  positional := none
  signedZero := true
  infinity := "inf"
  nan := "NaN"

/-- A constant in a tree. -/
def Literal.text : Literal → String
  | .nil => "nil"
  | .bool true => "true"
  | .bool false => "false"
  | .number value => treeNumber.write value
  | .string value => value

variable {ι : Type}

mutual

/-- An expression as text. -/
def Expr.text : Expr ι → String
  | .literal value => value.text
  | .group inner => "(group " ++ inner.text ++ ")"
  | .unary operator right => "(" ++ operator.lexeme ++ " " ++ right.text ++ ")"
  | .binary left operator right =>
    "(" ++ operator.lexeme ++ " " ++ left.text ++ " " ++ right.text ++ ")"
  | .logical left operator right =>
    "(" ++ operator.lexeme ++ " " ++ left.text ++ " " ++ right.text ++ ")"
  | .variable _ name => name.text
  | .assign _ name value => "(= " ++ name.text ++ " " ++ value.text ++ ")"
  | .call callee _ arguments => "(call " ++ callee.text ++ Expr.textAll arguments ++ ")"
  | .get object name => "(. " ++ object.text ++ " " ++ name.text ++ ")"
  | .set object name value =>
    "(= (. " ++ object.text ++ " " ++ name.text ++ ") " ++ value.text ++ ")"
  | .this _ _ => "this"
  | .super _ _ method => "(super " ++ method.text ++ ")"

/-- Several expressions, each after a blank. -/
def Expr.textAll : List (Expr ι) → String
  | [] => ""
  | e :: es => " " ++ e.text ++ Expr.textAll es

end

/-- An expression after a blank, or nothing. -/
def Expr.text? : Option (Expr ι) → String
  | none => ""
  | some e => " " ++ e.text

mutual

/-- A statement as text. -/
def Stmt.text : Stmt ι → String
  | .expression e => "(; " ++ e.text ++ ")"
  | .print e => "(print " ++ e.text ++ ")"
  | .var name initializer => "(var " ++ name.text ++ Expr.text? initializer ++ ")"
  | .block body => "(block" ++ Stmt.textAll body ++ ")"
  | .ifElse condition thenBranch elseBranch =>
    "(if " ++ condition.text ++ " " ++ thenBranch.text ++ Stmt.text? elseBranch ++ ")"
  | .while condition body => "(while " ++ condition.text ++ " " ++ body.text ++ ")"
  | .function declaration => "(fun " ++ declaration.text ++ ")"
  | .return _ value => "(return" ++ Expr.text? value ++ ")"
  | .class name superclass methods =>
    let heritage := match superclass with
      | none => ""
      | some e => " < " ++ e.text
    "(class " ++ name.text ++ heritage ++ FunDecl.textAll methods ++ ")"

/-- A statement after a blank, or nothing. -/
def Stmt.text? : Option (Stmt ι) → String
  | none => ""
  | some s => " " ++ s.text

/-- Several statements, each after a blank. -/
def Stmt.textAll : List (Stmt ι) → String
  | [] => ""
  | s :: ss => " " ++ s.text ++ Stmt.textAll ss

/-- A function: its name, its parameters in parentheses, and its body. -/
def FunDecl.text : FunDecl ι → String
  | .mk name params body =>
    name.text ++ " (" ++ " ".intercalate (params.map Name.text) ++ ")" ++ Stmt.textAll body

/-- Several functions, each in parentheses after a blank. -/
def FunDecl.textAll : List (FunDecl ι) → String
  | [] => ""
  | f :: fs => " (" ++ f.text ++ ")" ++ FunDecl.textAll fs

end

end Lox
