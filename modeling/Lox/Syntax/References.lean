import Lox.Syntax

/-!
# References

- `Stmt.references` lists the nodes of a tree that name a binding, in the order in which they stand
  in the program: parts from left to right, an assignment before its value.
-/

namespace Lox

/-- The kinds of nodes that name a binding. -/
inductive ReferenceKind where
  | variable
  | assign
  | this
  | super
  deriving DecidableEq, Repr

/-- A node that names a binding. -/
structure Reference where
  kind : ReferenceKind
  id : NodeId
  name : Name
  deriving DecidableEq, Repr

mutual

/-- The references of an expression. -/
def Expr.references : Expr NodeId → List Reference
  | .literal _ => []
  | .group inner => inner.references
  | .unary _ right => right.references
  | .binary left _ right => left.references ++ right.references
  | .logical left _ right => left.references ++ right.references
  | .variable id name => [⟨.variable, id, name⟩]
  | .assign id name value => ⟨.assign, id, name⟩ :: value.references
  | .call callee _ arguments => callee.references ++ Expr.referencesAll arguments
  | .get object _ => object.references
  | .set object _ value => object.references ++ value.references
  | .this id keyword => [⟨.this, id, keyword⟩]
  | .super id keyword _ => [⟨.super, id, keyword⟩]

/-- The references of several expressions. -/
def Expr.referencesAll : List (Expr NodeId) → List Reference
  | [] => []
  | e :: es => e.references ++ Expr.referencesAll es

end

/-- The references of an expression, if there is one. -/
def Expr.references? : Option (Expr NodeId) → List Reference
  | none => []
  | some e => e.references

mutual

/-- The references of a statement. -/
def Stmt.references : Stmt NodeId → List Reference
  | .expression e => e.references
  | .print e => e.references
  | .var _ initializer => Expr.references? initializer
  | .block body => Stmt.referencesAll body
  | .ifElse condition thenBranch elseBranch =>
    condition.references ++ thenBranch.references ++ Stmt.references? elseBranch
  | .while condition body => condition.references ++ body.references
  | .function declaration => declaration.references
  | .return _ value => Expr.references? value
  | .class _ superclass methods => Expr.references? superclass ++ FunDecl.referencesAll methods

/-- The references of a statement, if there is one. -/
def Stmt.references? : Option (Stmt NodeId) → List Reference
  | none => []
  | some s => s.references

/-- The references of several statements. -/
def Stmt.referencesAll : List (Stmt NodeId) → List Reference
  | [] => []
  | s :: ss => s.references ++ Stmt.referencesAll ss

/-- The references of a function. -/
def FunDecl.references : FunDecl NodeId → List Reference
  | .mk _ _ body => Stmt.referencesAll body

/-- The references of several functions. -/
def FunDecl.referencesAll : List (FunDecl NodeId) → List Reference
  | [] => []
  | f :: fs => f.references ++ FunDecl.referencesAll fs

end

end Lox
