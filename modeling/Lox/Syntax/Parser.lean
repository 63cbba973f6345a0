import Lox.Diagnostic
import Lox.Syntax

/-!
# From tokens to trees

- `Parse` is a parser: it takes tokens and answers with a value or a failure, the tokens that are
  left, and the errors that it noted on the way without failing.
- `Parse.recover` turns a failure into a noted error and goes on at the next statement
  (`synchronize`); every declaration is read this way, also inside a block.
- `Rule` has the rules of the grammar, and `Script` what is done by each of them. A script says neither
  how tokens are stored nor what the nodes of a tree are labeled with.
- `Rule.read` reads by a rule, and `parse` reads a whole program.

The grammar, with `?` for an optional part and `*` for repetition:

    program     = declaration*
    declaration = class | "fun" function | var | statement
    class       = "class" name ( "<" name )? "{" function* "}"
    function    = name "(" ( name ( "," name )* )? ")" block
    var         = "var" name ( "=" expression )? ";"
    statement   = expression ";" | for | if | "print" expression ";" | return | while | block
    for         = "for" "(" ( var | expression ";" | ";" ) expression? ";" expression? ")" statement
    if          = "if" "(" expression ")" statement ( "else" statement )?
    return      = "return" expression? ";"
    while       = "while" "(" expression ")" statement
    block       = "{" declaration* "}"
    expression  = ( call "." )? name "=" expression | or
    or          = and ( "or" and )*
    and         = equality ( "and" equality )*
    equality    = comparison ( ( "!=" | "==" ) comparison )*
    comparison  = term ( ( ">" | ">=" | "<" | "<=" ) term )*
    term        = factor ( ( "-" | "+" ) factor )*
    factor      = unary ( ( "/" | "*" ) unary )*
    unary       = ( "!" | "-" ) unary | call
    call        = primary ( "(" ( expression ( "," expression )* )? ")" | "." name )*
    primary     = number | string | "true" | "false" | "nil" | "this" | name
                | "(" expression ")" | "super" "." name

Reading by a rule takes a bound on the depth of the calls; `parse` gives one that is large enough
for the number of tokens.
-/

namespace Lox

/-! ## Errors -/

/-- Whether a function stands alone or in a class. -/
inductive FunctionRole where
  | function
  | method
  deriving DecidableEq, Repr

/-- What a missing name would have named. -/
inductive NameRole where
  | «class»
  | superclass
  | callable (role : FunctionRole)
  | parameter
  | variable
  | property
  | superclassMethod
  deriving DecidableEq, Repr

/-- Where a missing symbol should have stood. -/
inductive Place where
  | beforeClassBody
  | afterClassBody
  | afterName (role : FunctionRole)
  | afterParameters
  | beforeBody (role : FunctionRole)
  | afterVariableDeclaration
  | afterFor
  | afterLoopCondition
  | afterForClauses
  | afterIf
  | afterIfCondition
  | afterValue
  | afterReturnValue
  | afterWhile
  | afterCondition
  | afterExpression
  | afterBlock
  | afterArguments
  | afterSuper
  deriving DecidableEq, Repr

/-- What a list may have too many of. -/
inductive ListRole where
  | parameters
  | arguments
  deriving DecidableEq, Repr

/-- What can be wrong with a sequence of tokens. -/
inductive SyntaxFault where
  | missingName (role : NameRole)
  | missingSymbol (symbol : Symbol) (place : Place)
  | missingExpression
  | invalidAssignmentTarget
  | tooMany (role : ListRole)
  deriving DecidableEq, Repr

/-- The longest parameter or argument list. -/
def maxArity : Nat := 255

def FunctionRole.text : FunctionRole → String
  | .function => "function"
  | .method => "method"

def NameRole.text : NameRole → String
  | .class => "class name"
  | .superclass => "superclass name"
  | .callable role => role.text ++ " name"
  | .parameter => "parameter name"
  | .variable => "variable name"
  | .property => "property name after '.'"
  | .superclassMethod => "superclass method name"

def Place.text : Place → String
  | .beforeClassBody => "before class body"
  | .afterClassBody => "after class body"
  | .afterName role => "after " ++ role.text ++ " name"
  | .afterParameters => "after parameters"
  | .beforeBody role => "before " ++ role.text ++ " body"
  | .afterVariableDeclaration => "after variable declaration"
  | .afterFor => "after 'for'"
  | .afterLoopCondition => "after loop condition"
  | .afterForClauses => "after for clauses"
  | .afterIf => "after 'if'"
  | .afterIfCondition => "after if condition"
  | .afterValue => "after value"
  | .afterReturnValue => "after return value"
  | .afterWhile => "after 'while'"
  | .afterCondition => "after condition"
  | .afterExpression => "after expression"
  | .afterBlock => "after block"
  | .afterArguments => "after arguments"
  | .afterSuper => "after 'super'"

def ListRole.text : ListRole → String
  | .parameters => "parameters"
  | .arguments => "arguments"

/-- The wording of a fault. -/
def SyntaxFault.message : SyntaxFault → String
  | .missingName role => "Expect " ++ role.text ++ "."
  | .missingSymbol symbol place => "Expect '" ++ symbol.text ++ "' " ++ place.text ++ "."
  | .missingExpression => "Expect expression."
  | .invalidAssignmentTarget => "Invalid assignment target."
  | .tooMany role => "Can't have more than " ++ toString maxArity ++ " " ++ role.text ++ "."

/-- A fault and the token at which it was found; none is the end of the source. -/
structure SyntaxError where
  fault : SyntaxFault
  found : Option Name
  deriving DecidableEq, Repr

/-- A syntax error as a diagnostic, given the line on which the source ends. -/
def SyntaxError.toDiagnostic (endLine : Nat) (e : SyntaxError) : Diagnostic :=
  match e.found with
  | some t => .grammatical t.line (.lexeme t.text) e.fault.message
  | none => .grammatical endLine .atEnd e.fault.message

/-! ## Parsers -/

/-- The answer of a parser. `exhausted` says that the bound on the depth was too small. -/
inductive Reply (α : Type) where
  | ok (value : α) (rest : List Token) (noted : List SyntaxError)
  | fail (error : SyntaxError) (rest : List Token) (noted : List SyntaxError)
  | exhausted

/-- A parser. -/
def Parse (α : Type) : Type := List Token → Reply α

/-- The same answer after earlier noted errors. -/
def Reply.after {α : Type} (earlier : List SyntaxError) : Reply α → Reply α
  | .ok value rest noted => .ok value rest (earlier ++ noted)
  | .fail error rest noted => .fail error rest (earlier ++ noted)
  | .exhausted => .exhausted

namespace Parse

variable {α β : Type}

instance : Monad Parse where
  pure value := fun ts => .ok value ts []
  bind p f := fun ts =>
    match p ts with
    | .ok value rest noted => (f value rest).after noted
    | .fail error rest noted => .fail error rest noted
    | .exhausted => .exhausted

/-- The parser whose depth is used up. -/
def exhausted : Parse α := fun _ => .exhausted

/-- The text and line of the next token. -/
def found (ts : List Token) : Option Name := ts.head?.map Token.toName

/-- Fails at the next token. -/
def fail (fault : SyntaxFault) : Parse α := fun ts => .fail ⟨fault, found ts⟩ ts []

/-- Notes an error without failing. -/
def note (error : SyntaxError) : Parse Unit := fun ts => .ok () ts [error]

/-- Notes an error at the next token without failing. -/
def noteHere (fault : SyntaxFault) : Parse Unit := fun ts => .ok () ts [⟨fault, found ts⟩]

/-- Whether no token is left. -/
def atEnd : Parse Bool := fun ts => .ok ts.isEmpty ts []

/-- Whether the next token is of this kind. -/
def nextIs (kind : Kind) : Parse Bool := fun ts =>
  .ok (ts.head?.any fun t => t.kind.sameAs kind) ts []

/-- Takes the next token if it is of one of these kinds. -/
def acceptAny (kinds : List Kind) : Parse (Option Token)
  | t :: rest =>
    if kinds.any t.kind.sameAs then .ok (some t) rest [] else .ok none (t :: rest) []
  | [] => .ok none [] []

/-- The keywords that begin a statement or declaration. -/
def beginsStatement (t : Token) : Bool :=
  match t.kind with
  | .keyword .class | .keyword .fun | .keyword .var | .keyword .for | .keyword .if
  | .keyword .while | .keyword .print | .keyword .return => true
  | _ => false

/-- Goes on after a failure: skips one token at least, and stops after a semicolon or before a
token that begins a statement. -/
def synchronize : List Token → List Token
  | [] => []
  | t :: rest =>
    if t.kind.sameAs (.symbol .semicolon) || rest.head?.any beginsStatement then rest
    else synchronize rest

/-- Notes the error of a parser that fails, and skips to the next statement. -/
def recover (p : Parse α) : Parse (Option α) := fun ts =>
  match p ts with
  | .ok value rest noted => .ok (some value) rest noted
  | .fail error rest noted => .ok none (synchronize rest) (noted ++ [error])
  | .exhausted => .exhausted

end Parse

/-! ## Operators -/

/-- The levels of binary operators, the loosest first. -/
inductive Level where
  | or
  | and
  | equality
  | comparison
  | term
  | factor
  deriving DecidableEq, Repr

/-- The operators of a level. -/
def Level.operators : Level → List Kind
  | .or => [.keyword .or]
  | .and => [.keyword .and]
  | .equality => [.symbol .bangEqual, .symbol .equalEqual]
  | .comparison =>
    [.symbol .greater, .symbol .greaterEqual, .symbol .less, .symbol .lessEqual]
  | .term => [.symbol .minus, .symbol .plus]
  | .factor => [.symbol .slash, .symbol .star]

/-- The node that an operator of a level builds. -/
def Level.node {ι : Type} (level : Level) (left : Expr ι) (operator : Token) (right : Expr ι) :
    Expr ι :=
  match level with
  | .or | .and => .logical left operator right
  | _ => .binary left operator right

/-- All levels, the loosest first. -/
def Level.all : List Level := [.or, .and, .equality, .comparison, .term, .factor]

/-- The prefix operators. -/
def prefixOperators : List Kind := [.symbol .bang, .symbol .minus]

/-! ## Scripts

The rules of the grammar are written down once, for trees with any kind of labels. -/

/-- A rule of the grammar, with the type of what is read by it. -/
inductive Rule (ι : Type) : Type → Type where
  | expression : Rule ι (Expr ι)
  | binary (levels : List Level) : Rule ι (Expr ι)
  | operands (level : Level) (levels : List Level) (left : Expr ι) : Rule ι (Expr ι)
  | unary : Rule ι (Expr ι)
  | calls (callee : Expr ι) : Rule ι (Expr ι)
  | arguments (count : Nat) : Rule ι (List (Expr ι))
  | primary : Rule ι (Expr ι)
  | parameters (count : Nat) : Rule ι (List Name)
  | declaration : Rule ι (Option (Stmt ι))
  | declarations : Rule ι (List (Stmt ι))
  | block : Rule ι (List (Stmt ι))
  | function (role : FunctionRole) : Rule ι (FunDecl ι)
  | methods : Rule ι (List (FunDecl ι))
  | classDeclaration : Rule ι (Stmt ι)
  | statement : Rule ι (Stmt ι)
  | forStatement : Rule ι (Stmt ι)
  | ifStatement : Rule ι (Stmt ι)
  | whileStatement : Rule ι (Stmt ι)
  | program : Rule ι (List (Stmt ι))

/-- A step that looks at the next token, takes it, or notes an error. -/
inductive Step : Type → Type where
  | note (error : SyntaxError) : Step Unit
  | noteHere (fault : SyntaxFault) : Step Unit
  | atEnd : Step Bool
  | nextIs (kind : Kind) : Step Bool
  | take (kinds : List Kind) : Step (Option Token)

/-- What is done by a rule, one step after another, between the phrases that are read by other
rules: `label` asks for the label of a node, and `fail` gives up at the next token. -/
inductive Script (ι α : Type) : Type 1 where
  | done (value : α)
  | fail (fault : SyntaxFault)
  | step {β : Type} (step : Step β) (next : β → Script ι α)
  | label (next : ι → Script ι α)
  | call {β : Type} (rule : Rule ι β) (next : β → Script ι α)

namespace Script

variable {ι α β : Type}

/-- One script after another. -/
protected def bind (f : α → Script ι β) : Script ι α → Script ι β
  | .done value => f value
  | .fail fault => .fail fault
  | .step s next => .step s fun b => (next b).bind f
  | .label next => .label fun i => (next i).bind f
  | .call r next => .call r fun b => (next b).bind f

instance : Monad (Script ι) where
  pure := .done
  bind s f := s.bind f

/-- Notes an error without failing. -/
def note (error : SyntaxError) : Script ι Unit := .step (.note error) .done

/-- Notes an error at the next token without failing. -/
def noteHere (fault : SyntaxFault) : Script ι Unit := .step (.noteHere fault) .done

/-- Whether no token is left. -/
def atEnd : Script ι Bool := .step .atEnd .done

/-- Whether the next token is of this kind. -/
def nextIs (kind : Kind) : Script ι Bool := .step (.nextIs kind) .done

/-- Takes the next token if it is of one of these kinds. -/
def acceptAny (kinds : List Kind) : Script ι (Option Token) := .step (.take kinds) .done

/-- Takes the next token if it is of this kind. -/
def accept (kind : Kind) : Script ι (Option Token) := acceptAny [kind]

/-- Takes a token of this kind, or fails. -/
def expect (kind : Kind) (fault : SyntaxFault) : Script ι Token := do
  match ← accept kind with
  | some t => pure t
  | none => .fail fault

/-- Takes a symbol, or fails. -/
def symbol (s : Symbol) (place : Place) : Script ι Token := expect (.symbol s) (.missingSymbol s place)

/-- Takes a name, or fails. -/
def name (role : NameRole) : Script ι Name := do
  let t ← expect .identifier (.missingName role)
  return t.toName

/-- The label of a node. -/
def fresh : Script ι ι := .label .done

/-- Reads a phrase by a rule. -/
def rule (r : Rule ι α) : Script ι α := .call r .done

/-- What a token of this kind announces, if it comes next. -/
def optionally (kind : Kind) (s : Script ι α) : Script ι (Option α) := do
  match ← accept kind with
  | some _ => some <$> s
  | none => pure none

/-- Reads on unless this symbol comes next. -/
def unlessNext (s : Symbol) (absent : α) (other : Script ι α) : Script ι α := do
  if ← nextIs (.symbol s) then pure absent else other

/-- Reads on unless a closing brace or nothing comes next. -/
def unlessClosed (absent : α) (other : Script ι α) : Script ι α := do
  if (← nextIs (.symbol .rightBrace)) || (← atEnd) then pure absent else other

/-- Notes that a list has `count` items already, if no more may follow. -/
def checkCount (count : Nat) (role : ListRole) : Script ι Unit :=
  if maxArity ≤ count then noteHere (.tooMany role) else pure ()

/-- Items between commas, after `count` earlier ones. -/
def list (count : Nat) (role : ListRole) (item : Script ι α) (others : Rule ι (List α)) :
    Script ι (List α) := do
  checkCount count role
  let first ← item
  match ← accept (.symbol .comma) with
  | none => pure [first]
  | some _ => return first :: (← rule others)

/-! ### Expressions -/

/-- The assignment of `value` to what `target` denotes. A target to which nothing can be assigned is
noted at the equals sign, and stands for the whole assignment. -/
def assignment (target : Expr ι) (equals : Token) (value : Expr ι) : Script ι (Expr ι) :=
  match target with
  | .variable _ name => return .assign (← fresh) name value
  | .get object name => pure (.set object name value)
  | target => do
    note ⟨.invalidAssignmentTarget, some equals.toName⟩
    pure target

/-- An expression. -/
def expression : Script ι (Expr ι) := do
  let target ← rule (.binary Level.all)
  match ← accept (.symbol .equal) with
  | none => pure target
  | some equals => assignment target equals (← rule .expression)

/-- An expression without assignment whose operators are of the given levels. -/
def binary : List Level → Script ι (Expr ι)
  | [] => rule .unary
  | level :: levels => do
    let left ← rule (.binary levels)
    rule (.operands level levels left)

/-- The operators of a level after a left operand, and their right operands. -/
def operands (level : Level) (levels : List Level) (left : Expr ι) : Script ι (Expr ι) := do
  match ← acceptAny level.operators with
  | none => pure left
  | some operator =>
    let right ← rule (.binary levels)
    rule (.operands level levels (level.node left operator right))

/-- A prefix operator and its operand, or a call. -/
def unary : Script ι (Expr ι) := do
  match ← acceptAny prefixOperators with
  | some operator => return .unary operator (← rule .unary)
  | none =>
    let callee ← rule .primary
    rule (.calls callee)

/-- The argument lists and property names after an expression. -/
def calls (callee : Expr ι) : Script ι (Expr ι) := do
  match ← accept (.symbol .leftParen) with
  | some _ =>
    let arguments ← unlessNext .rightParen [] (rule (.arguments 0))
    let paren ← symbol .rightParen .afterArguments
    rule (.calls (.call callee paren.line arguments))
  | none =>
    match ← accept (.symbol .dot) with
    | some _ =>
      let property ← name .property
      rule (.calls (.get callee property))
    | none => pure callee

/-- The kinds of the tokens with which a primary expression begins, whatever literals they carry. -/
def primaryKinds : List Kind :=
  [.keyword .false, .keyword .true, .keyword .nil, .number 0, .string "", .keyword .super,
    .keyword .this, .identifier, .symbol .leftParen]

/-- An expression that no operator holds together. -/
def primary : Script ι (Expr ι) := do
  match ← acceptAny primaryKinds with
  | none => .fail .missingExpression
  | some t =>
    match t.kind with
    | .keyword .false => pure (.literal (.bool false))
    | .keyword .true => pure (.literal (.bool true))
    | .keyword .nil => pure (.literal .nil)
    | .number value => pure (.literal (.number value))
    | .string value => pure (.literal (.string value))
    | .keyword .this => return .this (← fresh) t.toName
    | .identifier => return .variable (← fresh) t.toName
    | .keyword .super =>
      let _ ← symbol .dot .afterSuper
      let method ← name .superclassMethod
      return .super (← fresh) t.toName method
    | _ =>
      let inner ← rule .expression
      let _ ← symbol .rightParen .afterExpression
      return .group inner

/-! ### Statements -/

/-- An expression unless this symbol comes next. -/
def expressionUnless (s : Symbol) : Script ι (Option (Expr ι)) :=
  unlessNext s none (some <$> rule .expression)

/-- An expression and a semicolon. -/
def expressionStatement : Script ι (Stmt ι) := do
  let e ← rule .expression
  let _ ← symbol .semicolon .afterExpression
  return .expression e

/-- A variable declaration after its keyword. -/
def varDeclaration : Script ι (Stmt ι) := do
  let own ← name .variable
  let initializer ← optionally (.symbol .equal) (rule .expression)
  let _ ← symbol .semicolon .afterVariableDeclaration
  return .var own initializer

/-- The initializer of a `for` loop. -/
def forInitializer : Script ι (Option (Stmt ι)) := do
  match ← accept (.symbol .semicolon) with
  | some _ => pure none
  | none =>
    match ← accept (.keyword .var) with
    | some _ => some <$> varDeclaration
    | none => some <$> expressionStatement

/-- The superclass of a class. -/
def superclass : Script ι (Expr ι) := do
  let own ← name .superclass
  return .variable (← fresh) own

/-- A declaration. -/
def declaration : Script ι (Stmt ι) := do
  match ← acceptAny [.keyword .class, .keyword .fun, .keyword .var] with
  | some t =>
    match t.kind with
    | .keyword .class => rule .classDeclaration
    | .keyword .fun => .function <$> rule (.function .function)
    | _ => varDeclaration
  | none => rule .statement

/-- The declarations up to a closing brace. -/
def declarations : Script ι (List (Stmt ι)) :=
  unlessClosed [] do
    let first ← rule .declaration
    return first.toList ++ (← rule .declarations)

/-- A block after its opening brace. -/
def block : Script ι (List (Stmt ι)) := do
  let body ← rule .declarations
  let _ ← symbol .rightBrace .afterBlock
  return body

/-- A function or method from its name on. -/
def function (role : FunctionRole) : Script ι (FunDecl ι) := do
  let own ← name (.callable role)
  let _ ← symbol .leftParen (.afterName role)
  let params ← unlessNext .rightParen [] (rule (.parameters 0))
  let _ ← symbol .rightParen .afterParameters
  let _ ← symbol .leftBrace (.beforeBody role)
  return .mk own params (← rule .block)

/-- The methods up to a closing brace. -/
def methods : Script ι (List (FunDecl ι)) :=
  unlessClosed [] do
    let first ← rule (.function .method)
    return first :: (← rule .methods)

/-- A class after its keyword. -/
def classDeclaration : Script ι (Stmt ι) := do
  let own ← name .class
  let superclass ← optionally (.symbol .less) superclass
  let _ ← symbol .leftBrace .beforeClassBody
  let body ← rule .methods
  let _ ← symbol .rightBrace .afterClassBody
  return .class own superclass body

/-- A statement. -/
def statement : Script ι (Stmt ι) := do
  match ← acceptAny [.keyword .for, .keyword .if, .keyword .print, .keyword .return,
      .keyword .while, .symbol .leftBrace] with
  | none => expressionStatement
  | some t =>
    match t.kind with
    | .keyword .for => rule .forStatement
    | .keyword .if => rule .ifStatement
    | .keyword .print =>
      let value ← rule .expression
      let _ ← symbol .semicolon .afterValue
      return .print value
    | .keyword .return =>
      let value ← expressionUnless .semicolon
      let _ ← symbol .semicolon .afterReturnValue
      return .return t.toName value
    | .keyword .while => rule .whileStatement
    | _ => .block <$> rule .block

/-- A `for` loop after its keyword. -/
def forStatement : Script ι (Stmt ι) := do
  let _ ← symbol .leftParen .afterFor
  let initializer ← forInitializer
  let condition ← expressionUnless .semicolon
  let _ ← symbol .semicolon .afterLoopCondition
  let increment ← expressionUnless .rightParen
  let _ ← symbol .rightParen .afterForClauses
  return .forLoop initializer condition increment (← rule .statement)

/-- An `if` statement after its keyword. An `else` belongs to the nearest `if`. -/
def ifStatement : Script ι (Stmt ι) := do
  let _ ← symbol .leftParen .afterIf
  let condition ← rule .expression
  let _ ← symbol .rightParen .afterIfCondition
  let thenBranch ← rule .statement
  let elseBranch ← optionally (.keyword .else) (rule .statement)
  return .ifElse condition thenBranch elseBranch

/-- A `while` loop after its keyword. -/
def whileStatement : Script ι (Stmt ι) := do
  let _ ← symbol .leftParen .afterWhile
  let condition ← rule .expression
  let _ ← symbol .rightParen .afterCondition
  return .while condition (← rule .statement)

/-- The declarations up to the end of the source. -/
def program : Script ι (List (Stmt ι)) := do
  if ← atEnd then pure []
  else
    let first ← rule .declaration
    return first.toList ++ (← rule .program)

end Script

/-- How a rule reads: by a script, or by a script whose failure is noted, after which the next
statement is looked for. -/
inductive Phrase (ι : Type) : Type → Type 1 where
  | plain {α : Type} (s : Script ι α) : Phrase ι α
  | guarded {α : Type} (s : Script ι α) : Phrase ι (Option α)

/-- How each rule reads. -/
def Rule.phrase {ι α : Type} : Rule ι α → Phrase ι α
  | .expression => .plain .expression
  | .binary levels => .plain (.binary levels)
  | .operands level levels left => .plain (.operands level levels left)
  | .unary => .plain .unary
  | .calls callee => .plain (.calls callee)
  | .arguments count => .plain (.list count .arguments (.rule .expression) (.arguments (count + 1)))
  | .primary => .plain .primary
  | .parameters count => .plain (.list count .parameters (.name .parameter) (.parameters (count + 1)))
  | .declaration => .guarded .declaration
  | .declarations => .plain .declarations
  | .block => .plain .block
  | .function role => .plain (.function role)
  | .methods => .plain .methods
  | .classDeclaration => .plain .classDeclaration
  | .statement => .plain .statement
  | .forStatement => .plain .forStatement
  | .ifStatement => .plain .ifStatement
  | .whileStatement => .plain .whileStatement
  | .program => .plain .program

/-! ## Reading -/

/-- Takes a step on the tokens that are left. -/
def Step.run {α : Type} : Step α → Parse α
  | .note error => Parse.note error
  | .noteHere fault => Parse.noteHere fault
  | .atEnd => Parse.atEnd
  | .nextIs kind => Parse.nextIs kind
  | .take kinds => Parse.acceptAny kinds

/-- Follows a script on the tokens that are left. Nodes have no labels. -/
def Script.run {α : Type} (go : {β : Type} → Rule Unit β → Parse β) : Script Unit α → Parse α
  | .done value => pure value
  | .fail fault => Parse.fail fault
  | .step s next => s.run >>= fun b => (next b).run go
  | .label next => (next ()).run go
  | .call r next => go r >>= fun b => (next b).run go

def Phrase.run {α : Type} (go : {β : Type} → Rule Unit β → Parse β) : Phrase Unit α → Parse α
  | .plain s => s.run go
  | .guarded s => Parse.recover (s.run go)

/-- Reads a phrase by a rule. The number bounds how deep the calls of rules are nested. -/
def Rule.read : Nat → {α : Type} → Rule Unit α → Parse α
  | 0, _, _ => Parse.exhausted
  | n + 1, _, r => r.phrase.run fun r => r.read n

/-- A depth that is enough for `count` tokens: no more than twenty calls follow one another
without taking a token. -/
def Parse.depth (count : Nat) : Nat := 20 * (count + 1)

/-! ## Programs -/

/-- The tokens that are parsed, and the line on which they end. -/
structure TokenSequence where
  tokens : List Token
  endLine : Nat

/-- Leaves comments out and stops at the first end marker. Without one, the source ends on the
line of its last token. -/
def TokenSequence.ofTokens (ts : List Token) : TokenSequence :=
  let ts := ts.filter fun t => !t.isComment
  { tokens := ts.takeWhile fun t => !t.isEof
    endLine := match ts.find? Token.isEof with
      | some t => t.line
      | none => (ts.getLast?.map Token.line).getD 1 }

/-- The declarations that could be read, and all errors. -/
structure Parsed where
  statements : List (Stmt Unit)
  errors : List SyntaxError
  endLine : Nat

/-- Reads a program. -/
def parse (ts : List Token) : Parsed :=
  let source := TokenSequence.ofTokens ts
  match Rule.program.read (Parse.depth source.tokens.length) source.tokens with
  | .ok statements _ noted => ⟨statements, noted, source.endLine⟩
  | .fail error _ noted => ⟨[], noted ++ [error], source.endLine⟩
  | .exhausted => ⟨[], [], source.endLine⟩

theorem endLine_parse (ts : List Token) :
    (parse ts).endLine = (TokenSequence.ofTokens ts).endLine := by
  rw [parse]
  cases Rule.program.read _ _ <;> rfl

/-- Reads one expression that takes up all the tokens; none if there is an error. -/
def parseExpression? (ts : List Token) : Option (Expr Unit) :=
  let source := TokenSequence.ofTokens ts
  match Rule.expression.read (Parse.depth source.tokens.length) source.tokens with
  | .ok e [] [] => some e
  | _ => none

/-- The errors of a program as diagnostics. -/
def Parsed.diagnostics (p : Parsed) : List Diagnostic :=
  p.errors.map (SyntaxError.toDiagnostic p.endLine)

end Lox
