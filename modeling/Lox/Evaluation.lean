import Lox.Evaluation.Machine

/-!
# Running programs

- `Task.rule` is what a task does by itself: the rule for an expression, a statement, a call and
  so on. It says which other tasks are started, but not what it is to start one (`Evaluator`).
- `Task.run` runs a task and those that it starts; `evaluate`, `execute` and their companions are
  its cases. It takes fuel, one unit for each task that waits for another one, as a nested call
  does, and for each turn of a loop.
- Blocks and calls run in a new frame and go back to the frame before on every exit.
- `runProgram` runs a batch of statements: it stops at the first failure, and flushes the output if
  there is none.
-/

namespace Lox

/-! ## Operators -/

/-- Applies a prefix operator. -/
def applyUnary (operator : Token) (right : Value) : Except RuntimeFault Value :=
  match operator.kind with
  | .symbol .bang => .ok (.bool !right.isTruthy)
  | .symbol .minus =>
    match right with
    | .number x => .ok (.number (-x))
    | _ => .error .operandNotNumber
  | _ => .error (.invalidUnaryOperator operator.lexeme)

/-- Applies an operation on numbers. -/
def onNumbers (f : Float → Float → Value) (left right : Value) : Except RuntimeFault Value :=
  match left, right with
  | .number a, .number b => .ok (f a b)
  | _, _ => .error .operandsNotNumbers

/-- Applies a binary operator. Division by zero gives an infinity, or not a number. -/
def applyBinary (operator : Token) (left right : Value) : Except RuntimeFault Value :=
  match operator.kind with
  | .symbol .plus =>
    match left, right with
    | .number a, .number b => .ok (.number (a + b))
    | .string a, .string b => .ok (.string (a ++ b))
    | _, _ => .error .operandsNotAddable
  | .symbol .minus => onNumbers (fun a b => .number (a - b)) left right
  | .symbol .star => onNumbers (fun a b => .number (a * b)) left right
  | .symbol .slash => onNumbers (fun a b => .number (a / b)) left right
  | .symbol .greater => onNumbers (fun a b => .bool (b < a)) left right
  | .symbol .greaterEqual => onNumbers (fun a b => .bool (b ≤ a)) left right
  | .symbol .less => onNumbers (fun a b => .bool (a < b)) left right
  | .symbol .lessEqual => onNumbers (fun a b => .bool (a ≤ b)) left right
  | .symbol .equalEqual => .ok (.bool (left.same right))
  | .symbol .bangEqual => .ok (.bool !(left.same right))
  | _ => .error (.invalidBinaryOperator operator.lexeme)

/-- Whether a logical operator is settled by its left operand. -/
def settles (operator : Token) (left : Value) : Bool :=
  match operator.kind with
  | .keyword .or => left.isTruthy
  | _ => !left.isTruthy

/-- The outcome of an operator on a line. -/
def Machine.settle (m : Machine) (line : Nat) : Except RuntimeFault Value → Outcome Value
  | .ok value => .done value m
  | .error cause => m.fault cause line

/-! ## Names -/

/-- The value of the binding that a node names. -/
def readVariable (s : Setting) (id : NodeId) (name : Name) (m : Machine) : Outcome Value :=
  let value? := match s.distance? id with
    | some distance => m.store.getAt m.environment distance name.text
    | none => m.store.get .globals name.text
  match value? with
  | some value => .done value m
  | none => m.fault (.undefinedVariable name.text) name.line

/-- Gives the binding that a node names a new value. -/
def writeVariable (s : Setting) (id : NodeId) (name : Name) (value : Value) (m : Machine) :
    Outcome Value :=
  let frame? := match s.distance? id with
    | some distance => m.store.ancestor? m.environment distance
    | none => m.store.binder? .globals name.text
  match frame? with
  | some frame => .done value { m with store := m.store.define frame name.text value }
  | none => m.fault (.undefinedVariable name.text) name.line

/-- A method of an instance as a value. -/
def bound (method : FunctionObject) (receiver : InstanceId) (m : Machine) : Outcome Value :=
  let (f, store) := m.store.bindMethod method receiver
  let (id, store) := store.addFunction f
  .done (.function id) { m with store }

/-- A property of a value: a field of an instance, or else a method of its class. -/
def readProperty (object : Value) (name : Name) (m : Machine) : Outcome Value :=
  match object with
  | .instance id =>
    match m.store.instance? id with
    | none => m.fault (.undefinedProperty name.text) name.line
    | some i =>
      match i.fields.get? name.text with
      | some value => .done value m
      | none =>
        match m.store.findMethod i.class name.text with
        | some method => bound method id m
        | none => m.fault (.undefinedProperty name.text) name.line
  | _ => m.fault .propertyOfNonInstance name.line

/-- A method of the superclass. The frame that binds `this` lies directly inside the one that
binds `super`. -/
def readSuper (s : Setting) (id : NodeId) (keyword method : Name) (m : Machine) : Outcome Value :=
  match s.distance? id with
  | none => m.fault (.undefinedVariable "super") keyword.line
  | some distance =>
    match m.store.getAt m.environment distance keyword.text with
    | none => m.fault (.undefinedVariable keyword.text) keyword.line
    | some superclass =>
      match m.store.getAt m.environment (distance - 1) "this" with
      | none => m.fault (.undefinedVariable "this") keyword.line
      | some receiver =>
        match superclass, receiver with
        | .class c, .instance i =>
          match m.store.findMethod c method.text with
          | some f => bound f i m
          | none => m.fault (.undefinedProperty method.text) method.line
        | _, _ => m.fault .superOutsideMethod keyword.line

/-! ## Declarations -/

/-- Declares a function in the current frame. -/
def declareFunction (declaration : FunDecl NodeId) (m : Machine) : Machine :=
  let (id, store) := m.store.addFunction ⟨declaration, m.environment, false⟩
  { m with store }.define declaration.name.text (.function id)

/-- The methods of a class that are declared in a frame. Of two with the same name the later one
counts. -/
def methodTable (closure : FrameId) (methods : List (FunDecl NodeId)) : Bindings FunctionObject :=
  .ofList <| methods.map fun d => (d.name.text, ⟨d, closure, d.isInitializer⟩)

/-- Declares a class in the current frame. The methods of a subclass are declared in a frame of
their own that binds `super`. -/
def declareClass (name : Name) (superclass : Option ClassId) (methods : List (FunDecl NodeId))
    (m : Machine) : Machine :=
  let m := m.define name.text .nil
  let (closure, store) := match superclass with
    | some c =>
      m.store.addFrame ⟨(∅ : Bindings Value).insert "super" (.class c), some m.environment⟩
    | none => (m.environment, m.store)
  let (id, store) := store.addClass ⟨name.text, superclass, methodTable closure methods⟩
  { m with store }.define name.text (.class id)

/-- The name at which a superclass that is no class is reported: its own if it has one. -/
def superclassName (name : Name) : Expr NodeId → Name
  | .variable _ superclass => superclass
  | _ => name

/-- The output after a value is printed on a line of its own. -/
def Machine.printed (m : Machine) (value : Value) : String :=
  m.output ++ m.store.display value ++ "\n"

/-- Prints a value. -/
def printValue (s : Setting) (value : Value) (m : Machine) : Outcome Completion :=
  match s.writeFailure (m.printed value) with
  | some message => .failed (.output message) m
  | none => .done .normal { m with output := m.printed value }

/-! ## Functions -/

/-- The state in which the body of a function starts, in a frame that binds its parameters. -/
def FunctionObject.inside (f : FunctionObject) (arguments : List Value) (m : Machine) : Machine :=
  m.enter (.ofList ((f.declaration.params.map Name.text).zip arguments)) f.closure 1

/-- What a function gives, once its body has ended. An initializer gives back its instance, whatever
its body returns. -/
def FunctionObject.result (f : FunctionObject) (completion : Completion) (m : Machine) :
    Outcome Value :=
  if f.isInitializer then
    match m.store.getAt f.closure 0 "this" with
    | some this => .done this m
    | none => m.fault (.undefinedVariable "this") f.declaration.name.line
  else match completion with
    | .normal => .done .nil m
    | .returned value => .done value m

/-! ## Tasks -/

/-- Something that is left to do. -/
inductive Task where
  | evaluate (e : Expr NodeId)
  | evaluateAll (es : List (Expr NodeId))
  | call (callee : Value) (arguments : List Value) (line : Nat)
  | enter (f : FunctionObject) (arguments : List Value) (line : Nat)
  | execute (statement : Stmt NodeId)
  | executeAll (statements : List (Stmt NodeId))
  | loop (condition : Expr NodeId) (body : Stmt NodeId)

/-- What a task gives if it does not fail. -/
abbrev Task.Answer : Task → Type
  | .evaluate _ | .call _ _ _ | .enter _ _ _ => Value
  | .evaluateAll _ => List Value
  | .execute _ | .executeAll _ | .loop _ _ => Completion

/-- How the state changes when a task that was started ends, in whichever way. -/
inductive Exit where
  | stay
  | leave (environment : FrameId) (calls : Nat)

/-- The outcome of a task after its exit. -/
@[inline] def Exit.after {α : Type} : Exit → Outcome α → Outcome α
  | .stay, o => o
  | .leave environment calls, o => o.onExit fun m => m.leave environment calls

/-! ## Rules -/

/-- What a rule can do. -/
class Evaluator (F : Type → Type) where
  /-- It ends. -/
  finish {α : Type} (o : Outcome α) : F α
  /-- It starts a task, which may change the state as it ends, and goes on with the answer. -/
  start {α : Type} (t : Task) (m : Machine) (exit : Exit) (resume : t.Answer → Machine → F α) : F α
  /-- It leaves the rest to a task. -/
  delegate (t : Task) (m : Machine) : F t.Answer

section

open Evaluator

variable {F : Type → Type} [Evaluator F] (s : Setting)

/-- The rule for an expression. -/
@[inline] def Expr.rule (e : Expr NodeId) (m : Machine) : F Value :=
  match e with
  | .literal value => finish (.done (.ofLiteral value) m)
  | .group inner => delegate (.evaluate inner) m
  | .unary operator right =>
    start (.evaluate right) m .stay fun value m =>
      finish (m.settle operator.line (applyUnary operator value))
  | .binary left operator right =>
    start (.evaluate left) m .stay fun a m =>
      start (.evaluate right) m .stay fun b m =>
        finish (m.settle operator.line (applyBinary operator a b))
  | .logical left operator right =>
    start (.evaluate left) m .stay fun value m =>
      if settles operator value then finish (.done value m) else delegate (.evaluate right) m
  | .variable id name => finish (readVariable s id name m)
  | .assign id name value =>
    start (.evaluate value) m .stay fun value m => finish (writeVariable s id name value m)
  | .call callee line arguments =>
    start (.evaluate callee) m .stay fun callee m =>
      start (.evaluateAll arguments) m .stay fun arguments m =>
        delegate (.call callee arguments line) m
  | .get object name =>
    start (.evaluate object) m .stay fun object m => finish (readProperty object name m)
  | .set object name value =>
    start (.evaluate object) m .stay fun object m =>
      match object with
      | .instance id =>
        start (.evaluate value) m .stay fun value m =>
          finish (.done value { m with store := m.store.setField id name.text value })
      | _ => finish (m.fault .fieldOfNonInstance name.line)
  | .this id keyword => finish (readVariable s id keyword m)
  | .super id keyword method => finish (readSuper s id keyword method m)

/-- Expressions are evaluated from left to right. -/
@[inline] def Expr.ruleAll (es : List (Expr NodeId)) (m : Machine) : F (List Value) :=
  match es with
  | [] => finish (.done [] m)
  | e :: es =>
    start (.evaluate e) m .stay fun value m =>
      start (.evaluateAll es) m .stay fun values m => finish (.done (value :: values) m)

/-- The rule for a call. A class makes a new instance, which its initializer sets up. -/
@[inline] def Value.callRule (callee : Value) (arguments : List Value) (line : Nat) (m : Machine) :
    F Value :=
  match callee with
  | .function id =>
    match m.store.function? id with
    | none => finish (m.fault (.notCallable .function) line)
    | some f =>
      if arguments.length = f.declaration.params.length then delegate (.enter f arguments line) m
      else finish (m.fault (.wrongArity f.declaration.params.length arguments.length) line)
  | .class id =>
    if arguments.length = m.store.classArity id then
      let (i, store) := m.store.addInstance ⟨id, ∅⟩
      match store.findMethod id initializerName with
      | none => finish (.done (.instance i) { m with store })
      | some initializer =>
        let (f, store) := store.bindMethod initializer i
        start (.enter f arguments line) { m with store } .stay fun _ m =>
          finish (.done (.instance i) m)
    else finish (m.fault (.wrongArity (m.store.classArity id) arguments.length) line)
  | other => finish (m.fault (.notCallable other.type) line)

/-- The body of a function is run, unless too many calls are nested. -/
@[inline] def FunctionObject.rule (f : FunctionObject) (arguments : List Value) (line : Nat)
    (m : Machine) : F Value :=
  if s.maxDepth ≤ m.depth then finish (m.fault .stackOverflow line)
  else
    start (.executeAll f.declaration.body) (f.inside arguments m) (.leave m.environment 1)
      fun completion m => finish (f.result completion m)

/-- The rule for a statement. -/
@[inline] def Stmt.rule (statement : Stmt NodeId) (m : Machine) : F Completion :=
  match statement with
  | .expression e => start (.evaluate e) m .stay fun _ m => finish (.done .normal m)
  | .print e => start (.evaluate e) m .stay fun value m => finish (printValue s value m)
  | .var name none => finish (.done .normal (m.define name.text .nil))
  | .var name (some e) =>
    start (.evaluate e) m .stay fun value m =>
      finish (.done .normal (m.define name.text value))
  | .block body =>
    start (.executeAll body) (m.enter ∅ m.environment 0) (.leave m.environment 0)
      fun completion m => finish (.done completion m)
  | .ifElse condition thenBranch elseBranch =>
    start (.evaluate condition) m .stay fun value m =>
      if value.isTruthy then delegate (.execute thenBranch) m
      else match elseBranch with
        | some elseBranch => delegate (.execute elseBranch) m
        | none => finish (.done .normal m)
  | .while condition body => delegate (.loop condition body) m
  | .function declaration => finish (.done .normal (declareFunction declaration m))
  | .return _ none => finish (.done (.returned .nil) m)
  | .return _ (some e) =>
    start (.evaluate e) m .stay fun value m => finish (.done (.returned value) m)
  | .class name none methods => finish (.done .normal (declareClass name none methods m))
  | .class name (some e) methods =>
    start (.evaluate e) m .stay fun value m =>
      match value with
      | .class c => finish (.done .normal (declareClass name (some c) methods m))
      | _ => finish (m.fault .superclassNotClass (superclassName name e).line)

/-- Statements are executed in turn, up to the first that returns. -/
@[inline] def Stmt.ruleAll (statements : List (Stmt NodeId)) (m : Machine) : F Completion :=
  match statements with
  | [] => finish (.done .normal m)
  | statement :: rest =>
    start (.execute statement) m .stay fun completion m =>
      match completion with
      | .normal => delegate (.executeAll rest) m
      | .returned value => finish (.done (.returned value) m)

/-- The body of a loop is executed as long as its condition holds. -/
@[inline] def Stmt.loopRule (condition : Expr NodeId) (body : Stmt NodeId) (m : Machine) :
    F Completion :=
  start (.evaluate condition) m .stay fun value m =>
    if value.isTruthy then
      start (.execute body) m .stay fun completion m =>
        match completion with
        | .normal => delegate (.loop condition body) m
        | .returned value => finish (.done (.returned value) m)
    else finish (.done .normal m)

/-- The rule for a task. -/
@[inline] def Task.rule : (t : Task) → Machine → F t.Answer
  | .evaluate e, m => e.rule s m
  | .evaluateAll es, m => Expr.ruleAll es m
  | .call callee arguments line, m => callee.callRule arguments line m
  | .enter f arguments line, m => f.rule s arguments line m
  | .execute statement, m => statement.rule s m
  | .executeAll statements, m => Stmt.ruleAll statements m
  | .loop condition body, m => Stmt.loopRule condition body m

end

/-! ## Runs -/

/-- An outcome, given those of the tasks that are started. -/
def Direct (α : Type) : Type := ((t : Task) → Machine → Outcome t.Answer) → Outcome α

@[inline] instance : Evaluator Direct where
  finish o := fun _ => o
  start t m exit resume := fun go => (exit.after (go t m)).bind fun a m => resume a m go
  delegate t m := fun go => go t m

/-- Runs a task, and the tasks that it starts with one unit of fuel less. -/
def Task.run (fuel : Nat) (s : Setting) (t : Task) (m : Machine) : Outcome t.Answer :=
  match fuel with
  | 0 => .outOfFuel
  | n + 1 => (t.rule s m : Direct t.Answer) fun t m => t.run n s m

section

variable (fuel : Nat) (s : Setting)

/-- Evaluates an expression. -/
def evaluate (e : Expr NodeId) (m : Machine) : Outcome Value := (Task.evaluate e).run fuel s m

/-- Evaluates expressions from left to right. -/
def evaluateAll (es : List (Expr NodeId)) (m : Machine) : Outcome (List Value) :=
  (Task.evaluateAll es).run fuel s m

/-- Calls a value. -/
def call (callee : Value) (arguments : List Value) (line : Nat) (m : Machine) : Outcome Value :=
  (Task.call callee arguments line).run fuel s m

/-- Runs the body of a function. -/
def enter (f : FunctionObject) (arguments : List Value) (line : Nat) (m : Machine) :
    Outcome Value :=
  (Task.enter f arguments line).run fuel s m

/-- Executes a statement. -/
def execute (statement : Stmt NodeId) (m : Machine) : Outcome Completion :=
  (Task.execute statement).run fuel s m

/-- Executes statements in turn, up to the first that returns. -/
def executeAll (statements : List (Stmt NodeId)) (m : Machine) : Outcome Completion :=
  (Task.executeAll statements).run fuel s m

/-- Executes a body as long as a condition holds. -/
def loop (condition : Expr NodeId) (body : Stmt NodeId) (m : Machine) : Outcome Completion :=
  (Task.loop condition body).run fuel s m

end

/-! ## Programs -/

/-- Executes the statements of a program in turn. A `return` among them ends only itself. -/
def runStatements (fuel : Nat) (s : Setting) : List (Stmt NodeId) → Machine → Outcome Unit
  | [], m => .done () m
  | statement :: rest, m =>
    (execute fuel s statement m).bind fun _ m => runStatements fuel s rest m

/-- Flushes the output. -/
def flush (s : Setting) (m : Machine) : Outcome Unit :=
  match s.flushFailure m.output with
  | some message => .failed (.output message) m
  | none => .done () m

/-- Runs a program from the globals. After a failure the globals are current again. -/
def runProgram (fuel : Nat) (s : Setting) (program : List (Stmt NodeId)) (m : Machine) :
    Outcome Unit :=
  match runStatements fuel s program { m with depth := 0 } with
  | .done () m => flush s m
  | .failed failure m => .failed failure { m with environment := .globals }
  | .outOfFuel => .outOfFuel

end Lox
