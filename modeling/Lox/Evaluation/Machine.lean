import Lox.Diagnostic
import Lox.Store

/-!
# Machine states and outcomes

- `Machine` is what a running program changes: the store, the current frame, the number of calls in
  progress, and the text printed so far.
- `Setting` is what it cannot change.
- `Outcome` keeps apart a value, a failure, and a run that used up its fuel. A failure has a state
  too: what was done before it stays done.
-/

namespace Lox

/-! ## Failures -/

/-- What can go wrong while a program runs. -/
inductive RuntimeFault where
  | operandNotNumber
  | operandsNotNumbers
  | operandsNotAddable
  | invalidUnaryOperator (text : String)
  | invalidBinaryOperator (text : String)
  | undefinedVariable (name : String)
  | undefinedProperty (name : String)
  | notCallable (type : Value.ValueType)
  | wrongArity (expected actual : Nat)
  | propertyOfNonInstance
  | fieldOfNonInstance
  | superclassNotClass
  | superOutsideMethod
  | stackOverflow
  deriving DecidableEq, Repr

/-- The wording of a fault. -/
def RuntimeFault.message : RuntimeFault → String
  | .operandNotNumber => "Operand must be a number."
  | .operandsNotNumbers => "Operands must be numbers."
  | .operandsNotAddable => "Operands must be two numbers or two strings."
  | .invalidUnaryOperator text => "Invalid unary operator '" ++ text ++ "'."
  | .invalidBinaryOperator text => "Invalid binary operator '" ++ text ++ "'."
  | .undefinedVariable name => "Undefined variable '" ++ name ++ "'."
  | .undefinedProperty name => "Undefined property '" ++ name ++ "'."
  | .notCallable type => "Can only call functions and classes, not " ++ type.name ++ "."
  | .wrongArity expected actual =>
    "Expected " ++ toString expected ++ " arguments but got " ++ toString actual ++ "."
  | .propertyOfNonInstance => "Only instances have properties."
  | .fieldOfNonInstance => "Only instances have fields."
  | .superclassNotClass => "Superclass must be a class."
  | .superOutsideMethod => "Can't use 'super' outside of a subclass method."
  | .stackOverflow => "Stack overflow."

/-- Why a run ended early: a fault on a line, or output that was refused. -/
inductive Failure where
  | fault (cause : RuntimeFault) (line : Nat)
  | output (message : String)
  deriving DecidableEq, Repr

/-- A failure as a diagnostic. -/
def Failure.toDiagnostic : Failure → Diagnostic
  | .fault cause line => .runtime line cause.message
  | .output message => .io message

/-! ## States -/

/-- The texts that are refused, and why. -/
structure Refusal where
  message : String
  refuses : String → Bool

/-- With a message alone, every text is refused. -/
instance : Coe String Refusal := ⟨fun message => ⟨message, fun _ => true⟩⟩

/-- Where the output of a session goes. It may be refused at any point, in writing or in
flushing. -/
structure Sink where
  write : Option Refusal
  flush : Option Refusal

/-- A sink that takes everything. -/
def Sink.open : Sink := ⟨none, none⟩

/-- Why what a program printed cannot grow to a text, if it cannot. -/
def Sink.writeFailure (sink : Sink) (text : String) : Option String :=
  (sink.write.filter fun refusal => refusal.refuses text).map Refusal.message

/-- Why it cannot be flushed when it is a text, if it cannot. -/
def Sink.flushFailure (sink : Sink) (text : String) : Option String :=
  (sink.flush.filter fun refusal => refusal.refuses text).map Refusal.message

/-- What a running program changes. -/
structure Machine where
  store : Store
  environment : FrameId
  depth : Nat
  output : String

/-- What a running program cannot change. -/
structure Setting where
  /-- How many frames out the binding of a node lies; none for a global. -/
  distance? : NodeId → Option Nat
  maxDepth : Nat
  /-- Why the output cannot grow to this text, if it cannot. -/
  writeFailure : String → Option String
  /-- Why the output cannot be flushed when it holds this text, if it cannot. -/
  flushFailure : String → Option String

/-- The frame of the globals, the first of every run. -/
def FrameId.globals : FrameId := ⟨0⟩

/-- The state before anything ran. -/
def Machine.initial : Machine where
  store := (Store.empty.addFrame ⟨∅, none⟩).2
  environment := .globals
  depth := 0
  output := ""

@[simp] theorem Machine.function?_initial (id : FunctionId) :
    initial.store.function? id = none := rfl

@[simp] theorem Machine.class?_initial (id : ClassId) : initial.store.class? id = none := rfl

/-! ## Outcomes -/

/-- How a run ended. -/
inductive Outcome (α : Type) where
  | done (value : α) (m : Machine)
  | failed (failure : Failure) (m : Machine)
  | outOfFuel

namespace Outcome

variable {α β : Type}

/-- Goes on after a value. -/
@[inline] def bind (o : Outcome α) (f : α → Machine → Outcome β) : Outcome β :=
  match o with
  | .done value m => f value m
  | .failed failure m => .failed failure m
  | .outOfFuel => .outOfFuel

/-- Changes the state in which a run ended, in whichever way it ended. -/
@[inline] def onExit (o : Outcome α) (f : Machine → Machine) : Outcome α :=
  match o with
  | .done value m => .done value (f m)
  | .failed failure m => .failed failure (f m)
  | .outOfFuel => .outOfFuel

end Outcome

/-- How a statement ended: normally, or on the way out of a function. -/
inductive Completion where
  | normal
  | returned (value : Value)

namespace Machine

/-- Fails with a fault on a line. -/
def fault {α : Type} (m : Machine) (cause : RuntimeFault) (line : Nat) : Outcome α :=
  .failed (.fault cause line) m

/-- The state inside a new frame with these bindings, so many calls further in. -/
def enter (m : Machine) (bindings : Bindings Value) (enclosing : FrameId) (calls : Nat) :
    Machine :=
  let (frame, store) := m.store.addFrame ⟨bindings, some enclosing⟩
  { m with store, environment := frame, depth := m.depth + calls }

/-- The state back in an earlier frame, so many calls further out. -/
def leave (m : Machine) (environment : FrameId) (calls : Nat) : Machine :=
  { m with environment, depth := m.depth - calls }

/-- Binds a name in the current frame. -/
def define (m : Machine) (name : String) (value : Value) : Machine :=
  { m with store := m.store.define m.environment name value }

end Machine

end Lox
