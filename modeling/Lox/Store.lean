import Lox.Bindings
import Lox.Value

/-!
# The store

- `Store` holds all frames, functions, classes and instances of a run, numbered in order of
  creation. Nothing is ever removed.
- A frame holds the bindings of one scope and knows the frame around it. `get` and `assign` look for
  the nearest frame that binds a name; `getAt` and `assignAt` go a given distance out.
- `findMethod` looks a method up in a class and then in its superclasses.

The walks go from a number to a smaller one: a frame is made inside an older one,
and a class from an older superclass.
-/

namespace Lox

/-- The bindings of one scope, and the frame around it. -/
structure Frame where
  bindings : Bindings Value
  enclosing : Option FrameId

instance : Inhabited Frame := ⟨⟨∅, none⟩⟩

/-- A function or method with the frame in which it was declared. -/
structure FunctionObject where
  declaration : FunDecl NodeId
  closure : FrameId
  isInitializer : Bool

/-- A class. -/
structure ClassObject where
  name : String
  superclass : Option ClassId
  methods : Bindings FunctionObject

/-- An instance of a class. -/
structure InstanceObject where
  «class» : ClassId
  fields : Bindings Value

instance : Inhabited InstanceObject := ⟨⟨⟨0⟩, ∅⟩⟩

/-- All objects of a run. -/
structure Store where
  frames : Array Frame
  functions : Array FunctionObject
  classes : Array ClassObject
  instances : Array InstanceObject

namespace Store

/-- A store without objects. -/
def empty : Store := ⟨#[], #[], #[], #[]⟩

/-! ## Creation -/

/-- Adds a frame. -/
def addFrame (s : Store) (frame : Frame) : FrameId × Store :=
  (⟨s.frames.size⟩, { s with frames := s.frames.push frame })

/-- Adds a function. -/
def addFunction (s : Store) (f : FunctionObject) : FunctionId × Store :=
  (⟨s.functions.size⟩, { s with functions := s.functions.push f })

/-- Adds a class. -/
def addClass (s : Store) (c : ClassObject) : ClassId × Store :=
  (⟨s.classes.size⟩, { s with classes := s.classes.push c })

/-- Adds an instance. -/
def addInstance (s : Store) (i : InstanceObject) : InstanceId × Store :=
  (⟨s.instances.size⟩, { s with instances := s.instances.push i })

/-! ## Access -/

def frame? (s : Store) (id : FrameId) : Option Frame := s.frames[id.index]?

def function? (s : Store) (id : FunctionId) : Option FunctionObject := s.functions[id.index]?

def class? (s : Store) (id : ClassId) : Option ClassObject := s.classes[id.index]?

def instance? (s : Store) (id : InstanceId) : Option InstanceObject := s.instances[id.index]?

/-- The frame around a frame. -/
def enclosing? (s : Store) (id : FrameId) : Option FrameId := (s.frame? id).bind Frame.enclosing

/-- The value of a name in one frame. -/
def own? (s : Store) (id : FrameId) (name : String) : Option Value :=
  (s.frame? id).bind fun frame => frame.bindings.get? name

/-- Binds a name in one frame. -/
def define (s : Store) (id : FrameId) (name : String) (value : Value) : Store :=
  { s with frames := s.frames.modify id.index fun frame =>
      { frame with bindings := frame.bindings.insert name value } }

/-- Sets a field of an instance. -/
def setField (s : Store) (id : InstanceId) (name : String) (value : Value) : Store :=
  { s with instances := s.instances.modify id.index fun i =>
      { i with fields := i.fields.insert name value } }

/-! ## Walks along frames -/

/-- The nearest frame, from `id` outward, that binds a name. -/
def binder? (s : Store) (id : FrameId) (name : String) : Option FrameId :=
  match s.frame? id with
  | none => none
  | some frame =>
    if frame.bindings.contains name then some id
    else match frame.enclosing with
      | none => none
      | some outer => if outer.index < id.index then s.binder? outer name else none
termination_by id.index

/-- The value of a name in the nearest frame that binds it. -/
def get (s : Store) (id : FrameId) (name : String) : Option Value :=
  (s.binder? id name).bind fun frame => s.own? frame name

/-- Gives a name a new value in the nearest frame that binds it. -/
def assign (s : Store) (id : FrameId) (name : String) (value : Value) : Option Store :=
  (s.binder? id name).map fun frame => s.define frame name value

/-- The frame `distance` steps out. -/
def ancestor? (s : Store) (id : FrameId) : Nat → Option FrameId
  | 0 => some id
  | distance + 1 => (s.enclosing? id).bind fun outer => s.ancestor? outer distance

/-- The value of a name in the frame `distance` steps out. -/
def getAt (s : Store) (id : FrameId) (distance : Nat) (name : String) : Option Value :=
  (s.ancestor? id distance).bind fun frame => s.own? frame name

/-- Binds a name in the frame `distance` steps out. -/
def assignAt (s : Store) (id : FrameId) (distance : Nat) (name : String) (value : Value) :
    Option Store :=
  (s.ancestor? id distance).map fun frame => s.define frame name value

/-! ## Methods -/

/-- The method with this name of a class or else of the nearest superclass that has one. -/
def findMethod (s : Store) (id : ClassId) (name : String) : Option FunctionObject :=
  match s.class? id with
  | none => none
  | some c =>
    match c.methods.get? name with
    | some method => some method
    | none =>
      match c.superclass with
      | none => none
      | some superclass =>
        if superclass.index < id.index then s.findMethod superclass name else none
termination_by id.index

/-- The number of arguments with which a class is called: those of its initializer. -/
def classArity (s : Store) (id : ClassId) : Nat :=
  match s.findMethod id initializerName with
  | some method => method.declaration.params.length
  | none => 0

/-- A method of an instance: the same function in a new frame that binds `this`. -/
def bindMethod (s : Store) (method : FunctionObject) (receiver : InstanceId) :
    FunctionObject × Store :=
  let (frame, s) := s.addFrame ⟨(∅ : Bindings Value).insert "this" (.instance receiver),
    some method.closure⟩
  ({ method with closure := frame }, s)

/-! ## Values as text -/

/-- The name of a class. -/
def className (s : Store) (id : ClassId) : String := ((s.class? id).map ClassObject.name).getD ""

/-- A value as `print` writes it. -/
def display (s : Store) : Value → String
  | .nil => "nil"
  | .bool true => "true"
  | .bool false => "false"
  | .number value => printedNumber.write value
  | .string value => value
  | .function id =>
    "<fn " ++ ((s.function? id).map fun f => f.declaration.name.text).getD "" ++ ">"
  | .class id => s.className id
  | .instance id =>
    ((s.instance? id).map fun i => s.className i.class).getD "" ++ " instance"

end Store

end Lox
