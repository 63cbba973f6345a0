import Lox.Decimal.Style
import Lox.Syntax

/-!
# Values

- `Value` is what an expression evaluates to. Functions, classes and instances are objects of a
  store, and a value holds the number of its object.
- `Value.same` is equality as programs see it: values of different types are never equal, and
  objects are equal only to themselves.
-/

namespace Lox

/-- The number of a frame in a store. -/
structure FrameId where
  index : Nat
  deriving DecidableEq, Repr

/-- The number of a function in a store. -/
structure FunctionId where
  index : Nat
  deriving DecidableEq, Repr

/-- The number of a class in a store. -/
structure ClassId where
  index : Nat
  deriving DecidableEq, Repr

/-- The number of an instance in a store. -/
structure InstanceId where
  index : Nat
  deriving DecidableEq, Repr

/-- A value. -/
inductive Value where
  | nil
  | bool (value : Bool)
  | number (value : Float)
  | string (value : String)
  | function (id : FunctionId)
  | «class» (id : ClassId)
  | «instance» (id : InstanceId)

instance : Inhabited Value := ⟨.nil⟩

namespace Value

/-- The value of a constant. -/
def ofLiteral : Literal → Value
  | .nil => .nil
  | .bool value => .bool value
  | .number value => .number value
  | .string value => .string value

/-- Only `nil` and `false` count as false. -/
def isTruthy : Value → Bool
  | .nil => false
  | .bool value => value
  | _ => true

/-- The types of values. -/
inductive ValueType where
  | nil
  | boolean
  | number
  | string
  | function
  | «class»
  | «instance»
  deriving DecidableEq, Repr

/-- The type of a value. -/
def type : Value → ValueType
  | .nil => .nil
  | .bool _ => .boolean
  | .number _ => .number
  | .string _ => .string
  | .function _ => .function
  | .class _ => .class
  | .instance _ => .instance

/-- The name of a type. -/
def ValueType.name : ValueType → String
  | .nil => "nil"
  | .boolean => "boolean"
  | .number => "number"
  | .string => "string"
  | .function => "function"
  | .class => "class"
  | .instance => "instance"

/-- Equality as programs see it. A number that is not a number differs from itself. -/
def same : Value → Value → Bool
  | .nil, .nil => true
  | .bool a, .bool b => a == b
  | .number a, .number b => a == b
  | .string a, .string b => a == b
  | .function a, .function b => a = b
  | .class a, .class b => a = b
  | .instance a, .instance b => a = b
  | _, _ => false

end Value

/-- Numbers as programs print them: positional, whole numbers without a fraction. -/
def printedNumber : Decimal.Style where
  exactIntegers := false
  pointZero := false
  tie := .up
  positional := none
  signedZero := true
  infinity := "Infinity"
  nan := "NaN"

end Lox
