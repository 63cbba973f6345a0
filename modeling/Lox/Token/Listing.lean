import Lox.Decimal.Style
import Lox.Json
import Lox.Token

/-!
# Token listings

- `Token.listing` is one line: the kind, the lexeme and the literal.
- `Token.toJson` is the same as a record.
-/

namespace Lox

/-- The literal of a number in a listing line: positional, with a fraction, and zero without sign. -/
def listedNumber : Decimal.Style where
  exactIntegers := false
  pointZero := true
  tie := .up
  positional := none
  signedZero := false
  infinity := "inf"
  nan := "NaN"

/-- A number in a record: an exponent is used below `1e-5` and from `1e16` on, and numbers that
are not finite have no form of their own. -/
def recordedNumber : Decimal.Style where
  exactIntegers := false
  pointZero := true
  tie := .toEven
  positional := some (-5, 16)
  signedZero := true
  infinity := "null"
  nan := "null"

/-- The literal of a kind in a listing line. -/
def Kind.literalText : Kind → String
  | .string value => value
  | .number value => listedNumber.write value
  | _ => "null"

/-- A token as a line of a listing. -/
def Token.listing (t : Token) : String :=
  t.kind.name ++ " " ++ t.lexeme ++ " " ++ t.kind.literalText

/-- A kind as a JSON value: its name, or a record of its name and its literal. -/
def Kind.toJson : Kind → Json
  | .string value => .record [("STRING", .text value)]
  | .number value =>
    let text := if value.isFinite then recordedNumber.write value else "null"
    .record [("NUMBER", .literal text)]
  | k => .text k.name

/-- A token as a JSON record. -/
def Token.toJson (t : Token) : Json :=
  .record
    [("token_type", t.kind.toJson), ("lexeme", .text t.lexeme),
      ("line", .literal (toString t.line))]

end Lox
