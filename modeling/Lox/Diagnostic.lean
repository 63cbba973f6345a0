import Lox.Token

/-!
# Diagnostics

- `Diagnostic` is an error as the outside sees it: the stage that raised it, a line, and a message.
- `Diagnostic.text` is its canonical text.
- `Report` is what a listener is told of it: static errors come with a place, run-time errors
  without one.
-/

namespace Lox

/-- Where on its line a static error was found. -/
inductive Location where
  | nowhere
  | atEnd
  | lexeme (text : String)
  deriving DecidableEq, Repr

/-- The place of a token. -/
def Token.location (t : Token) : Location :=
  if t.isEof then .atEnd else .lexeme t.lexeme

/-- An error of some stage. -/
inductive Diagnostic where
  | lexical (line : Nat) (message : String)
  | grammatical (line : Nat) (location : Location) (message : String)
  | scoping (line : Nat) (location : Location) (message : String)
  | runtime (line : Nat) (message : String)
  | io (message : String)
  | encoding (message : String)
  deriving DecidableEq, Repr

/-- What a listener is told of an error. -/
inductive Report where
  | static (line : Nat) (location : Location) (message : String)
  | runtime (line : Nat) (message : String)
  deriving DecidableEq, Repr

/-- The place as it follows the word `Error`. -/
def Location.text : Location → String
  | .nowhere => ""
  | .atEnd => " at end"
  | .lexeme text => " at '" ++ text ++ "'"

/-- A report as text. -/
def Report.text : Report → String
  | .static line location message =>
    "[line " ++ toString line ++ "] Error" ++ location.text ++ ": " ++ message
  | .runtime line message => message ++ "\n[line " ++ toString line ++ "]"

/-- The message alone. -/
def Diagnostic.message : Diagnostic → String
  | .lexical _ m => m
  | .grammatical _ _ m => m
  | .scoping _ _ m => m
  | .runtime _ m => m
  | .io m => m
  | .encoding m => m

/-- The line that an error points at, if it points at the source. -/
def Diagnostic.line? : Diagnostic → Option Nat
  | .lexical l _ => some l
  | .grammatical l _ _ => some l
  | .scoping l _ _ => some l
  | .runtime l _ => some l
  | .io _ => none
  | .encoding _ => none

/-- What a listener is told of an error. One that does not point at the source is reported on
line zero. -/
def Diagnostic.report : Diagnostic → Report
  | .lexical l m => .static l .nowhere m
  | .grammatical l p m => .static l p m
  | .scoping l p m => .static l p m
  | .runtime l m => .runtime l m
  | .io m => .static 0 .nowhere m
  | .encoding m => .static 0 .nowhere m

/-- The canonical text of an error. -/
def Diagnostic.text (d : Diagnostic) : String :=
  match d with
  | .io m => m
  | .encoding m => m
  | d => d.report.text

/-- A syntax error at a token. -/
def Token.grammatical (t : Token) (message : String) : Diagnostic :=
  .grammatical t.line t.location message

/-- A scoping error at a token. -/
def Token.scoping (t : Token) (message : String) : Diagnostic :=
  .scoping t.line t.location message

/-- A run-time error at a token. -/
def Token.runtime (t : Token) (message : String) : Diagnostic :=
  .runtime t.line message

end Lox
