import Lox.Evaluation
import Lox.Scope
import Lox.Syntax.Parser
import Lox.Token.Lexer

/-!
# Sessions

- `Analysis` is all that is known of a source before it runs: its errors, its numbered tree, and
  the distances of its references.
- `Session` is a machine that runs one source after another. Globals, and whatever they can reach,
  stay from one to the next, and so do the distances of all nodes.
- `Session.run` rejects a source with static errors and runs any other.

A step that runs code takes fuel, and answers `none` only if the fuel was used up.
-/

namespace Lox

/-! ## Analysis -/

/-- What is known of a source before it runs. -/
structure Analysis where
  lexical : List LexicalError
  parsed : Parsed
  program : List (Stmt NodeId)
  resolution : Resolution
  /-- The first number that no node has yet. -/
  nextId : NodeId

namespace Analysis

/-- Analyses a program whose nodes are numbered from `nextId` on. -/
def ofParsed (nextId : NodeId) (lexical : List LexicalError) (parsed : Parsed) : Analysis :=
  let (program, nextId) := (Stmt.numberAll parsed.statements).run nextId
  { lexical, parsed, program, resolution := resolve program, nextId }

/-- Analyses a source. -/
def ofSource (nextId : NodeId) (source : String) : Analysis :=
  let items := scan .skip source
  ofParsed nextId (errorsOf items) (parse (tokensOf items))

/-- The lexical errors, and then the syntax errors. -/
def syntaxDiagnostics (a : Analysis) : List Diagnostic :=
  a.lexical.map LexicalError.toDiagnostic ++ a.parsed.diagnostics

/-- The scoping errors. -/
def scopeDiagnostics (a : Analysis) : List Diagnostic :=
  a.resolution.errors.map ScopeError.toDiagnostic

/-- Why a source is rejected: for its scoping errors only if there are no earlier ones. -/
def rejections (a : Analysis) : List Diagnostic :=
  if a.syntaxDiagnostics.isEmpty then a.scopeDiagnostics else a.syntaxDiagnostics

end Analysis

/-! ## Sessions -/

/-- A machine between two steps, and what it needs for the next. -/
structure Session where
  machine : Machine
  table : DistanceTable
  nextId : NodeId
  maxDepth : Nat
  sink : Sink

/-- What a step printed, and what it gave. -/
structure Ran (α : Type) where
  output : String
  result : Except Failure α

/-- What came of a source. -/
structure RunReport where
  output : String
  reports : List Report
  hadError : Bool
  hadRuntimeError : Bool

/-- The exit code that stands for a report. -/
def RunReport.exitCode (r : RunReport) : Nat :=
  if r.hadError then 65 else if r.hadRuntimeError then 70 else 0

namespace Session

/-- A session in which nothing ran yet. -/
def start (maxDepth : Nat) (sink : Sink) : Session :=
  ⟨.initial, .empty, 0, maxDepth, sink⟩

/-- What a program cannot change while it runs in the session. -/
def setting (s : Session) : Setting where
  distance? := s.table.get?
  maxDepth := s.maxDepth
  writeFailure := s.sink.writeFailure
  flushFailure := s.sink.flushFailure

/-- Numbers the nodes of an expression. -/
def number (e : Expr Unit) (s : Session) : Expr NodeId × Session :=
  let (e, nextId) := e.number.run s.nextId
  (e, { s with nextId })

/-- The session after a step, with the output taken from its machine. -/
def finish {α : Type} (s : Session) : Outcome α → Option (Ran α × Session)
  | .done value m => some (⟨m.output, .ok value⟩, { s with machine := { m with output := "" } })
  | .failed failure m =>
    some (⟨m.output, .error failure⟩, { s with machine := { m with output := "" } })
  | .outOfFuel => none

/-- Runs a program with the distances of its references. -/
def interpret (fuel : Nat) (program : List (Stmt NodeId)) (distances : List (NodeId × Nat))
    (s : Session) : Option (Ran Unit × Session) :=
  let s := { s with table := s.table.merge distances }
  s.finish (runProgram fuel s.setting program s.machine)

/-- Evaluates an expression whose names are all global. -/
def evaluate (fuel : Nat) (e : Expr Unit) (s : Session) : Option (Ran Value × Session) :=
  let (e, s) := s.number e
  s.finish (Lox.evaluate fuel s.setting e s.machine)

/-- Runs a source, unless it has static errors. -/
def run (fuel : Nat) (source : String) (s : Session) : Option (RunReport × Session) :=
  let a := Analysis.ofSource s.nextId source
  let s := { s with nextId := a.nextId }
  if a.rejections.isEmpty then
    (s.interpret fuel a.program a.resolution.distances).map fun (ran, s) =>
      match ran.result with
      | .ok () => (⟨ran.output, [], false, false⟩, s)
      | .error failure => (⟨ran.output, [failure.toDiagnostic.report], false, true⟩, s)
  else some (⟨"", a.rejections.map Diagnostic.report, true, false⟩, s)

end Session

/-- Fuel that no run on a real machine uses up. -/
def ampleFuel : Nat := Nat.pow 2 62

end Lox
