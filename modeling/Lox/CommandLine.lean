import Lox.Session
import Lox.Syntax.Printer
import Lox.Text.Quoted
import Lox.Text.Utf8
import Lox.Token.Listing

/-!
# The command line

- `Invocation.ofArguments?` reads the arguments.
- `Invocation.execute` says what an invocation writes and with which code it ends, given the files
  and the standard input.
- `Session.replLine` is one line of an interactive session.

    tokenize FILE [--comments] [--json]    lists the tokens of a file
    parse FILE                             writes the trees of a file
    run [FILE]                             runs a file, or else each line of the standard input

Before and after the command may stand `--log` and `--max-depth N`.
-/

namespace Lox

/-! ## Arguments -/

/-- What is to be done. -/
inductive Command where
  | tokenize (file : String) (comments json : Bool)
  | parse (file : String)
  | run (file : Option String)
  deriving DecidableEq, Repr

/-- A command and the options that all commands have. -/
structure Invocation where
  command : Command
  maxDepth : Nat
  log : Bool
  deriving DecidableEq, Repr

/-- The limit on nested calls if none is given. -/
def defaultMaxDepth : Nat := 1000

namespace Invocation

/-- One argument. Behind a lone `--` every argument is an operand. -/
inductive Argument where
  | limit (n : Nat)
  | flag (name : String)
  | word (text : String)
  | operand (text : String)
  deriving DecidableEq, Repr

/-- The option that limits nested calls. -/
def limitOption : String := "--max-depth"

/-- A limit on nested calls: digits, perhaps after a plus sign, below `2^64`. -/
def limit? (text : List Char) : Option Nat :=
  let digits := match text with
    | '+' :: rest => rest
    | _ => text
  if digits.isEmpty || !digits.all Char.isDigit then none
  else
    let n := Decimal.digitsValue digits
    if n < Nat.pow 2 64 then some n else none

/-- Sorts the arguments. A lone `-` is a word. -/
def arguments? : List String → Option (List Argument)
  | [] => some []
  | "--" :: rest => some (rest.map .operand)
  | "--max-depth" :: value :: rest => do
    let n ← limit? value.toList
    return .limit n :: (← arguments? rest)
  | arg :: rest =>
    if arg.startsWith (limitOption ++ "=") then do
      let n ← limit? (arg.toList.drop (limitOption.length + 1))
      return .limit n :: (← arguments? rest)
    else if arg = "-" || !arg.startsWith "-" then do
      return .word arg :: (← arguments? rest)
    else do
      return .flag arg :: (← arguments? rest)

/-- The arguments before the command, the command, and those after it. -/
def split? (args : List Argument) : Option (List Argument × String × List Argument) :=
  match args.span fun a => !(a matches .word _) with
  | (before, .word name :: after) => some (before, name, after)
  | _ => none

/-- What is given on one side of the command. -/
structure Given where
  limits : List Nat
  flags : List String
  files : List String

/-- Collects what is given. -/
def Given.ofArguments (args : List Argument) : Given where
  limits := args.filterMap fun
    | .limit n => some n
    | _ => none
  flags := args.filterMap fun
    | .flag name => some name
    | _ => none
  files := args.filterMap fun
    | .word text => some text
    | .operand text => some text
    | _ => none

/-- Whether only these flags are given, and no option is given twice. -/
def Given.allows (g : Given) (known : List String) : Bool :=
  g.limits.length ≤ 1 && g.flags.all known.contains && decide g.flags.Nodup

/-- The command with this name. -/
def command? (name : String) (g : Given) : Option Command :=
  match name, g.files with
  | "tokenize", [file] =>
    if g.allows ["--log", "--comments", "--json"] then
      some (.tokenize file (g.flags.contains "--comments") (g.flags.contains "--json"))
    else none
  | "parse", [file] => if g.allows ["--log"] then some (.parse file) else none
  | "run", [] => if g.allows ["--log"] then some (.run none) else none
  | "run", [file] => if g.allows ["--log"] then some (.run (some file)) else none
  | _, _ => none

/-- Reads the arguments; none if they make no command. Of two limits the one after the command
counts, and no file has an empty name. -/
def ofArguments? (args : List String) : Option Invocation := do
  let (before, name, after) ← split? (← arguments? args)
  let outer := Given.ofArguments before
  let inner := Given.ofArguments after
  guard (outer.allows ["--log"] && outer.files.isEmpty && inner.files.all (!·.isEmpty))
  return {
    command := ← command? name inner
    maxDepth := (inner.limits ++ outer.limits).headD defaultMaxDepth
    log := inner.flags.contains "--log" || outer.flags.contains "--log" }

end Invocation

/-! ## Files -/

/-- Why a file has no contents: it could not be opened, or not be read. -/
inductive FileFailure where
  | opening (cause : String)
  | reading (cause : String)
  deriving DecidableEq, Repr

/-- What was written to the two outputs, and the exit code. -/
structure Transcript where
  stdout : String
  stderr : String
  code : Nat
  deriving DecidableEq, Repr

/-- The end of a command that could not do its work. -/
def Transcript.failure (context cause : String) : Transcript :=
  ⟨"", "Error: " ++ context ++ "\n\nCaused by:\n    " ++ cause ++ "\n", 1⟩

/-- The text of a file, or the end of a command that needs it. -/
def readSource (file : String) (contents : Except FileFailure (List UInt8)) :
    Except Transcript String :=
  match contents with
  | .error (.opening cause) => .error (.failure ("Failed to open file " ++ Text.quoted file) cause)
  | .error (.reading cause) => .error (.failure ("Failed to read file " ++ Text.quoted file) cause)
  | .ok bytes =>
    match Utf8.decode bytes with
    | .ok text => .ok text
    | .error e => .error (.failure ("File " ++ Text.quoted file ++ " is not valid UTF-8") e.message)

/-! ## Commands -/

/-- Each text on a line of its own. -/
def lines (texts : List String) : String := String.join (texts.map (· ++ "\n"))

/-- Lists the tokens of a source. -/
def tokenizeSource (comments json : Bool) (source : String) : Transcript :=
  let items := scan (if comments then .keep else .skip) source
  let tokens := tokensOf items
  let errors := errorsOf items
  { stdout :=
      if json then (Json.list (tokens.map Token.toJson)).pretty ++ "\n"
      else lines (tokens.map Token.listing)
    stderr := lines (errors.map fun e => e.toDiagnostic.text)
    code := if errors.isEmpty then 0 else 65 }

/-- Writes the trees of a source, or its errors. -/
def parseSource (source : String) : Transcript :=
  let items := scan .skip source
  let parsed := parse (tokensOf items)
  let diagnostics := (errorsOf items).map LexicalError.toDiagnostic ++ parsed.diagnostics
  if diagnostics.isEmpty then ⟨lines (parsed.statements.map Stmt.text), "", 0⟩
  else ⟨"", lines (diagnostics.map fun d => d.report.text), 65⟩

/-- Runs a source. -/
def runSource (fuel maxDepth : Nat) (source : String) : Option Transcript :=
  ((Session.start maxDepth .open).run fuel source).map fun (r, _) =>
    ⟨r.output, lines (r.reports.map Report.text), r.exitCode⟩

/-! ## Interactive sessions -/

/-- What is written before a line is read. -/
def replPrompt : String := "> "

/-- Runs one line; its errors do not end the session. -/
def Session.replLine (fuel : Nat) (line : String) (s : Session) :
    Option (String × String × Session) :=
  (s.run fuel line).map fun (r, s) => (r.output, lines (r.reports.map Report.text), s)

/-- The end of an interactive session whose input is not text. -/
def replReadFailure : Transcript :=
  .failure "Failed to read from stdin" "stream did not contain valid UTF-8"

/-- Cuts bytes after each line break. -/
def byteLines (bytes : List UInt8) : List (List UInt8) :=
  bytes.foldr
    (fun b rest => match rest with
      | [] => [[b]]
      | line :: more => if b = '\n'.toUInt8 then [b] :: line :: more else (b :: line) :: more)
    []

/-- Runs the lines of an input. -/
def replLines (fuel : Nat) (s : Session) : List (List UInt8) → Option Transcript
  | [] => some ⟨replPrompt, "", 0⟩
  | line :: rest =>
    match Utf8.decode line with
    | .error _ => some { replReadFailure with stdout := replPrompt }
    | .ok text => do
      let (stdout, stderr, s) ← s.replLine fuel text
      let later ← replLines fuel s rest
      return ⟨replPrompt ++ stdout ++ later.stdout, stderr ++ later.stderr, later.code⟩

/-! ## Invocations -/

/-- What an invocation writes and how it ends. -/
def Invocation.execute (fuel : Nat) (i : Invocation)
    (file : String → Except FileFailure (List UInt8)) (stdin : List UInt8) : Option Transcript :=
  let onSource (name : String) (f : String → Option Transcript) : Option Transcript :=
    match readSource name (file name) with
    | .ok source => f source
    | .error transcript => some transcript
  match i.command with
  | .tokenize name comments json => onSource name fun source =>
    some (tokenizeSource comments json source)
  | .parse name => onSource name fun source => some (parseSource source)
  | .run (some name) => onSource name (runSource fuel i.maxDepth)
  | .run none => replLines fuel (.start i.maxDepth .open) (byteLines stdin)

end Lox
