import Lox.CommandLine

/-!
# The program

Reads files and standard input, and writes what `Invocation.execute` says. An
interactive session is run line by line as the lines come in.
-/

namespace Lox

/-- The wording of an operating system error. -/
def ioCause : IO.Error → String
  | .noFileOrDirectory _ code details => details ++ " (os error " ++ toString code ++ ")"
  | .permissionDenied _ code details => details ++ " (os error " ++ toString code ++ ")"
  | .inappropriateType _ code details => details ++ " (os error " ++ toString code ++ ")"
  | .otherError code details => details ++ " (os error " ++ toString code ++ ")"
  | e => toString e

/-- The contents of a file. -/
def readBytes (file : String) : IO (Except FileFailure (List UInt8)) := do
  match ← (IO.FS.Handle.mk file .read).toBaseIO with
  | .error e => return .error (.opening (ioCause e))
  | .ok handle =>
    match ← handle.readBinToEnd.toBaseIO with
    | .error e => return .error (.reading (ioCause e))
    | .ok bytes => return .ok bytes.toList

/-- Writes a transcript and gives back its exit code. -/
def Transcript.write (t : Transcript) : IO UInt32 := do
  IO.print t.stdout
  (← IO.getStdout).flush
  IO.eprint t.stderr
  return t.code.toUInt32

/-- Reads and runs lines until the input ends. -/
partial def repl (s : Session) : IO UInt32 := do
  IO.print replPrompt
  (← IO.getStdout).flush
  match ← (← IO.getStdin).getLine.toBaseIO with
  | .error _ => replReadFailure.write
  | .ok "" => return 0
  | .ok line =>
    match s.replLine ampleFuel line with
    | none => return 70
    | some (stdout, stderr, s) =>
      IO.print stdout
      (← IO.getStdout).flush
      IO.eprint stderr
      repl s

/-- Runs an invocation. -/
def Invocation.perform (i : Invocation) : IO UInt32 := do
  if i.log then IO.FS.writeFile "app.log" ""
  let name? := match i.command with
    | .tokenize name _ _ => some name
    | .parse name => some name
    | .run name? => name?
  match name? with
  | none => repl (.start i.maxDepth .open)
  | some name =>
    let contents ← readBytes name
    match i.execute ampleFuel (fun _ => contents) [] with
    | some transcript => transcript.write
    | none => return 70

end Lox

/-- Runs the command line. -/
def main (args : List String) : IO UInt32 :=
  match Lox.Invocation.ofArguments? args with
  | some invocation => invocation.perform
  | none => do
    IO.eprintln
      "Usage: tokenize FILE [--comments] [--json] | parse FILE | run [FILE], with --log and --max-depth N"
    return 2
