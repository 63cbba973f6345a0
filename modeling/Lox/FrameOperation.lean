import Lox.Evaluation.Machine

/-!
# Operations on frames

- `FrameOperation` is one thing that can be asked of the frames of a store. Names come with the line
  on which they stand.
- `Store.perform` does it. A name that is not bound where it is looked for is an error on its line, and
  then the store stays as it is.
-/

namespace Lox

/-- One thing that can be asked of the frames of a store. -/
inductive FrameOperation where
  | new (outer : Option FrameId)
  | define (frame : FrameId) (name : Name) (value : Value)
  | get (frame : FrameId) (name : Name)
  | assign (frame : FrameId) (name : Name) (value : Value)
  | getAt (frame : FrameId) (distance : Nat) (name : Name)
  | assignAt (frame : FrameId) (distance : Nat) (name : Name) (value : Value)

namespace FrameOperation

/-- The frame from which an operation goes out, or in which it makes a new one. -/
def frame? : FrameOperation → Option FrameId
  | .new outer => outer
  | .define frame _ _ | .get frame _ | .assign frame _ _ | .getAt frame _ _
  | .assignAt frame _ _ _ => some frame

/-- The name that an operation is about. -/
def name? : FrameOperation → Option Name
  | .new _ => none
  | .define _ name _ | .get _ name | .assign _ name _ | .getAt _ _ name
  | .assignAt _ _ name _ => some name

end FrameOperation

/-- What an operation gives. -/
inductive FrameAnswer where
  | frame (id : FrameId)
  | value (value : Value)
  | done

/-- The error of a name that is not bound. -/
def Name.undefined (name : Name) : Failure := .fault (.undefinedVariable name.text) name.line

namespace Store

/-- The answer of an operation that reads a name. -/
def answerRead (s : Store) (name : Name) : Option Value → Except Failure FrameAnswer × Store
  | some value => (.ok (.value value), s)
  | none => (.error name.undefined, s)

/-- The answer of an operation that gives a name a new value. -/
def answerWrite (s : Store) (name : Name) : Option Store → Except Failure FrameAnswer × Store
  | some s' => (.ok .done, s')
  | none => (.error name.undefined, s)

/-- Performs an operation, and gives its answer and the store after it. -/
def perform (s : Store) : FrameOperation → Except Failure FrameAnswer × Store
  | .new outer =>
    let (id, s) := s.addFrame ⟨∅, outer⟩
    (.ok (.frame id), s)
  | .define frame name value => (.ok .done, s.define frame name.text value)
  | .get frame name => s.answerRead name (s.get frame name.text)
  | .assign frame name value => s.answerWrite name (s.assign frame name.text value)
  | .getAt frame distance name => s.answerRead name (s.getAt frame distance name.text)
  | .assignAt frame distance name value =>
    s.answerWrite name (s.assignAt frame distance name.text value)

end Store

end Lox
