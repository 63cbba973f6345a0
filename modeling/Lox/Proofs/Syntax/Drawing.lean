import Lox.Proofs.Syntax.Labeling
import Lox.Syntax.Parser

/-!
# Numbers from a counter

A node that names a binding can be numbered when it is built: the parser then draws the next number
from a counter that it never sets back. `Draw` is such a parser. It follows the same scripts as
`Parse`, and where these ask for a label it draws a number: for a variable, `this`, `super` with its
method, the name of a superclass, and an assignment, once its value was read.

What was built may be thrown away, and its numbers with it: the target of an assignment, which was
read as a variable; the value of one that has no target; and all of a declaration that fails. So the
numbers of a tree have gaps, and come in another order than its nodes.

* `Rule.draw`: reading by a rule, with numbers;
* `readDrawing`: a program with the numbers that it drew;
* `readEach`: programs one after another, with one counter.
-/

namespace Lox

/-! ## Parsers with a counter -/

/-- A parser that takes the next number, and leaves the one after those that it drew, also if it
fails. -/
def Draw (α : Type) : Type := List Token → StateM NodeId (Reply α)

namespace Draw

variable {α β : Type}

instance : Monad Draw where
  pure value := fun ts => pure (.ok value ts [])
  bind p f := fun ts => do
    match ← p ts with
    | .ok value rest noted => return (← f value rest).after noted
    | .fail error rest noted => return .fail error rest noted
    | .exhausted => return .exhausted

/-- A parser that draws no number. -/
instance : MonadLift Parse Draw where
  monadLift p := fun ts => pure (p ts)

/-- Draws a number. -/
def fresh : Draw NodeId := fun ts => return .ok (← freshId) ts []

/-- The parser whose depth is used up. -/
def exhausted : Draw α := fun _ => pure .exhausted

/-- Notes the error of a parser that fails, and skips to the next statement. -/
def recover (p : Draw α) : Draw (Option α) := fun ts => do
  match ← p ts with
  | .ok value rest noted => return .ok (some value) rest noted
  | .fail error rest noted => return .ok none (Parse.synchronize rest) (noted ++ [error])
  | .exhausted => return .exhausted

end Draw

/-! ## Scripts -/

/-- Follows a script, and draws a number for each label. -/
def Script.draw {α : Type} (go : {β : Type} → Rule NodeId β → Draw β) : Script NodeId α → Draw α
  | .done value => pure value
  | .fail fault => liftM (Parse.fail fault : Parse α)
  | .step s next => liftM s.run >>= fun b => (next b).draw go
  | .label next => Draw.fresh >>= fun i => (next i).draw go
  | .call r next => go r >>= fun b => (next b).draw go

def Phrase.draw {α : Type} (go : {β : Type} → Rule NodeId β → Draw β) : Phrase NodeId α → Draw α
  | .plain s => s.draw go
  | .guarded s => Draw.recover (s.draw go)

/-- Reads a phrase by a rule, with numbers. The first number bounds how deep the calls of rules are
nested. -/
def Rule.draw : Nat → {α : Type} → Rule NodeId α → Draw α
  | 0, _, _ => Draw.exhausted
  | n + 1, _, r => r.phrase.draw fun r => r.draw n

/-! ## Programs -/

/-- A program with the numbers that were drawn for it, and its errors. -/
structure Drawing where
  program : List (Stmt NodeId)
  errors : List SyntaxError
  endLine : Nat

/-- What was read, without the numbers. -/
def Drawing.parsed (d : Drawing) : Parsed :=
  ⟨Stmt.recodeAll .forget d.program, d.errors, d.endLine⟩

/-- What an answer says of a source that ends on this line. -/
def Drawing.ofReply (endLine : Nat) : Reply (List (Stmt NodeId)) → Drawing
  | .ok program _ noted => ⟨program, noted, endLine⟩
  | .fail error _ noted => ⟨[], noted ++ [error], endLine⟩
  | .exhausted => ⟨[], [], endLine⟩

/-- Reads a program and numbers its nodes as they are built. -/
def readDrawing (ts : List Token) : StateM NodeId Drawing :=
  let source := TokenSequence.ofTokens ts
  Drawing.ofReply source.endLine <$>
    Rule.program.draw (Parse.depth source.tokens.length) source.tokens

/-- Reads programs one after another, with one counter for all of them. -/
def readEach : List (List Token) → StateM NodeId (List Drawing)
  | [] => pure []
  | ts :: rest => return (← readDrawing ts) :: (← readEach rest)

end Lox
