import Lox.Proofs.Syntax.Grammar

/-!
# The dangling `else`

A program in which an `else` may belong to each `if` before it also has a
derivation with every `else` at the nearest one: the two rules have the same
sentences.

* `Statement.attach`: an open statement takes an `else` and the branch after it.
* `Declarations.nearest`: each derivation can be turned into one by the rule
  `nearest`.
-/

namespace Lox.Grammar

/-- The `else` goes to the last `if` of the statement that has none. -/
theorem Statement.attach {isOpen branchOpen : Bool} {otherwise : Token} {ts vs : List Token}
    {s branch : Stmt Unit} : Statement .nearest isOpen ts s → isOpen = true →
      otherwise.kind = .keyword .else → Statement .nearest branchOpen vs branch →
      ∃ isOpen' s', Statement .nearest isOpen' (ts ++ otherwise :: vs) s'
  | .expression _, h, _, _ => nomatch h
  | .print _ _ _, h, _, _ => nomatch h
  | .return _ _ _, h, _, _ => nomatch h
  | .block _, h, _, _ => nomatch h
  | .while ht hl hc hr hb, h, hw, hd => by
    obtain ⟨isOpen', body', hb'⟩ := hb.attach h hw hd
    have hs := Statement.while ht hl hc hr hb'
    exact ⟨isOpen', _, by simpa using hs⟩
  | .for ht hl hi hc hs hn hr hb, h, hw, hd => by
    obtain ⟨isOpen', body', hb'⟩ := hb.attach h hw hd
    have hs := Statement.for ht hl hi hc hs hn hr hb'
    exact ⟨isOpen', _, by simpa using hs⟩
  | .ifElse ht hl hc hr hb ho hw' hd', h, hw, hd => by
    obtain ⟨isOpen', branch', hb'⟩ := hd'.attach h hw hd
    have hs := Statement.ifElse ht hl hc hr hb ho hw' hb'
    exact ⟨isOpen', _, by simpa using hs⟩
  | @Statement.ifThen _ false _ _ _ _ _ _ _ ht hl hc hr hb, _, hw, hd => by
    have hs := Statement.ifElse ht hl hc hr hb (fun _ => rfl) hw hd
    exact ⟨branchOpen, _, by simpa using hs⟩
  | @Statement.ifThen _ true _ _ _ _ _ _ _ ht hl hc hr hb, _, hw, hd => by
    -- the `then` branch has a nearer `if`
    obtain ⟨isOpen', thenBranch', hb'⟩ := hb.attach rfl hw hd
    have hs := Statement.ifThen ht hl hc hr hb'
    exact ⟨true, _, by simpa using hs⟩

mutual

theorem Declarations.nearest {ts : List Token} {ss : List (Stmt Unit)} :
    Declarations .any ts ss → ∃ ss', Declarations .nearest ts ss'
  | .nil => ⟨[], .nil⟩
  | .cons hs hss => by
    obtain ⟨s', hs'⟩ := hs.nearest
    obtain ⟨ss', hss'⟩ := hss.nearest
    exact ⟨s' :: ss', .cons hs' hss'⟩

theorem Declaration.nearest {ts : List Token} {s : Stmt Unit} :
    Declaration .any ts s → ∃ s', Declaration .nearest ts s'
  | .class ht hx hs hl hm hr => by
    obtain ⟨methods', hm'⟩ := hm.nearest
    exact ⟨_, .class ht hx hs hl hm' hr⟩
  | .function ht hf => by
    obtain ⟨f', hf'⟩ := hf.nearest
    exact ⟨_, .function ht hf'⟩
  | .var ht hs => ⟨_, .var ht hs⟩
  | .statement hs => by
    obtain ⟨isOpen', s', hs'⟩ := hs.nearest
    exact ⟨s', .statement hs'⟩

theorem Function.nearest {ts : List Token} {f : FunDecl Unit} :
    Function .any ts f → ∃ f', Function .nearest ts f'
  | .mk hx hl hp hr hb => by
    obtain ⟨body', hb'⟩ := hb.nearest
    exact ⟨_, .mk hx hl hp hr hb'⟩

theorem Methods.nearest {ts : List Token} {fs : List (FunDecl Unit)} :
    Methods .any ts fs → ∃ fs', Methods .nearest ts fs'
  | .nil => ⟨[], .nil⟩
  | .cons hf hfs => by
    obtain ⟨f', hf'⟩ := hf.nearest
    obtain ⟨fs', hfs'⟩ := hfs.nearest
    exact ⟨f' :: fs', .cons hf' hfs'⟩

theorem Block.nearest {ts : List Token} {body : List (Stmt Unit)} :
    Block .any ts body → ∃ body', Block .nearest ts body'
  | .mk hl hb hr => by
    obtain ⟨body', hb'⟩ := hb.nearest
    exact ⟨body', .mk hl hb' hr⟩

theorem Statement.nearest {isOpen : Bool} {ts : List Token} {s : Stmt Unit} :
    Statement .any isOpen ts s → ∃ isOpen' s', Statement .nearest isOpen' ts s'
  | .expression hs => ⟨false, _, .expression hs⟩
  | .print ht he hs => ⟨false, _, .print ht he hs⟩
  | .return ht hv hs => ⟨false, _, .return ht hv hs⟩
  | .block hb => by
    obtain ⟨body', hb'⟩ := hb.nearest
    exact ⟨false, _, .block hb'⟩
  | .while ht hl hc hr hb => by
    obtain ⟨isOpen', body', hb'⟩ := hb.nearest
    exact ⟨isOpen', _, .while ht hl hc hr hb'⟩
  | .for ht hl hi hc hs hn hr hb => by
    obtain ⟨isOpen', body', hb'⟩ := hb.nearest
    exact ⟨isOpen', _, .for ht hl hi hc hs hn hr hb'⟩
  | .ifThen ht hl hc hr hb => by
    obtain ⟨isOpen', body', hb'⟩ := hb.nearest
    exact ⟨true, _, .ifThen ht hl hc hr hb'⟩
  | .ifElse ht hl hc hr hb _ hw hd => by
    obtain ⟨thenOpen', thenBranch', hb'⟩ := hb.nearest
    obtain ⟨isOpen', elseBranch', hd'⟩ := hd.nearest
    cases thenOpen' with
    | false => exact ⟨isOpen', _, .ifElse ht hl hc hr hb' (fun _ => rfl) hw hd'⟩
    | true =>
      obtain ⟨isOpen'', body', hb''⟩ := hb'.attach rfl hw hd'
      exact ⟨true, _, .ifThen ht hl hc hr hb''⟩

end

end Lox.Grammar
