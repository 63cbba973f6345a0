import Lox.Syntax.Parser

/-!
# Scripts

A rule of the grammar is a script, and the parser follows it on the tokens that are left.

* `Script.run_bind`: scripts are followed one after another;
* `Rule.read_of_le`: a larger bound on the depth changes no answer;
* `Script.wp`: what has to hold before a script, so that something holds of what it gives. What the
  steps ask for is left open (`Logic`); the properties of the parser are proved with logics of
  their own, rule by rule.
-/

namespace Lox

/-! ## Sequences -/

theorem Reply.after_nil {α : Type} (r : Reply α) : r.after [] = r := by
  cases r <;> rfl

theorem Reply.after_after {α : Type} (r : Reply α) (noted noted' : List SyntaxError) :
    (r.after noted).after noted' = r.after (noted' ++ noted) := by
  cases r <;> simp [Reply.after]

namespace Parse

section

variable {α β : Type} {p : Parse α} {f : α → Parse β} {ts rest : List Token}
  {noted : List SyntaxError}

theorem bind_of_ok {a : α} (h : p ts = .ok a rest noted) :
    (p >>= f) ts = (f a rest).after noted := by
  simp only [bind, h]

theorem bind_of_fail {error : SyntaxError} (h : p ts = .fail error rest noted) :
    (p >>= f) ts = .fail error rest noted := by
  simp only [bind, h]

theorem bind_of_exhausted (h : p ts = .exhausted) : (p >>= f) ts = .exhausted := by
  simp only [bind, h]

end

instance : LawfulMonad Parse := LawfulMonad.mk' Parse
  (fun p => by
    funext ts
    show (match p ts with
      | .ok value rest noted => (Reply.ok value rest []).after noted
      | .fail error rest noted => .fail error rest noted
      | .exhausted => .exhausted) = p ts
    cases p ts <;> simp [Reply.after])
  (fun a f => funext fun ts => Reply.after_nil (f a ts))
  (fun p f g => by
    funext ts
    cases hp : p ts with
    | ok a rest noted =>
      rw [bind_of_ok hp]
      cases hf : f a rest with
      | ok b rest' noted' =>
        have hpf : (p >>= f) ts = .ok b rest' (noted ++ noted') := by
          rw [bind_of_ok hp, hf]
          rfl
        rw [bind_of_ok hpf, bind_of_ok hf, Reply.after_after]
      | fail error rest' noted' =>
        have hpf : (p >>= f) ts = .fail error rest' (noted ++ noted') := by
          rw [bind_of_ok hp, hf]
          rfl
        rw [bind_of_fail hpf, bind_of_fail hf]
        rfl
      | exhausted =>
        have hpf : (p >>= f) ts = .exhausted := by
          rw [bind_of_ok hp, hf]
          rfl
        rw [bind_of_exhausted hpf, bind_of_exhausted hf]
        rfl
    | fail error rest noted =>
      have hpf : (p >>= f) ts = .fail error rest noted := bind_of_fail hp
      rw [bind_of_fail hpf, bind_of_fail hp]
    | exhausted =>
      have hpf : (p >>= f) ts = .exhausted := bind_of_exhausted hp
      rw [bind_of_exhausted hpf, bind_of_exhausted hp])

end Parse

/-! ## Runs -/

namespace Script

variable {α β : Type} (go : {β : Type} → Rule Unit β → Parse β)

@[simp] theorem run_pure (a : α) : (pure a : Script Unit α).run go = pure a := rfl

@[simp] theorem run_bind (s : Script Unit α) (f : α → Script Unit β) :
    (s >>= f).run go = s.run go >>= fun a => (f a).run go := by
  show (s.bind f).run go = _
  induction s with
  | done a => exact (pure_bind a fun a => (f a).run go).symm
  | fail fault => rfl
  | step s next ih =>
    simp only [Script.bind, run, ih, bind_assoc]
  | label next ih => exact ih ()
  | call r next ih =>
    simp only [Script.bind, run, ih, bind_assoc]

@[simp] theorem run_atEnd : atEnd.run go = Parse.atEnd :=
  bind_pure Parse.atEnd

@[simp] theorem run_rule (r : Rule Unit α) : (rule r).run go = go r :=
  bind_pure (go r)

end Script

/-! ## Bounds -/

/-- The second parser gives the answer of the first one, if that has one. -/
def Parse.Extends {α : Type} (p p' : Parse α) : Prop := ∀ ts, p ts ≠ .exhausted → p' ts = p ts

theorem Parse.Extends.bind {α β : Type} {p p' : Parse α} {f f' : α → Parse β} (hp : p.Extends p')
    (hf : ∀ a, (f a).Extends (f' a)) : (p >>= f).Extends (p' >>= f') := by
  intro ts h
  cases hr : p ts with
  | ok a rest noted =>
    have hr' : p' ts = .ok a rest noted := (hp ts (by simp [hr])).trans hr
    rw [bind_of_ok hr] at h ⊢
    rw [bind_of_ok hr', hf a rest fun he => h (by rw [he]; rfl)]
  | fail error rest noted =>
    have hr' : p' ts = .fail error rest noted := (hp ts (by simp [hr])).trans hr
    rw [bind_of_fail hr, bind_of_fail hr']
  | exhausted => exact absurd (bind_of_exhausted hr) h

section

variable {α : Type} {go go' : {β : Type} → Rule Unit β → Parse β}

theorem Script.extends_run (h : ∀ {β : Type} (r : Rule Unit β), (go r).Extends (go' r))
    (s : Script Unit α) : (s.run go).Extends (s.run go') := by
  induction s with
  | done | fail => exact fun _ _ => rfl
  | step s next ih =>
    have hs : s.run.Extends s.run := fun _ _ => rfl
    exact hs.bind ih
  | label next ih => exact ih ()
  | call r next ih => exact (h r).bind ih

theorem Phrase.extends_run (h : ∀ {β : Type} (r : Rule Unit β), (go r).Extends (go' r))
    (p : Phrase Unit α) : (p.run go).Extends (p.run go') := by
  cases p with
  | plain s => exact s.extends_run h
  | guarded s =>
    intro ts hp
    have hs : s.run go ts ≠ .exhausted := fun he => hp (by simp [run, Parse.recover, he])
    simp only [run, Parse.recover, s.extends_run h ts hs]

end

/-- A larger bound on the depth changes no answer. -/
theorem Rule.read_of_le {α : Type} {n m : Nat} (hnm : n ≤ m) (r : Rule Unit α) :
    (r.read n).Extends (r.read m) := by
  induction n generalizing m α with
  | zero => exact fun _ h => absurd rfl h
  | succ n ih =>
    obtain ⟨m, rfl⟩ : ∃ k, m = k + 1 := ⟨m - 1, by omega⟩
    exact r.phrase.extends_run fun r => ih (by omega) r

/-! ## Answers at every bound -/

/-- This is the answer of reading by the rule, unless the depth is used up. -/
def Rule.Replies {α : Type} (r : Rule Unit α) (ts : List Token) (reply : Reply α) : Prop :=
  ∀ n, r.read n ts = .exhausted ∨ r.read n ts = reply

/-- This is the answer of following the script, unless the depth is used up. -/
def Script.Replies {α : Type} (s : Script Unit α) (ts : List Token) (reply : Reply α) : Prop :=
  ∀ n, s.run (fun r => r.read n) ts = .exhausted ∨ s.run (fun r => r.read n) ts = reply

section

variable {α β : Type} {ts mid rest : List Token} {noted noted' : List SyntaxError}
  {error : SyntaxError}

/-- If a larger bound changes no answer, all answers are the same. -/
theorem Parse.exhausted_or_eq {p : Nat → Parse α} (hp : ∀ {n m}, n ≤ m → (p n).Extends (p m))
    {m : Nat} (hm : p m ts ≠ .exhausted) (n : Nat) : p n ts = .exhausted ∨ p n ts = p m ts := by
  by_cases hn : p n ts = .exhausted
  · exact .inl hn
  · exact .inr ((hp (Nat.le_max_left n m) ts hn).symm.trans (hp (Nat.le_max_right n m) ts hm))

theorem Rule.replies_read {r : Rule Unit α} {m : Nat} (hm : r.read m ts ≠ .exhausted) :
    r.Replies ts (r.read m ts) :=
  Parse.exhausted_or_eq (p := fun n => r.read n) (fun h => r.read_of_le h) hm

theorem Script.replies_run {s : Script Unit α} {m : Nat}
    (hm : s.run (fun r => r.read m) ts ≠ .exhausted) :
    s.Replies ts (s.run (fun r => r.read m) ts) :=
  Parse.exhausted_or_eq (p := fun n => s.run fun r => r.read n)
    (fun h => s.extends_run fun r => r.read_of_le h) hm

namespace Script

variable {s : Script Unit α} {f : α → Script Unit β} {a : α} {reply : Reply β}

theorem replies_pure (a : α) (ts : List Token) : (pure a : Script Unit α).Replies ts (.ok a ts []) :=
  fun _ => .inr rfl

theorem replies_step {s : Step β} (h : s.run ts = reply) :
    (step s .done : Script Unit β).Replies ts reply := by
  intro n
  have hrun : (step s .done : Script Unit β).run (fun r => r.read n) = s.run := bind_pure s.run
  rw [hrun]
  exact .inr h

theorem replies_rule {r : Rule Unit β} (h : r.Replies ts reply) : (rule r).Replies ts reply := by
  intro n
  rw [run_rule]
  exact h n

theorem Replies.bind (hs : s.Replies ts (.ok a mid noted)) (hf : (f a).Replies mid reply) :
    (s >>= f).Replies ts (reply.after noted) := by
  intro n
  rw [run_bind]
  rcases hs n with hx | hs
  · exact .inl (Parse.bind_of_exhausted hx)
  · rw [Parse.bind_of_ok hs]
    rcases hf n with hx | hf
    · rw [hx]
      exact .inl rfl
    · rw [hf]
      exact .inr rfl

theorem Replies.bind_of_fail (hs : s.Replies ts (.fail error rest noted)) :
    (s >>= f).Replies ts (.fail error rest noted) := by
  intro n
  rw [run_bind]
  exact (hs n).imp Parse.bind_of_exhausted Parse.bind_of_fail

end Script

namespace Rule

theorem replies_of_plain {r : Rule Unit α} {s : Script Unit α} {reply : Reply α}
    (hr : r.phrase = .plain s) (h : s.Replies ts reply) : r.Replies ts reply := by
  intro n
  cases n with
  | zero => exact .inl rfl
  | succ n =>
    rw [read, hr]
    exact h n

theorem declaration_of_ok {s : Stmt Unit} (h : Script.declaration.Replies ts (.ok s rest noted)) :
    declaration.Replies ts (.ok (some s) rest noted) := by
  intro n
  cases n with
  | zero => exact .inl rfl
  | succ n =>
    show Parse.recover _ ts = _ ∨ Parse.recover _ ts = _
    rcases h n with h | h <;> simp only [Parse.recover, h] <;> simp

/-- A declaration that fails is recovered from. -/
theorem declaration_of_fail (h : Script.declaration.Replies ts (.fail error rest noted)) :
    declaration.Replies ts (.ok none (Parse.synchronize rest) (noted ++ [error])) := by
  intro n
  cases n with
  | zero => exact .inl rfl
  | succ n =>
    show Parse.recover _ ts = _ ∨ Parse.recover _ ts = _
    rcases h n with h | h <;> simp only [Parse.recover, h] <;> simp

/-! ## Programs -/

/-- A program that is not over begins with a declaration. -/
theorem read_program_succ (n : Nat) (hts : ts ≠ []) :
    program.read (n + 1) ts = (do
      let first ← declaration.read n
      let others ← program.read n
      pure (first.toList ++ others)) ts := by
  have hend : Parse.atEnd ts = .ok false ts [] := by
    cases ts with
    | nil => exact absurd rfl hts
    | cons t ts => rfl
  have hscript : program.read (n + 1) = Script.program.run fun r => r.read n := rfl
  rw [hscript, Script.program, Script.run_bind, Script.run_atEnd, Parse.bind_of_ok hend,
    Reply.after_nil]
  simp only [Bool.false_eq_true, if_false, Script.run_bind, Script.run_rule, Script.run_pure]

/-- The errors of the first declaration come first. -/
theorem read_program_of_ok {n : Nat} {first : Option (Stmt Unit)} {others : List (Stmt Unit)}
    (hts : ts ≠ []) (hd : declaration.read n ts = .ok first mid noted)
    (hp : program.read n mid = .ok others rest noted') :
    program.read (n + 1) ts = .ok (first.toList ++ others) rest (noted ++ noted') := by
  rw [read_program_succ n hts, Parse.bind_of_ok hd, Parse.bind_of_ok hp]
  show Reply.ok _ rest (noted ++ (noted' ++ [])) = _
  rw [List.append_nil]

theorem program_of_declaration {first : Option (Stmt Unit)} {others : List (Stmt Unit)}
    (hts : ts ≠ []) (hd : declaration.Replies ts (.ok first mid noted))
    (hp : program.Replies mid (.ok others rest noted')) :
    program.Replies ts (.ok (first.toList ++ others) rest (noted ++ noted')) := by
  intro n
  cases n with
  | zero => exact .inl rfl
  | succ n =>
    rcases hd n with hx | hd
    · rw [read_program_succ n hts, Parse.bind_of_exhausted hx]
      exact .inl rfl
    · rcases hp n with hx | hp
      · rw [read_program_succ n hts, Parse.bind_of_ok hd, Parse.bind_of_exhausted hx]
        exact .inl rfl
      · exact .inr (read_program_of_ok hts hd hp)

end Rule

end

/-! ## What has to hold before a script -/

/-- What the parts of a script ask for: of what has to hold after a part, for each value that it
gives, they make what has to hold before. `P` are the things that can hold, such as propositions,
or predicates on the tokens that are left. -/
structure Logic (ι P : Type) where
  fail : SyntaxFault → P
  step : {β : Type} → Step β → (β → P) → P
  label : (ι → P) → P
  call : {β : Type} → Rule ι β → (β → P) → P

namespace Script

variable {ι P α β : Type} (L : Logic ι P)

/-- What has to hold before a script, so that `Q` holds of what it gives. -/
def wp : Script ι α → (α → P) → P
  | .done value, Q => Q value
  | .fail fault, _ => L.fail fault
  | .step s next, Q => L.step s fun b => (next b).wp Q
  | .label next, Q => L.label fun i => (next i).wp Q
  | .call r next, Q => L.call r fun b => (next b).wp Q

variable {L}

@[simp] theorem wp_pure (a : α) (Q : α → P) : (pure a : Script ι α).wp L Q = Q a := rfl

@[simp] theorem wp_bind (s : Script ι α) (f : α → Script ι β) (Q : β → P) :
    (s >>= f).wp L Q = s.wp L fun a => (f a).wp L Q := by
  show (s.bind f).wp L Q = _
  induction s with
  | done | fail => rfl
  | step s next ih => exact congrArg (L.step s) (funext ih)
  | label next ih => exact congrArg L.label (funext ih)
  | call r next ih => exact congrArg (L.call r) (funext ih)

@[simp] theorem wp_map (g : α → β) (s : Script ι α) (Q : β → P) :
    (g <$> s).wp L Q = s.wp L fun a => Q (g a) :=
  wp_bind s (fun a => pure (g a)) Q

@[simp] theorem wp_atEnd (Q : Bool → P) : atEnd.wp L Q = L.step .atEnd Q := rfl

@[simp] theorem wp_nextIs (kind : Kind) (Q : Bool → P) :
    (nextIs kind).wp L Q = L.step (.nextIs kind) Q := rfl

@[simp] theorem wp_acceptAny (kinds : List Kind) (Q : Option Token → P) :
    (acceptAny kinds).wp L Q = L.step (.take kinds) Q := rfl

@[simp] theorem wp_accept (kind : Kind) (Q : Option Token → P) :
    (accept kind).wp L Q = L.step (.take [kind]) Q := rfl

@[simp] theorem wp_fresh (Q : ι → P) : fresh.wp L Q = L.label Q := rfl

@[simp] theorem wp_rule (r : Rule ι α) (Q : α → P) : (rule r).wp L Q = L.call r Q := rfl

@[simp] theorem wp_expect (kind : Kind) (fault : SyntaxFault) (Q : Token → P) :
    (expect kind fault).wp L Q = L.step (.take [kind]) fun t => t.elim (L.fail fault) Q := by
  rw [expect, wp_bind, wp_accept]
  exact congrArg _ (funext fun t => by cases t <;> rfl)

@[simp] theorem wp_symbol (s : Symbol) (place : Place) (Q : Token → P) :
    (symbol s place).wp L Q =
      L.step (.take [.symbol s]) fun t => t.elim (L.fail (.missingSymbol s place)) Q :=
  wp_expect _ _ Q

@[simp] theorem wp_name (role : NameRole) (Q : Name → P) :
    (name role).wp L Q = L.step (.take [.identifier]) fun t =>
      t.elim (L.fail (.missingName role)) fun t => Q t.toName := by
  rw [name, wp_bind, wp_expect]
  rfl

@[simp] theorem wp_optionally (kind : Kind) (s : Script ι α) (Q : Option α → P) :
    (optionally kind s).wp L Q =
      L.step (.take [kind]) fun t => t.elim (Q none) fun _ => s.wp L fun a => Q (some a) := by
  rw [optionally, wp_bind, wp_accept]
  refine congrArg _ (funext fun t => ?_)
  cases t with
  | none => rfl
  | some t => exact wp_map some s Q

@[simp] theorem wp_unlessNext (s : Symbol) (absent : α) (other : Script ι α) (Q : α → P) :
    (unlessNext s absent other).wp L Q =
      L.step (.nextIs (.symbol s)) fun b => if b then Q absent else other.wp L Q := by
  rw [unlessNext, wp_bind, wp_nextIs]
  exact congrArg _ (funext fun b => by cases b <;> rfl)

@[simp] theorem wp_unlessClosed (absent : α) (other : Script ι α) (Q : α → P) :
    (unlessClosed absent other).wp L Q = L.step (.nextIs (.symbol .rightBrace)) fun b =>
      L.step .atEnd fun b' => if b || b' then Q absent else other.wp L Q := by
  rw [unlessClosed, wp_bind, wp_nextIs]
  refine congrArg _ (funext fun b => ?_)
  rw [wp_bind, wp_atEnd]
  exact congrArg _ (funext fun b' => by cases b <;> cases b' <;> rfl)

@[simp] theorem wp_list (count : Nat) (role : ListRole) (item : Script ι α)
    (others : Rule ι (List α)) (Q : List α → P) :
    (list count role item others).wp L Q = (checkCount count role).wp L fun _ =>
      item.wp L fun first => L.step (.take [.symbol .comma]) fun t =>
        t.elim (Q [first]) fun _ => L.call others fun rest => Q (first :: rest) := by
  simp only [list, wp_bind, wp_accept]
  exact congrArg _ (funext fun _ => congrArg _ (funext fun first => congrArg _ (funext fun t => by
    cases t <;> rfl)))

end Script

end Lox
