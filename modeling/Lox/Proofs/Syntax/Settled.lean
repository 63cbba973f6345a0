import Lox.Proofs.Syntax.Scripts

/-!
# What a parser does not look at

A parser looks at the next token and no further. So if it stops in front of a token, what comes behind
that token has no part in the answer (`Settles`): the parser gives the same answer with other tokens
behind, and leaves those too.

* `settles_rule`: this holds of each rule at each bound on the depth, also of those that skip tokens
  after a failure.
* `Parse.firstDeclaration`: what comes of a declaration before anything is skipped;
* `Script.declaration_append`: if it fails at a token, it fails there whatever comes behind.
-/

namespace Lox

/-! ## Answers -/

namespace Reply

variable {α : Type}

/-- The tokens that an answer leaves. -/
def rest : Reply α → List Token
  | .ok _ rest _ | .fail _ rest _ => rest
  | .exhausted => []

/-- The same answer with more tokens behind those that it leaves. -/
def followedBy (us : List Token) : Reply α → Reply α
  | .ok value rest noted => .ok value (rest ++ us) noted
  | .fail error rest noted => .fail error (rest ++ us) noted
  | .exhausted => .exhausted

@[simp] theorem rest_after (earlier : List SyntaxError) (r : Reply α) :
    (r.after earlier).rest = r.rest := by
  cases r <;> rfl

theorem followedBy_after (us : List Token) (earlier : List SyntaxError) (r : Reply α) :
    (r.after earlier).followedBy us = (r.followedBy us).after earlier := by
  cases r <;> rfl

end Reply

namespace Parse

variable {α β : Type}

/-- The parser leaves the end of its tokens. If that is not empty, its answer does not depend on what
comes behind. -/
def Settles (p : Parse α) : Prop :=
  ∀ ts, (p ts).rest <:+ ts ∧
    ((p ts).rest ≠ [] → ∀ us, p (ts ++ us) = (p ts).followedBy us)

/-! ## Rules -/

theorem ne_nil_of_suffix {ts us : List Token} (h : ts <:+ us) (hts : ts ≠ []) : us ≠ [] := by
  rintro rfl
  exact hts (List.suffix_nil.mp h)

theorem settles_exhausted : Settles (exhausted : Parse α) :=
  fun _ => ⟨List.nil_suffix, fun h => absurd rfl h⟩

theorem settles_pure (a : α) : Settles (pure a) := fun ts => ⟨List.suffix_refl ts, fun _ _ => rfl⟩

theorem Settles.bind {p : Parse α} {f : α → Parse β} (hp : Settles p) (hf : ∀ a, Settles (f a)) :
    Settles (p >>= f) := by
  intro ts
  obtain ⟨hsuffix, hp⟩ := hp ts
  cases hr : p ts with
  | ok a mid noted =>
    rw [hr] at hsuffix hp
    obtain ⟨hmid, hf⟩ := hf a mid
    rw [bind_of_ok hr, Reply.rest_after]
    refine ⟨hmid.trans hsuffix, fun hne us => ?_⟩
    rw [bind_of_ok (hp (ne_nil_of_suffix hmid hne) us), hf hne us, Reply.followedBy_after]
  | fail error rest noted =>
    rw [hr] at hsuffix hp
    rw [bind_of_fail hr]
    exact ⟨hsuffix, fun hne us => bind_of_fail (hp hne us)⟩
  | exhausted =>
    rw [bind_of_exhausted hr]
    exact ⟨List.nil_suffix, fun h => absurd rfl h⟩

/-- A parser that takes nothing and looks at the next token. -/
theorem settles_of_cons {p : Parse α} (hrest : ∀ ts, (p ts).rest = ts)
    (h : ∀ t ts us, p (t :: ts ++ us) = (p (t :: ts)).followedBy us) : Settles p := by
  intro ts
  have hsuffix : (p ts).rest <:+ ts := ⟨[], hrest ts⟩
  refine ⟨hsuffix, fun hne us => ?_⟩
  cases ts with
  | nil => exact absurd (hrest []) hne
  | cons t ts => exact h t ts us

theorem settles_fail (fault : SyntaxFault) : Settles (fail fault : Parse α) :=
  settles_of_cons (fun _ => rfl) fun _ _ _ => rfl

theorem settles_note (error : SyntaxError) : Settles (note error) :=
  settles_of_cons (fun _ => rfl) fun _ _ _ => rfl

theorem settles_noteHere (fault : SyntaxFault) : Settles (noteHere fault) :=
  settles_of_cons (fun _ => rfl) fun _ _ _ => rfl

theorem settles_atEnd : Settles atEnd := settles_of_cons (fun _ => rfl) fun _ _ _ => rfl

theorem settles_nextIs (kind : Kind) : Settles (nextIs kind) :=
  settles_of_cons (fun _ => rfl) fun _ _ _ => rfl

theorem settles_acceptAny (kinds : List Kind) : Settles (acceptAny kinds) := by
  intro ts
  cases ts with
  | nil => exact ⟨List.suffix_refl [], fun h => absurd rfl h⟩
  | cons t ts =>
    have hall (us : List Token) : acceptAny kinds (t :: us) =
        if kinds.any t.kind.sameAs then .ok (some t) us [] else .ok none (t :: us) [] := rfl
    simp only [List.cons_append, hall]
    split
    · exact ⟨List.suffix_cons t ts, fun _ us => rfl⟩
    · exact ⟨List.suffix_refl _, fun _ us => rfl⟩

theorem synchronize_suffix (ts : List Token) : synchronize ts <:+ ts := by
  induction ts with
  | nil => exact List.suffix_refl []
  | cons t ts ih =>
    rw [synchronize]
    split
    · exact List.suffix_cons t ts
    · exact ih.trans (List.suffix_cons t ts)

theorem synchronize_append {ts : List Token} (h : synchronize ts ≠ []) (us : List Token) :
    synchronize (ts ++ us) = synchronize ts ++ us := by
  induction ts with
  | nil => exact absurd rfl h
  | cons t ts ih =>
    rw [synchronize] at h
    have hts : ts ≠ [] := by
      rintro rfl
      split at h <;> exact h rfl
    have hhead : (ts ++ us).head? = ts.head? := by
      rw [List.head?_append, List.head?_eq_some_head hts, Option.some_or]
    rw [List.cons_append, synchronize, synchronize, hhead]
    split
    · rfl
    · next hs =>
      rw [if_neg hs] at h
      exact ih h

theorem Settles.recover {p : Parse α} (hp : Settles p) : Settles (recover p) := by
  intro ts
  obtain ⟨hsuffix, hp⟩ := hp ts
  unfold Parse.recover
  cases hr : p ts with
  | ok a rest noted =>
    rw [hr] at hsuffix hp
    refine ⟨hsuffix, fun hne us => ?_⟩
    rw [hp hne us]
    rfl
  | fail error rest noted =>
    rw [hr] at hsuffix hp
    refine ⟨(synchronize_suffix rest).trans hsuffix, fun hne us => ?_⟩
    rw [hp (ne_nil_of_suffix (synchronize_suffix rest) hne) us]
    exact congrArg (fun rest => Reply.ok none rest (noted ++ [error])) (synchronize_append hne us)
  | exhausted => exact ⟨List.nil_suffix, fun h => absurd rfl h⟩

end Parse

/-! ## Scripts -/

section

variable {α : Type} {go : {β : Type} → Rule Unit β → Parse β}

open Parse

theorem settles_step (s : Step α) : Settles s.run := by
  cases s with
  | note error => exact settles_note error
  | noteHere fault => exact settles_noteHere fault
  | atEnd => exact settles_atEnd
  | nextIs kind => exact settles_nextIs kind
  | take kinds => exact settles_acceptAny kinds

theorem settles_script (h : ∀ {β : Type} (r : Rule Unit β), Settles (go r)) (s : Script Unit α) :
    Settles (s.run go) := by
  induction s with
  | done a => exact settles_pure a
  | fail fault => exact settles_fail fault
  | step s next ih => exact (settles_step s).bind ih
  | label next ih => exact ih ()
  | call r next ih => exact (h r).bind ih

theorem settles_phrase (h : ∀ {β : Type} (r : Rule Unit β), Settles (go r)) (p : Phrase Unit α) :
    Settles (p.run go) := by
  cases p with
  | plain s => exact settles_script h s
  | guarded s => exact (settles_script h s).recover

theorem settles_rule (n : Nat) (r : Rule Unit α) : Settles (r.read n) := by
  induction n generalizing α with
  | zero => exact settles_exhausted
  | succ n ih => exact settles_phrase ih r.phrase

/-! ## Declarations -/

/-- What comes of the declaration at the beginning of some tokens, before anything is skipped. -/
def Parse.firstDeclaration (ts : List Token) : Reply (Stmt Unit) :=
  Script.declaration.run (fun r => r.read (depth ts.length)) ts

/-- A declaration that fails at a token fails there in the same way, whatever comes behind. -/
theorem Script.declaration_append {ts rest : List Token} {error : SyntaxError}
    {noted : List SyntaxError} (h : Parse.firstDeclaration ts = .fail error rest noted)
    (hrest : rest ≠ []) (us : List Token) :
    Script.declaration.Replies (ts ++ us) (.fail error (rest ++ us) noted) := by
  have hs := (settles_script (fun r => settles_rule (depth ts.length) r) Script.declaration ts).2
  rw [← Parse.firstDeclaration, h] at hs
  have hlong := hs hrest us
  have hne : Script.declaration.run (fun r => r.read (depth ts.length)) (ts ++ us) ≠ .exhausted := by
    rw [hlong]
    exact nofun
  have hreplies := Script.replies_run hne
  rw [hlong] at hreplies
  exact hreplies

end

end Lox
