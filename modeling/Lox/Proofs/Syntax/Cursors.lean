import Lox.Proofs.Syntax.Depth

/-!
# The parser on a vector of tokens

A parser that keeps its tokens in a vector stands at an index of it and reads the
vector there and just before. `Moves` are the steps of such a parser: every read
is checked against the bounds of the vector and noted in the cursor. The rules are
the scripts of `Rule.phrase`, made of these steps.

* `Mirrors`: the reader of the tokens that are left and the cursor come to the same
  answer, and the cursor stays at the tokens that are left;
* `mirrors_rule`: they do, for each rule at each bound;
* `parsing_stays_within_tokens`: so every read is in bounds, the cursor never passes
  the first end marker, a declaration moves it on, and parsing ends.
-/

namespace Lox

/-! ## Vectors and cursors -/

/-- The vector that is parsed: the tokens without the comments, with an end marker behind them unless
the last is one. -/
def tokenVector (ts : List Token) : List Token :=
  let kept := ts.filter fun t => !t.isComment
  match kept.getLast? with
  | some t => if t.isEof then kept else kept ++ [⟨.eof, "", t.line⟩]
  | none => [⟨.eof, "", 1⟩]

/-- The index of the first end marker. -/
def firstEnd (v : List Token) : Nat := v.findIdx Token.isEof

/-- Where a parser stands in its vector, the errors noted so far, and the indices that were read, the
last one first. -/
structure Cursor where
  current : Nat
  noted : List SyntaxError
  reads : List Nat

/-- The beginning of a vector. -/
def Cursor.start : Cursor := ⟨0, [], []⟩

/-- What a step comes to. -/
inductive Moved (α : Type) where
  | ok (value : α) (cursor : Cursor)
  | fail (error : SyntaxError) (cursor : Cursor)
  | outOfBounds (index : Nat)
  | exhausted

/-- Steps of a parser in its vector. -/
def Moves (α : Type) : Type := Cursor → Moved α

namespace Moves

variable {α β : Type}

instance : Monad Moves where
  pure value := fun c => .ok value c
  bind m f := fun c =>
    match m c with
    | .ok value c => f value c
    | .fail error c => .fail error c
    | .outOfBounds index => .outOfBounds index
    | .exhausted => .exhausted

theorem bind_of_ok {m : Moves α} {f : α → Moves β} {a : α} {c c' : Cursor} (h : m c = .ok a c') :
    (m >>= f) c = f a c' := by
  show (match m c with
    | .ok value c => f value c
    | .fail error c => .fail error c
    | .outOfBounds index => .outOfBounds index
    | .exhausted => .exhausted) = _
  rw [h]

/-- Fails with this error. -/
def fail (error : SyntaxError) : Moves α := fun c => .fail error c

/-- Notes an error. -/
def note (error : SyntaxError) : Moves Unit := fun c =>
  .ok () { c with noted := c.noted ++ [error] }

/-- Goes to the next index. -/
def forward : Moves Unit := fun c => .ok () { c with current := c.current + 1 }

section Vector

variable (v : List Token)

/-- The token at an index. -/
def read (index : Nat) : Moves Token := fun c =>
  match v[index]? with
  | some t => .ok t { c with reads := index :: c.reads }
  | none => .outOfBounds index

/-- The next token. -/
def peek : Moves Token := fun c => read v c.current c

/-- The token before the next one. -/
def previous : Moves Token := fun c => read v (c.current - 1) c

/-- Whether the next token is an end marker. -/
def atEnd : Moves Bool := do
  let t ← peek v
  return t.isEof

/-- Whether the next token is of this kind. -/
def check (kind : Kind) : Moves Bool := do
  if ← atEnd v then return false
  let t ← peek v
  return t.kind.sameAs kind

/-- Takes the next token unless it is an end marker, and gives the token taken last. -/
def advance : Moves Token := do
  if !(← atEnd v) then forward
  previous v

/-- Takes the next token if it is of one of these kinds. -/
def takeAny : List Kind → Moves (Option Token)
  | [] => pure none
  | kind :: kinds => do
    if ← check v kind then return some (← advance v)
    takeAny kinds

/-- The error of a fault at the next token. -/
def errorHere (fault : SyntaxFault) : Moves SyntaxError := do
  let t ← peek v
  return ⟨fault, if t.isEof then none else some t.toName⟩

/-- Takes tokens up to an end marker, a semicolon that was taken, or a token that begins a statement. -/
def skip : Nat → Moves Unit
  | 0 => fun _ => .exhausted
  | n + 1 => do
    if ← atEnd v then return
    if (← previous v).kind.sameAs (.symbol .semicolon) then return
    if Parse.beginsStatement (← peek v) then return
    let _ ← advance v
    skip n

/-- Goes on after a failure. -/
def synchronize : Moves Unit := do
  let _ ← advance v
  skip v v.length

/-- Notes the error of steps that fail, and skips to the next statement. -/
def guarded (m : Moves α) : Moves (Option α) := fun c =>
  match m c with
  | .ok value c => .ok (some value) c
  | .fail error c => (do
      note error
      synchronize v
      pure none : Moves (Option α)) c
  | .outOfBounds index => .outOfBounds index
  | .exhausted => .exhausted

end Vector

end Moves

/-- Takes a step in a vector. -/
def Step.perform {α : Type} (v : List Token) : Step α → Moves α
  | .note error => Moves.note error
  | .noteHere fault => Moves.errorHere v fault >>= Moves.note
  | .atEnd => Moves.atEnd v
  | .nextIs kind => Moves.check v kind
  | .take kinds => Moves.takeAny v kinds

/-- Follows a script in a vector. -/
def Script.perform {α : Type} (v : List Token) (go : {β : Type} → Rule Unit β → Moves β) :
    Script Unit α → Moves α
  | .done a => pure a
  | .fail fault => Moves.errorHere v fault >>= Moves.fail
  | .step s next => s.perform v >>= fun b => (next b).perform v go
  | .label next => (next ()).perform v go
  | .call r next => go r >>= fun a => (next a).perform v go

/-- Follows the script of a phrase in a vector. -/
def Phrase.perform (v : List Token) (go : {β : Type} → Rule Unit β → Moves β) {α : Type} :
    Phrase Unit α → Moves α
  | .plain s => s.perform v go
  | .guarded s => Moves.guarded v (s.perform v go)

/-- Follows a rule in a vector, its calls nested no deeper than the bound. -/
def Rule.perform (v : List Token) : Nat → {α : Type} → Rule Unit α → Moves α
  | 0, _, _ => fun _ => .exhausted
  | n + 1, _, r => r.phrase.perform v fun r => r.perform v n

/-! ## The tokens that are left -/

/-- The tokens before the first end marker of a vector. -/
structure Source (v us : List Token) : Prop where
  tokens : ∀ i < us.length, v[i]? = us[i]?
  unmarked : ∀ t ∈ us, t.isEof = false
  marked : ∃ t, v[us.length]? = some t ∧ t.isEof = true

/-- The cursor stands before the tokens that are left of these. -/
def Cursor.Before (us : List Token) (c : Cursor) (rest : List Token) : Prop :=
  ∃ taken, us = taken ++ rest ∧ c.current = taken.length

/-- Later the cursor stands before these tokens, no further back, has noted these errors, and has read
nothing behind the first end marker. -/
structure Cursor.Comes (us : List Token) (c c' : Cursor) (rest : List Token)
    (noted : List SyntaxError) : Prop where
  before : c'.Before us rest
  onward : c.current ≤ c'.current
  noted : c'.noted = c.noted ++ noted
  reads : ∃ indices, c'.reads = indices ++ c.reads ∧ ∀ i ∈ indices, i ≤ us.length

/-- The same answer from the tokens that are left and from the vector. -/
inductive Answers {α : Type} (us : List Token) (c : Cursor) : Reply α → Moved α → Prop
  | ok {a : α} {rest : List Token} {noted : List SyntaxError} {c' : Cursor}
      (h : c.Comes us c' rest noted) : Answers us c (.ok a rest noted) (.ok a c')
  | fail {error : SyntaxError} {rest : List Token} {noted : List SyntaxError} {c' : Cursor}
      (h : c.Comes us c' rest noted) : Answers us c (.fail error rest noted) (.fail error c')
  | exhausted : Answers us c .exhausted .exhausted

/-- The steps come to the answers of the parser, wherever the cursor stands. -/
def Mirrors {α : Type} (us : List Token) (p : Parse α) (m : Moves α) : Prop :=
  ∀ c ts, c.Before us ts → Answers us c (p ts) (m c)

namespace Cursor

variable {us ts rest : List Token} {c c' c'' : Cursor} {noted noted' : List SyntaxError}

theorem Before.le (h : c.Before us ts) : c.current ≤ us.length := by
  obtain ⟨taken, rfl, hc⟩ := h
  simp [hc]

theorem Before.length (h : c.Before us ts) : ts.length = us.length - c.current := by
  obtain ⟨taken, rfl, hc⟩ := h
  simp [hc]

theorem Before.current_nil (h : c.Before us []) : c.current = us.length := by
  obtain ⟨taken, rfl, hc⟩ := h
  simp [hc]

theorem Before.current_eq {taken : List Token} {t : Token} (h : c.Before (taken ++ t :: rest) rest) :
    c.current = taken.length + 1 := by
  obtain ⟨taken', he, hc⟩ := h
  have hl := congrArg List.length he
  simp only [List.length_append, List.length_cons] at hl
  omega

theorem Before.comes (h : c.Before us ts) : c.Comes us c ts [] :=
  ⟨h, Nat.le_refl _, (List.append_nil _).symm, [], rfl, nofun⟩

theorem Before.note (h : c.Before us ts) (error : SyntaxError) :
    c.Comes us { c with noted := c.noted ++ [error] } ts [error] :=
  ⟨h, Nat.le_refl _, rfl, [], rfl, nofun⟩

theorem Comes.trans (h : c.Comes us c' rest noted) (h' : c'.Comes us c'' ts noted') :
    c.Comes us c'' ts (noted ++ noted') := by
  obtain ⟨indices, hr, hi⟩ := h.reads
  obtain ⟨indices', hr', hi'⟩ := h'.reads
  refine ⟨h'.before, Nat.le_trans h.onward h'.onward, ?_, indices' ++ indices, ?_, ?_⟩
  · rw [h'.noted, h.noted, List.append_assoc]
  · rw [hr', hr, List.append_assoc]
  · intro i hm
    rcases List.mem_append.mp hm with hm | hm
    · exact hi' i hm
    · exact hi i hm

theorem Comes.read {index : Nat} (h : c.Comes us c' rest noted) (hi : index ≤ us.length) :
    c.Comes us { c' with reads := index :: c'.reads } rest noted := by
  obtain ⟨indices, hr, hb⟩ := h.reads
  refine ⟨h.before, h.onward, h.noted, index :: indices, by simp [hr], ?_⟩
  intro i hm
  rcases List.mem_cons.mp hm with rfl | hm
  · exact hi
  · exact hb i hm

end Cursor

/-! ## Steps -/

/-- Steps that come to this value before these tokens, without an error. -/
def Moves.Gives {α : Type} (us : List Token) (c : Cursor) (m : Moves α) (a : α) (rest : List Token) : Prop :=
  ∃ c', m c = .ok a c' ∧ c.Comes us c' rest []

namespace Moves.Gives

variable {α β : Type} {us ts rest rest' : List Token} {c : Cursor} {m : Moves α} {a : α}
  {f : α → Moves β} {b : β}

theorem pure (a : α) (h : c.Before us ts) : Gives us c (Pure.pure a) a ts :=
  ⟨c, rfl, h.comes⟩

theorem bind (hm : Gives us c m a rest)
    (hf : ∀ c', c'.Before us rest → Gives us c' (f a) b rest') : Gives us c (m >>= f) b rest' := by
  obtain ⟨c', hr, hc⟩ := hm
  obtain ⟨c'', hr', hc'⟩ := hf c' hc.before
  exact ⟨c'', (Moves.bind_of_ok hr).trans hr', hc.trans hc'⟩

theorem answers {p : Parse α} (h : Gives us c m a rest) (hp : p ts = .ok a rest []) :
    Answers us c (p ts) (m c) := by
  obtain ⟨c', hr, hc⟩ := h
  rw [hp, hr]
  exact .ok hc

end Moves.Gives

namespace Moves

variable {α β : Type} {v us ts rest : List Token} {t : Token} {c : Cursor}

theorem gives_read {index : Nat} (hi : v[index]? = some t) (hl : index ≤ us.length)
    (hc : c.Before us ts) : Gives us c (read v index) t ts :=
  ⟨{ c with reads := index :: c.reads }, by simp [read, hi], hc.comes.read hl⟩

section Source

variable (hv : Source v us)

include hv

theorem gives_peek (hc : c.Before us (t :: rest)) : Gives us c (peek v) t (t :: rest) := by
  have hi : v[c.current]? = some t := by
    obtain ⟨taken, rfl, hlen⟩ := hc
    rw [hv.tokens c.current (by simp [hlen]), hlen]
    simp
  exact gives_read hi hc.le hc

theorem gives_peek_nil (hc : c.Before us []) : ∃ t, t.isEof = true ∧ Gives us c (peek v) t [] := by
  obtain ⟨t, ht, he⟩ := hv.marked
  exact ⟨t, he, gives_read (hc.current_nil ▸ ht) hc.le hc⟩

theorem gives_previous {taken : List Token} (hu : us = taken ++ t :: rest) (hc : c.Before us rest) :
    Gives us c (previous v) t rest := by
  have hk : c.current = taken.length + 1 := (hu ▸ hc).current_eq
  have hi : v[c.current - 1]? = some t := by
    rw [hv.tokens (c.current - 1) (by simp [hu, hk]), hk, hu]
    simp
  exact gives_read hi (Nat.le_trans (Nat.sub_le _ _) hc.le) hc

theorem unmarked (hc : c.Before us (t :: rest)) : t.isEof = false := by
  obtain ⟨taken, rfl, -⟩ := hc
  exact hv.unmarked t (by simp)

theorem gives_atEnd (hc : c.Before us ts) : Gives us c (atEnd v) ts.isEmpty ts := by
  cases ts with
  | nil =>
    obtain ⟨t, ht, hg⟩ := gives_peek_nil hv hc
    exact hg.bind fun c' hc' => by rw [ht]; exact .pure true hc'
  | cons t rest =>
    exact (gives_peek hv hc).bind fun c' hc' => by
      rw [unmarked hv hc]
      exact .pure false hc'

theorem gives_check (kind : Kind) (hc : c.Before us ts) :
    Gives us c (check v kind) (ts.head?.any fun t => t.kind.sameAs kind) ts := by
  refine (gives_atEnd hv hc).bind fun c' hc' => ?_
  cases ts with
  | nil => exact .pure false hc'
  | cons t rest => exact (gives_peek hv hc').bind fun c'' hc'' => .pure _ hc''

theorem gives_advance (hc : c.Before us (t :: rest)) : Gives us c (advance v) t rest := by
  refine (gives_atEnd hv hc).bind fun c' hc' => ?_
  obtain ⟨taken, hu, hcur⟩ := hc'
  have hb : ({ c' with current := c'.current + 1 } : Cursor).Before us rest :=
    ⟨taken ++ [t], by simp [hu], by simp [hcur]⟩
  have hf : Gives us c' forward () rest :=
    ⟨_, rfl, hb, Nat.le_succ _, (List.append_nil _).symm, [], rfl, nofun⟩
  exact hf.bind fun c'' hc'' => gives_previous hv hu hc''

/-- Before an end marker there is nothing to take. -/
theorem gives_advance_nil (hc : c.Before us []) : ∃ t, Gives us c (advance v) t [] := by
  obtain ⟨e, he, -⟩ := hv.marked
  have hl : us.length - 1 < v.length := by
    have := (List.getElem?_eq_some_iff.mp he).1
    omega
  refine ⟨v[us.length - 1], (gives_atEnd hv hc).bind fun c' hc' => ?_⟩
  have hi : v[c'.current - 1]? = some v[us.length - 1] := by
    rw [hc'.current_nil]
    exact List.getElem?_eq_getElem hl
  exact gives_read hi (Nat.le_trans (Nat.sub_le _ _) hc'.le) hc'

theorem gives_takeAny_nil (kinds : List Kind) (hc : c.Before us []) :
    Gives us c (takeAny v kinds) none [] := by
  induction kinds generalizing c with
  | nil => exact .pure none hc
  | cons kind kinds ih => exact (gives_check hv kind hc).bind fun c' hc' => ih hc'

theorem gives_takeAny (kinds : List Kind) (hc : c.Before us (t :: rest)) :
    Gives us c (takeAny v kinds) (if kinds.any t.kind.sameAs then some t else none)
      (if kinds.any t.kind.sameAs then rest else t :: rest) := by
  induction kinds generalizing c with
  | nil => exact .pure none hc
  | cons kind kinds ih =>
    refine (gives_check hv kind hc).bind fun c' hc' => ?_
    by_cases hk : t.kind.sameAs kind = true
    · simp only [List.head?_cons, Option.any_some, hk, List.any_cons, Bool.true_or, if_true]
      exact (gives_advance hv hc').bind fun c'' hc'' => .pure (some t) hc''
    · simp only [Bool.not_eq_true] at hk
      simp only [List.head?_cons, Option.any_some, hk, List.any_cons, Bool.false_or]
      exact ih hc'

theorem gives_errorHere (fault : SyntaxFault) (hc : c.Before us ts) :
    Gives us c (errorHere v fault) ⟨fault, Parse.found ts⟩ ts := by
  cases ts with
  | nil =>
    obtain ⟨t, ht, hg⟩ := gives_peek_nil hv hc
    exact hg.bind fun c' hc' => by rw [ht]; exact .pure _ hc'
  | cons t rest =>
    exact (gives_peek hv hc).bind fun c' hc' => by
      rw [unmarked hv hc]
      exact .pure _ hc'

/-- After a token was taken, the steps stop where the tokens before the end are skipped to. -/
theorem gives_skip {n : Nat} {taken : List Token} (hn : rest.length < n)
    (hu : us = taken ++ t :: rest) (hc : c.Before us rest) :
    Gives us c (skip v n) () (Parse.synchronize (t :: rest)) := by
  induction n generalizing c t taken rest with
  | zero => omega
  | succ n ih =>
    refine (gives_atEnd hv hc).bind fun c₁ h₁ => ?_
    cases rest with
    | nil =>
      have hs : Parse.synchronize [t] = [] := by simp [Parse.synchronize]
      rw [hs]
      exact .pure () h₁
    | cons t' rest =>
      refine (gives_previous hv hu h₁).bind fun c₂ h₂ => ?_
      by_cases hsemi : t.kind.sameAs (.symbol .semicolon) = true
      · rw [if_pos hsemi, Parse.synchronize, hsemi, Bool.true_or, if_pos rfl]
        exact .pure () h₂
      · rw [if_neg hsemi]
        refine (gives_peek hv h₂).bind fun c₃ h₃ => ?_
        by_cases hbegin : Parse.beginsStatement t' = true
        · rw [if_pos hbegin, Parse.synchronize, List.head?_cons, Option.any_some, hbegin, Bool.or_true,
            if_pos rfl]
          exact .pure () h₃
        · have hs : Parse.synchronize (t :: t' :: rest) = Parse.synchronize (t' :: rest) := by
            rw [Parse.synchronize, if_neg (by simp [hsemi, hbegin])]
          rw [if_neg hbegin, hs]
          have hu' : us = (taken ++ [t]) ++ t' :: rest := by simp [hu]
          exact (gives_advance hv h₃).bind fun c₄ h₄ => ih (by simpa using hn) hu' h₄

theorem gives_synchronize (hc : c.Before us ts) :
    Gives us c (synchronize v) () (Parse.synchronize ts) := by
  obtain ⟨e, he, -⟩ := hv.marked
  have hl : us.length < v.length := (List.getElem?_eq_some_iff.mp he).1
  cases ts with
  | nil =>
    obtain ⟨t, hg⟩ := gives_advance_nil hv hc
    obtain ⟨n, hn⟩ : ∃ n, v.length = n + 1 := ⟨v.length - 1, by omega⟩
    rw [synchronize, hn]
    exact hg.bind fun c' hc' => (gives_atEnd hv hc').bind fun c'' hc'' => .pure () hc''
  | cons t rest =>
    obtain ⟨taken, hu, -⟩ := id hc
    have hlen : rest.length < v.length := by
      have := congrArg List.length hu
      simp only [List.length_append, List.length_cons] at this
      omega
    exact (gives_advance hv hc).bind fun c' hc' => gives_skip hv hlen hu hc'

end Source

end Moves

/-! ## Rules -/

section Rules

variable {α β : Type} {v us : List Token}

theorem Answers.trans {c c' : Cursor} {rest : List Token} {noted : List SyntaxError} {r : Reply α}
    {o : Moved α} (hc : c.Comes us c' rest noted) (h : Answers us c' r o) :
    Answers us c (r.after noted) o := by
  cases h with
  | ok h => exact .ok (hc.trans h)
  | fail h => exact .fail (hc.trans h)
  | exhausted => exact .exhausted

theorem mirrors_pure (a : α) : Mirrors us (pure a : Parse α) (pure a) :=
  fun _ _ hc => .ok hc.comes

theorem Mirrors.bind {p : Parse α} {m : Moves α} {f : α → Parse β} {g : α → Moves β}
    (hp : Mirrors us p m) (hf : ∀ a, Mirrors us (f a) (g a)) : Mirrors us (p >>= f) (m >>= g) := by
  intro c ts hc
  have h := hp c ts hc
  show Answers us c ((p >>= f) ts) (match m c with
    | .ok value c => g value c
    | .fail error c => .fail error c
    | .outOfBounds index => .outOfBounds index
    | .exhausted => .exhausted)
  cases hr : p ts with
  | ok a rest noted =>
    rw [hr] at h
    rw [Parse.bind_of_ok hr]
    generalize m c = o at h ⊢
    cases h with
    | ok hcomes => exact (hf a _ rest hcomes.before).trans hcomes
  | fail error rest noted =>
    rw [hr] at h
    rw [Parse.bind_of_fail hr]
    generalize m c = o at h ⊢
    cases h with
    | fail hcomes => exact .fail hcomes
  | exhausted =>
    rw [hr] at h
    rw [Parse.bind_of_exhausted hr]
    generalize m c = o at h ⊢
    cases h
    exact .exhausted

theorem mirrors_note (error : SyntaxError) : Mirrors us (Parse.note error) (Moves.note error) :=
  fun _ _ hc => .ok (hc.note error)

section Source

variable (hv : Source v us)

include hv

theorem mirrors_fail (fault : SyntaxFault) :
    Mirrors us (Parse.fail fault : Parse α) (Moves.errorHere v fault >>= Moves.fail) := by
  intro c ts hc
  obtain ⟨c', hr, hcomes⟩ := Moves.gives_errorHere hv fault hc
  rw [Moves.bind_of_ok hr]
  exact .fail hcomes

theorem mirrors_noteHere (fault : SyntaxFault) :
    Mirrors us (Parse.noteHere fault) (Moves.errorHere v fault >>= Moves.note) := by
  intro c ts hc
  obtain ⟨c', hr, hcomes⟩ := Moves.gives_errorHere hv fault hc
  rw [Moves.bind_of_ok hr]
  exact (mirrors_note _ c' ts hcomes.before).trans hcomes

theorem mirrors_atEnd : Mirrors us Parse.atEnd (Moves.atEnd v) :=
  fun _ _ hc => (Moves.gives_atEnd hv hc).answers rfl

theorem mirrors_nextIs (kind : Kind) : Mirrors us (Parse.nextIs kind) (Moves.check v kind) :=
  fun _ _ hc => (Moves.gives_check hv kind hc).answers rfl

theorem mirrors_acceptAny (kinds : List Kind) :
    Mirrors us (Parse.acceptAny kinds) (Moves.takeAny v kinds) := by
  intro c ts hc
  cases ts with
  | nil => exact (Moves.gives_takeAny_nil hv kinds hc).answers rfl
  | cons t rest =>
    refine (Moves.gives_takeAny hv kinds hc).answers ?_
    rw [Parse.acceptAny]
    split <;> rfl

theorem Mirrors.guarded {p : Parse α} {m : Moves α} (h : Mirrors us p m) :
    Mirrors us (Parse.recover p) (Moves.guarded v m) := by
  intro c ts hc
  have ho := h c ts hc
  unfold Parse.recover Moves.guarded
  generalize p ts = r at ho ⊢
  generalize m c = o at ho ⊢
  cases ho with
  | ok hcomes => exact .ok hcomes
  | @fail error rest noted c' hcomes =>
    have hnoted := hcomes.trans (hcomes.before.note error)
    obtain ⟨c'', hr, hsync⟩ := Moves.gives_synchronize hv hnoted.before
    have hm : (do
        Moves.note error
        Moves.synchronize v
        pure none : Moves (Option α)) c' = .ok none c'' := by
      rw [Moves.bind_of_ok (show Moves.note error c' = _ from rfl), Moves.bind_of_ok hr]
      rfl
    dsimp only
    rw [hm]
    have hall := hnoted.trans hsync
    rw [List.append_nil] at hall
    exact .ok hall
  | exhausted => exact .exhausted

theorem mirrors_step (s : Step α) : Mirrors us s.run (s.perform v) := by
  cases s with
  | note error => exact mirrors_note error
  | noteHere fault => exact mirrors_noteHere hv fault
  | atEnd => exact mirrors_atEnd hv
  | nextIs kind => exact mirrors_nextIs hv kind
  | take kinds => exact mirrors_acceptAny hv kinds

theorem mirrors_script {go : {β : Type} → Rule Unit β → Parse β}
    {go' : {β : Type} → Rule Unit β → Moves β}
    (h : ∀ {β : Type} (r : Rule Unit β), Mirrors us (go r) (go' r)) (s : Script Unit α) :
    Mirrors us (s.run go) (s.perform v go') := by
  induction s with
  | done a => exact mirrors_pure a
  | fail fault => exact mirrors_fail hv fault
  | step s next ih => exact (mirrors_step hv s).bind ih
  | label next ih => exact ih ()
  | call r next ih => exact (h r).bind ih

theorem mirrors_phrase {go : {β : Type} → Rule Unit β → Parse β}
    {go' : {β : Type} → Rule Unit β → Moves β}
    (h : ∀ {β : Type} (r : Rule Unit β), Mirrors us (go r) (go' r)) (p : Phrase Unit α) :
    Mirrors us (p.run go) (p.perform v go') := by
  cases p with
  | plain s => exact mirrors_script hv h s
  | guarded s => exact (mirrors_script hv h s).guarded hv

/-- A rule comes to the same answer on the tokens that are left and in the vector. -/
theorem mirrors_rule (n : Nat) (r : Rule Unit α) : Mirrors us (r.read n) (r.perform v n) := by
  induction n generalizing α with
  | zero => exact fun _ _ _ => .exhausted
  | succ n ih => exact mirrors_phrase hv ih r.phrase

end Source

end Rules

/-! ## Progress -/

theorem declaration_ne_fail (n : Nat) {ts rest : List Token} {error : SyntaxError}
    {noted : List SyntaxError} : Rule.declaration.read n ts ≠ .fail error rest noted := by
  intro h
  cases n with
  | zero => cases h
  | succ n =>
    simp only [Rule.read, Rule.phrase, Phrase.run, Parse.recover] at h
    split at h <;> cases h

/-- A declaration takes a token, and is read as soon as the bound on the depth is large enough. -/
theorem declaration_takes (n : Nat) {ts : List Token} (hts : ts ≠ []) :
    (n < 12 + 20 * ts.length ∧ Rule.declaration.read n ts = .exhausted) ∨
      ∃ s? rest noted, Rule.declaration.read n ts = .ok s? rest noted ∧ rest.length < ts.length := by
  have hpos := List.length_pos_iff.mpr hts
  by_cases hx : Rule.declaration.read n ts = .exhausted
  · refine .inl ⟨Nat.lt_of_not_le fun hn => ?_, hx⟩
    have h := ends_rule Rule.declaration hn
    rw [hx] at h
    exact h
  · have hends := ends_rule Rule.declaration (Nat.le_add_left (12 + 20 * ts.length) n)
    rw [Rule.read_of_le (Nat.le_add_right n _) .declaration ts hx] at hends
    cases hr : Rule.declaration.read n ts with
    | ok s? rest noted =>
      rw [hr] at hends
      have hl : rest.length ≤ ts.length - 1 := hends.2
      exact .inr ⟨s?, rest, noted, rfl, by omega⟩
    | fail error rest noted => exact absurd hr (declaration_ne_fail n)
    | exhausted => exact absurd hr hx

/-- The declarations up to the end are read to the end. -/
theorem program_reads_all {n : Nat} {ts : List Token} (h : 13 + 20 * ts.length ≤ n) :
    ∃ ss noted, Rule.program.read n ts = .ok ss [] noted := by
  induction n generalizing ts with
  | zero => omega
  | succ n ih =>
    cases ts with
    | nil => exact ⟨[], [], rfl⟩
    | cons t rest =>
      obtain ⟨hn, -⟩ | ⟨s?, rest', noted, hd, hl⟩ := declaration_takes n (List.cons_ne_nil t rest)
      · omega
      · obtain ⟨ss, noted', hp⟩ := ih (show 13 + 20 * rest'.length ≤ n by omega)
        exact ⟨_, _, Rule.read_program_of_ok (List.cons_ne_nil t rest) hd hp⟩

/-! ## Programs -/

/-- The tokens up to the first end marker, read off a split of the tokens without the comments. -/
theorem TokenSequence.ofTokens_of_eq {ts before extra : List Token} {t : Token}
    (h : (ts.filter fun t => !t.isComment) = before ++ t :: extra) (ht : t.isEof = true)
    (hb : ∀ x ∈ before, x.isEof = false) : ofTokens ts = ⟨before, t.line⟩ := by
  have htake : (before ++ t :: extra).takeWhile (fun t => !t.isEof) = before := by
    rw [List.takeWhile_append_of_pos fun x hx => by simp [hb x hx]]
    simp [ht]
  have hfind : (before ++ t :: extra).find? Token.isEof = some t :=
    List.find?_eq_some_iff_append.mpr ⟨ht, before, extra, rfl, fun x hx => by simp [hb x hx]⟩
  simp only [ofTokens, h, htake, hfind]

theorem exists_split_of_isEof {ts : List Token} (h : ∃ t ∈ ts, t.isEof = true) :
    ∃ before t extra, ts = before ++ t :: extra ∧ t.isEof = true ∧ ∀ x ∈ before, x.isEof = false := by
  obtain ⟨t, ht⟩ := Option.isSome_iff_exists.mp (List.find?_isSome.mpr h)
  obtain ⟨he, before, extra, rfl, hb⟩ := List.find?_eq_some_iff_append.mp ht
  exact ⟨before, t, extra, rfl, he, fun x hx => by simpa using hb x hx⟩

/-- The vector is the tokens that are parsed, an end marker on the line where they end, and what comes
after it. -/
theorem tokenVector_eq (ts : List Token) : ∃ t extra,
    tokenVector ts = (TokenSequence.ofTokens ts).tokens ++ t :: extra ∧ t.isEof = true ∧
      (TokenSequence.ofTokens ts).endLine = t.line ∧
      ∀ x ∈ (TokenSequence.ofTokens ts).tokens, x.isEof = false := by
  by_cases hm : ∃ t ∈ ts.filter (fun t => !t.isComment), t.isEof = true
  · obtain ⟨before, t, extra, hs, ht, hb⟩ := exists_split_of_isEof hm
    rw [TokenSequence.ofTokens_of_eq hs ht hb, tokenVector, hs]
    dsimp only
    split
    next last _ =>
      split
      · exact ⟨t, extra, rfl, ht, rfl, hb⟩
      · exact ⟨t, extra ++ [⟨.eof, "", last.line⟩], by simp, ht, rfl, hb⟩
    next hl => simp at hl
  · simp only [tokenVector, TokenSequence.ofTokens]
    generalize ts.filter (fun t => !t.isComment) = kept at hm ⊢
    have hb : ∀ x ∈ kept, x.isEof = false := fun x hx => by simpa using fun he => hm ⟨x, hx, he⟩
    have htake : kept.takeWhile (fun t => !t.isEof) = kept := by
      rw [← List.append_nil kept, List.takeWhile_append_of_pos fun x hx => by simp [hb x (by simpa using hx)]]
      rfl
    have hfind : kept.find? Token.isEof = none :=
      List.find?_eq_none.mpr fun x hx => by simp [hb x hx]
    rw [htake, hfind]
    cases hl : kept.getLast? with
    | none => exact ⟨⟨.eof, "", 1⟩, [], by simp [List.getLast?_eq_none_iff.mp hl], rfl, rfl, hb⟩
    | some last =>
      have hlast : last.isEof = false := hb last (List.mem_of_getLast? hl)
      exact ⟨⟨.eof, "", last.line⟩, [], by simp [hlast], rfl, rfl, hb⟩

theorem source_tokenVector (ts : List Token) :
    Source (tokenVector ts) (TokenSequence.ofTokens ts).tokens := by
  obtain ⟨t, extra, hv, ht, -, hb⟩ := tokenVector_eq ts
  refine ⟨fun i hi => ?_, hb, t, ?_, ht⟩
  · rw [hv, List.getElem?_append_left hi]
  · rw [hv, List.getElem?_append_right (Nat.le_refl _), Nat.sub_self, List.getElem?_cons_zero]

theorem firstEnd_tokenVector (ts : List Token) :
    firstEnd (tokenVector ts) = (TokenSequence.ofTokens ts).tokens.length := by
  obtain ⟨t, extra, hv, ht, -, hb⟩ := tokenVector_eq ts
  rw [firstEnd, hv, List.findIdx_append, List.findIdx_eq_length.mpr hb]
  simp [List.findIdx_cons, ht]

theorem Token.isComment_of_isEof {t : Token} (h : t.isEof = true) : t.isComment = false := by
  unfold isEof at h
  unfold isComment
  cases hk : t.kind <;> simp_all [Kind.sameAs]

/-- The first end marker is where the tokens end. -/
theorem TokenSequence.ofTokens_append_cons {before : List Token} {t : Token} (ht : t.isEof = true)
    (hb : ∀ x ∈ before, x.isEof = false) (extra : List Token) :
    ofTokens (before ++ t :: extra) = ⟨before.filter fun t => !t.isComment, t.line⟩ := by
  have hsplit : ((before ++ t :: extra).filter fun t => !t.isComment) =
      (before.filter fun t => !t.isComment) ++ t :: extra.filter fun t => !t.isComment := by
    simp [Token.isComment_of_isEof ht]
  exact ofTokens_of_eq hsplit ht fun x hx => hb x (List.mem_filter.mp hx).1

/-- What comes after an end marker is not parsed. -/
theorem parse_append {ts : List Token} (h : ∃ t ∈ ts, t.isEof = true) (after : List Token) :
    parse (ts ++ after) = parse ts := by
  obtain ⟨before, t, extra, rfl, ht, hb⟩ := exists_split_of_isEof h
  rw [parse, parse, List.append_assoc, List.cons_append, TokenSequence.ofTokens_append_cons ht hb,
    TokenSequence.ofTokens_append_cons ht hb]

/-- At every bound on the depth from the one of `parse` on, the program is read in the same way, and to
the end. -/
theorem program_of_depth_le {ts : List Token} {n : Nat}
    (h : Parse.depth (TokenSequence.ofTokens ts).tokens.length ≤ n) :
    Rule.program.read n (TokenSequence.ofTokens ts).tokens =
      .ok (parse ts).statements [] (parse ts).errors := by
  generalize hu : TokenSequence.ofTokens ts = source at h
  have hd : 13 + 20 * source.tokens.length ≤ Parse.depth source.tokens.length := by
    unfold Parse.depth
    omega
  obtain ⟨ss, noted, hp⟩ := program_reads_all hd
  have hn : Rule.program.read n source.tokens = .ok ss [] noted :=
    (Rule.read_of_le h .program source.tokens fun he => nomatch hp.symm.trans he).trans hp
  simp only [parse, hu, hp, hn]

/-- At a bound that is large enough for it, the program is read as `parse` reads it. -/
theorem program_replies_parse (ts : List Token) :
    Rule.program.Replies (TokenSequence.ofTokens ts).tokens
      (.ok (parse ts).statements [] (parse ts).errors) := by
  have hp := program_of_depth_le (Nat.le_refl (Parse.depth (TokenSequence.ofTokens ts).tokens.length))
  rw [← hp]
  exact Rule.replies_read (by simp [hp])

/-- Steps that read nothing outside the vector or behind its first end marker `e`, and that neither go
back nor pass it. -/
def Moved.Within {α : Type} (e : Nat) (c : Cursor) : Moved α → Prop
  | .ok _ c' | .fail _ c' => c.current ≤ c'.current ∧ c'.current ≤ e ∧
    ∃ indices, c'.reads = indices ++ c.reads ∧ ∀ i ∈ indices, i ≤ e
  | .outOfBounds _ => False
  | .exhausted => True

theorem Answers.within {α : Type} {us : List Token} {c : Cursor} {r : Reply α} {o : Moved α}
    (h : Answers us c r o) : o.Within us.length c := by
  cases h with
  | ok h => exact ⟨h.onward, h.before.le, h.reads⟩
  | fail h => exact ⟨h.onward, h.before.le, h.reads⟩
  | exhausted => trivial

/-- Parsing ends and stays within the tokens, whatever they are. In the vector that is parsed, with its
first end marker at `e`:

* at every bound on the depth from `Parse.depth e` on, the program is read from the beginning up to
  `e` and gives the statements and errors of `parse`, and no index behind `e` is read;
* wherever a rule is followed from, no read is out of bounds, no index behind `e` is read, and the
  cursor neither goes back nor passes `e`;
* a declaration that is read before `e` moves the cursor on, also when it fails and the next statement
  is looked for, and it is read at every bound that is large enough for the tokens up to `e`;
* the tokens after an end marker do not matter. -/
theorem parsing_stays_within_tokens (ts : List Token) :
    let v := tokenVector ts
    let e := firstEnd v
    (∃ t, v[e]? = some t ∧ (parse ts).endLine = t.line) ∧
    (∀ n, Parse.depth e ≤ n → ∃ c, Rule.program.perform v n .start = .ok (parse ts).statements c ∧
      c.noted = (parse ts).errors ∧ c.current = e ∧ ∀ i ∈ c.reads, i ≤ e) ∧
    (∀ (α : Type) (r : Rule Unit α) n c, c.current ≤ e → (r.perform v n c).Within e c) ∧
    (∀ n c, c.current < e →
      (n < 12 + 20 * (e - c.current) ∧ Rule.declaration.perform v n c = .exhausted) ∨
        ∃ s? c', Rule.declaration.perform v n c = .ok s? c' ∧ c.current < c'.current) ∧
    ∀ after, (∃ t ∈ ts, t.isEof = true) → parse (ts ++ after) = parse ts := by
  intro v e
  have hv := source_tokenVector ts
  have he : e = (TokenSequence.ofTokens ts).tokens.length := firstEnd_tokenVector ts
  have hbefore (c : Cursor) (hc : c.current ≤ e) :
      c.Before (TokenSequence.ofTokens ts).tokens ((TokenSequence.ofTokens ts).tokens.drop c.current) :=
    ⟨(TokenSequence.ofTokens ts).tokens.take c.current, (List.take_append_drop _ _).symm, by
      rw [List.length_take, Nat.min_eq_left (he ▸ hc)]⟩
  refine ⟨?_, fun n hn => ?_, fun α r n c hc => ?_, fun n c hc => ?_, fun after h => parse_append h after⟩
  · obtain ⟨t, extra, htv, -, hline, -⟩ := tokenVector_eq ts
    refine ⟨t, ?_, (endLine_parse ts).trans hline⟩
    show (tokenVector ts)[e]? = some t
    rw [he, htv, List.getElem?_append_right (Nat.le_refl _), Nat.sub_self, List.getElem?_cons_zero]
  · rw [he] at hn
    have ha : Answers _ .start (Rule.program.read n (TokenSequence.ofTokens ts).tokens) _ :=
      mirrors_rule hv n .program .start _ (hbefore .start (Nat.zero_le e))
    rw [program_of_depth_le hn] at ha
    generalize Rule.program.perform (tokenVector ts) n .start = o at ha
    cases ha with
    | @ok _ _ _ c h =>
      obtain ⟨indices, hr, hi⟩ := h.reads
      refine ⟨c, rfl, h.noted, he ▸ h.before.current_nil, ?_⟩
      rw [hr, he]
      simpa [Cursor.start] using hi
  · rw [he]
    exact (mirrors_rule hv n r c _ (hbefore c hc)).within
  · have hb := hbefore c (Nat.le_of_lt hc)
    have ha : Answers _ c (Rule.declaration.read n _) _ := mirrors_rule hv n .declaration c _ hb
    have hlen := hb.length
    rw [← he] at hlen
    have hne := List.ne_nil_of_length_pos (hlen ▸ Nat.sub_pos_of_lt hc)
    rw [← hlen]
    show (_ ∧ Rule.declaration.perform (tokenVector ts) n c = .exhausted) ∨
      ∃ s? c', Rule.declaration.perform (tokenVector ts) n c = .ok s? c' ∧ c.current < c'.current
    generalize Rule.declaration.perform (tokenVector ts) n c = o at ha ⊢
    obtain ⟨hn, hx⟩ | ⟨s?, rest, noted, hd, hl⟩ := declaration_takes n hne
    · rw [hx] at ha
      cases ha
      exact .inl ⟨hn, rfl⟩
    · rw [hd] at ha
      cases ha with
      | @ok _ _ _ c' h =>
        have hlen' := h.before.length
        exact .inr ⟨s?, c', rfl, by omega⟩

end Lox
