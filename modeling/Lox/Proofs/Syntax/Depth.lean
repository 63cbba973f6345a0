import Lox.Proofs.Syntax.Scripts

/-!
# The depth of the parser's calls

`Parse.depth` is a large enough bound for every token list, so reading by a rule comes to an answer
(`ends_rule`). It ends on `ts` at the depth `r.rank + 20 * ts.length`, where the rank falls from each
rule `r` to the rules that are called before a token is taken, and `r.takes` tokens are taken at
least.

Only the number of tokens that are left counts: `Logic.depth n` has what the parts of a script need so
that all calls can be answered at the bound `n`.
-/

namespace Lox

/-! ## Ranks -/

section

variable {α : Type}

/-- How deep calls may be nested before a token is taken. -/
def Rule.rank : Rule Unit α → Nat
  | .expression => 10
  | .binary levels => 3 + levels.length
  | .operands _ levels _ => 1 + levels.length
  | .unary | .methods => 2
  | .arguments _ | .statement => 11
  | .declaration => 12
  | .declarations | .program => 13
  | .block => 14
  | .calls _ | .primary | .parameters _ | .function _ | .classDeclaration | .forStatement
  | .ifStatement | .whileStatement => 1

/-- How many tokens are taken at least, if there are any. -/
def Rule.takes : Rule Unit α → Nat
  | .operands _ _ _ | .calls _ | .declarations | .methods | .program => 0
  | _ => 1

theorem Rule.rank_pos (r : Rule Unit α) : 0 < r.rank := by
  cases r <;> simp only [rank] <;> omega

theorem Rule.takes_le_one (r : Rule Unit α) : r.takes ≤ 1 := by
  cases r <;> simp only [takes] <;> omega

end

/-! ## Answers -/

/-- An answer that has come about without a call that was too deep: a value that satisfies `Q`, with
the number of tokens that are left, or a failure; and there are no more tokens than before. -/
def Reply.Ends {α : Type} (length : Nat) (Q : α → Nat → Prop) : Reply α → Prop
  | .ok value rest _ => rest.length ≤ length ∧ Q value rest.length
  | .fail _ rest _ => rest.length ≤ length
  | .exhausted => False

theorem Reply.Ends.after {α : Type} {k j : Nat} {Q : α → Nat → Prop} {r : Reply α}
    (h : r.Ends j Q) (hj : j ≤ k) (earlier : List SyntaxError) : (r.after earlier).Ends k Q := by
  cases r with
  | ok value rest noted => exact ⟨Nat.le_trans h.1 hj, h.2⟩
  | fail error rest noted => exact Nat.le_trans h hj
  | exhausted => exact h

namespace Parse

theorem ends_bind {α β : Type} {p : Parse α} {f : α → Parse β} {ts : List Token}
    {Q : α → Nat → Prop} {R : β → Nat → Prop} (hp : (p ts).Ends ts.length Q)
    (hf : ∀ a rest, Q a rest.length → (f a rest).Ends rest.length R) :
    ((p >>= f) ts).Ends ts.length R := by
  cases hr : p ts with
  | ok value rest noted =>
    rw [hr] at hp
    rw [bind_of_ok hr]
    exact (hf value rest hp.2).after hp.1 noted
  | fail error rest noted =>
    rw [hr] at hp
    rw [bind_of_fail hr]
    exact hp
  | exhausted => rw [hr] at hp; exact hp.elim

theorem length_synchronize (ts : List Token) : (synchronize ts).length ≤ ts.length - 1 := by
  induction ts with
  | nil => exact Nat.le_refl _
  | cons t rest ih =>
    have hl : (t :: rest).length = rest.length + 1 := rfl
    simp only [synchronize]
    split <;> omega

/-- Recovery skips a token, if there is one. -/
theorem ends_recover {α : Type} {p : Parse α} {ts : List Token} {k : Nat} (hk : k ≤ 1)
    (h : (p ts).Ends ts.length fun _ j => j ≤ ts.length - k) :
    (recover p ts).Ends ts.length fun _ j => j ≤ ts.length - k := by
  unfold recover
  cases hr : p ts with
  | ok value rest noted => rw [hr] at h; exact h
  | fail error rest noted =>
    rw [hr] at h
    have hl : rest.length ≤ ts.length := h
    have hs := length_synchronize rest
    exact ⟨by omega, by omega⟩
  | exhausted => rw [hr] at h; exact h

end Parse

/-! ## Scripts -/

/-- What the parts of a script need, in terms of the number of tokens that are left, so that each call
has a bound that is large enough if `n` is the bound of all. -/
def Logic.depth (n : Nat) : Logic Unit (Nat → Prop) where
  fail _ _ := True
  step
    | .note _, Q, k => Q () k
    | .noteHere _, Q, k => Q () k
    | .atEnd, Q, k => (k = 0 → Q true k) ∧ (k ≠ 0 → Q false k)
    | .nextIs _, Q, k => Q true k ∧ Q false k
    | .take _, Q, k => Q none k ∧ ∀ t j, j + 1 = k → Q (some t) j
  label Q k := Q () k
  call r Q k := r.rank + 20 * k ≤ n ∧ ∀ a j, j ≤ k - r.takes → Q a j

section

variable {α : Type} {n : Nat} {go : {β : Type} → Rule Unit β → Parse β}

theorem Step.ends_run (s : Step α) {ts : List Token} {Q : α → Nat → Prop}
    (h : (Logic.depth n).step s Q ts.length) : (s.run ts).Ends ts.length Q := by
  cases s with
  | note | noteHere => exact ⟨Nat.le_refl _, h⟩
  | atEnd =>
    cases ts with
    | nil => exact ⟨Nat.le_refl _, h.1 rfl⟩
    | cons t ts => exact ⟨Nat.le_refl _, h.2 (Nat.succ_ne_zero _)⟩
  | nextIs kind =>
    refine ⟨Nat.le_refl _, ?_⟩
    cases ts.head?.any fun t => t.kind.sameAs kind
    · exact h.2
    · exact h.1
  | take kinds =>
    cases ts with
    | nil => exact ⟨Nat.le_refl _, h.1⟩
    | cons t ts =>
      simp only [run, Parse.acceptAny]
      split
      · exact ⟨Nat.le_succ _, h.2 t _ rfl⟩
      · exact ⟨Nat.le_refl _, h.1⟩

theorem Script.ends_run
    (hgo : ∀ {β : Type} (r : Rule Unit β) (ts : List Token), r.rank + 20 * ts.length ≤ n →
      (go r ts).Ends ts.length fun _ j => j ≤ ts.length - r.takes)
    (s : Script Unit α) {ts : List Token} {Q : α → Nat → Prop}
    (h : s.wp (.depth n) Q ts.length) : (s.run go ts).Ends ts.length Q := by
  induction s generalizing ts with
  | done a => exact ⟨Nat.le_refl _, h⟩
  | fail fault => exact Nat.le_refl _
  | step s next ih => exact Parse.ends_bind (s.ends_run h) fun a rest => ih a
  | label next ih => exact ih () h
  | call r next ih =>
    exact Parse.ends_bind (hgo r ts h.1) fun a rest hrest => ih a (h.2 a _ hrest)

end

namespace Script

variable {α β : Type} {n k : Nat}

section Steps

theorem depth_rule {r : Rule Unit α} {Q : α → Nat → Prop} :
    (rule r).wp (.depth n) Q k ↔ r.rank + 20 * k ≤ n ∧ ∀ a j, j ≤ k - r.takes → Q a j := .rfl

theorem depth_fresh {Q : Unit → Nat → Prop} : fresh.wp (.depth n) Q k ↔ Q () k := .rfl

theorem depth_acceptAny {kinds : List Kind} {Q : Option Token → Nat → Prop} :
    (acceptAny kinds).wp (.depth n) Q k ↔ Q none k ∧ ∀ t j, j + 1 = k → Q (some t) j := .rfl

theorem depth_accept {kind : Kind} {Q : Option Token → Nat → Prop} :
    (accept kind).wp (.depth n) Q k ↔ Q none k ∧ ∀ t j, j + 1 = k → Q (some t) j := .rfl

theorem depth_symbol {s : Symbol} {place : Place} {Q : Token → Nat → Prop} :
    (symbol s place).wp (.depth n) Q k ↔ ∀ t j, j + 1 = k → Q t j := by
  rw [wp_symbol]
  exact and_iff_right trivial

theorem depth_name {role : NameRole} {Q : Name → Nat → Prop} :
    (name role).wp (.depth n) Q k ↔ ∀ t : Token, ∀ j, j + 1 = k → Q t.toName j := by
  rw [wp_name]
  exact and_iff_right trivial

theorem depth_checkCount {count : Nat} {role : ListRole} {Q : Unit → Nat → Prop} :
    (checkCount count role).wp (.depth n) Q k ↔ Q () k := by
  unfold checkCount
  split <;> exact .rfl

theorem depth_optionally {kind : Kind} {s : Script Unit α} {Q : Option α → Nat → Prop} :
    (optionally kind s).wp (.depth n) Q k ↔
      Q none k ∧ ∀ (_ : Token) j, j + 1 = k → s.wp (.depth n) (fun a => Q (some a)) j := by
  rw [wp_optionally]
  exact .rfl

theorem depth_unlessNext {s : Symbol} {absent : α} {other : Script Unit α} {Q : α → Nat → Prop} :
    (unlessNext s absent other).wp (.depth n) Q k ↔ Q absent k ∧ other.wp (.depth n) Q k := by
  rw [wp_unlessNext]
  exact .rfl

/-- If it is not closed there is a token. -/
theorem depth_unlessClosed {absent : α} {other : Script Unit α} {Q : α → Nat → Prop} :
    (unlessClosed absent other).wp (.depth n) Q k ↔
      Q absent k ∧ (k ≠ 0 → other.wp (.depth n) Q k) := by
  rw [wp_unlessClosed]
  show ((k = 0 → Q absent k) ∧ (k ≠ 0 → Q absent k)) ∧
    (k = 0 → Q absent k) ∧ (k ≠ 0 → other.wp (.depth n) Q k) ↔ _
  by_cases hk : k = 0 <;> simp [hk]

end Steps

/-! ### The scripts of the rules -/

/-- A script can do with the rank of a rule, less one for the call of the rule, and takes as many tokens
as the rule. -/
def Fits (s : Script Unit α) (r : Rule Unit β) : Prop :=
  ∀ n k, r.rank + 20 * k ≤ n + 1 → s.wp (.depth n) (fun _ j => j ≤ k - r.takes) k

theorem fits_expression : Fits expression .expression := by
  intro n k h
  have hlevels : Level.all.length = 6 := rfl
  have hassign (target : Expr Unit) (equals : Token) (value : Expr Unit) {j : Nat} (hj : j ≤ k - 1) :
      (assignment target equals value).wp (.depth n) (fun _ j => j ≤ k - 1) j := by
    cases target <;> exact hj
  simp only [Rule.rank] at h
  simp only [expression, wp_bind, depth_rule, depth_accept, wp_pure, Rule.rank, Rule.takes]
  refine ⟨by omega, fun target j hj => ⟨hj, fun equals i hi => ⟨by omega, fun value m hm => ?_⟩⟩⟩
  exact hassign target equals value (by omega)

theorem fits_binary (levels : List Level) : Fits (binary levels) (.binary levels) := by
  intro n k h
  simp only [Rule.rank] at h
  cases levels with
  | nil =>
    simp only [List.length_nil] at h
    simp only [binary, depth_rule, Rule.rank, Rule.takes]
    exact ⟨by omega, fun e j hj => hj⟩
  | cons level levels =>
    simp only [List.length_cons] at h
    simp only [binary, wp_bind, depth_rule, Rule.rank, Rule.takes]
    exact ⟨by omega, fun left j hj => ⟨by omega, fun e i hi => by omega⟩⟩

theorem fits_operands (level : Level) (levels : List Level) (left : Expr Unit) :
    Fits (operands level levels left) (.operands level levels left) := by
  intro n k h
  simp only [Rule.rank] at h
  simp only [operands, wp_bind, depth_acceptAny, depth_rule, wp_pure, Rule.rank, Rule.takes]
  exact ⟨Nat.le_refl k, fun operator j hj =>
    ⟨by omega, fun right i hi => ⟨by omega, fun e m hm => by omega⟩⟩⟩

theorem fits_unary : Fits unary .unary := by
  intro n k h
  simp only [Rule.rank] at h
  simp only [unary, wp_bind, depth_acceptAny, depth_rule, wp_pure, Rule.rank, Rule.takes]
  refine ⟨⟨by omega, fun callee j hj => ⟨by omega, fun e i hi => by omega⟩⟩, fun operator j hj => ?_⟩
  exact ⟨by omega, fun right i hi => by omega⟩

theorem fits_calls (callee : Expr Unit) : Fits (calls callee) (.calls callee) := by
  intro n k h
  simp only [Rule.rank] at h
  simp only [calls, wp_bind, depth_accept, depth_unlessNext, depth_symbol, depth_name, depth_rule,
    wp_pure, Rule.rank, Rule.takes]
  refine ⟨⟨Nat.le_refl k, fun dot j hj property i hi => ?_⟩, fun left j hj => ⟨?_, ?_⟩⟩
  · exact ⟨by omega, fun e m hm => by omega⟩
  · exact fun right i hi => ⟨by omega, fun e m hm => by omega⟩
  · exact ⟨by omega, fun arguments i hi right m hm => ⟨by omega, fun e l hl => by omega⟩⟩

/-- The items of a list have the rank of the list to themselves, but for the call. -/
theorem fits_list {count : Nat} {role : ListRole} {item : Script Unit α} {others r : Rule Unit (List α)}
    (hrank : others.rank = r.rank) (htakes : r.takes = 1)
    (hitem : ∀ n k, r.rank + 20 * k ≤ n + 1 → ∀ Q : α → Nat → Prop, (∀ a j, j ≤ k - 1 → Q a j) →
      item.wp (.depth n) Q k) : Fits (list count role item others) r := by
  intro n k h
  rw [wp_list, depth_checkCount, htakes]
  refine hitem n k h _ fun first j hj => ⟨hj, fun comma i hi => ⟨?_, fun rest m hm => ?_⟩⟩
  · omega
  · show m ≤ k - 1
    omega

theorem fits_primary : Fits primary .primary := by
  intro n k h
  simp only [Rule.rank] at h
  simp only [primary, wp_bind, depth_acceptAny]
  refine ⟨trivial, fun t j hj => ?_⟩
  split <;> simp only [wp_bind, depth_symbol, depth_name, depth_rule, depth_fresh, wp_pure, Rule.rank,
    Rule.takes]
  case h_8 => exact fun dot i hi method m hm => by omega
  case h_9 => exact ⟨by omega, fun inner i hi right m hm => by omega⟩
  all_goals omega

theorem depth_expressionUnless {s : Symbol} (h : 10 + 20 * k ≤ n)
    {Q : Option (Expr Unit) → Nat → Prop} (hQ : ∀ e j, j ≤ k → Q e j) :
    (expressionUnless s).wp (.depth n) Q k := by
  simp only [expressionUnless, depth_unlessNext, wp_map, depth_rule, Rule.rank, Rule.takes]
  exact ⟨hQ none k (Nat.le_refl k), h, fun e j hj => hQ e j (by omega)⟩

theorem depth_expressionStatement (h : 10 + 20 * k ≤ n) {Q : Stmt Unit → Nat → Prop}
    (hQ : ∀ s j, j ≤ k - 1 → Q s j) : expressionStatement.wp (.depth n) Q k := by
  simp only [expressionStatement, wp_bind, depth_rule, depth_symbol, wp_pure, Rule.rank, Rule.takes]
  exact ⟨h, fun e j hj semicolon i hi => hQ _ i (by omega)⟩

theorem depth_varDeclaration (h : 20 * k ≤ n) {Q : Stmt Unit → Nat → Prop}
    (hQ : ∀ s j, j ≤ k - 1 → Q s j) : varDeclaration.wp (.depth n) Q k := by
  simp only [varDeclaration, wp_bind, depth_name, depth_optionally, depth_rule, depth_symbol, wp_pure,
    Rule.rank, Rule.takes]
  refine fun own j hj => ⟨fun semicolon i hi => hQ _ i (by omega), fun equals i hi => ?_⟩
  exact ⟨by omega, fun e m hm semicolon l hl => hQ _ l (by omega)⟩

theorem depth_forInitializer (h : 10 + 20 * k ≤ n) {Q : Option (Stmt Unit) → Nat → Prop}
    (hQ : ∀ s j, j ≤ k - 1 → Q s j) : forInitializer.wp (.depth n) Q k := by
  simp only [forInitializer, wp_bind, depth_accept, wp_map, wp_pure]
  refine ⟨⟨?_, fun keyword j hj => ?_⟩, fun semicolon j hj => hQ none j (by omega)⟩
  · exact depth_expressionStatement h fun s => hQ (some s)
  · exact depth_varDeclaration (by omega) fun s i hi => hQ (some s) i (by omega)

theorem fits_declaration : Fits declaration .declaration := by
  intro n k h
  simp only [Rule.rank] at h
  simp only [declaration, wp_bind, depth_acceptAny, depth_rule, Rule.rank, Rule.takes]
  refine ⟨⟨by omega, fun s j hj => hj⟩, fun t j hj => ?_⟩
  split
  · exact depth_rule.mpr ⟨by simp only [Rule.rank]; omega, fun s i hi => by omega⟩
  · rw [wp_map]
    exact depth_rule.mpr ⟨by simp only [Rule.rank]; omega, fun f i hi => by omega⟩
  · exact depth_varDeclaration (by omega) fun s i hi => by omega

theorem fits_declarations : Fits declarations .declarations := by
  intro n k h
  simp only [Rule.rank] at h
  simp only [declarations, depth_unlessClosed, wp_bind, depth_rule, wp_pure, Rule.rank, Rule.takes]
  refine ⟨Nat.le_refl k, fun hk => ⟨by omega, fun first j hj => ?_⟩⟩
  exact ⟨by omega, fun others i hi => by omega⟩

theorem fits_block : Fits block .block := by
  intro n k h
  simp only [Rule.rank] at h
  simp only [block, wp_bind, depth_rule, depth_symbol, wp_pure, Rule.rank, Rule.takes]
  exact ⟨by omega, fun body j hj right i hi => by omega⟩

theorem fits_function (role : FunctionRole) : Fits (function role) (.function role) := by
  intro n k h
  simp only [Rule.rank] at h
  simp only [function, wp_bind, depth_name, depth_symbol, depth_unlessNext, depth_rule, wp_pure,
    Rule.rank, Rule.takes]
  have hbody {j : Nat} (hj : j ≤ k - 2) : ∀ (_ : Token) i, i + 1 = j → ∀ (_ : Token) m, m + 1 = i →
      14 + 20 * m ≤ n ∧ ∀ (_ : List (Stmt Unit)) l, l ≤ m - 1 → l ≤ k - 1 :=
    fun right i hi left m hm => ⟨by omega, fun body l hl => by omega⟩
  refine fun own j hj left i hi => ⟨hbody (by omega), by omega, fun params m hm => ?_⟩
  exact hbody (by omega)

theorem fits_methods : Fits methods .methods := by
  intro n k h
  simp only [Rule.rank] at h
  simp only [methods, depth_unlessClosed, wp_bind, depth_rule, wp_pure, Rule.rank, Rule.takes]
  refine ⟨Nat.le_refl k, fun hk => ⟨by omega, fun first j hj => ?_⟩⟩
  exact ⟨by omega, fun others i hi => by omega⟩

theorem fits_classDeclaration : Fits classDeclaration .classDeclaration := by
  intro n k h
  simp only [Rule.rank] at h
  simp only [classDeclaration, superclass, wp_bind, depth_name, depth_optionally, depth_fresh,
    depth_symbol, depth_rule, wp_pure, Rule.rank, Rule.takes]
  have hbody {j : Nat} (hj : j ≤ k - 1) : ∀ (_ : Token) i, i + 1 = j → 2 + 20 * i ≤ n ∧
      ∀ (_ : List (FunDecl Unit)) m, m ≤ i - 0 → ∀ (_ : Token) l, l + 1 = m → l ≤ k - 1 :=
    fun left i hi => ⟨by omega, fun methods m hm right l hl => by omega⟩
  exact fun own j hj => ⟨hbody (by omega), fun less i hi own m hm => hbody (by omega)⟩

theorem fits_statement : Fits statement .statement := by
  intro n k h
  simp only [Rule.rank] at h
  simp only [statement, wp_bind, depth_acceptAny]
  refine ⟨depth_expressionStatement (by omega) fun s j hj => hj, fun t j hj => ?_⟩
  split <;> simp only [wp_bind, wp_map, depth_rule, depth_symbol, wp_pure, Rule.rank, Rule.takes]
  case h_3 => exact ⟨by omega, fun value i hi semicolon m hm => by omega⟩
  case h_4 =>
    exact depth_expressionUnless (by omega) fun value i hi =>
      depth_symbol.mpr fun semicolon m hm => by show m ≤ k - 1; omega
  all_goals exact ⟨by omega, fun s i hi => by omega⟩

theorem fits_forStatement : Fits forStatement .forStatement := by
  intro n k h
  simp only [Rule.rank] at h
  simp only [forStatement, wp_bind, depth_symbol, wp_pure, Rule.takes]
  refine fun left j hj => depth_forInitializer (by omega) fun initializer i hi => ?_
  refine depth_expressionUnless (by omega) fun condition m hm => ?_
  refine depth_symbol.mpr fun semicolon l hl => ?_
  refine depth_expressionUnless (by omega) fun increment o ho => ?_
  refine depth_symbol.mpr fun right p hp => ?_
  simp only [depth_rule, Rule.rank, Rule.takes]
  exact ⟨by omega, fun body q hq => by omega⟩

theorem fits_ifStatement : Fits ifStatement .ifStatement := by
  intro n k h
  simp only [Rule.rank] at h
  simp only [ifStatement, wp_bind, depth_symbol, depth_rule, depth_optionally, wp_pure, Rule.rank,
    Rule.takes]
  refine fun left j hj => ⟨by omega, fun condition i hi right m hm => ?_⟩
  refine ⟨by omega, fun thenBranch l hl => ⟨by omega, fun otherwise o ho => ?_⟩⟩
  exact ⟨by omega, fun elseBranch p hp => by omega⟩

theorem fits_whileStatement : Fits whileStatement .whileStatement := by
  intro n k h
  simp only [Rule.rank] at h
  simp only [whileStatement, wp_bind, depth_symbol, depth_rule, wp_pure, Rule.rank, Rule.takes]
  refine fun left j hj => ⟨by omega, fun condition i hi right m hm => ?_⟩
  exact ⟨by omega, fun body l hl => by omega⟩

theorem fits_program : Fits program .program := by
  intro n k h
  simp only [Rule.rank] at h
  simp only [program, wp_bind, wp_atEnd]
  refine ⟨fun _ => Nat.le_refl k, fun hk => ?_⟩
  have hrest : (do
      let first ← rule .declaration
      return first.toList ++ (← rule .program)).wp (.depth n) (fun _ j => j ≤ k) k := by
    simp only [wp_bind, depth_rule, wp_pure, Rule.rank, Rule.takes]
    exact ⟨by omega, fun first j hj => ⟨by omega, fun others i hi => by omega⟩⟩
  exact hrest

end Script

/-! ## Rules -/

/-- The script of a rule fits it, also if its failure is caught. -/
def Phrase.Fits {α β : Type} (r : Rule Unit β) : Phrase Unit α → Prop
  | .plain s => s.Fits r
  | .guarded s => s.Fits r

theorem Rule.fits_phrase {α : Type} (r : Rule Unit α) : r.phrase.Fits r := by
  cases r with
  | expression => exact Script.fits_expression
  | binary levels => exact Script.fits_binary levels
  | operands level levels left => exact Script.fits_operands level levels left
  | unary => exact Script.fits_unary
  | calls callee => exact Script.fits_calls callee
  | arguments count =>
    refine Script.fits_list rfl rfl fun n k h Q hQ => ?_
    simp only [rank] at h
    exact Script.depth_rule.mpr ⟨by simp only [rank]; omega, hQ⟩
  | primary => exact Script.fits_primary
  | parameters count =>
    refine Script.fits_list rfl rfl fun n k _ Q hQ => ?_
    exact Script.depth_name.mpr fun t j hj => hQ _ j (by omega)
  | declaration => exact Script.fits_declaration
  | declarations => exact Script.fits_declarations
  | block => exact Script.fits_block
  | function role => exact Script.fits_function role
  | methods => exact Script.fits_methods
  | classDeclaration => exact Script.fits_classDeclaration
  | statement => exact Script.fits_statement
  | forStatement => exact Script.fits_forStatement
  | ifStatement => exact Script.fits_ifStatement
  | whileStatement => exact Script.fits_whileStatement
  | program => exact Script.fits_program

/-- At a bound that is large enough, reading by a rule comes to an answer, and takes as many tokens as
the rule takes. -/
theorem ends_rule {α : Type} {n : Nat} (r : Rule Unit α) {ts : List Token}
    (h : r.rank + 20 * ts.length ≤ n) :
    (r.read n ts).Ends ts.length fun _ j => j ≤ ts.length - r.takes := by
  induction n generalizing α ts with
  | zero =>
    have := r.rank_pos
    omega
  | succ n ih =>
    have hf := r.fits_phrase
    rw [Rule.read]
    cases hp : r.phrase with
    | plain s =>
      rw [hp] at hf
      exact s.ends_run (fun r ts hr => ih r hr) (hf n ts.length h)
    | guarded s =>
      rw [hp] at hf
      exact Parse.ends_recover r.takes_le_one (s.ends_run (fun r ts hr => ih r hr) (hf n ts.length h))

end Lox
