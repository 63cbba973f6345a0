import Lox.Proofs.Syntax.Scripts

/-!
# Errors that are noted in passing

Without braces there are no declarations inside a declaration, and so there is nothing that fails and
is recovered from. What a parser notes on its way is then no failure (`SyntaxFault.stops`): a target to
which nothing can be assigned, or a list that is too long.

* `Script.Calm`: a script that notes nothing else, and that opens no brace;
* `calm_rule`: the rules that do not read up to a closing brace have such scripts;
* `Script.calm_declaration`: so does a declaration.
-/

namespace Lox

/-! ## Faults -/

/-- Whether a parser fails at a fault. If not, it notes the fault and goes on. -/
@[simp] def SyntaxFault.stops : SyntaxFault → Bool
  | .missingName _ | .missingSymbol _ _ | .missingExpression => true
  | .invalidAssignmentTarget | .tooMany _ => false

/-- An error that was noted on the way to these tokens. It is at one of the tokens `K`, or behind them
all. -/
def SyntaxError.Passing (K : Token → Prop) (rest : List Token) (e : SyntaxError) : Prop :=
  e.fault.stops = false ∧ (rest ≠ [] → ∃ t, K t ∧ e.found = some t.toName)

/-- Every error that was noted is in passing, a failure is at the next token, and a value satisfies
`Q`. -/
def Reply.Calm {α : Type} (K : Token → Prop) (ts : List Token) (Q : α → Prop) : Reply α → Prop
  | .ok value rest noted => rest <:+ ts ∧ (∀ e ∈ noted, e.Passing K rest) ∧ Q value
  | .fail error rest noted => rest <:+ ts ∧ (∀ e ∈ noted, e.Passing K rest) ∧
    error.fault.stops = true ∧ error.found = Parse.found rest
  | .exhausted => True

namespace Parse

variable {α β : Type} {K : Token → Prop}

theorem passing_mono {ts us : List Token} {noted : List SyntaxError} (h : us <:+ ts)
    (hn : ∀ e ∈ noted, e.Passing K ts) : ∀ e ∈ noted, e.Passing K us := by
  intro e he
  refine ⟨(hn e he).1, fun hus => (hn e he).2 ?_⟩
  rintro rfl
  exact hus (List.suffix_nil.mp h)

theorem calm_bind {p : Parse α} {f : α → Parse β} {ts : List Token} {Q : α → Prop} {R : β → Prop}
    (hp : (p ts).Calm K ts Q) (hf : ∀ a mid, mid <:+ ts → Q a → (f a mid).Calm K mid R) :
    ((p >>= f) ts).Calm K ts R := by
  cases hr : p ts with
  | ok a mid noted =>
    rw [hr] at hp
    obtain ⟨hmid, hnoted, ha⟩ := hp
    have hf := hf a mid hmid ha
    rw [bind_of_ok hr]
    cases hs : f a mid with
    | ok b rest noted' =>
      rw [hs] at hf
      obtain ⟨hrest, hnoted', hb⟩ := hf
      exact ⟨hrest.trans hmid, List.forall_mem_append.mpr ⟨passing_mono hrest hnoted, hnoted'⟩, hb⟩
    | fail error rest noted' =>
      rw [hs] at hf
      obtain ⟨hrest, hnoted', hstop⟩ := hf
      exact ⟨hrest.trans hmid, List.forall_mem_append.mpr ⟨passing_mono hrest hnoted, hnoted'⟩, hstop⟩
    | exhausted => trivial
  | fail error rest noted =>
    rw [hr] at hp
    rw [bind_of_fail hr]
    exact hp
  | exhausted =>
    rw [bind_of_exhausted hr]
    trivial

end Parse

/-! ## Scripts -/

/-- The rules that do not read up to a closing brace, at which declarations are recovered from. -/
@[simp] def Rule.isCalm {α : Type} : Rule Unit α → Bool
  | .declaration | .declarations | .block | .methods | .program => false
  | _ => true

/-- What the parts of a script need so that errors are noted in passing only and calm rules only are
called, if the tokens that are taken are among `K`. -/
def Logic.calm (K : Token → Prop) : Logic Unit Prop where
  fail fault := fault.stops = true
  step
    | .note error, Q => error.fault.stops = false ∧ (∃ t, K t ∧ error.found = some t.toName) ∧ Q ()
    | .noteHere fault, Q => fault.stops = false ∧ Q ()
    | .atEnd, Q => ∀ b, Q b
    | .nextIs _, Q => ∀ b, Q b
    | .take kinds, Q => Q none ∧ ∀ t, K t → kinds.any t.kind.sameAs = true → Q (some t)
  label Q := Q ()
  call r Q := r.isCalm = true ∧ ∀ a, Q a

namespace Logic

variable {α : Type} {K : Token → Prop}

@[simp] theorem calm_fail (fault : SyntaxFault) :
    (calm K).fail fault ↔ fault.stops = true := .rfl

@[simp] theorem calm_nextIs (kind : Kind) (Q : Bool → Prop) :
    (calm K).step (.nextIs kind) Q ↔ ∀ b, Q b := .rfl

@[simp] theorem calm_take (kinds : List Kind) (Q : Option Token → Prop) :
    (calm K).step (.take kinds) Q ↔
      Q none ∧ ∀ t, K t → kinds.any t.kind.sameAs = true → Q (some t) := .rfl

@[simp] theorem calm_label (Q : Unit → Prop) : (calm K).label Q ↔ Q () := .rfl

@[simp] theorem calm_call (r : Rule Unit α) (Q : α → Prop) :
    (calm K).call r Q ↔ r.isCalm = true ∧ ∀ a, Q a := .rfl

end Logic

namespace Script

variable {α : Type} {K : Token → Prop}

/-- A script that notes errors in passing only and calls calm rules only, if the tokens that are taken
are among `K`. -/
def Calm (K : Token → Prop) (s : Script Unit α) : Prop := s.wp (.calm K) fun _ => True

theorem calm_assignment {target : Expr Unit} {equals : Token} (value : Expr Unit) (h : K equals) :
    (assignment target equals value).Calm K := by
  cases target with
  | «variable» | get => trivial
  | _ => exact ⟨rfl, ⟨equals, h, rfl⟩, trivial⟩

theorem calm_expression : Calm K expression := by
  simp only [Calm, expression, wp_bind, wp_rule, wp_accept, Logic.calm_call, Logic.calm_take]
  exact ⟨rfl, fun target => ⟨trivial, fun t ht _ => ⟨rfl, fun value => calm_assignment value ht⟩⟩⟩

theorem calm_binary (levels : List Level) : Calm K (binary levels) := by
  cases levels <;> simp [Calm, binary]

theorem calm_list {count : Nat} {role : ListRole} {item : Script Unit α} {others : Rule Unit (List α)}
    (hi : item.Calm K) (ho : others.isCalm = true) : (list count role item others).Calm K := by
  have hitems : item.wp (.calm K) fun first => (Logic.calm K).step (.take [.symbol .comma]) fun t =>
      t.elim True fun _ => (Logic.calm K).call others fun _ => True := by
    simpa only [Calm, Logic.calm_take, Logic.calm_call, Option.elim, ho, implies_true, and_self] using hi
  rw [Calm, wp_list, checkCount]
  split
  · exact ⟨rfl, hitems⟩
  · exact hitems

theorem calm_primary : Calm K primary := by
  simp only [Calm, primary, wp_bind, wp_acceptAny, Logic.calm_take]
  refine ⟨rfl, fun t _ _ => ?_⟩
  split <;> simp

/-- No block is entered, since its brace would be a token of `K`. -/
theorem calm_function (hK : ∀ t, K t → t.kind.sameAs (.symbol .leftBrace) = false)
    (role : FunctionRole) : Calm K (function role) := by
  have hbrace (t : Token) (ht : K t) : ¬ t.kind.sameAs (.symbol .leftBrace) = true := by simp [hK t ht]
  simp +contextual [Calm, function, hbrace]

theorem calm_classDeclaration (hK : ∀ t, K t → t.kind.sameAs (.symbol .leftBrace) = false) :
    Calm K classDeclaration := by
  have hbrace (t : Token) (ht : K t) : ¬ t.kind.sameAs (.symbol .leftBrace) = true := by simp [hK t ht]
  simp +contextual [Calm, classDeclaration, superclass, hbrace]

theorem calm_statement (hK : ∀ t, K t → t.kind.sameAs (.symbol .leftBrace) = false) :
    Calm K statement := by
  simp only [Calm, statement, wp_bind, wp_acceptAny, Logic.calm_take]
  refine ⟨by simp [expressionStatement], fun t ht hk => ?_⟩
  split
  case h_4 => simp [expressionUnless]
  case h_6 =>
    -- of the kinds that are taken, only a brace is left
    have hb := hK t ht
    cases hkind : t.kind <;> simp_all [Kind.sameAs]
  all_goals simp

theorem calm_varDeclaration : Calm K varDeclaration := by
  simp [Calm, varDeclaration]

theorem calm_declaration : Calm K declaration := by
  simp only [Calm, declaration, wp_bind, wp_acceptAny, Logic.calm_take]
  refine ⟨by simp, fun t _ _ => ?_⟩
  split
  · simp
  · simp
  · exact calm_varDeclaration

theorem calm_phrase (hK : ∀ t, K t → t.kind.sameAs (.symbol .leftBrace) = false)
    {r : Rule Unit α} (hr : r.isCalm = true) : ∃ s, r.phrase = .plain s ∧ s.Calm K := by
  cases r with
  | expression => exact ⟨_, rfl, calm_expression⟩
  | binary levels => exact ⟨_, rfl, calm_binary levels⟩
  | operands level levels left => exact ⟨_, rfl, by simp [Calm, operands]⟩
  | unary => exact ⟨_, rfl, by simp [Calm, unary]⟩
  | calls callee => exact ⟨_, rfl, by simp [Calm, calls]⟩
  | arguments count => exact ⟨_, rfl, calm_list ⟨rfl, fun _ => trivial⟩ rfl⟩
  | primary => exact ⟨_, rfl, calm_primary⟩
  | parameters count => exact ⟨_, rfl, calm_list (by simp [Calm]) rfl⟩
  | function role => exact ⟨_, rfl, calm_function hK role⟩
  | classDeclaration => exact ⟨_, rfl, calm_classDeclaration hK⟩
  | statement => exact ⟨_, rfl, calm_statement hK⟩
  | forStatement =>
    exact ⟨_, rfl, by simp [Calm, forStatement, forInitializer, varDeclaration, expressionStatement,
      expressionUnless]⟩
  | ifStatement => exact ⟨_, rfl, by simp [Calm, ifStatement]⟩
  | whileStatement => exact ⟨_, rfl, by simp [Calm, whileStatement]⟩
  | declaration | declarations | block | methods | program => cases hr

end Script

/-! ## Runs -/

section

variable {α : Type} {K : Token → Prop}

open Parse

theorem Step.calm_run (s : Step α) {Q : α → Prop} {ts : List Token} (hts : ∀ t ∈ ts, K t)
    (h : (Logic.calm K).step s Q) : (s.run ts).Calm K ts Q := by
  cases s with
  | note error =>
    exact ⟨List.suffix_refl ts, List.forall_mem_singleton.mpr ⟨h.1, fun _ => h.2.1⟩, h.2.2⟩
  | noteHere fault =>
    refine ⟨List.suffix_refl ts, List.forall_mem_singleton.mpr ⟨h.1, fun hne => ?_⟩, h.2⟩
    obtain ⟨t, us, rfl⟩ := List.exists_cons_of_ne_nil hne
    exact ⟨t, hts t List.mem_cons_self, rfl⟩
  | atEnd | nextIs => exact ⟨List.suffix_refl ts, List.forall_mem_nil _, h _⟩
  | take kinds =>
    cases ts with
    | nil => exact ⟨List.suffix_refl [], List.forall_mem_nil _, h.1⟩
    | cons t ts =>
      simp only [run, acceptAny]
      split
      · next hk =>
        exact ⟨List.suffix_cons t ts, List.forall_mem_nil _, h.2 t (hts t List.mem_cons_self) hk⟩
      · exact ⟨List.suffix_refl _, List.forall_mem_nil _, h.1⟩

theorem Script.calm_run {go : {β : Type} → Rule Unit β → Parse β}
    (hgo : ∀ {β : Type} (r : Rule Unit β), r.isCalm = true → ∀ ts, (∀ t ∈ ts, K t) →
      (go r ts).Calm K ts fun _ => True)
    (s : Script Unit α) {Q : α → Prop} (hs : s.wp (.calm K) Q) {ts : List Token}
    (hts : ∀ t ∈ ts, K t) : (s.run go ts).Calm K ts Q := by
  induction s generalizing ts with
  | done a => exact ⟨List.suffix_refl ts, List.forall_mem_nil _, hs⟩
  | fail fault => exact ⟨List.suffix_refl ts, List.forall_mem_nil _, hs, rfl⟩
  | step s next ih =>
    exact calm_bind (s.calm_run hts hs) fun a mid hmid ha =>
      ih a ha fun t ht => hts t (hmid.subset ht)
  | label next ih => exact ih () hs hts
  | call r next ih =>
    exact calm_bind (hgo r hs.1 ts hts) fun a mid hmid _ =>
      ih a (hs.2 a) fun t ht => hts t (hmid.subset ht)

theorem calm_rule (hK : ∀ t, K t → t.kind.sameAs (.symbol .leftBrace) = false) (n : Nat)
    {r : Rule Unit α} (hr : r.isCalm = true) {ts : List Token} (hts : ∀ t ∈ ts, K t) :
    (r.read n ts).Calm K ts fun _ => True := by
  induction n generalizing α ts with
  | zero => trivial
  | succ n ih =>
    obtain ⟨s, hp, hs⟩ := Script.calm_phrase hK hr
    rw [Rule.read, hp]
    exact s.calm_run (fun r hr _ hus => ih hr hus) hs hts

end

end Lox
