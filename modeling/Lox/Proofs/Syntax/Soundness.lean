import Lox.Proofs.Syntax.Grammar
import Lox.Proofs.Syntax.Scripts

/-!
# What the parser reads without errors is in the grammar

When reading by a rule succeeds and no error is noted, the tokens that were taken derive the value, in
the sense of `Rule.Derives`. What is taken is collected on the way: `Logic.reads` has what the parts of
a script need of the tokens that were taken before them.

The parser chooses at which `if` an `else` belongs, but that is left open here: statements are derived
by the rule `any`.

* `Rule.reads_phrase`: the script of each rule, if no error is noted, takes a phrase of the grammar;
* `reads_rule`: so does reading by the rule, at any bound on the depth;
* `Parse.declarations_of_program`: a program that is read without errors is a list of declarations.
-/

namespace Lox

open Grammar

/-! ## What the rules derive -/

/-- The tokens that are taken by a rule, and what is read from them. A rule for what follows a keyword or
a brace gives a phrase that begins with it, and a list that comes after `count` other items is not too
long for all of them. -/
def Rule.Derives {α : Type} : Rule Unit α → List Token → α → Prop
  | .expression => Expression
  | .binary levels => Binary levels
  | .operands level levels left => Operands level levels left
  | .unary => Unary
  | .calls callee => Calls callee
  | .arguments count => fun us es => Arguments us es ∧ count + es.length ≤ maxArity
  | .primary => Primary
  | .parameters count => fun us params => Parameters us params ∧ count + params.length ≤ maxArity
  | .declaration => fun us read => ∃ s, read = some s ∧ Declaration .any us s
  | .declarations => Declarations .any
  | .block => fun us body =>
    ∀ left : Token, left.kind = .symbol .leftBrace → Block .any (left :: us) body
  | .function _ => Function .any
  | .methods => Methods .any
  | .classDeclaration => fun us s =>
    ∀ t : Token, t.kind = .keyword .class → Declaration .any (t :: us) s
  | .statement => fun us s => ∃ isOpen, Statement .any isOpen us s
  | .forStatement => fun us s =>
    ∀ t : Token, t.kind = .keyword .for → ∃ isOpen, Statement .any isOpen (t :: us) s
  | .ifStatement => fun us s =>
    ∀ t : Token, t.kind = .keyword .if → ∃ isOpen, Statement .any isOpen (t :: us) s
  | .whileStatement => fun us s =>
    ∀ t : Token, t.kind = .keyword .while → ∃ isOpen, Statement .any isOpen (t :: us) s
  | .program => Declarations .any

/-- What the parts of a script need of the tokens that were taken before them, so that a phrase is taken
in all. An error, also one that is noted, needs nothing. -/
def Logic.reads : Logic Unit (List Token → Prop) where
  fail _ _ := True
  step
    | .note _, _, _ => True
    | .noteHere _, _, _ => True
    | .atEnd, Q, us => ∀ b, Q b us
    | .nextIs _, Q, us => ∀ b, Q b us
    | .take kinds, Q, us =>
      Q none us ∧ ∀ t : Token, kinds.any t.kind.sameAs = true → Q (some t) (us ++ [t])
  label Q us := Q () us
  call r Q us := ∀ vs a, r.Derives vs a → Q a (us ++ vs)

namespace Script

variable {α : Type} {us : List Token}

section Steps

theorem reads_rule {r : Rule Unit α} {Q : α → List Token → Prop} :
    (rule r).wp .reads Q us ↔ ∀ vs a, r.Derives vs a → Q a (us ++ vs) := .rfl

theorem reads_fresh {Q : Unit → List Token → Prop} : fresh.wp .reads Q us ↔ Q () us := .rfl

theorem reads_acceptAny {kinds : List Kind} (hk : ∀ b ∈ kinds, b.IsPlain)
    {Q : Option Token → List Token → Prop} : (acceptAny kinds).wp .reads Q us ↔
      Q none us ∧ ∀ t : Token, t.kind ∈ kinds → Q (some t) (us ++ [t]) := by
  simp only [← Kind.any_sameAs_iff_mem hk]
  exact .rfl

theorem reads_accept {kind : Kind} (hk : kind.IsPlain) {Q : Option Token → List Token → Prop} :
    (accept kind).wp .reads Q us ↔
      Q none us ∧ ∀ t : Token, t.kind = kind → Q (some t) (us ++ [t]) := by
  rw [accept, reads_acceptAny (List.forall_mem_singleton.mpr hk)]
  simp only [List.mem_singleton]

theorem reads_symbol {s : Symbol} {place : Place} {Q : Token → List Token → Prop} :
    (symbol s place).wp .reads Q us ↔ ∀ t : Token, t.kind = .symbol s → Q t (us ++ [t]) := by
  rw [wp_symbol]
  exact (reads_accept (Kind.isPlain_symbol s)).trans (and_iff_right trivial)

theorem reads_name {role : NameRole} {Q : Name → List Token → Prop} :
    (name role).wp .reads Q us ↔ ∀ t : Token, t.kind = .identifier → Q t.toName (us ++ [t]) := by
  rw [wp_name]
  have hk : Kind.identifier.IsPlain := trivial
  exact (reads_accept hk).trans (and_iff_right trivial)

theorem reads_optionally {kind : Kind} (hk : kind.IsPlain) {s : Script Unit α}
    {Q : Option α → List Token → Prop} : (optionally kind s).wp .reads Q us ↔
      Q none us ∧ ∀ t : Token, t.kind = kind → s.wp .reads (fun a => Q (some a)) (us ++ [t]) := by
  rw [wp_optionally]
  exact reads_accept hk

theorem reads_unlessNext {s : Symbol} {absent : α} {other : Script Unit α}
    {Q : α → List Token → Prop} : (unlessNext s absent other).wp .reads Q us ↔
      Q absent us ∧ other.wp .reads Q us := by
  rw [wp_unlessNext]
  exact Bool.forall_bool.trans and_comm

theorem reads_unlessClosed {absent : α} {other : Script Unit α} {Q : α → List Token → Prop} :
    (unlessClosed absent other).wp .reads Q us ↔ Q absent us ∧ other.wp .reads Q us := by
  rw [wp_unlessClosed]
  show (∀ b b', (if b || b' then Q absent else other.wp .reads Q) us) ↔ _
  simp [Bool.forall_bool, and_comm]

end Steps

/-! ### Expressions -/

theorem reads_assignment {ts us : List Token} {equals : Token} {target value : Expr Unit}
    (ht : Binary Level.all ts target) (hk : equals.kind = .symbol .equal) (hv : Expression us value) :
    (assignment target equals value).wp .reads (fun e vs => Expression vs e) (ts ++ equals :: us) := by
  cases target with
  | «variable» label x =>
    obtain ⟨t, hx, rfl, rfl⟩ := (ht.call_of_isTarget trivial).eq_of_variable
    exact .assign hx hk hv
  | get object name =>
    obtain ⟨vs, dot, x, hd, hx, rfl, rfl, ho⟩ := (ht.call_of_isTarget trivial).eq_of_get
    have hs := Expression.set ho hd hx hk hv
    rw [List.append_assoc]
    exact hs
  | _ => trivial

theorem reads_expression : expression.wp .reads (fun e us => Expression us e) [] := by
  simp only [expression, wp_bind, reads_rule, reads_accept, Kind.isPlain_symbol, List.nil_append]
  refine fun us target ht => ⟨.binary ht, fun equals hk vs value hv => ?_⟩
  rw [List.append_assoc]
  exact reads_assignment ht hk hv

theorem reads_binary (levels : List Level) :
    (binary levels).wp .reads (fun e us => Binary levels us e) [] := by
  cases levels with
  | nil =>
    rw [binary, reads_rule]
    exact fun us e hu => .unary hu
  | cons level levels =>
    simp only [binary, wp_bind, reads_rule]
    exact fun us left hl vs e ho => .level hl ho

theorem reads_operands (level : Level) (levels : List Level) (left : Expr Unit) :
    (operands level levels left).wp .reads (fun e us => Operands level levels left us e) [] := by
  simp only [operands, wp_bind, reads_acceptAny level.isPlain_operators, reads_rule, wp_pure]
  refine ⟨.nil, fun operator hk us right hr vs e ho => ?_⟩
  simpa using Operands.cons hk hr ho

theorem reads_unary : unary.wp .reads (fun e us => Unary us e) [] := by
  simp only [unary, wp_bind, reads_acceptAny isPlain_prefixOperators, reads_rule, wp_pure]
  refine ⟨fun us callee hp vs e hc => .call (.mk hp hc), fun operator hk us right hr => ?_⟩
  exact .operator hk hr

theorem reads_calls (callee : Expr Unit) :
    (calls callee).wp .reads (fun e us => Calls callee us e) [] := by
  simp only [calls, wp_bind, reads_accept, Kind.isPlain_symbol, reads_unlessNext, reads_symbol, reads_name,
    reads_rule, wp_pure]
  refine ⟨⟨.nil, fun dot hd property hx vs e hs => ?_⟩, fun left hl => ⟨fun right hr vs e hs => ?_,
    fun us arguments ha right hr vs e hs => ?_⟩⟩
  · simpa using Calls.property hd hx hs
  · simpa using Calls.invoke hl hr hs
  · have hm : arguments.length ≤ maxArity := by
      have := ha.2
      omega
    simpa using Calls.invokeWith hl ha.1 hm hr hs

/-- A list that goes on after `count` items has room for one more. -/
theorem reads_list {count : Nat} {role : ListRole} {item : Script Unit α}
    {others r : Rule Unit (List α)} {D : List Token → α → Prop}
    (hi : ∀ Q : α → List Token → Prop, (∀ us a, D us a → Q a us) → item.wp .reads Q [])
    (hone : ∀ us a, count < maxArity → D us a → r.Derives us [a])
    (hmore : ∀ us a (comma : Token) vs as, D us a → comma.kind = .symbol .comma →
      others.Derives vs as → r.Derives (us ++ comma :: vs) (a :: as)) :
    (list count role item others).wp .reads (fun as us => r.Derives us as) [] := by
  rw [wp_list, checkCount]
  split
  · trivial
  · next hc =>
    refine hi _ fun us a ha => (reads_accept (Kind.isPlain_symbol .comma)).mpr ⟨?_, ?_⟩
    · exact hone us a (by omega) ha
    · intro comma hk vs as hs
      simpa using hmore us a comma vs as ha hk hs

theorem reads_primary : primary.wp .reads (fun e us => Primary us e) [] := by
  simp only [primary, wp_bind, wp_acceptAny]
  refine ⟨trivial, fun t ht => ?_⟩
  dsimp only
  split
  case h_8 hk =>
    simp only [wp_bind, reads_symbol, reads_name, reads_fresh, wp_pure]
    exact fun dot hd method hx => .super hk hd hx
  case h_9 =>
    have hk : t.kind = .symbol .leftParen := by
      cases hkind : t.kind <;> simp_all [primaryKinds, Kind.sameAs]
    simp only [wp_bind, reads_rule, reads_symbol, wp_pure]
    exact fun us inner hi right hr => .group hk hi hr
  all_goals
    next hk => constructor; exact hk

/-! ### Statements -/

theorem reads_expressionUnless {s : Symbol} {Q : Option (Expr Unit) → List Token → Prop}
    (hQ : ∀ vs e, Optional Expression vs e → Q e (us ++ vs)) :
    (expressionUnless s).wp .reads Q us := by
  simp only [expressionUnless, reads_unlessNext, wp_map, reads_rule]
  refine ⟨?_, fun vs e he => hQ vs (some e) (.some he)⟩
  simpa using hQ [] none .none

theorem reads_expressionStatement {Q : Stmt Unit → List Token → Prop}
    (hQ : ∀ vs s, ExpressionStatement vs s → Q s (us ++ vs)) :
    expressionStatement.wp .reads Q us := by
  simp only [expressionStatement, wp_bind, reads_rule, reads_symbol, wp_pure]
  intro vs e he semicolon hs
  simpa using hQ _ _ (.mk he hs)

theorem reads_varDeclaration {Q : Stmt Unit → List Token → Prop}
    (hQ : ∀ vs s, Variable vs s → Q s (us ++ vs)) : varDeclaration.wp .reads Q us := by
  simp only [varDeclaration, wp_bind, reads_name, reads_optionally, Kind.isPlain_symbol, reads_rule,
    reads_symbol, wp_pure]
  refine fun x hx => ⟨fun semicolon hs => ?_, fun equals hq vs e he semicolon hs => ?_⟩
  · simpa using hQ _ _ (.mk hx .none hs)
  · simpa using hQ _ _ (.mk hx (.some (.mk hq he)) hs)

theorem reads_forInitializer {Q : Option (Stmt Unit) → List Token → Prop}
    (hQ : ∀ vs s, ForInitializer vs s → Q s (us ++ vs)) : forInitializer.wp .reads Q us := by
  simp only [forInitializer, wp_bind, reads_accept, Kind.isPlain_symbol, Kind.isPlain_keyword, wp_map, wp_pure]
  refine ⟨⟨?_, fun t ht => ?_⟩, fun semicolon hs => hQ [semicolon] none (.none hs)⟩
  · exact reads_expressionStatement fun vs s hs => hQ vs (some s) (.expression hs)
  · refine reads_varDeclaration fun vs s hs => ?_
    simpa using hQ (t :: vs) (some s) (.var ht hs)

theorem reads_declaration :
    declaration.wp .reads (fun s us => Rule.declaration.Derives us (some s)) [] := by
  have hsome {us : List Token} {s : Stmt Unit} (hs : Declaration .any us s) :
      Rule.declaration.Derives us (some s) := ⟨s, rfl, hs⟩
  have hplain : ∀ b ∈ [Kind.keyword .class, .keyword .fun, .keyword .var], b.IsPlain := by
    simp [Kind.IsPlain]
  simp only [declaration, wp_bind, reads_acceptAny hplain]
  constructor
  · rintro us s ⟨isOpen, hs⟩
    exact hsome (.statement hs)
  · intro t ht
    simp only [List.mem_cons, List.not_mem_nil, or_false] at ht
    split
    · next hc => exact fun us s hs => hsome (hs t hc)
    · next hf =>
      rw [wp_map]
      exact fun us f h => hsome (.function hf h)
    · next hc hf =>
      have hv := (ht.resolve_left hc).resolve_left hf
      exact reads_varDeclaration fun us s hs => hsome (.var hv hs)

theorem reads_declarations :
    declarations.wp .reads (fun ss us => Declarations .any us ss) [] := by
  simp only [declarations, reads_unlessClosed, wp_bind, reads_rule, wp_pure]
  refine ⟨.nil, fun us first hf vs ss hss => ?_⟩
  obtain ⟨s, rfl, hs⟩ := hf
  exact .cons hs hss

theorem reads_block : block.wp .reads (fun body us => Rule.block.Derives us body) [] := by
  simp only [block, wp_bind, reads_rule, reads_symbol, wp_pure]
  exact fun us body hb right hr left hl => .mk hl hb hr

theorem reads_function (role : FunctionRole) :
    (function role).wp .reads (fun f us => Function .any us f) [] := by
  simp only [function, wp_bind, reads_name, reads_symbol, reads_unlessNext, reads_rule, wp_pure]
  intro x hx left hl
  have hclose (params : List Name) (ts : List Token) (hp : ParameterList ts params) :
      ∀ right : Token, right.kind = .symbol .rightParen →
      ∀ brace : Token, brace.kind = .symbol .leftBrace → ∀ us body, Rule.block.Derives us body →
        Function .any ([] ++ [x] ++ [left] ++ ts ++ [right] ++ [brace] ++ us)
          (.mk x.toName params body) := by
    intro right hr brace hb us body hbody
    simpa using Function.mk hx hl hp hr (hbody brace hb)
  refine ⟨?_, fun us params hp => hclose params us (.some hp.1 ?_)⟩
  · simpa using hclose [] [] .nil
  · have := hp.2
    omega

theorem reads_methods : methods.wp .reads (fun fs us => Methods .any us fs) [] := by
  simp only [methods, reads_unlessClosed, wp_bind, reads_rule, wp_pure]
  exact ⟨.nil, fun us first hf vs fs hfs => .cons hf hfs⟩

theorem reads_classDeclaration :
    classDeclaration.wp .reads (fun s us => Rule.classDeclaration.Derives us s) [] := by
  simp only [classDeclaration, superclass, wp_bind, reads_name, reads_optionally, Kind.isPlain_symbol,
    reads_fresh, reads_symbol, reads_rule, wp_pure]
  intro x hx
  have hclose (superclass : Option (Expr Unit)) (ts : List Token)
      (hs : Optional Superclass ts superclass) :
      ∀ left : Token, left.kind = .symbol .leftBrace → ∀ us fs, Methods .any us fs →
      ∀ right : Token, right.kind = .symbol .rightBrace → ∀ t : Token, t.kind = .keyword .class →
        Declaration .any (t :: ([] ++ [x] ++ ts ++ [left] ++ us ++ [right]))
          (.class x.toName superclass fs) := by
    intro left hl us fs hm right hr t ht
    simpa using Declaration.class ht hx hs hl hm hr
  refine ⟨hclose none [] .none, fun less hless other hother => ?_⟩
  exact hclose _ [less, other] (.some (.mk hless hother))

theorem reads_statement :
    statement.wp .reads (fun s us => ∃ isOpen, Statement .any isOpen us s) [] := by
  have hplain : ∀ b ∈ [Kind.keyword .for, .keyword .if, .keyword .print, .keyword .return,
      .keyword .while, .symbol .leftBrace], b.IsPlain := by simp [Kind.IsPlain]
  simp only [statement, wp_bind, reads_acceptAny hplain]
  refine ⟨reads_expressionStatement fun us s hs => ⟨false, .expression hs⟩, fun t ht => ?_⟩
  simp only [List.mem_cons, List.not_mem_nil, or_false] at ht
  split
  · next hf => exact fun us s hs => hs t hf
  · next hi => exact fun us s hs => hs t hi
  · next hp =>
    simp only [wp_bind, reads_rule, reads_symbol, wp_pure]
    exact fun us e he semicolon hs => ⟨false, .print hp he hs⟩
  · next hp =>
    simp only [wp_bind, wp_pure]
    exact reads_expressionUnless fun us e he => reads_symbol.mpr fun semicolon hs =>
      ⟨false, .return hp he hs⟩
  · next hw => exact fun us s hs => hs t hw
  · next hf hi hp hr hw =>
    have hb := ((((ht.resolve_left hf).resolve_left hi).resolve_left hp).resolve_left
      hr).resolve_left hw
    rw [wp_map]
    exact fun us body h => ⟨false, .block (h t hb)⟩

theorem reads_forStatement :
    forStatement.wp .reads (fun s us => Rule.forStatement.Derives us s) [] := by
  simp only [forStatement, wp_bind, reads_symbol, wp_pure]
  refine fun left hl => reads_forInitializer fun us initializer hi => ?_
  refine reads_expressionUnless fun vs condition hc => reads_symbol.mpr fun semicolon hs => ?_
  refine reads_expressionUnless fun ws increment hn => reads_symbol.mpr fun right hr => ?_
  rintro xs body ⟨isOpen, hb⟩ t ht
  exact ⟨isOpen, by simpa using Statement.for ht hl hi hc hs hn hr hb⟩

theorem reads_ifStatement :
    ifStatement.wp .reads (fun s us => Rule.ifStatement.Derives us s) [] := by
  simp only [ifStatement, wp_bind, reads_symbol, reads_rule, reads_optionally, Kind.isPlain_keyword, wp_pure]
  rintro left hl us condition hc right hr vs thenBranch ⟨thenOpen, hb⟩
  refine ⟨fun t ht => ⟨true, ?_⟩, ?_⟩
  · simpa using Statement.ifThen ht hl hc hr hb
  · rintro otherwise ho ws elseBranch ⟨isOpen, hd⟩ t ht
    have hany : ElseRule.any = .nearest → thenOpen = false := fun h => by cases h
    exact ⟨isOpen, by simpa using Statement.ifElse ht hl hc hr hb hany ho hd⟩

theorem reads_whileStatement :
    whileStatement.wp .reads (fun s us => Rule.whileStatement.Derives us s) [] := by
  simp only [whileStatement, wp_bind, reads_symbol, reads_rule, wp_pure]
  rintro left hl us condition hc right hr vs body ⟨isOpen, hb⟩ t ht
  exact ⟨isOpen, by simpa using Statement.while ht hl hc hr hb⟩

/-- A program that is over has no declarations left. -/
theorem reads_program : program.wp .reads (fun ss us => Declarations .any us ss) [] := by
  simp only [program, wp_bind, wp_atEnd]
  intro b
  cases b with
  | true => exact .nil
  | false =>
    intro us first hf vs ss hss
    obtain ⟨s, rfl, hs⟩ := hf
    exact .cons hs hss

end Script

/-- A phrase without errors gives a value for which `D` holds. -/
def Phrase.Reads {α : Type} : Phrase Unit α → (List Token → α → Prop) → Prop
  | .plain s, D => s.wp .reads (fun a us => D us a) []
  | .guarded s, D => s.wp .reads (fun a us => D us (some a)) []

theorem Rule.reads_phrase {α : Type} (r : Rule Unit α) : r.phrase.Reads r.Derives := by
  cases r with
  | expression => exact Script.reads_expression
  | binary levels => exact Script.reads_binary levels
  | operands level levels left => exact Script.reads_operands level levels left
  | unary => exact Script.reads_unary
  | calls callee => exact Script.reads_calls callee
  | arguments count =>
    refine Script.reads_list (D := Expression) (fun Q hQ => hQ) (fun us e hc he => ⟨.one he, hc⟩) ?_
    intro us e comma vs es he hk hs
    have := hs.2
    exact ⟨.cons he hk hs.1, by rw [List.length_cons]; omega⟩
  | primary => exact Script.reads_primary
  | parameters count =>
    refine Script.reads_list
      (D := fun us n => ∃ t, t.kind = .identifier ∧ us = [t] ∧ t.toName = n)
      (fun Q hQ => Script.reads_name.mpr fun t ht => hQ [t] _ ⟨t, ht, rfl, rfl⟩) ?_ ?_
    · rintro us n hc ⟨t, ht, rfl, rfl⟩
      exact ⟨.one ht, hc⟩
    · rintro us n comma vs params ⟨t, ht, rfl, rfl⟩ hk hs
      have := hs.2
      exact ⟨.cons ht hk hs.1, by rw [List.length_cons]; omega⟩
  | declaration => exact Script.reads_declaration
  | declarations => exact Script.reads_declarations
  | block => exact Script.reads_block
  | function role => exact Script.reads_function role
  | methods => exact Script.reads_methods
  | classDeclaration => exact Script.reads_classDeclaration
  | statement => exact Script.reads_statement
  | forStatement => exact Script.reads_forStatement
  | ifStatement => exact Script.reads_ifStatement
  | whileStatement => exact Script.reads_whileStatement
  | program => exact Script.reads_program

/-! ## Runs -/

section

variable {α β : Type}

/-- A sequence notes no error only if neither of its parts does. -/
theorem Parse.ok_of_bind {p : Parse α} {f : α → Parse β} {ts rest : List Token} {b : β}
    (h : (p >>= f) ts = .ok b rest []) : ∃ a mid, p ts = .ok a mid [] ∧ f a mid = .ok b rest [] := by
  cases hp : p ts with
  | ok a mid noted =>
    rw [bind_of_ok hp] at h
    cases hf : f a mid with
    | ok b' rest' noted' =>
      rw [hf] at h
      injection h with hv hr hn
      obtain ⟨rfl, rfl⟩ := List.append_eq_nil_iff.mp hn
      rw [hv, hr] at hf
      exact ⟨a, mid, rfl, hf⟩
    | fail error rest' noted' => rw [hf] at h; cases h
    | exhausted => rw [hf] at h; cases h
  | fail error mid noted => rw [bind_of_fail hp] at h; cases h
  | exhausted => rw [bind_of_exhausted hp] at h; cases h

/-- An error that is recovered from is noted. -/
theorem Parse.ok_of_recover {p : Parse α} {ts rest : List Token} {read : Option α}
    (h : recover p ts = .ok read rest []) : ∃ a, read = some a ∧ p ts = .ok a rest [] := by
  unfold recover at h
  cases hp : p ts with
  | ok a rest noted =>
    rw [hp] at h
    cases h
    exact ⟨a, rfl, rfl⟩
  | fail error rest noted =>
    rw [hp] at h
    injection h with _ _ hn
    cases List.append_ne_nil_of_right_ne_nil noted (List.cons_ne_nil error []) hn
  | exhausted => rw [hp] at h; cases h

theorem Step.reads_run (s : Step α) {Q : α → List Token → Prop} {us ts rest : List Token} {a : α}
    (hs : Logic.reads.step s Q us) (h : s.run ts = .ok a rest []) :
    ∃ vs, ts = vs ++ rest ∧ Q a (us ++ vs) := by
  cases s with
  | note | noteHere => cases h
  | atEnd | nextIs =>
    cases h
    exact ⟨[], rfl, by rw [List.append_nil]; exact hs _⟩
  | take kinds =>
    cases ts with
    | nil =>
      cases h
      exact ⟨[], rfl, by rw [List.append_nil]; exact hs.1⟩
    | cons t ts =>
      simp only [run, Parse.acceptAny] at h
      split at h
      · next hk =>
        cases h
        exact ⟨[t], rfl, hs.2 t hk⟩
      · cases h
        exact ⟨[], rfl, by rw [List.append_nil]; exact hs.1⟩

theorem Script.reads_run {go : {β : Type} → Rule Unit β → Parse β}
    (hgo : ∀ {β : Type} (r : Rule Unit β) ts b rest, go r ts = .ok b rest [] →
      ∃ vs, ts = vs ++ rest ∧ r.Derives vs b)
    (s : Script Unit α) {Q : α → List Token → Prop} {us ts rest : List Token} {a : α}
    (hs : s.wp .reads Q us) (h : s.run go ts = .ok a rest []) :
    ∃ vs, ts = vs ++ rest ∧ Q a (us ++ vs) := by
  induction s generalizing us ts with
  | done a =>
    cases h
    exact ⟨[], rfl, by rw [List.append_nil]; exact hs⟩
  | fail fault => cases h
  | step s next ih =>
    obtain ⟨b, mid, hb, hmid⟩ := Parse.ok_of_bind h
    obtain ⟨vs, rfl, hvs⟩ := s.reads_run hs hb
    obtain ⟨ws, rfl, hws⟩ := ih b hvs hmid
    exact ⟨vs ++ ws, by rw [List.append_assoc], by rwa [List.append_assoc] at hws⟩
  | label next ih => exact ih () hs h
  | call r next ih =>
    obtain ⟨b, mid, hb, hmid⟩ := Parse.ok_of_bind h
    obtain ⟨vs, rfl, hvs⟩ := hgo r ts b mid hb
    obtain ⟨ws, rfl, hws⟩ := ih b (hs vs b hvs) hmid
    exact ⟨vs ++ ws, by rw [List.append_assoc], by rwa [List.append_assoc] at hws⟩

/-- Without errors, the tokens that are taken derive the value. -/
theorem reads_rule {n : Nat} {r : Rule Unit α} {ts rest : List Token} {a : α}
    (h : r.read n ts = .ok a rest []) : ∃ vs, ts = vs ++ rest ∧ r.Derives vs a := by
  induction n generalizing α ts rest with
  | zero => cases h
  | succ n ih =>
    have hr := r.reads_phrase
    rw [Rule.read] at h
    cases hp : r.phrase with
    | plain s =>
      rw [hp] at h hr
      exact s.reads_run (fun r ts b rest h => ih h) hr h
    | guarded s =>
      rw [hp] at h hr
      obtain ⟨a, rfl, ha⟩ := Parse.ok_of_recover h
      exact s.reads_run (fun r ts b rest h => ih h) hr ha

end

/-- A program that is read without errors is read to its end. -/
theorem Rule.eq_nil_of_read_program {n : Nat} {ts rest : List Token} {ss : List (Stmt Unit)}
    (h : program.read n ts = .ok ss rest []) : rest = [] := by
  induction n generalizing ts ss with
  | zero => cases h
  | succ n ih =>
    cases ts with
    | nil =>
      cases h
      rfl
    | cons t us =>
      rw [read_program_succ n (List.cons_ne_nil t us)] at h
      obtain ⟨first, mid, -, h⟩ := Parse.ok_of_bind h
      obtain ⟨others, mid', ho, h⟩ := Parse.ok_of_bind h
      cases h
      exact ih ho

theorem Parse.declarations_of_program {n : Nat} {ts rest : List Token} {ss : List (Stmt Unit)}
    (h : Rule.program.read n ts = .ok ss rest []) : Declarations .any ts ss := by
  obtain ⟨vs, rfl, hs⟩ := reads_rule h
  obtain rfl := Rule.eq_nil_of_read_program h
  rwa [List.append_nil]

end Lox
