import Lox.Proofs.Syntax.Scripts
import Lox.Proofs.Syntax.WellFormed

/-!
# The parser reads well-formed trees

The parser checks some of what makes a tree well-formed, and owes the rest to the spelling of its
tokens. `Logic.wellFormed` has what the parts of a script may count on and what they have to ensure:
every token that is taken is spelled and of a kind that was asked for, a rule is called with
well-formed trees (`Rule.Applies`) and gives well-formed trees (`Rule.Yields`).

* `Rule.wellFormed_phrase`: the script of each rule gives what the rule has to give;
* `yields_rule`: so does reading by the rule, at any bound on the depth;
* `wellFormed_parse`: every statement read from spelled tokens is well-formed, also when the tokens
  have errors.
-/

namespace Lox

/-! ## What the rules give -/

section

variable {α : Type}

/-- What a rule is called with is well-formed. -/
@[simp] def Rule.Applies : Rule Unit α → Prop
  | .operands _ _ left => left.WellFormed
  | .calls callee => callee.WellFormed
  | _ => True

/-- What is read by a rule is well-formed, and a statement declares nothing where it stands. -/
@[simp] def Rule.Yields : Rule Unit α → α → Prop
  | .expression | .binary _ | .operands _ _ _ | .unary | .calls _ | .primary => Expr.WellFormed
  | .arguments _ => Expr.WellFormedAll
  | .parameters _ => fun params => ∀ p ∈ params, p.IsIdentifier
  | .declaration => fun read => ∀ s ∈ read, s.WellFormed
  | .declarations | .block | .program => Stmt.WellFormedAll
  | .function _ => FunDecl.WellFormed
  | .methods => FunDecl.WellFormedAll
  | .classDeclaration => Stmt.WellFormed
  | .statement | .forStatement | .ifStatement | .whileStatement => fun s =>
    s.declares = [] ∧ s.WellFormed

end

/-- What the parts of a script need so that well-formed trees come of spelled tokens. -/
def Logic.wellFormed : Logic Unit Prop where
  fail _ := True
  step
    | .note _, Q => Q ()
    | .noteHere _, Q => Q ()
    | .atEnd, Q => ∀ b, Q b
    | .nextIs _, Q => ∀ b, Q b
    | .take kinds, Q => Q none ∧ ∀ t : Token, t.Spelled → kinds.any t.kind.sameAs → Q (some t)
  label Q := Q ()
  call r Q := r.Applies ∧ ∀ a, r.Yields a → Q a

namespace Logic

variable {α : Type}

@[simp] theorem wellFormed_atEnd (Q : Bool → Prop) : wellFormed.step .atEnd Q ↔ ∀ b, Q b := .rfl

@[simp] theorem wellFormed_nextIs (kind : Kind) (Q : Bool → Prop) :
    wellFormed.step (.nextIs kind) Q ↔ ∀ b, Q b := .rfl

@[simp] theorem wellFormed_take (kinds : List Kind) (Q : Option Token → Prop) :
    wellFormed.step (.take kinds) Q ↔
      Q none ∧ ∀ t : Token, t.Spelled → kinds.any t.kind.sameAs → Q (some t) := .rfl

@[simp] theorem wellFormed_label (Q : Unit → Prop) : wellFormed.label Q ↔ Q () := .rfl

@[simp] theorem wellFormed_call (r : Rule Unit α) (Q : α → Prop) :
    wellFormed.call r Q ↔ r.Applies ∧ ∀ a, r.Yields a → Q a := .rfl

end Logic

/-! ## Trees -/

theorem Level.wellFormed_node {level : Level} {left right : Expr Unit} {operator : Token}
    (ho : level.operators.any operator.kind.sameAs) (hl : left.WellFormed) (hr : right.WellFormed) :
    (level.node left operator right).WellFormed := by
  have hm : level ∈ Level.all := by cases level <;> decide
  cases level
  all_goals
    refine ⟨⟨_, hm, ho, ?_⟩, hl, hr⟩
    simp

/-- A `for` loop declares nothing where it stands: its variable lives in a block. -/
theorem Stmt.wellFormed_forLoop {initializer : Option (Stmt Unit)}
    {condition increment : Option (Expr Unit)} {body : Stmt Unit}
    (hi : ∀ s ∈ initializer, s.WellFormed) (hc : Expr.WellFormed? condition)
    (hn : Expr.WellFormed? increment) (hd : body.declares = []) (hb : body.WellFormed) :
    (Stmt.forLoop initializer condition increment body).declares = [] ∧
      (Stmt.forLoop initializer condition increment body).WellFormed := by
  have hcond : (condition.getD (.literal (.bool true))).WellFormed := by
    cases condition with
    | none => trivial
    | some e => exact hc
  cases increment <;> cases initializer
  · exact ⟨rfl, hcond, hd, hb⟩
  · exact ⟨rfl, hi _ rfl, ⟨hcond, hd, hb⟩, trivial⟩
  · exact ⟨rfl, hcond, rfl, hb, hn, trivial⟩
  · exact ⟨rfl, hi _ rfl, ⟨hcond, rfl, hb, hn, trivial⟩, trivial⟩

/-- A declaration that could be read comes before those that follow. -/
theorem Stmt.wellFormedAll_toList_append {first : Option (Stmt Unit)} {rest : List (Stmt Unit)}
    (hf : ∀ s ∈ first, s.WellFormed) (hr : Stmt.WellFormedAll rest) :
    Stmt.WellFormedAll (first.toList ++ rest) := by
  cases first with
  | none => exact hr
  | some s => exact ⟨hf s rfl, hr⟩

/-! ## Scripts -/

namespace Script

variable {α : Type}

/-- What a name stands for comes of a token that is spelled. -/
theorem wellFormed_name {role : NameRole} {Q : Name → Prop} (hQ : ∀ n, n.IsIdentifier → Q n) :
    (name role).wp .wellFormed Q := by
  simp only [wp_name, Logic.wellFormed_take]
  refine ⟨trivial, fun t ht hk => hQ t.toName (ht.isIdentifier ?_)⟩
  simpa using hk

theorem wellFormed_assignment {target value : Expr Unit} {equals : Token} (ht : target.WellFormed)
    (hv : value.WellFormed) :
    (assignment target equals value).wp .wellFormed Expr.WellFormed := by
  cases target with
  | «variable» | get => exact ⟨ht, hv⟩
  | _ => exact ht

theorem wellFormed_expression : expression.wp .wellFormed Expr.WellFormed := by
  simp only [expression, wp_bind, wp_rule, wp_accept, Logic.wellFormed_call, Logic.wellFormed_take]
  exact ⟨trivial, fun target ht => ⟨ht, fun equals _ _ => ⟨trivial, fun value hv =>
    wellFormed_assignment ht hv⟩⟩⟩

theorem wellFormed_binary (levels : List Level) :
    (binary levels).wp .wellFormed Expr.WellFormed := by
  cases levels with
  | nil => exact ⟨trivial, fun e he => he⟩
  | cons level levels =>
    simp only [binary, wp_bind, wp_rule, Logic.wellFormed_call]
    exact ⟨trivial, fun left hl => ⟨hl, fun e he => he⟩⟩

theorem wellFormed_operands {level : Level} {levels : List Level} {left : Expr Unit}
    (hl : left.WellFormed) : (operands level levels left).wp .wellFormed Expr.WellFormed := by
  simp only [operands, wp_bind, wp_acceptAny, wp_rule, Logic.wellFormed_take, Logic.wellFormed_call]
  exact ⟨hl, fun operator _ ho => ⟨trivial, fun right hr =>
    ⟨Level.wellFormed_node ho hl hr, fun e he => he⟩⟩⟩

theorem wellFormed_unary : unary.wp .wellFormed Expr.WellFormed := by
  simp only [unary, wp_bind, wp_acceptAny, wp_rule, Logic.wellFormed_take, Logic.wellFormed_call]
  exact ⟨⟨trivial, fun callee hc => ⟨hc, fun e he => he⟩⟩, fun operator _ ho =>
    ⟨trivial, fun right hr => ⟨ho, hr⟩⟩⟩

theorem wellFormed_calls {callee : Expr Unit} (hc : callee.WellFormed) :
    (calls callee).wp .wellFormed Expr.WellFormed := by
  simp only [calls, wp_bind, wp_accept, Logic.wellFormed_take]
  refine ⟨⟨hc, fun dot _ _ => wellFormed_name fun n _ => ⟨hc, fun e he => he⟩⟩, fun left _ _ => ?_⟩
  have hclose (arguments : List (Expr Unit)) (ha : Expr.WellFormedAll arguments) :
      (symbol .rightParen .afterArguments).wp .wellFormed fun paren =>
        (rule (.calls (.call callee paren.line arguments))).wp .wellFormed Expr.WellFormed := by
    simp only [wp_symbol, wp_rule, Logic.wellFormed_take, Logic.wellFormed_call]
    exact ⟨trivial, fun right _ _ => ⟨⟨hc, ha⟩, fun e he => he⟩⟩
  simp only [wp_unlessNext, wp_rule (.arguments 0), Logic.wellFormed_nextIs, Logic.wellFormed_call]
  intro b
  cases b with
  | true => exact hclose [] trivial
  | false => exact ⟨trivial, hclose⟩

theorem wellFormed_list {count : Nat} {role : ListRole} {item : Script Unit α}
    {others : Rule Unit (List α)} {Q : α → Prop}
    (hi : ∀ R : α → Prop, (∀ a, Q a → R a) → item.wp .wellFormed R) (ho : others.Applies)
    (hone : ∀ a, Q a → others.Yields [a])
    (hmore : ∀ a as, Q a → others.Yields as → others.Yields (a :: as)) :
    (list count role item others).wp .wellFormed others.Yields := by
  have hitems : item.wp .wellFormed fun first => Logic.wellFormed.step (.take [.symbol .comma])
      fun t => t.elim (others.Yields [first]) fun _ =>
        Logic.wellFormed.call others fun more => others.Yields (first :: more) :=
    hi _ fun first hf => ⟨hone first hf, fun comma _ _ => ⟨ho, fun more => hmore first more hf⟩⟩
  rw [wp_list, checkCount]
  split <;> exact hitems

theorem wellFormed_primary : primary.wp .wellFormed Expr.WellFormed := by
  simp only [primary, wp_bind, wp_acceptAny, Logic.wellFormed_take]
  refine ⟨trivial, fun t ht _ => ?_⟩
  split
  case h_6 hk => exact ht.text_keyword hk
  case h_7 hk => exact ht.isIdentifier (by rw [hk]; rfl)
  case h_8 hk =>
    simp only [wp_bind, wp_symbol, Logic.wellFormed_take]
    exact ⟨trivial, fun dot _ _ => wellFormed_name fun method _ => ht.text_keyword hk⟩
  case h_9 =>
    simp only [wp_bind, wp_rule, wp_symbol, Logic.wellFormed_call, Logic.wellFormed_take]
    exact ⟨trivial, fun inner hi => ⟨trivial, fun right _ _ => hi⟩⟩
  all_goals trivial

theorem wellFormed_expressionUnless {s : Symbol} {Q : Option (Expr Unit) → Prop}
    (hQ : ∀ e, Expr.WellFormed? e → Q e) : (expressionUnless s).wp .wellFormed Q := by
  simp only [expressionUnless, wp_unlessNext, wp_map, wp_rule, Logic.wellFormed_nextIs,
    Logic.wellFormed_call]
  intro b
  cases b with
  | true => exact hQ none trivial
  | false => exact ⟨trivial, fun e he => hQ (some e) he⟩

theorem wellFormed_expressionStatement {Q : Stmt Unit → Prop}
    (hQ : ∀ s, s.declares = [] ∧ s.WellFormed → Q s) :
    expressionStatement.wp .wellFormed Q := by
  simp only [expressionStatement, wp_bind, wp_rule, wp_symbol, Logic.wellFormed_call,
    Logic.wellFormed_take]
  exact ⟨trivial, fun e he => ⟨trivial, fun semicolon _ _ => hQ (.expression e) ⟨rfl, he⟩⟩⟩

theorem wellFormed_varDeclaration {Q : Stmt Unit → Prop} (hQ : ∀ s, s.WellFormed → Q s) :
    varDeclaration.wp .wellFormed Q := by
  simp only [varDeclaration, wp_bind, wp_optionally, wp_rule, wp_symbol, Logic.wellFormed_call,
    Logic.wellFormed_take]
  refine wellFormed_name fun own hown => ⟨⟨trivial, fun semicolon _ _ => ?_⟩, fun equals _ _ => ?_⟩
  · exact hQ (.var own none) ⟨hown, trivial⟩
  · exact ⟨trivial, fun e he => ⟨trivial, fun semicolon _ _ => hQ (.var own (some e)) ⟨hown, he⟩⟩⟩

theorem wellFormed_forInitializer {Q : Option (Stmt Unit) → Prop}
    (hQ : ∀ o, (∀ s ∈ o, s.WellFormed) → Q o) : forInitializer.wp .wellFormed Q := by
  have hsome (s : Stmt Unit) (hs : s.WellFormed) : Q (some s) :=
    hQ (some s) fun _ h => Option.some.inj h ▸ hs
  simp only [forInitializer, wp_bind, wp_accept, Logic.wellFormed_take, wp_map]
  refine ⟨⟨?_, fun keyword _ _ => ?_⟩, fun semicolon _ _ => hQ none nofun⟩
  · exact wellFormed_expressionStatement fun s hs => hsome s hs.2
  · exact wellFormed_varDeclaration hsome

theorem wellFormed_declaration {Q : Stmt Unit → Prop} (hQ : ∀ s, s.WellFormed → Q s) :
    declaration.wp .wellFormed Q := by
  simp only [declaration, wp_bind, wp_acceptAny, wp_rule, Logic.wellFormed_take, Logic.wellFormed_call]
  refine ⟨⟨trivial, fun s hs => hQ s hs.2⟩, fun t _ _ => ?_⟩
  split
  · exact ⟨trivial, hQ⟩
  · rw [wp_map]
    exact ⟨trivial, fun f hf => hQ (.function f) hf⟩
  · exact wellFormed_varDeclaration hQ

theorem wellFormed_declarations : declarations.wp .wellFormed Stmt.WellFormedAll := by
  simp only [declarations, wp_unlessClosed, wp_bind, wp_rule, Logic.wellFormed_nextIs,
    Logic.wellFormed_atEnd, Logic.wellFormed_call]
  intro b b'
  split
  · trivial
  · exact ⟨trivial, fun first hf => ⟨trivial, fun more hm => Stmt.wellFormedAll_toList_append hf hm⟩⟩

theorem wellFormed_block : block.wp .wellFormed Stmt.WellFormedAll := by
  simp only [block, wp_bind, wp_rule, wp_symbol, Logic.wellFormed_call, Logic.wellFormed_take]
  exact ⟨trivial, fun body hb => ⟨trivial, fun right _ _ => hb⟩⟩

theorem wellFormed_function (role : FunctionRole) :
    (function role).wp .wellFormed FunDecl.WellFormed := by
  simp only [function, wp_bind, wp_symbol, wp_unlessNext, wp_rule, Logic.wellFormed_take,
    Logic.wellFormed_nextIs, Logic.wellFormed_call]
  refine wellFormed_name fun own hown => ⟨trivial, fun left _ _ b => ?_⟩
  have hclose (params : List Name) (hp : ∀ p ∈ params, p.IsIdentifier) :
      Logic.wellFormed.step (.take [.symbol .rightParen]) fun t => t.elim True fun _ =>
        Logic.wellFormed.step (.take [.symbol .leftBrace]) fun t => t.elim True fun _ =>
          Logic.wellFormed.call .block fun body => (FunDecl.mk own params body).WellFormed :=
    ⟨trivial, fun right _ _ => ⟨trivial, fun brace _ _ => ⟨trivial, fun body hb => ⟨hown, hp, hb⟩⟩⟩⟩
  cases b with
  | true => exact hclose [] (List.forall_mem_nil _)
  | false => exact ⟨trivial, hclose⟩

theorem wellFormed_methods : methods.wp .wellFormed FunDecl.WellFormedAll := by
  simp only [methods, wp_unlessClosed, wp_bind, wp_rule, Logic.wellFormed_nextIs,
    Logic.wellFormed_atEnd, Logic.wellFormed_call]
  intro b b'
  split
  · trivial
  · exact ⟨trivial, fun first hf => ⟨trivial, fun more hm => ⟨hf, hm⟩⟩⟩

theorem wellFormed_classDeclaration : classDeclaration.wp .wellFormed Stmt.WellFormed := by
  simp only [classDeclaration, superclass, wp_bind, wp_optionally, wp_fresh, wp_symbol, wp_rule,
    Logic.wellFormed_take, Logic.wellFormed_label, Logic.wellFormed_call]
  refine wellFormed_name fun own hown => ?_
  have hclose (superclass : Option (Expr Unit)) (hs : ∀ e ∈ superclass, e.IsSuperclass) :
      Logic.wellFormed.step (.take [.symbol .leftBrace]) fun t => t.elim True fun _ =>
        Logic.wellFormed.call .methods fun body =>
          Logic.wellFormed.step (.take [.symbol .rightBrace]) fun t => t.elim True fun _ =>
            (Stmt.class own superclass body).WellFormed :=
    ⟨trivial, fun left _ _ => ⟨trivial, fun body hb => ⟨trivial, fun right _ _ => ⟨hown, hs, hb⟩⟩⟩⟩
  refine ⟨hclose none nofun, fun less _ _ => wellFormed_name fun other hother => ?_⟩
  exact hclose (some (.variable () other)) fun _ h => Option.some.inj h ▸ hother

theorem wellFormed_statement :
    statement.wp .wellFormed fun s => s.declares = [] ∧ s.WellFormed := by
  simp only [statement, wp_bind, wp_acceptAny, Logic.wellFormed_take]
  refine ⟨wellFormed_expressionStatement fun s hs => hs, fun t _ _ => ?_⟩
  split
  case h_3 =>
    simp only [wp_bind, wp_rule, wp_symbol, Logic.wellFormed_call, Logic.wellFormed_take]
    exact ⟨trivial, fun e he => ⟨trivial, fun semicolon _ _ => ⟨rfl, he⟩⟩⟩
  case h_4 =>
    simp only [wp_bind, wp_symbol, Logic.wellFormed_take]
    exact wellFormed_expressionUnless fun e he => ⟨trivial, fun semicolon _ _ => ⟨rfl, he⟩⟩
  case h_6 =>
    rw [wp_map]
    exact ⟨trivial, fun body hb => ⟨rfl, hb⟩⟩
  all_goals exact ⟨trivial, fun s hs => hs⟩

theorem wellFormed_forStatement :
    forStatement.wp .wellFormed fun s => s.declares = [] ∧ s.WellFormed := by
  simp only [forStatement, wp_bind, wp_symbol, wp_rule, Logic.wellFormed_take, Logic.wellFormed_call]
  refine ⟨trivial, fun left _ _ => wellFormed_forInitializer fun initializer hi => ?_⟩
  refine wellFormed_expressionUnless fun condition hc => ⟨trivial, fun semicolon _ _ => ?_⟩
  refine wellFormed_expressionUnless fun increment hn => ⟨trivial, fun right _ _ => ?_⟩
  exact ⟨trivial, fun body hb => Stmt.wellFormed_forLoop hi hc hn hb.1 hb.2⟩

theorem wellFormed_ifStatement :
    ifStatement.wp .wellFormed fun s => s.declares = [] ∧ s.WellFormed := by
  simp only [ifStatement, wp_bind, wp_symbol, wp_rule, wp_optionally, Logic.wellFormed_take,
    Logic.wellFormed_call]
  refine ⟨trivial, fun left _ _ => ⟨trivial, fun condition hc => ⟨trivial, fun right _ _ => ?_⟩⟩⟩
  refine ⟨trivial, fun thenBranch ht => ⟨⟨rfl, hc, ht, trivial⟩, fun otherwise _ _ => ?_⟩⟩
  exact ⟨trivial, fun elseBranch he => ⟨rfl, hc, ht, he⟩⟩

theorem wellFormed_whileStatement :
    whileStatement.wp .wellFormed fun s => s.declares = [] ∧ s.WellFormed := by
  simp only [whileStatement, wp_bind, wp_symbol, wp_rule, Logic.wellFormed_take, Logic.wellFormed_call]
  refine ⟨trivial, fun left _ _ => ⟨trivial, fun condition hc => ⟨trivial, fun right _ _ => ?_⟩⟩⟩
  exact ⟨trivial, fun body hb => ⟨rfl, hc, hb⟩⟩

theorem wellFormed_program : program.wp .wellFormed Stmt.WellFormedAll := by
  simp only [program, wp_bind, wp_atEnd, Logic.wellFormed_atEnd]
  intro b
  cases b with
  | true => trivial
  | false =>
    have hrest : (do
        let first ← rule .declaration
        return first.toList ++ (← rule .program)).wp .wellFormed Stmt.WellFormedAll := by
      simp only [wp_bind, wp_rule, Logic.wellFormed_call]
      exact ⟨trivial, fun first hf => ⟨trivial, fun more hm =>
        Stmt.wellFormedAll_toList_append hf hm⟩⟩
    exact hrest

end Script

/-- What has to hold so that `Q` holds of what a phrase gives. A failure that is caught gives
nothing. -/
def Phrase.Yields {α : Type} : Phrase Unit α → (α → Prop) → Prop
  | .plain s, Q => s.wp .wellFormed Q
  | .guarded s, Q => Q none ∧ s.wp .wellFormed fun a => Q (some a)

theorem Rule.wellFormed_phrase {α : Type} {r : Rule Unit α} (h : r.Applies) :
    r.phrase.Yields r.Yields := by
  cases r with
  | expression => exact Script.wellFormed_expression
  | binary levels => exact Script.wellFormed_binary levels
  | operands level levels left => exact Script.wellFormed_operands h
  | unary => exact Script.wellFormed_unary
  | calls callee => exact Script.wellFormed_calls h
  | arguments count =>
    exact Script.wellFormed_list (fun R hR => ⟨trivial, hR⟩) trivial (fun e he => ⟨he, trivial⟩)
      fun e es he hes => ⟨he, hes⟩
  | primary => exact Script.wellFormed_primary
  | parameters count =>
    exact Script.wellFormed_list (fun R hR => Script.wellFormed_name hR) trivial
      (fun n hn => List.forall_mem_singleton.mpr hn) fun n ns hn hns =>
      List.forall_mem_cons.mpr ⟨hn, hns⟩
  | declaration =>
    exact ⟨nofun, Script.wellFormed_declaration fun s hs _ h => Option.some.inj h ▸ hs⟩
  | declarations => exact Script.wellFormed_declarations
  | block => exact Script.wellFormed_block
  | function role => exact Script.wellFormed_function role
  | methods => exact Script.wellFormed_methods
  | classDeclaration => exact Script.wellFormed_classDeclaration
  | statement => exact Script.wellFormed_statement
  | forStatement => exact Script.wellFormed_forStatement
  | ifStatement => exact Script.wellFormed_ifStatement
  | whileStatement => exact Script.wellFormed_whileStatement
  | program => exact Script.wellFormed_program

/-! ## Runs -/

/-- The value satisfies `Q`, and the tokens that are left are spelled. -/
def Reply.Yields {α : Type} (Q : α → Prop) : Reply α → Prop
  | .ok value rest _ => Q value ∧ ∀ t ∈ rest, t.Spelled
  | .fail _ rest _ => ∀ t ∈ rest, t.Spelled
  | .exhausted => True

theorem Reply.Yields.after {α : Type} {Q : α → Prop} {r : Reply α} (h : r.Yields Q)
    (earlier : List SyntaxError) : (r.after earlier).Yields Q := by
  cases r <;> exact h

section

variable {α β : Type}

theorem Parse.yields_bind {p : Parse α} {f : α → Parse β} {ts : List Token} {Q : α → Prop}
    {R : β → Prop} (hp : (p ts).Yields Q)
    (hf : ∀ a rest, Q a → (∀ t ∈ rest, t.Spelled) → (f a rest).Yields R) :
    ((p >>= f) ts).Yields R := by
  cases hr : p ts with
  | ok value rest noted =>
    rw [hr] at hp
    rw [bind_of_ok hr]
    exact (hf value rest hp.1 hp.2).after noted
  | fail error rest noted =>
    rw [hr] at hp
    rw [bind_of_fail hr]
    exact hp
  | exhausted =>
    rw [bind_of_exhausted hr]
    trivial

theorem Parse.mem_of_mem_synchronize {t : Token} {ts : List Token} (h : t ∈ synchronize ts) :
    t ∈ ts := by
  induction ts with
  | nil => exact h
  | cons u rest ih =>
    simp only [synchronize] at h
    split at h
    · exact List.mem_cons_of_mem u h
    · exact List.mem_cons_of_mem u (ih h)

theorem Parse.yields_recover {p : Parse α} {ts : List Token} {Q : Option α → Prop} (hQ : Q none)
    (hp : (p ts).Yields fun a => Q (some a)) : (recover p ts).Yields Q := by
  unfold recover
  cases hr : p ts with
  | ok value rest noted =>
    rw [hr] at hp
    exact hp
  | fail error rest noted =>
    rw [hr] at hp
    exact ⟨hQ, fun t ht => hp t (mem_of_mem_synchronize ht)⟩
  | exhausted => trivial

theorem Step.yields_run (s : Step α) {Q : α → Prop} {ts : List Token} (hts : ∀ t ∈ ts, t.Spelled)
    (h : Logic.wellFormed.step s Q) : (s.run ts).Yields Q := by
  cases s with
  | note | noteHere => exact ⟨h, hts⟩
  | atEnd | nextIs => exact ⟨h _, hts⟩
  | take kinds =>
    cases ts with
    | nil => exact ⟨h.1, hts⟩
    | cons t ts =>
      obtain ⟨ht, hrest⟩ := List.forall_mem_cons.mp hts
      simp only [run, Parse.acceptAny]
      split
      · next hk => exact ⟨h.2 t ht hk, hrest⟩
      · exact ⟨h.1, hts⟩

theorem Script.yields_run {go : {β : Type} → Rule Unit β → Parse β}
    (hgo : ∀ {β : Type} (r : Rule Unit β), r.Applies → ∀ ts, (∀ t ∈ ts, t.Spelled) →
      (go r ts).Yields r.Yields)
    (s : Script Unit α) {Q : α → Prop} (hs : s.wp .wellFormed Q) {ts : List Token}
    (hts : ∀ t ∈ ts, t.Spelled) : (s.run go ts).Yields Q := by
  induction s generalizing ts with
  | done a => exact ⟨hs, hts⟩
  | fail fault => exact hts
  | step s next ih =>
    exact Parse.yields_bind (s.yields_run hts hs) fun a rest ha hrest => ih a ha hrest
  | label next ih => exact ih () hs hts
  | call r next ih =>
    exact Parse.yields_bind (hgo r hs.1 ts hts) fun a rest ha hrest => ih a (hs.2 a ha) hrest

theorem yields_rule (n : Nat) {r : Rule Unit α} (h : r.Applies) {ts : List Token}
    (hts : ∀ t ∈ ts, t.Spelled) : (r.read n ts).Yields r.Yields := by
  induction n generalizing α ts with
  | zero => trivial
  | succ n ih =>
    have hr := Rule.wellFormed_phrase h
    rw [Rule.read]
    cases hp : r.phrase with
    | plain s =>
      rw [hp] at hr
      exact s.yields_run (fun r hr _ hus => ih hr hus) hr hts
    | guarded s =>
      rw [hp] at hr
      exact Parse.yields_recover hr.1 (s.yields_run (fun r hr _ hus => ih hr hus) hr.2 hts)

end

/-- Every statement read from spelled tokens is well-formed. -/
theorem wellFormed_parse {ts : List Token} (h : ∀ t ∈ ts, t.Spelled) :
    Stmt.WellFormedAll (parse ts).statements := by
  have hts : ∀ t ∈ (TokenSequence.ofTokens ts).tokens, t.Spelled := fun t ht =>
    h t (List.mem_filter.mp (List.takeWhile_subset _ ht)).1
  have hp := yields_rule (Parse.depth (TokenSequence.ofTokens ts).tokens.length)
    (r := .program) trivial hts
  unfold parse
  dsimp only
  split <;> next hr => rw [hr] at hp; first | exact hp.1 | trivial

end Lox
