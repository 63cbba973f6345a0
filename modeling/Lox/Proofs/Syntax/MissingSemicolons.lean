import Lox.Proofs.Syntax.Recovery

/-!
# What a missing semicolon costs

A statement whose semicolon is missing fails at the token that comes next. That token is the first to
be skipped. If it is the keyword of the next declaration, the parser goes on in the middle of that
declaration, or behind it.

* `Rule.Fails`, `Script.Fails`: a failure without anything noted;
* `Grammar.Declaration.fails`: this is how a statement without its semicolon fails;
* `missing_semicolon_skips_keyword`: the program goes on with what the skipping leaves, which does not
  have the keyword any more. If the next semicolon ends the next declaration, that is lost too.
-/

namespace Lox

/-! ## Rules and scripts that fail -/

section

variable {α β : Type} {input mid rest : List Token} {a : α} {error : SyntaxError}

/-- The answer of the rule is this error, with nothing noted, and `rest` is left, unless the depth is
used up. -/
def Rule.Fails (r : Rule Unit α) (input : List Token) (error : SyntaxError) (rest : List Token) :
    Prop :=
  r.Replies input (.fail error rest [])

/-- The answer of the script is this error, with nothing noted, and `rest` is left, unless the depth is
used up. -/
def Script.Fails (s : Script Unit α) (input : List Token) (error : SyntaxError) (rest : List Token) :
    Prop :=
  s.Replies input (.fail error rest [])

namespace Script

variable {s : Script Unit α} {f : α → Script Unit β}

theorem Fails.bind (hs : s.Fails input error rest) : (s >>= f).Fails input error rest :=
  Replies.bind_of_fail hs

theorem Gives.bind_fails (hs : s.Gives input a mid) (hf : (f a).Fails mid error rest) :
    (s >>= f).Fails input error rest :=
  Replies.bind hs hf

theorem fails_symbol {s : Symbol} {place : Place} {t : Token} (h : t.kind ≠ .symbol s) :
    (symbol s place).Fails (t :: rest) ⟨.missingSymbol s place, some t.toName⟩ (t :: rest) := by
  have hs : Stops [.symbol s] (t :: rest) := stops_cons.mpr fun hm => h (List.mem_singleton.mp hm)
  exact (gives_accept_none hs trivial).bind_fails fun _ => .inr rfl

end Script

namespace Rule

variable {r : Rule Unit α} {s : Script Unit α} {f : α → Script Unit β}

theorem fails_of_plain (hr : r.phrase = .plain s) (h : s.Fails input error rest) :
    r.Fails input error rest :=
  replies_of_plain hr h

theorem Fails.script (h : r.Fails input error rest) : (Script.rule r).Fails input error rest :=
  Script.replies_rule h

theorem Gives.bind_fails (h : r.Gives input a mid) (hf : (f a).Fails mid error rest) :
    (Script.rule r >>= f).Fails input error rest :=
  h.script.bind_fails hf

end Rule

end

/-! ## Keywords of statements -/

section

open Parse Script

variable {t : Token} {rest : List Token}

theorem beginsStatement_iff : beginsStatement t = true ↔
    t.kind ∈ ([.keyword .class, .keyword .fun, .keyword .var, .keyword .for, .keyword .if,
      .keyword .while, .keyword .print, .keyword .return] : List Kind) := by
  unfold beginsStatement
  split <;> simp_all

/-- No expression begins or goes on with such a keyword, and it is no symbol. -/
theorem ends_of_beginsStatement (h : beginsStatement t = true) :
    EndsExpression (t :: rest) ∧ Stops [.keyword .else] (t :: rest) ∧ Stops prefixOperators (t :: rest) ∧
      ∀ s, t.kind ≠ .symbol s := by
  have hk := beginsStatement_iff.mp h
  simp only [List.mem_cons, List.not_mem_nil, or_false] at hk
  simp only [EndsExpression, stops_cons]
  rcases hk with hk | hk | hk | hk | hk | hk | hk | hk <;>
    simp [hk, continuing, Level.all, Level.operators, prefixOperators]

theorem fails_primary (h : beginsStatement t = true) :
    Rule.primary.Fails (t :: rest) ⟨.missingExpression, some t.toName⟩ (t :: rest) := by
  have hk : primaryKinds.any t.kind.sameAs = false := by
    have hk := beginsStatement_iff.mp h
    simp only [List.mem_cons, List.not_mem_nil, or_false] at hk
    rcases hk with hk | hk | hk | hk | hk | hk | hk | hk <;> rw [hk] <;> rfl
  have htake : (Step.take primaryKinds).run (t :: rest) = .ok none (t :: rest) [] := by
    rw [Step.run, Parse.acceptAny, hk]
    rfl
  have hnone : (Script.acceptAny primaryKinds).Gives (t :: rest) none (t :: rest) :=
    replies_step htake
  exact Rule.fails_of_plain rfl (hnone.bind_fails fun _ => .inr rfl)

theorem fails_binary (h : beginsStatement t = true) (levels : List Level) :
    (Rule.binary levels).Fails (t :: rest) ⟨.missingExpression, some t.toName⟩ (t :: rest) := by
  induction levels with
  | nil =>
    have hunary : Rule.unary.Fails (t :: rest) ⟨.missingExpression, some t.toName⟩ (t :: rest) :=
      Rule.fails_of_plain rfl ((gives_acceptAny_none (ends_of_beginsStatement h).2.2.1
        isPlain_prefixOperators).bind_fails (fails_primary h).script.bind)
    exact Rule.fails_of_plain rfl hunary.script
  | cons level levels ih => exact Rule.fails_of_plain rfl ih.script.bind

/-- An expression is missing in front of a keyword of a statement. -/
theorem fails_expression (h : beginsStatement t = true) :
    Rule.expression.Fails (t :: rest) ⟨.missingExpression, some t.toName⟩ (t :: rest) :=
  Rule.fails_of_plain rfl (fails_binary h Level.all).script.bind

end

/-! ## Statements without their semicolon -/

/-- The statements that end in a semicolon of their own, and what is wrong with them if a keyword stands
in its place. -/
def Stmt.unendedFault? : Stmt Unit → Option SyntaxFault
  | .expression _ => some (.missingSymbol .semicolon .afterExpression)
  | .print _ => some (.missingSymbol .semicolon .afterValue)
  | .var _ _ => some (.missingSymbol .semicolon .afterVariableDeclaration)
  | .return _ (some _) => some (.missingSymbol .semicolon .afterReturnValue)
  | .return _ none => some .missingExpression
  | _ => none

namespace Grammar

open Parse Script

variable {ts rest : List Token} {semicolon next : Token} {s : Stmt Unit} {fault : SyntaxFault}

theorem Variable.fails (h : Variable (ts ++ [semicolon]) s) (hn : beginsStatement next = true) :
    varDeclaration.Fails (ts ++ next :: rest)
      ⟨.missingSymbol .semicolon .afterVariableDeclaration, some next.toName⟩ (next :: rest) := by
  obtain ⟨hend, -, -, hsymbol⟩ := @ends_of_beginsStatement next rest hn
  generalize hts : ts ++ [semicolon] = us at h
  cases h with
  | @mk x last us initializer hx hi hs =>
    have hsplit : ts ++ [semicolon] = (x :: us) ++ [last] := hts
    obtain ⟨rfl, -⟩ := List.append_inj' hsplit rfl
    have hinitializer : (optionally (.symbol .equal) (rule .expression)).Gives
        (us ++ next :: rest) initializer (next :: rest) := by
      cases hi with
      | none => exact gives_optionally_none (hend.mono (by simp)) trivial
      | some hi =>
        cases hi with
        | mk hq he => exact gives_optionally_some hq trivial (he.gives hend).script
    exact (gives_name hx).bind_fails (hinitializer.bind_fails (fails_symbol (hsymbol _)).bind)

theorem Declarations.singleton {rule : ElseRule} {ts : List Token} {s : Stmt Unit}
    (h : Declarations rule ts [s]) : Declaration rule ts s := by
  cases h with
  | cons hs hss =>
    cases hss
    rwa [List.append_nil]

/-- A statement has something before its last token. -/
theorem Statement.ne_nil_of_append {rule : ElseRule} {isOpen : Bool}
    (h : Statement rule isOpen (ts ++ [semicolon]) s) : ts ≠ [] := by
  rintro rfl
  generalize hts : [] ++ [semicolon] = us at h
  have hlength : us.length = 1 := by simp [← hts]
  cases h
  case expression hs =>
    cases hs with
    | mk he =>
      obtain ⟨t, vs, rfl, -⟩ := he.opens
      simp at hlength
  case block hb =>
    cases hb
    simp at hlength
  all_goals simp at hlength

/-- A statement of a kind that ends in a semicolon of its own, without that semicolon. -/
theorem Statement.fails {isOpen : Bool} (h : Statement .nearest isOpen (ts ++ [semicolon]) s)
    (hf : s.unendedFault? = some fault) (hn : beginsStatement next = true) :
    Rule.statement.Fails (ts ++ next :: rest) ⟨fault, some next.toName⟩ (next :: rest) := by
  obtain ⟨hend, -, -, hsymbol⟩ := @ends_of_beginsStatement next rest hn
  generalize hts : ts ++ [semicolon] = us at h
  cases h with
  | expression hs =>
    cases hs with
    | @mk us last e he hs =>
      obtain ⟨rfl, -⟩ := List.append_inj' hts rfl
      cases hf
      refine Rule.fails_of_plain rfl ((gives_acceptAny_none ?_ (by simp [Kind.IsPlain])).bind_fails
        ((he.gives hend).bind_fails (fails_symbol (hsymbol _)).bind))
      exact he.stops (by simp [Kind.OpensExpression])
  | @print t last us e ht he hs =>
    have hsplit : ts ++ [semicolon] = (t :: us) ++ [last] := hts
    obtain ⟨rfl, -⟩ := List.append_inj' hsplit rfl
    cases hf
    refine Rule.fails_of_plain rfl
      ((gives_acceptAny_some (by simp [ht]) (by simp [Kind.IsPlain])).bind_fails ?_)
    simp only [ht]
    exact (he.gives hend).bind_fails (fails_symbol (hsymbol _)).bind
  | @«return» t last us value ht hv hs =>
    have hsplit : ts ++ [semicolon] = (t :: us) ++ [last] := hts
    obtain ⟨rfl, -⟩ := List.append_inj' hsplit rfl
    refine Rule.fails_of_plain rfl
      ((gives_acceptAny_some (by simp [ht]) (by simp [Kind.IsPlain])).bind_fails ?_)
    simp only [ht]
    cases hv with
    | none =>
      cases hf
      have hstop : Stops [.symbol .semicolon] (next :: rest) :=
        stops_cons.mpr fun hm => hsymbol _ (List.mem_singleton.mp hm)
      refine Fails.bind ((gives_nextIs_false hstop trivial).bind_fails ?_)
      exact (fails_expression hn).script.bind
    | @some _ e he =>
      cases hf
      have hopens : Stops [.symbol .semicolon] (us ++ next :: rest) :=
        he.stops (by simp [Kind.OpensExpression])
      exact (gives_unlessNext_other hopens (he.gives hend).script.map).bind_fails
        (fails_symbol (hsymbol _)).bind
  | block hb => cases hf
  | «while» => cases hf
  | @«for» _ _ _ _ _ _ _ _ _ initializer _ increment =>
    cases initializer <;> cases increment <;> cases hf
  | ifThen => cases hf
  | ifElse => cases hf

/-- A declaration without its semicolon is not there; the parser goes on behind the keyword that stands
in its place, with the rest of what that begins. -/
theorem Declaration.fails (h : Declaration .nearest (ts ++ [semicolon]) s)
    (hf : s.unendedFault? = some fault) (hn : beginsStatement next = true) :
    Rule.declaration.Replies (ts ++ next :: rest)
      (.ok none (synchronize (next :: rest)) [⟨fault, some next.toName⟩]) := by
  suffices hd : declaration.Fails (ts ++ next :: rest) ⟨fault, some next.toName⟩ (next :: rest) from
    Rule.declaration_of_fail hd
  generalize hts : ts ++ [semicolon] = us at h
  cases h with
  | «class» => cases hf
  | function => cases hf
  | @var t us s ht hs =>
    obtain ⟨ts, rfl, rfl⟩ : ∃ vs, ts = t :: vs ∧ us = vs ++ [semicolon] := by
      cases ts with
      | nil => cases hts; cases hs
      | cons t' vs => cases hts; exact ⟨vs, rfl, rfl⟩
    refine (gives_acceptAny_some (by simp [ht]) (by simp [Kind.IsPlain])).bind_fails ?_
    simp only [ht]
    have hvar : varDeclaration.Fails (ts ++ next :: rest) _ (next :: rest) := hs.fails hn
    generalize ts ++ [semicolon] = vs at hs
    cases hs
    cases hf
    exact hvar
  | statement hs =>
    subst hts
    have hstops : Stops [.keyword .class, .keyword .fun, .keyword .var] (ts ++ next :: rest) := by
      obtain ⟨t, us, rfl⟩ := List.exists_cons_of_ne_nil hs.ne_nil_of_append
      have hfirst : Stops notBeforeStatement (t :: us ++ [semicolon] ++ []) := hs.stops
      exact stops_cons.mpr (stops_cons.mp (hfirst.mono (by simp [notBeforeStatement])))
    exact (gives_acceptAny_none hstops (by simp [Kind.IsPlain])).bind_fails (hs.fails hf hn).script

end Grammar

/-! ## Programs -/

/-- The semicolon of a statement is left out, and a token that begins a statement comes next; before it
stands a program without errors. There is one error, at that token, which is the first to be skipped;
the statement is lost, and what the skipping leaves is read as if it stood alone. If the next
declaration ends at the first semicolon and has no other such token in it, it is skipped as a whole:
the statements that are lost are two.

Comments may stand anywhere. -/
theorem missing_semicolon_skips_keyword {before broken after rest : List Token} {semicolon next : Token}
    {s : Stmt Unit} {fault : SyntaxFault} (hbefore : ∀ t ∈ before, t.isEof = false)
    (hp : (parse before).errors = []) (hbroken : ∀ t ∈ broken, t.isEof = false)
    (hsemicolon : semicolon.kind = .symbol .semicolon)
    (he : (parse (broken ++ [semicolon])).errors = [])
    (hs : (parse (broken ++ [semicolon])).statements = [s]) (hf : s.unendedFault? = some fault)
    (hafter : (TokenSequence.ofTokens after).tokens = next :: rest)
    (hn : Parse.beginsStatement next = true) :
    let whole := parse (before ++ (broken ++ after))
    let left := Parse.synchronize (next :: rest)
    (whole.statements = (parse before).statements ++ (parse left).statements ∧
      whole.errors = ⟨fault, some next.toName⟩ :: (parse left).errors ∧ left <:+ rest) ∧
    ∀ (lost : List Token) (last : Token) (later : List Token), rest = lost ++ last :: later →
      last.kind = .symbol .semicolon →
      (∀ t ∈ lost, t.kind ≠ .symbol .semicolon ∧ Parse.beginsStatement t = false) →
      whole.statements = (parse before).statements ++ (parse later).statements ∧
        whole.errors = ⟨fault, some next.toName⟩ :: (parse later).errors := by
  intro whole left
  obtain ⟨-, helse, -, hsymbol⟩ := @ends_of_beginsStatement next rest hn
  have hleft : left <:+ rest := by
    simp only [left, Parse.synchronize]
    split
    · exact List.suffix_refl rest
    · exact Parse.synchronize_suffix rest
  have hsuffix : left <:+ (TokenSequence.ofTokens after).tokens := by
    rw [hafter]
    exact hleft.trans (List.suffix_cons next rest)
  -- the statement with its semicolon is a sentence of the grammar
  have hdecl : Grammar.Declaration .nearest (withoutCommentTokens broken ++ [semicolon]) s := by
    obtain ⟨ss, hss⟩ := (declarations_of_parse he).nearest
    obtain ⟨-, rfl⟩ := parse_of_declarations hss
    rw [TokenSequence.tokens_ofTokens_append_semicolon hbroken hsemicolon, hs] at hss
    exact List.append_nil (withoutCommentTokens broken ++ [semicolon]) ▸ hss.singleton
  have htokens : (TokenSequence.ofTokens (broken ++ after)).tokens =
      withoutCommentTokens broken ++ next :: rest := by
    rw [TokenSequence.tokens_ofTokens_append hbroken, hafter]
  have hlost : Rule.declaration.Replies (TokenSequence.ofTokens (broken ++ after)).tokens
      (.ok none (TokenSequence.ofTokens left).tokens [⟨fault, some next.toName⟩]) := by
    rw [htokens, TokenSequence.tokens_ofTokens_of_suffix hsuffix]
    exact hdecl.fails hf hn
  have hfirst : Stops [.keyword .else] (TokenSequence.ofTokens (broken ++ after)).tokens := by
    rw [htokens]
    cases hb : withoutCommentTokens broken with
    | nil => exact helse
    | cons t ts =>
      rw [hb] at hdecl
      have hstops : Stops [.symbol .rightBrace, .keyword .else] (t :: ts ++ [semicolon] ++ []) :=
        hdecl.stops
      exact stops_cons.mpr (stops_cons.mp (hstops.mono (by simp)))
  have hread : whole.statements = (parse before).statements ++ (parse left).statements ∧
      whole.errors = [⟨fault, some next.toName⟩] ++ (parse left).errors :=
    parse_append_of_lost hbefore hp (by simp [htokens]) hfirst hlost
  refine ⟨⟨hread.1, hread.2, hleft⟩, ?_⟩
  rintro lost last later rfl hlast hlost
  have hsync : left = later := by
    have hkinds : ∀ t ∈ next :: lost, t.kind ≠ .symbol .semicolon :=
      List.forall_mem_cons.mpr ⟨hsymbol _, fun t ht => (hlost t ht).1⟩
    exact Parse.synchronize_append_cons hlast hkinds fun t ht => (hlost t ht).2
  rw [← hsync]
  exact hread

/-- What is written here is `print 1 var x = 2; print 3;`, with the semicolon of the first statement left
out: with it there are three statements and no error, and without it the third statement is left. -/
theorem print_before_var_loses_both :
    let print (text : String) (value : Float) : List Token :=
      [⟨.keyword .print, "print", 1⟩, ⟨.number value, text, 1⟩]
    let semicolon : Token := ⟨.symbol .semicolon, ";", 1⟩
    let keyword : Token := ⟨.keyword .var, "var", 1⟩
    let lost : List Token := [⟨.identifier, "x", 1⟩, ⟨.symbol .equal, "=", 1⟩, ⟨.number 2, "2", 1⟩]
    let later := print "3" 3 ++ [semicolon]
    let after := keyword :: (lost ++ semicolon :: later)
    let whole := parse (print "1" 1 ++ after)
    ((parse (print "1" 1 ++ semicolon :: after)).errors = [] ∧
      (parse (print "1" 1 ++ semicolon :: after)).statements.length = 3) ∧
    whole.statements = (parse later).statements ∧ (parse later).statements.length = 1 ∧
    whole.errors = [⟨.missingSymbol .semicolon .afterValue, some ⟨"var", 1⟩⟩] := by
  intro print semicolon keyword lost later after whole
  have hbroken : ∀ t ∈ print "1" 1, t.isEof = false := by decide
  have he : (parse (print "1" 1 ++ [semicolon])).errors = [] := by decide +kernel
  have hfaults : (parse (print "1" 1 ++ [semicolon])).statements.map Stmt.unendedFault? =
      [some (.missingSymbol .semicolon .afterValue)] := by decide +kernel
  obtain ⟨s, hs, hf⟩ := List.map_eq_singleton_iff.mp hfaults
  have hlost : ∀ t ∈ lost, t.kind ≠ .symbol .semicolon ∧ Parse.beginsStatement t = false := by
    simp [lost, Parse.beginsStatement]
  obtain ⟨-, h⟩ := missing_semicolon_skips_keyword (List.forall_mem_nil _) rfl hbroken rfl he hs hf
    (show (TokenSequence.ofTokens after).tokens = keyword :: (lost ++ semicolon :: later) from rfl) rfl
  obtain ⟨hstatements, herrors⟩ := h lost semicolon later rfl rfl hlost
  have hlater : (parse later).errors = [] := by decide +kernel
  refine ⟨⟨by decide +kernel, by decide +kernel⟩, hstatements, by decide +kernel, ?_⟩
  rw [hlater] at herrors
  exact herrors

/-- If it is a block that is lost in part, its brace is an error of its own. -/
example : (parse (tokensOf (scan .skip "print 1 fun f() { print 2; } print 3;"))).errors.length = 2 := by
  decide +kernel

end Lox
