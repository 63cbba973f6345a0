import Lox.Proofs.Renaming.Trees
import Lox.Proofs.Syntax.Recognition

/-!
# Sentences of respelled programs

The grammar looks at the kinds of tokens, and builds trees of their names. So a
respelled tree has a derivation too, from tokens that are the same but for the
spelling of some names (`Token.Respells`): one lemma for each nonterminal.

* `Grammar.Expression.respell`, …, `Grammar.Declarations.respell`: the derivations;
* `exists_parse_of_respellsAll`: a respelled program is read from respelled tokens.
-/

namespace Lox

/-- A token, or its new spelling if it is the old name. -/
inductive Token.Respells (ρ : Renaming) : Token → Token → Prop
  | same (t : Token) : Respells ρ t t
  | renamed {t : Token} (hk : t.kind = .identifier) (h : t.lexeme = ρ.old) :
    Respells ρ t ⟨.identifier, ρ.new, t.line⟩

section

variable {ρ : Renaming}

/-- The token of a respelled name. -/
theorem Token.exists_respells {x : Token} (hx : x.kind = .identifier) {n : Name}
    (h : x.toName.Respells ρ n) :
    ∃ x', x.Respells ρ x' ∧ x'.kind = .identifier ∧ x'.toName = n := by
  cases h with
  | same => exact ⟨x, .same x, hx, rfl⟩
  | renamed h => exact ⟨_, .renamed hx h, rfl, rfl⟩

theorem Expr.RespellsAll.length_eq {ι : Type} {es es' : List (Expr ι)}
    (h : Expr.RespellsAll ρ es es') : es'.length = es.length := by
  induction es generalizing es' with
  | nil =>
    cases h
    rfl
  | cons e es ih =>
    cases h with
    | cons _ hes => exact congrArg Nat.succ (ih hes)

/-- A respelled operation has respelled operands. -/
theorem Level.respells_node (level : Level) {left right e : Expr Unit} {operator : Token}
    (h : (level.node left operator right).Respells ρ e) :
    ∃ left' right', left.Respells ρ left' ∧ right.Respells ρ right' ∧
      e = level.node left' operator right' := by
  have logical (h : (Expr.logical left operator right).Respells ρ e) : ∃ left' right',
      left.Respells ρ left' ∧ right.Respells ρ right' ∧ e = .logical left' operator right' := by
    cases h with
    | logical _ hl hr => exact ⟨_, _, hl, hr, rfl⟩
  have binary (h : (Expr.binary left operator right).Respells ρ e) : ∃ left' right',
      left.Respells ρ left' ∧ right.Respells ρ right' ∧ e = .binary left' operator right' := by
    cases h with
    | binary _ hl hr => exact ⟨_, _, hl, hr, rfl⟩
  cases level with
  | or => exact logical h
  | and => exact logical h
  | _ => exact binary h

namespace Grammar

/-! ## Expressions -/

mutual

theorem Expression.respell {ts : List Token} {e e' : Expr Unit} : Expression ts e →
    e.Respells ρ e' → ∃ ts', List.Forall₂ (Token.Respells ρ) ts ts' ∧ Expression ts' e'
  | .assign hx he hv, h => by
    cases h with
    | assign _ hn hval =>
      obtain ⟨x', hrx, hx', rfl⟩ := Token.exists_respells hx hn
      obtain ⟨ts', hts, hv'⟩ := hv.respell hval
      exact ⟨_, .cons hrx (.cons (.same _) hts), .assign hx' he hv'⟩
  | .set ho hd hx he hv, h => by
    cases h with
    | set _ hobj hval =>
      obtain ⟨ts', hts, ho'⟩ := ho.respell hobj
      obtain ⟨us', hus, hv'⟩ := hv.respell hval
      refine ⟨_, List.rel_append hts ?_, .set ho' hd hx he hv'⟩
      exact .cons (.same _) (.cons (.same _) (.cons (.same _) hus))
  | .binary hb, h => by
    obtain ⟨ts', hts, hb'⟩ := hb.respell h
    exact ⟨ts', hts, .binary hb'⟩

theorem Binary.respell {levels : List Level} {ts : List Token} {e e' : Expr Unit} :
    Binary levels ts e → e.Respells ρ e' →
      ∃ ts', List.Forall₂ (Token.Respells ρ) ts ts' ∧ Binary levels ts' e'
  | .unary hu, h => by
    obtain ⟨ts', hts, hu'⟩ := hu.respell h
    exact ⟨ts', hts, .unary hu'⟩
  | .level hl ho, h => by
    obtain ⟨left', us', hleft, hus, ho'⟩ := ho.respell h
    obtain ⟨ts', hts, hl'⟩ := hl.respell hleft
    exact ⟨_, List.rel_append hts hus, .level hl' ho'⟩

/-- What stands to the left is part of the tree, so its respelling is found on the way. -/
theorem Operands.respell {level : Level} {levels : List Level} {left e e' : Expr Unit}
    {ts : List Token} : Operands level levels left ts e → e.Respells ρ e' →
      ∃ left' ts', left.Respells ρ left' ∧ List.Forall₂ (Token.Respells ρ) ts ts' ∧
        Operands level levels left' ts' e'
  | .nil, h => ⟨_, [], h, .nil, .nil⟩
  | .cons hk hr ho, h => by
    obtain ⟨node', us', hnode, hus, ho'⟩ := ho.respell h
    obtain ⟨left', right', hleft, hright, rfl⟩ := level.respells_node hnode
    obtain ⟨ts', hts, hr'⟩ := hr.respell hright
    refine ⟨left', _, hleft, ?_, .cons hk hr' ho'⟩
    exact .cons (.same _) (List.rel_append hts hus)

theorem Unary.respell {ts : List Token} {e e' : Expr Unit} : Unary ts e → e.Respells ρ e' →
    ∃ ts', List.Forall₂ (Token.Respells ρ) ts ts' ∧ Unary ts' e'
  | .operator hk hr, h => by
    cases h with
    | unary _ hright =>
      obtain ⟨ts', hts, hr'⟩ := hr.respell hright
      exact ⟨_, .cons (.same _) hts, .operator hk hr'⟩
  | .call hc, h => by
    obtain ⟨ts', hts, hc'⟩ := hc.respell h
    exact ⟨ts', hts, .call hc'⟩

theorem Call.respell {ts : List Token} {e e' : Expr Unit} : Call ts e → e.Respells ρ e' →
    ∃ ts', List.Forall₂ (Token.Respells ρ) ts ts' ∧ Call ts' e'
  | .mk hc hs, h => by
    obtain ⟨callee', us', hcallee, hus, hs'⟩ := hs.respell h
    obtain ⟨ts', hts, hc'⟩ := hc.respell hcallee
    exact ⟨_, List.rel_append hts hus, .mk hc' hs'⟩

theorem Calls.respell {callee e e' : Expr Unit} {ts : List Token} :
    Calls callee ts e → e.Respells ρ e' →
      ∃ callee' ts', callee.Respells ρ callee' ∧ List.Forall₂ (Token.Respells ρ) ts ts' ∧
        Calls callee' ts' e'
  | .nil, h => ⟨_, [], h, .nil, .nil⟩
  | .invoke hl hr hs, h => by
    obtain ⟨call', us', hcall, hus, hs'⟩ := hs.respell h
    cases hcall with
    | call _ hcallee hargs =>
      cases hargs
      exact ⟨_, _, hcallee, .cons (.same _) (.cons (.same _) hus),
        .invoke hl hr hs'⟩
  | .invokeWith hl ha hm hr hs, h => by
    obtain ⟨call', us', hcall, hus, hs'⟩ := hs.respell h
    cases hcall with
    | call _ hcallee hargs =>
      obtain ⟨ts', hts, ha'⟩ := ha.respell hargs
      rw [← hargs.length_eq] at hm
      refine ⟨_, _, hcallee, ?_, .invokeWith hl ha' hm hr hs'⟩
      exact .cons (.same _) (List.rel_append hts (.cons (.same _) hus))
  | .property hd hx hs, h => by
    obtain ⟨get', us', hget, hus, hs'⟩ := hs.respell h
    cases hget with
    | get _ hobject =>
      exact ⟨_, _, hobject, .cons (.same _) (.cons (.same _) hus),
        .property hd hx hs'⟩

theorem Arguments.respell {ts : List Token} {es es' : List (Expr Unit)} : Arguments ts es →
    Expr.RespellsAll ρ es es' →
      ∃ ts', List.Forall₂ (Token.Respells ρ) ts ts' ∧ Arguments ts' es'
  | .one he, h => by
    cases h with
    | cons h hnil =>
      cases hnil
      obtain ⟨ts', hts, he'⟩ := he.respell h
      exact ⟨ts', hts, .one he'⟩
  | .cons he hc hs, h => by
    cases h with
    | cons h hrest =>
      obtain ⟨ts', hts, he'⟩ := he.respell h
      obtain ⟨us', hus, hs'⟩ := hs.respell hrest
      exact ⟨_, List.rel_append hts (.cons (.same _) hus), .cons he' hc hs'⟩

theorem Primary.respell {ts : List Token} {e e' : Expr Unit} : Primary ts e → e.Respells ρ e' →
    ∃ ts', List.Forall₂ (Token.Respells ρ) ts ts' ∧ Primary ts' e'
  | .false ht, h => by
    cases h
    exact ⟨_, .cons (.same _) .nil, .false ht⟩
  | .true ht, h => by
    cases h
    exact ⟨_, .cons (.same _) .nil, .true ht⟩
  | .nil ht, h => by
    cases h
    exact ⟨_, .cons (.same _) .nil, .nil ht⟩
  | .number ht, h => by
    cases h
    exact ⟨_, .cons (.same _) .nil, .number ht⟩
  | .string ht, h => by
    cases h
    exact ⟨_, .cons (.same _) .nil, .string ht⟩
  | .this ht, h => by
    cases h
    exact ⟨_, .cons (.same _) .nil, .this ht⟩
  | .variable ht, h => by
    cases h with
    | «variable» _ hn =>
      obtain ⟨t', hrt, ht', rfl⟩ := Token.exists_respells ht hn
      exact ⟨_, .cons hrt .nil, .variable ht'⟩
  | .group hl hi hr, h => by
    cases h with
    | group h =>
      obtain ⟨ts', hts, hi'⟩ := hi.respell h
      refine ⟨_, .cons (.same _) ?_, .group hl hi' hr⟩
      exact List.rel_append hts (.cons (.same _) .nil)
  | .super ht hd hx, h => by
    cases h
    exact ⟨_, .cons (.same _) (.cons (.same _) (.cons (.same _) .nil)),
      .super ht hd hx⟩

end

/-! ## Statements -/

/-- A phrase that may be left out, if the phrase itself can be respelled. -/
theorem Optional.respell {α : Type} {p : List Token → α → Prop} {r : α → α → Prop}
    (hp : ∀ {ts : List Token} {a a' : α}, p ts a → r a a' →
      ∃ ts', List.Forall₂ (Token.Respells ρ) ts ts' ∧ p ts' a')
    {ts : List Token} {o o' : Option α} (h : Optional p ts o) (hr : Option.Rel r o o') :
    ∃ ts', List.Forall₂ (Token.Respells ρ) ts ts' ∧ Optional p ts' o' := by
  cases h with
  | none =>
    cases hr
    exact ⟨[], .nil, .none⟩
  | some h =>
    cases hr with
    | some hr =>
      obtain ⟨ts', hts, h'⟩ := hp h hr
      exact ⟨ts', hts, .some h'⟩

theorem ExpressionStatement.respell {ts : List Token} {s s' : Stmt Unit}
    (h : ExpressionStatement ts s) (hr : s.Respells ρ s') :
    ∃ ts', List.Forall₂ (Token.Respells ρ) ts ts' ∧ ExpressionStatement ts' s' := by
  cases h with
  | mk he hs =>
    cases hr with
    | expression hr =>
      obtain ⟨ts', hts, he'⟩ := he.respell hr
      exact ⟨_, List.rel_append hts (.cons (.same _) .nil), .mk he' hs⟩

theorem Initializer.respell {ts : List Token} {e e' : Expr Unit} (h : Initializer ts e)
    (hr : e.Respells ρ e') :
    ∃ ts', List.Forall₂ (Token.Respells ρ) ts ts' ∧ Initializer ts' e' := by
  cases h with
  | mk hq he =>
    obtain ⟨ts', hts, he'⟩ := he.respell hr
    exact ⟨_, .cons (.same _) hts, .mk hq he'⟩

theorem Variable.respell {ts : List Token} {s s' : Stmt Unit} (h : Variable ts s)
    (hr : s.Respells ρ s') :
    ∃ ts', List.Forall₂ (Token.Respells ρ) ts ts' ∧ Variable ts' s' := by
  cases h with
  | mk hx hi hs =>
    cases hr with
    | var hn hr =>
      obtain ⟨x', hrx, hx', rfl⟩ := Token.exists_respells hx hn
      obtain ⟨ts', hts, hi'⟩ := Optional.respell (fun h hr => h.respell hr) hi hr
      refine ⟨_, .cons hrx ?_, .mk hx' hi' hs⟩
      exact List.rel_append hts (.cons (.same _) .nil)

theorem ForInitializer.respell {ts : List Token} {o o' : Option (Stmt Unit)}
    (h : ForInitializer ts o) (hr : Option.Rel (Stmt.Respells ρ) o o') :
    ∃ ts', List.Forall₂ (Token.Respells ρ) ts ts' ∧ ForInitializer ts' o' := by
  cases h with
  | none hs =>
    cases hr
    exact ⟨_, .cons (.same _) .nil, .none hs⟩
  | var ht hs =>
    cases hr with
    | some hr =>
      obtain ⟨ts', hts, hs'⟩ := hs.respell hr
      exact ⟨_, .cons (.same _) hts, .var ht hs'⟩
  | expression hs =>
    cases hr with
    | some hr =>
      obtain ⟨ts', hts, hs'⟩ := hs.respell hr
      exact ⟨ts', hts, .expression hs'⟩

theorem Parameters.respell {ts : List Token} {params params' : List Name}
    (h : Parameters ts params) (hr : List.Forall₂ (Name.Respells ρ) params params') :
    ∃ ts', List.Forall₂ (Token.Respells ρ) ts ts' ∧ Parameters ts' params' := by
  induction h generalizing params' with
  | one hx =>
    cases hr with
    | cons hn hnil =>
      cases hnil
      obtain ⟨x', hrx, hx', rfl⟩ := Token.exists_respells hx hn
      exact ⟨_, .cons hrx .nil, .one hx'⟩
  | cons hx hc _ ih =>
    cases hr with
    | cons hn hrest =>
      obtain ⟨x', hrx, hx', rfl⟩ := Token.exists_respells hx hn
      obtain ⟨ts', hts, hs'⟩ := ih hrest
      exact ⟨_, .cons hrx (.cons (.same _) hts), .cons hx' hc hs'⟩

theorem ParameterList.respell {ts : List Token} {params params' : List Name}
    (h : ParameterList ts params) (hr : List.Forall₂ (Name.Respells ρ) params params') :
    ∃ ts', List.Forall₂ (Token.Respells ρ) ts ts' ∧ ParameterList ts' params' := by
  cases h with
  | nil =>
    cases hr
    exact ⟨[], .nil, .nil⟩
  | some hp hm =>
    obtain ⟨ts', hts, hp'⟩ := hp.respell hr
    rw [hr.length_eq] at hm
    exact ⟨ts', hts, .some hp' hm⟩

theorem Superclass.respell {ts : List Token} {e e' : Expr Unit} (h : Superclass ts e)
    (hr : e.Respells ρ e') :
    ∃ ts', List.Forall₂ (Token.Respells ρ) ts ts' ∧ Superclass ts' e' := by
  cases h with
  | mk hl hx =>
    cases hr with
    | «variable» _ hn =>
      obtain ⟨x', hrx, hx', rfl⟩ := Token.exists_respells hx hn
      exact ⟨_, .cons (.same _) (.cons hrx .nil), .mk hl hx'⟩

/-- A condition that is left out stays out. -/
theorem respells_condition {condition : Option (Expr Unit)} {e : Expr Unit}
    (h : (condition.getD (.literal (.bool true))).Respells ρ e) :
    ∃ condition', Option.Rel (Expr.Respells ρ) condition condition' ∧
      e = condition'.getD (.literal (.bool true)) := by
  cases condition with
  | none =>
    have h : Expr.Respells ρ (.literal (.bool true)) e := h
    cases h
    exact ⟨none, .none, rfl⟩
  | some condition => exact ⟨some e, .some h, rfl⟩

/-- A loop without initializer is respelled in its parts. -/
theorem respells_loop {condition increment : Option (Expr Unit)} {body s : Stmt Unit}
    (h : (Stmt.forLoop none condition increment body).Respells ρ s) :
    ∃ condition' increment' body', Option.Rel (Expr.Respells ρ) condition condition' ∧
      Option.Rel (Expr.Respells ρ) increment increment' ∧ body.Respells ρ body' ∧
      s = Stmt.forLoop none condition' increment' body' := by
  cases increment with
  | none =>
    cases h with
    | «while» hc hb =>
      obtain ⟨condition', hc', rfl⟩ := respells_condition hc
      exact ⟨condition', none, _, hc', .none, hb, rfl⟩
  | some e =>
    cases h with
    | «while» hc hb =>
      obtain ⟨condition', hc', rfl⟩ := respells_condition hc
      cases hb with
      | block hb =>
        cases hb with
        | cons hb hs =>
          cases hs with
          | cons he hnil =>
            cases hnil
            cases he with
            | expression he => exact ⟨condition', some _, _, hc', .some he, hb, rfl⟩

/-- The loop that a `for` stands for is respelled in its parts. -/
theorem respells_forLoop {initializer : Option (Stmt Unit)}
    {condition increment : Option (Expr Unit)} {body s : Stmt Unit}
    (h : (Stmt.forLoop initializer condition increment body).Respells ρ s) :
    ∃ initializer' condition' increment' body',
      Option.Rel (Stmt.Respells ρ) initializer initializer' ∧
      Option.Rel (Expr.Respells ρ) condition condition' ∧
      Option.Rel (Expr.Respells ρ) increment increment' ∧ body.Respells ρ body' ∧
      s = Stmt.forLoop initializer' condition' increment' body' := by
  cases initializer with
  | none =>
    obtain ⟨condition', increment', body', hc, hn, hb, rfl⟩ := respells_loop h
    exact ⟨none, condition', increment', body', .none, hc, hn, hb, rfl⟩
  | some first =>
    cases h with
    | block h =>
      cases h with
      | cons hfirst h =>
        cases h with
        | cons hloop hnil =>
          cases hnil
          obtain ⟨condition', increment', body', hc, hn, hb, rfl⟩ := respells_loop hloop
          exact ⟨some _, condition', increment', body', .some hfirst, hc, hn, hb, rfl⟩

mutual

theorem Declarations.respell {rule : ElseRule} {ts : List Token} {ss ss' : List (Stmt Unit)} :
    Declarations rule ts ss → Stmt.RespellsAll ρ ss ss' →
      ∃ ts', List.Forall₂ (Token.Respells ρ) ts ts' ∧ Declarations rule ts' ss'
  | .nil, h => by
    cases h
    exact ⟨[], .nil, .nil⟩
  | .cons hs hss, h => by
    cases h with
    | cons h hrest =>
      obtain ⟨ts', hts, hs'⟩ := hs.respell h
      obtain ⟨us', hus, hss'⟩ := hss.respell hrest
      exact ⟨_, List.rel_append hts hus, .cons hs' hss'⟩

theorem Declaration.respell {rule : ElseRule} {ts : List Token} {s s' : Stmt Unit} :
    Declaration rule ts s → s.Respells ρ s' →
      ∃ ts', List.Forall₂ (Token.Respells ρ) ts ts' ∧ Declaration rule ts' s'
  | .class ht hx hs hl hm hr, h => by
    cases h with
    | «class» _ hsuper hmethods =>
      obtain ⟨ts', hts, hs'⟩ := Optional.respell (fun h hr => h.respell hr) hs hsuper
      obtain ⟨us', hus, hm'⟩ := hm.respell hmethods
      refine ⟨_, .cons (.same _) (.cons (.same _) ?_), .class ht hx hs' hl hm' hr⟩
      exact List.rel_append hts (.cons (.same _) (List.rel_append hus (.cons (.same _) .nil)))
  | .function ht hf, h => by
    cases h with
    | function h =>
      obtain ⟨ts', hts, hf'⟩ := hf.respell h
      exact ⟨_, .cons (.same _) hts, .function ht hf'⟩
  | .var ht hs, h => by
    obtain ⟨ts', hts, hs'⟩ := hs.respell h
    exact ⟨_, .cons (.same _) hts, .var ht hs'⟩
  | .statement hs, h => by
    obtain ⟨ts', hts, hs'⟩ := hs.respell h
    exact ⟨ts', hts, .statement hs'⟩

theorem Function.respell {rule : ElseRule} {ts : List Token} {f f' : FunDecl Unit} :
    Function rule ts f → f.Respells ρ f' →
      ∃ ts', List.Forall₂ (Token.Respells ρ) ts ts' ∧ Function rule ts' f'
  | .mk hx hl hp hr hb, h => by
    cases h with
    | mk _ hparams hbody =>
      obtain ⟨ts', hts, hp'⟩ := hp.respell hparams
      obtain ⟨us', hus, hb'⟩ := hb.respell hbody
      refine ⟨_, .cons (.same _) (.cons (.same _) ?_), .mk hx hl hp' hr hb'⟩
      exact List.rel_append hts (.cons (.same _) hus)

theorem Methods.respell {rule : ElseRule} {ts : List Token} {fs fs' : List (FunDecl Unit)} :
    Methods rule ts fs → FunDecl.RespellsAll ρ fs fs' →
      ∃ ts', List.Forall₂ (Token.Respells ρ) ts ts' ∧ Methods rule ts' fs'
  | .nil, h => by
    cases h
    exact ⟨[], .nil, .nil⟩
  | .cons hf hfs, h => by
    cases h with
    | cons h hrest =>
      obtain ⟨ts', hts, hf'⟩ := hf.respell h
      obtain ⟨us', hus, hfs'⟩ := hfs.respell hrest
      exact ⟨_, List.rel_append hts hus, .cons hf' hfs'⟩

theorem Block.respell {rule : ElseRule} {ts : List Token} {body body' : List (Stmt Unit)} :
    Block rule ts body → Stmt.RespellsAll ρ body body' →
      ∃ ts', List.Forall₂ (Token.Respells ρ) ts ts' ∧ Block rule ts' body'
  | .mk hl hb hr, h => by
    obtain ⟨ts', hts, hb'⟩ := hb.respell h
    refine ⟨_, .cons (.same _) ?_, .mk hl hb' hr⟩
    exact List.rel_append hts (.cons (.same _) .nil)

theorem Statement.respell {rule : ElseRule} {isOpen : Bool} {ts : List Token}
    {s s' : Stmt Unit} : Statement rule isOpen ts s → s.Respells ρ s' →
      ∃ ts', List.Forall₂ (Token.Respells ρ) ts ts' ∧ Statement rule isOpen ts' s'
  | .expression hs, h => by
    obtain ⟨ts', hts, hs'⟩ := hs.respell h
    exact ⟨ts', hts, .expression hs'⟩
  | .print ht he hs, h => by
    cases h with
    | print h =>
      obtain ⟨ts', hts, he'⟩ := he.respell h
      refine ⟨_, .cons (.same _) ?_, .print ht he' hs⟩
      exact List.rel_append hts (.cons (.same _) .nil)
  | .return ht hv hs, h => by
    cases h with
    | «return» _ hvalue =>
      obtain ⟨ts', hts, hv'⟩ := Optional.respell (fun h hr => h.respell hr) hv hvalue
      refine ⟨_, .cons (.same _) ?_, .return ht hv' hs⟩
      exact List.rel_append hts (.cons (.same _) .nil)
  | .block hb, h => by
    cases h with
    | block h =>
      obtain ⟨ts', hts, hb'⟩ := hb.respell h
      exact ⟨ts', hts, .block hb'⟩
  | .while ht hl hc hr hb, h => by
    cases h with
    | «while» hcondition hbody =>
      obtain ⟨ts', hts, hc'⟩ := hc.respell hcondition
      obtain ⟨us', hus, hb'⟩ := hb.respell hbody
      refine ⟨_, .cons (.same _) (.cons (.same _) ?_), .while ht hl hc' hr hb'⟩
      exact List.rel_append hts (.cons (.same _) hus)
  | .for ht hl hi hc hs hn hr hb, h => by
    obtain ⟨_, _, _, _, hinit, hcondition, hincrement, hbody, rfl⟩ := respells_forLoop h
    obtain ⟨ts', hts, hi'⟩ := hi.respell hinit
    obtain ⟨us', hus, hc'⟩ := Optional.respell (fun h hr => h.respell hr) hc hcondition
    obtain ⟨vs', hvs, hn'⟩ := Optional.respell (fun h hr => h.respell hr) hn hincrement
    obtain ⟨ws', hws, hb'⟩ := hb.respell hbody
    refine ⟨_, .cons (.same _) (.cons (.same _) ?_), .for ht hl hi' hc' hs hn' hr hb'⟩
    refine List.rel_append hts (List.rel_append hus (.cons (.same _) ?_))
    exact List.rel_append hvs (.cons (.same _) hws)
  | .ifThen ht hl hc hr hb, h => by
    cases h with
    | ifThen hcondition hbranch =>
      obtain ⟨ts', hts, hc'⟩ := hc.respell hcondition
      obtain ⟨us', hus, hb'⟩ := hb.respell hbranch
      refine ⟨_, .cons (.same _) (.cons (.same _) ?_), .ifThen ht hl hc' hr hb'⟩
      exact List.rel_append hts (.cons (.same _) hus)
  | .ifElse ht hl hc hr hb ho hw hd, h => by
    cases h with
    | ifElse hcondition hbranch helse =>
      obtain ⟨ts', hts, hc'⟩ := hc.respell hcondition
      obtain ⟨us', hus, hb'⟩ := hb.respell hbranch
      obtain ⟨vs', hvs, hd'⟩ := hd.respell helse
      refine ⟨_, .cons (.same _) (.cons (.same _) ?_), .ifElse ht hl hc' hr hb' ho hw hd'⟩
      refine List.rel_append hts (.cons (.same _) ?_)
      exact List.rel_append hus (.cons (.same _) hvs)

end

end Grammar

/-! ## Programs -/

/-- A respelled program is read from respelled tokens. -/
theorem exists_parse_of_respellsAll {ts : List Token} (h : (parse ts).errors = [])
    {ss : List (Stmt Unit)} (hr : Stmt.RespellsAll ρ (parse ts).statements ss) :
    ∃ ts', List.Forall₂ (Token.Respells ρ) (TokenSequence.ofTokens ts).tokens ts' ∧
      ∀ us, (TokenSequence.ofTokens us).tokens = ts' →
        (parse us).errors = [] ∧ (parse us).statements = ss := by
  obtain ⟨ss₀, hd⟩ := (declarations_of_parse h).nearest
  rw [← (parse_of_declarations hd).2] at hr
  obtain ⟨ts', hts, hd'⟩ := hd.respell hr
  refine ⟨ts', hts, fun us hus => ?_⟩
  rw [← hus] at hd'
  have hp := parse_of_declarations hd'
  exact ⟨hp.1, hp.2.symm⟩

end

end Lox
