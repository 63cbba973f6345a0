import Lox.Proofs.Syntax.Grammar
import Lox.Proofs.Syntax.Scripts

/-!
# The parser reads what is in the grammar

`Rule.Gives r input a rest` says: on `input`, reading by the rule `r` takes all but `rest`, answers `a`
and notes nothing, unless its depth is used up. `Script.Gives` says the same of a script.

A phrase is read whole only if what follows cannot belong to it (`Stops`). For a repetition there is
nothing to ask: what is given after the phrase is given from the start of the phrase (`Calls.gives`).
The proofs follow the derivation.

* `Expression.gives`, `Statement.gives`: every derivation by the rule `nearest` is found;
* `Declarations.gives_program`: so is every program;
* `Declarations.program_append`: it is also read in front of other tokens, and nothing is remembered of
  it.
-/

namespace Lox

open Grammar

/-! ## What follows a phrase -/

/-- The next token, if there is one, is none of these kinds. -/
def Stops (kinds : List Kind) (ts : List Token) : Prop := ∀ t ∈ ts.head?, t.kind ∉ kinds

theorem stops_nil (kinds : List Kind) : Stops kinds [] := nofun

theorem stops_cons {kinds : List Kind} {t : Token} {ts : List Token} :
    Stops kinds (t :: ts) ↔ t.kind ∉ kinds := by
  simp [Stops]

theorem Stops.mono {kinds kinds' : List Kind} {ts : List Token} (h : Stops kinds ts)
    (hk : ∀ k ∈ kinds', k ∈ kinds) : Stops kinds' ts :=
  fun t ht hm => h t ht (hk _ hm)

/-- What would go on with an expression whose operators are of these levels. -/
def continuing (levels : List Level) : List Kind :=
  [.symbol .leftParen, .symbol .dot] ++ levels.flatMap Level.operators

theorem continuing_subset_cons (level : Level) (levels : List Level) :
    ∀ k ∈ continuing levels, k ∈ continuing (level :: levels) := by
  intro k hk
  simp only [continuing, List.mem_append, List.flatMap_cons] at hk ⊢
  rcases hk with hk | hk
  · exact .inl hk
  · exact .inr (.inr hk)

theorem operators_subset_continuing (level : Level) (levels : List Level) :
    ∀ k ∈ level.operators, k ∈ continuing (level :: levels) := by
  intro k hk
  simp only [continuing, List.mem_append, List.flatMap_cons]
  exact .inr (.inl hk)

/-- An operator belongs to one level. -/
theorem Level.eq_of_mem_operators {a b : Level} : ∀ k ∈ a.operators, k ∈ b.operators → a = b := by
  cases a <;> cases b <;> simp [Level.operators]

theorem Level.not_mem_continuing {level : Level} {levels : List Level} (hl : level ∉ levels)
    {k : Kind} (hk : k ∈ level.operators) : k ∉ continuing levels := by
  have hs : k ∉ ([.symbol .leftParen, .symbol .dot] : List Kind) := by
    revert k
    cases level <;> simp [Level.operators]
  intro hm
  rcases List.mem_append.mp hm with hm | hm
  · exact hs hm
  · obtain ⟨other, ho, hm⟩ := List.mem_flatMap.mp hm
    rw [Level.eq_of_mem_operators k hk hm] at hl
    exact hl ho

/-- No expression goes on here. -/
def EndsExpression (ts : List Token) : Prop := Stops (.symbol .equal :: continuing Level.all) ts

theorem endsExpression_cons {t : Token} {ts : List Token}
    (h : t.kind ∈ ([.symbol .semicolon, .symbol .rightParen, .symbol .comma] : List Kind)) :
    EndsExpression (t :: ts) := by
  refine stops_cons.mpr ?_
  simp only [List.mem_cons, List.not_mem_nil, or_false] at h
  rcases h with h | h | h <;> simp [h, continuing, Level.all, Level.operators]

/-- Kinds with which an expression begins. -/
def Kind.OpensExpression : Kind → Prop
  | .number _ | .string _ | .identifier => True
  | .keyword .false | .keyword .true | .keyword .nil | .keyword .this | .keyword .super => True
  | .symbol .leftParen | .symbol .bang | .symbol .minus => True
  | _ => False

theorem stops_of_opensExpression {kinds : List Kind} {t : Token} {ts : List Token}
    (h : t.kind.OpensExpression) (hk : ∀ k ∈ kinds, ¬k.OpensExpression) : Stops kinds (t :: ts) :=
  stops_cons.mpr fun hm => hk _ hm h

namespace Grammar

theorem Primary.opens {ts : List Token} {e : Expr Unit} (h : Primary ts e) :
    ∃ t us, ts = t :: us ∧ t.kind.OpensExpression ∧ t.kind ∉ prefixOperators := by
  cases h
  case super ht _ _ => exact ⟨_, _, rfl, by simp [ht, Kind.OpensExpression, prefixOperators]⟩
  case group hl _ _ => exact ⟨_, _, rfl, by simp [hl, Kind.OpensExpression, prefixOperators]⟩
  all_goals
    next h => exact ⟨_, _, rfl, by simp [h, Kind.OpensExpression, prefixOperators]⟩

theorem Call.opens {ts : List Token} {e : Expr Unit} (h : Call ts e) :
    ∃ t us, ts = t :: us ∧ t.kind.OpensExpression := by
  cases h with
  | mk hc hs =>
    obtain ⟨t, us, rfl, ht, -⟩ := hc.opens
    exact ⟨t, _, rfl, ht⟩

theorem Unary.opens {ts : List Token} {e : Expr Unit} (h : Unary ts e) :
    ∃ t us, ts = t :: us ∧ t.kind.OpensExpression := by
  cases h with
  | operator hk hr =>
    refine ⟨_, _, rfl, ?_⟩
    simp only [prefixOperators, List.mem_cons, List.not_mem_nil, or_false] at hk
    rcases hk with hk | hk <;> simp [hk, Kind.OpensExpression]
  | call h => exact h.opens

theorem Binary.opens {levels : List Level} {ts : List Token} {e : Expr Unit} :
    Binary levels ts e → ∃ t us, ts = t :: us ∧ t.kind.OpensExpression
  | .unary h => h.opens
  | .level hl _ => by
    obtain ⟨t, us, rfl, ht⟩ := hl.opens
    exact ⟨t, _, rfl, ht⟩

theorem Expression.opens {ts : List Token} {e : Expr Unit} (h : Expression ts e) :
    ∃ t us, ts = t :: us ∧ t.kind.OpensExpression := by
  cases h with
  | assign hx he hv => exact ⟨_, _, rfl, by simp [hx, Kind.OpensExpression]⟩
  | set ho hd hx he hv =>
    obtain ⟨t, us, rfl, ht⟩ := ho.opens
    exact ⟨t, _, rfl, ht⟩
  | binary h => exact h.opens

/-- Of the kinds with which no expression begins, none stands before an expression. -/
theorem Expression.stops {ts rest : List Token} {e : Expr Unit} {kinds : List Kind}
    (h : Expression ts e) (hk : ∀ k ∈ kinds, ¬k.OpensExpression) : Stops kinds (ts ++ rest) := by
  obtain ⟨t, us, rfl, ht⟩ := h.opens
  exact stops_of_opensExpression ht hk

theorem Arguments.stops {ts rest : List Token} {es : List (Expr Unit)} {kinds : List Kind}
    (h : Arguments ts es) (hk : ∀ k ∈ kinds, ¬k.OpensExpression) : Stops kinds (ts ++ rest) := by
  cases h with
  | one he => exact he.stops hk
  | cons he _ _ =>
    rw [List.append_assoc]
    exact he.stops hk

theorem Operands.stops {level : Level} {levels : List Level} {left e : Expr Unit}
    {us rest : List Token} (h : Operands level levels left us e) (hl : level ∉ levels)
    (hr : Stops (continuing (level :: levels)) rest) : Stops (continuing levels) (us ++ rest) := by
  cases h with
  | nil => exact hr.mono (continuing_subset_cons level levels)
  | cons hk _ _ => exact stops_cons.mpr (Level.not_mem_continuing hl hk)

end Grammar

section

variable {α β : Type} {input mid rest : List Token} {a : α} {b : β}

/-- The answer of the rule is `a`, without errors, and `rest` is left, unless the depth is used up. -/
def Rule.Gives (r : Rule Unit α) (input : List Token) (a : α) (rest : List Token) : Prop :=
  r.Replies input (.ok a rest [])

/-- The answer of the script is `a`, without errors, and `rest` is left, unless the depth is used
up. -/
def Script.Gives (s : Script Unit α) (input : List Token) (a : α) (rest : List Token) : Prop :=
  s.Replies input (.ok a rest [])

namespace Script

variable {s : Script Unit α} {f : α → Script Unit β}

theorem Gives.bind (hs : s.Gives input a mid) (hf : (f a).Gives mid b rest) :
    (s >>= f).Gives input b rest :=
  Replies.bind hs hf

theorem gives_pure (a : α) (rest : List Token) : (pure a : Script Unit α).Gives rest a rest :=
  replies_pure a rest

theorem Gives.map {g : α → β} (hs : s.Gives input a rest) : (g <$> s).Gives input (g a) rest :=
  hs.bind (gives_pure (g a) rest)

end Script

namespace Rule

variable {r : Rule Unit α} {s : Script Unit α} {f : α → Script Unit β}

theorem gives_of_plain (hr : r.phrase = .plain s) (h : s.Gives input a rest) : r.Gives input a rest :=
  replies_of_plain hr h

theorem Gives.script (h : r.Gives input a rest) : (Script.rule r).Gives input a rest :=
  Script.replies_rule h

theorem Gives.bind (h : r.Gives input a mid) (hf : (f a).Gives mid b rest) :
    (Script.rule r >>= f).Gives input b rest :=
  h.script.bind hf

end Rule

/-! ## Steps -/

namespace Script

variable {s : Script Unit α}

theorem gives_fresh (ts : List Token) : (fresh : Script Unit Unit).Gives ts () ts := fun _ => .inr rfl

theorem gives_atEnd (ts : List Token) : atEnd.Gives ts ts.isEmpty ts := fun _ => .inr rfl

theorem gives_nextIs_true {kind : Kind} {t : Token} (h : t.kind = kind) (hp : kind.IsPlain) :
    (nextIs kind).Gives (t :: rest) true (t :: rest) := by
  have hs : t.kind.sameAs kind = true := (Kind.sameAs_iff_eq hp).mpr h
  have hn : Parse.nextIs kind (t :: rest) = .ok true (t :: rest) [] := by simp [Parse.nextIs, hs]
  exact replies_step hn

theorem gives_nextIs_false {kind : Kind} (h : Stops [kind] rest) (hp : kind.IsPlain) :
    (nextIs kind).Gives rest false rest := by
  refine replies_step (?_ : Parse.nextIs kind rest = _)
  cases rest with
  | nil => rfl
  | cons t rest =>
    have hs : ¬t.kind.sameAs kind = true := fun hs =>
      stops_cons.mp h (List.mem_singleton.mpr ((Kind.sameAs_iff_eq hp).mp hs))
    simp [Parse.nextIs, hs]

theorem gives_take {kinds : List Kind} {t : Token} (h : kinds.any t.kind.sameAs = true) :
    (acceptAny kinds).Gives (t :: rest) (some t) rest :=
  replies_step (if_pos h)

theorem gives_acceptAny_some {kinds : List Kind} {t : Token} (h : t.kind ∈ kinds)
    (hp : ∀ k ∈ kinds, k.IsPlain) : (acceptAny kinds).Gives (t :: rest) (some t) rest :=
  gives_take ((Kind.any_sameAs_iff_mem hp).mpr h)

theorem gives_acceptAny_none {kinds : List Kind} (h : Stops kinds rest)
    (hp : ∀ k ∈ kinds, k.IsPlain) : (acceptAny kinds).Gives rest none rest := by
  refine replies_step (?_ : Parse.acceptAny kinds rest = _)
  cases rest with
  | nil => rfl
  | cons t rest => exact if_neg fun hm => stops_cons.mp h ((Kind.any_sameAs_iff_mem hp).mp hm)

theorem gives_accept_some {kind : Kind} {t : Token} (h : t.kind = kind) (hp : kind.IsPlain) :
    (accept kind).Gives (t :: rest) (some t) rest :=
  gives_acceptAny_some (List.mem_singleton.mpr h) (List.forall_mem_singleton.mpr hp)

theorem gives_accept_none {kind : Kind} (h : Stops [kind] rest) (hp : kind.IsPlain) :
    (accept kind).Gives rest none rest :=
  gives_acceptAny_none h (List.forall_mem_singleton.mpr hp)

theorem gives_expect {kind : Kind} {fault : SyntaxFault} {t : Token} (h : t.kind = kind)
    (hp : kind.IsPlain) : (expect kind fault).Gives (t :: rest) t rest :=
  (gives_accept_some h hp).bind (gives_pure t rest)

theorem gives_symbol {s : Symbol} {place : Place} {t : Token} (h : t.kind = .symbol s) :
    (symbol s place).Gives (t :: rest) t rest :=
  gives_expect h trivial

theorem gives_name {role : NameRole} {x : Token} (h : x.kind = .identifier) :
    (name role).Gives (x :: rest) x.toName rest :=
  (gives_expect h trivial).bind (gives_pure x.toName rest)

theorem gives_optionally_some {kind : Kind} {t : Token} (h : t.kind = kind) (hp : kind.IsPlain)
    (hs : s.Gives input a rest) : (optionally kind s).Gives (t :: input) (some a) rest :=
  (gives_accept_some h hp).bind hs.map

theorem gives_optionally_none {kind : Kind} (h : Stops [kind] rest) (hp : kind.IsPlain) :
    (optionally kind s).Gives rest none rest :=
  (gives_accept_none h hp).bind (gives_pure none rest)

theorem gives_unlessNext_absent {symbol : Symbol} {absent : α} {t : Token}
    (h : t.kind = .symbol symbol) :
    (unlessNext symbol absent s).Gives (t :: rest) absent (t :: rest) :=
  (gives_nextIs_true h trivial).bind (gives_pure absent (t :: rest))

theorem gives_unlessNext_other {symbol : Symbol} {absent : α} (h : Stops [.symbol symbol] input)
    (hs : s.Gives input a rest) : (unlessNext symbol absent s).Gives input a rest :=
  (gives_nextIs_false h trivial).bind hs

theorem gives_unlessClosed_absent {absent : α} {right : Token}
    (h : right.kind = .symbol .rightBrace) :
    (unlessClosed absent s).Gives (right :: rest) absent (right :: rest) :=
  (gives_nextIs_true h trivial).bind ((gives_atEnd _).bind (gives_pure absent (right :: rest)))

theorem gives_unlessClosed_other {absent : α} (h : Stops [.symbol .rightBrace] input)
    (hne : input ≠ []) (hs : s.Gives input a rest) : (unlessClosed absent s).Gives input a rest := by
  refine (gives_nextIs_false h trivial).bind ((gives_atEnd input).bind ?_)
  rw [List.isEmpty_eq_false_iff.mpr hne]
  exact hs

variable {count : Nat} {role : ListRole} {others : Rule Unit (List α)}

theorem gives_checkCount (hc : count < maxArity) : (checkCount count role).Gives rest () rest := by
  rw [checkCount, if_neg (Nat.not_le.mpr hc)]
  exact gives_pure () rest

theorem gives_list_one (hc : count < maxArity) (hs : s.Gives input a rest)
    (hr : Stops [.symbol .comma] rest) : (list count role s others).Gives input [a] rest :=
  (gives_checkCount hc).bind (hs.bind ((gives_accept_none hr trivial).bind (gives_pure [a] rest)))

theorem gives_list_cons {comma : Token} {as : List α} (hc : count < maxArity)
    (hs : s.Gives input a (comma :: mid)) (hk : comma.kind = .symbol .comma)
    (ho : others.Gives mid as rest) : (list count role s others).Gives input (a :: as) rest :=
  (gives_checkCount hc).bind (hs.bind ((gives_accept_some hk trivial).bind
    (ho.bind (gives_pure (a :: as) rest))))

end Script

end

/-! ## Phrases that end -/

section

open Script

variable {input mid rest : List Token} {v : Expr Unit}

theorem gives_calls_stop {callee : Expr Unit} (h : Stops (continuing []) rest) :
    (Rule.calls callee).Gives rest callee rest := by
  have hl : Stops [.symbol .leftParen] rest := h.mono (by simp [continuing])
  have hd : Stops [.symbol .dot] rest := h.mono (by simp [continuing])
  exact Rule.gives_of_plain rfl ((gives_accept_none hl trivial).bind
    ((gives_accept_none hd trivial).bind (gives_pure callee rest)))

theorem gives_calls_property {callee : Expr Unit} {dot x : Token} (hd : dot.kind = .symbol .dot)
    (hx : x.kind = .identifier) (h : (Rule.calls (.get callee x.toName)).Gives mid v rest) :
    (Rule.calls callee).Gives (dot :: x :: mid) v rest := by
  have hl : Stops [.symbol .leftParen] (dot :: x :: mid) := stops_cons.mpr (by simp [hd])
  exact Rule.gives_of_plain rfl ((gives_accept_none hl trivial).bind
    ((gives_accept_some hd trivial).bind ((gives_name hx).bind h.script)))

theorem gives_primary_variable {x : Token} (hx : x.kind = .identifier) :
    Rule.primary.Gives (x :: rest) (.variable () x.toName) rest := by
  refine Rule.gives_of_plain rfl ((gives_take (by rw [hx]; rfl)).bind ?_)
  simp only [hx]
  exact gives_pure (Expr.variable () x.toName) rest

theorem gives_unary_of_primary {callee : Expr Unit} (hs : Stops prefixOperators input)
    (hp : Rule.primary.Gives input callee mid) (hc : (Rule.calls callee).Gives mid v rest) :
    Rule.unary.Gives input v rest :=
  Rule.gives_of_plain rfl ((gives_acceptAny_none hs isPlain_prefixOperators).bind
    (hp.bind hc.script))

theorem gives_operands_stop {level : Level} {levels : List Level} {left : Expr Unit}
    (h : Stops (continuing (level :: levels)) rest) :
    (Rule.operands level levels left).Gives rest left rest := by
  have hs : Stops level.operators rest := h.mono (operators_subset_continuing level levels)
  exact Rule.gives_of_plain rfl ((gives_acceptAny_none hs level.isPlain_operators).bind
    (gives_pure left rest))

theorem gives_binary_of_unary {levels : List Level} (h : Stops (continuing levels) rest)
    (hu : Rule.unary.Gives input v rest) : (Rule.binary levels).Gives input v rest := by
  induction levels with
  | nil => exact Rule.gives_of_plain rfl hu.script
  | cons level levels ih =>
    have hs : Stops (continuing levels) rest := h.mono (continuing_subset_cons level levels)
    exact Rule.gives_of_plain rfl ((ih hs).bind (gives_operands_stop h).script)

/-- An assignment, from what stands to its left. -/
theorem gives_assignment {equals : Token} {target value e : Expr Unit}
    (he : equals.kind = .symbol .equal) (hu : Rule.unary.Gives input target (equals :: mid))
    (hv : Rule.expression.Gives mid value rest)
    (ha : (assignment target equals value).Gives rest e rest) : Rule.expression.Gives input e rest := by
  have hs : Stops (continuing Level.all) (equals :: mid) :=
    stops_cons.mpr (by simp [he, continuing, Level.all, Level.operators])
  exact Rule.gives_of_plain rfl ((gives_binary_of_unary hs hu).bind
    ((gives_accept_some he trivial).bind (hv.bind ha)))

end

/-! ## Expressions -/

namespace Grammar

open Script

mutual

theorem Expression.gives {ts : List Token} {e : Expr Unit} : Expression ts e →
    ∀ {rest : List Token}, EndsExpression rest → Rule.expression.Gives (ts ++ rest) e rest
  | @Expression.assign x equals _ value hx he hv, rest, hr => by
    have ha : (assignment (.variable () x.toName) equals value).Gives rest
        (.assign () x.toName value) rest := (gives_fresh rest).bind (gives_pure _ rest)
    refine gives_assignment he ?_ (hv.gives hr) ha
    refine gives_unary_of_primary ?_ (gives_primary_variable hx) ?_
    · exact stops_cons.mpr (by simp [hx, prefixOperators])
    · exact gives_calls_stop (stops_cons.mpr (by simp [he, continuing]))
  | @Expression.set _ _ _ x equals object value ho hd hx he hv, rest, hr => by
    have ha : (assignment (.get object x.toName) equals value).Gives rest
        (.set object x.toName value) rest := gives_pure _ rest
    rw [List.append_assoc]
    refine gives_assignment he (ho.gives (gives_calls_property hd hx ?_)) (hv.gives hr) ha
    exact gives_calls_stop (stops_cons.mpr (by simp [he, continuing]))
  | .binary h, rest, hr => by
    have hb : Stops (continuing Level.all) rest := hr.mono fun k hk => List.mem_cons_of_mem _ hk
    have hq : Stops [.symbol .equal] rest := hr.mono (by simp)
    exact Rule.gives_of_plain rfl ((h.gives (by decide) hb).bind
      ((gives_accept_none hq trivial).bind (gives_pure e rest)))

theorem Binary.gives {levels : List Level} {ts : List Token} {e : Expr Unit} :
    Binary levels ts e → levels.Nodup → ∀ {rest : List Token}, Stops (continuing levels) rest →
      (Rule.binary levels).Gives (ts ++ rest) e rest
  | .unary h, _, rest, hr => gives_binary_of_unary hr (h.gives hr)
  | .level hl ho, hd, rest, hr => by
    have hn := List.nodup_cons.mp hd
    rw [List.append_assoc]
    exact Rule.gives_of_plain rfl ((hl.gives hn.2 (ho.stops hn.1 hr)).bind (ho.gives hd hr).script)

theorem Operands.gives {level : Level} {levels : List Level} {left e : Expr Unit}
    {ts : List Token} : Operands level levels left ts e → (level :: levels).Nodup →
      ∀ {rest : List Token}, Stops (continuing (level :: levels)) rest →
        (Rule.operands level levels left).Gives (ts ++ rest) e rest
  | .nil, _, rest, hr => gives_operands_stop hr
  | .cons hk hb ho, hd, rest, hr => by
    have hn := List.nodup_cons.mp hd
    rw [List.cons_append, List.append_assoc]
    exact Rule.gives_of_plain rfl ((gives_acceptAny_some hk level.isPlain_operators).bind
      ((hb.gives hn.2 (ho.stops hn.1 hr)).bind (ho.gives hd hr).script))

theorem Unary.gives {ts : List Token} {e : Expr Unit} : Unary ts e →
    ∀ {rest : List Token}, Stops (continuing []) rest → Rule.unary.Gives (ts ++ rest) e rest
  | .operator hk hu, rest, hr =>
    Rule.gives_of_plain rfl ((gives_acceptAny_some hk isPlain_prefixOperators).bind
      ((hu.gives hr).bind (gives_pure _ rest)))
  | .call h, rest, hr => h.gives (gives_calls_stop hr)

/-- What is given after a callee is given from its start. -/
theorem Call.gives {ts : List Token} {e : Expr Unit} : Call ts e →
    ∀ {mid rest : List Token} {v : Expr Unit}, (Rule.calls e).Gives mid v rest →
      Rule.unary.Gives (ts ++ mid) v rest
  | .mk hc hs, mid, rest, v, hv => by
    rw [List.append_assoc]
    refine gives_unary_of_primary ?_ hc.gives (hs.gives hv)
    obtain ⟨t, us, rfl, -, ht⟩ := hc.opens
    exact stops_cons.mpr ht

theorem Calls.gives {callee e : Expr Unit} {ts : List Token} : Calls callee ts e →
    ∀ {mid rest : List Token} {v : Expr Unit}, (Rule.calls e).Gives mid v rest →
      (Rule.calls callee).Gives (ts ++ mid) v rest
  | .nil, mid, rest, v, hv => hv
  | .invoke hl hr hs, mid, rest, v, hv =>
    Rule.gives_of_plain rfl ((gives_accept_some hl trivial).bind
      ((gives_unlessNext_absent hr).bind ((gives_symbol hr).bind (hs.gives hv).script)))
  | .invokeWith hl ha hm hr hs, mid, rest, v, hv => by
    rw [List.cons_append, List.append_assoc]
    refine Rule.gives_of_plain rfl ((gives_accept_some hl trivial).bind
      ((gives_unlessNext_other ?_ (ha.gives (by omega) hr).script).bind
        ((gives_symbol hr).bind (hs.gives hv).script)))
    exact ha.stops (by simp [Kind.OpensExpression])
  | .property hd hx hs, mid, rest, v, hv => gives_calls_property hd hx (hs.gives hv)

theorem Arguments.gives {ts : List Token} {es : List (Expr Unit)} : Arguments ts es →
    ∀ {count : Nat} {right : Token} {rest : List Token}, count + es.length ≤ maxArity →
      right.kind = .symbol .rightParen →
      (Rule.arguments count).Gives (ts ++ right :: rest) es (right :: rest)
  | .one he, count, right, rest, hc, hr => by
    have hk : Stops [.symbol .comma] (right :: rest) := stops_cons.mpr (by simp [hr])
    exact Rule.gives_of_plain rfl
      (gives_list_one hc (he.gives (endsExpression_cons (by simp [hr]))).script hk)
  | .cons he hk hs, count, right, rest, hc, hr => by
    rw [List.length_cons] at hc
    rw [List.append_assoc]
    exact Rule.gives_of_plain rfl (gives_list_cons (by omega)
      (he.gives (endsExpression_cons (by simp [hk]))).script hk (hs.gives (by omega) hr))

theorem Primary.gives {ts : List Token} {e : Expr Unit} : Primary ts e →
    ∀ {rest : List Token}, Rule.primary.Gives (ts ++ rest) e rest
  | .group hl hi hr, rest => by
    rw [List.cons_append, List.append_assoc]
    refine Rule.gives_of_plain rfl ((gives_take (by rw [hl]; rfl)).bind ?_)
    simp only [hl]
    exact (hi.gives (endsExpression_cons (by simp [hr]))).bind
      ((gives_symbol hr).bind (gives_pure _ rest))
  | .super ht hd hx, rest => by
    refine Rule.gives_of_plain rfl ((gives_take (by rw [ht]; rfl)).bind ?_)
    simp only [ht]
    exact (gives_symbol hd).bind ((gives_name hx).bind ((gives_fresh rest).bind (gives_pure _ rest)))
  | .this h, rest => by
    refine Rule.gives_of_plain rfl ((gives_take (by rw [h]; rfl)).bind ?_)
    simp only [h]
    exact (gives_fresh rest).bind (gives_pure _ rest)
  | .variable h, rest => gives_primary_variable h
  | .false h, rest | .true h, rest | .nil h, rest | .number h, rest | .string h, rest => by
    refine Rule.gives_of_plain rfl ((gives_take (by rw [h]; rfl)).bind ?_)
    simp only [h]
    exact gives_pure _ rest

end

/-! ## Parts of statements -/

theorem Optional.gives {ts rest : List Token} {o : Option (Expr Unit)} {t : Token} {s : Symbol}
    (h : Optional Expression ts o) (hs : s = .semicolon ∨ s = .rightParen)
    (ht : t.kind = .symbol s) : (expressionUnless s).Gives (ts ++ t :: rest) o (t :: rest) := by
  cases h with
  | none => exact gives_unlessNext_absent ht
  | some he =>
    have hn : Stops [.symbol s] (ts ++ t :: rest) :=
      he.stops (by rcases hs with rfl | rfl <;> simp [Kind.OpensExpression])
    have hr : EndsExpression (t :: rest) :=
      endsExpression_cons (by rcases hs with rfl | rfl <;> simp [ht])
    exact gives_unlessNext_other hn (he.gives hr).script.map

theorem ExpressionStatement.gives {ts rest : List Token} {s : Stmt Unit}
    (h : ExpressionStatement ts s) : expressionStatement.Gives (ts ++ rest) s rest := by
  cases h with
  | mk he hs =>
    rw [List.append_assoc]
    exact (he.gives (endsExpression_cons (by simp [hs]))).bind
      ((gives_symbol hs).bind (gives_pure _ rest))

theorem Variable.gives {ts rest : List Token} {s : Stmt Unit} (h : Variable ts s) :
    varDeclaration.Gives (ts ++ rest) s rest := by
  cases h with
  | @mk x semicolon us initializer hx hi hs =>
    rw [List.cons_append, List.append_assoc]
    have hinitializer : (optionally (.symbol .equal) (rule .expression)).Gives
        (us ++ semicolon :: rest) initializer (semicolon :: rest) := by
      cases hi with
      | none => exact gives_optionally_none (stops_cons.mpr (by simp [hs])) trivial
      | some hi =>
        cases hi with
        | mk hq he =>
          exact gives_optionally_some hq trivial (he.gives (endsExpression_cons (by simp [hs]))).script
    exact (gives_name hx).bind (hinitializer.bind ((gives_symbol hs).bind (gives_pure _ rest)))

theorem Parameters.gives {ts rest : List Token} {params : List Name} {right : Token}
    (h : Parameters ts params) (hr : right.kind = .symbol .rightParen) {count : Nat}
    (hc : count + params.length ≤ maxArity) :
    (Rule.parameters count).Gives (ts ++ right :: rest) params (right :: rest) := by
  induction h generalizing count with
  | one hx =>
    have hk : Stops [.symbol .comma] (right :: rest) := stops_cons.mpr (by simp [hr])
    exact Rule.gives_of_plain rfl (gives_list_one hc (gives_name hx) hk)
  | cons hx hk _ ih =>
    rw [List.length_cons] at hc
    exact Rule.gives_of_plain rfl (gives_list_cons (by omega) (gives_name hx) hk (ih (by omega)))

theorem ExpressionStatement.stops {ts rest : List Token} {s : Stmt Unit} {kinds : List Kind}
    (h : ExpressionStatement ts s) (hk : ∀ k ∈ kinds, ¬k.OpensExpression) :
    Stops kinds (ts ++ rest) := by
  cases h with
  | mk he _ =>
    rw [List.append_assoc]
    exact he.stops hk

theorem ForInitializer.gives {ts rest : List Token} {o : Option (Stmt Unit)}
    (h : ForInitializer ts o) : forInitializer.Gives (ts ++ rest) o rest := by
  cases h with
  | none hs => exact (gives_accept_some hs trivial).bind (gives_pure _ rest)
  | @var t us s ht hs =>
    have hn : Stops [.symbol .semicolon] (t :: (us ++ rest)) := stops_cons.mpr (by simp [ht])
    exact (gives_accept_none hn trivial).bind ((gives_accept_some ht trivial).bind hs.gives.map)
  | expression hs =>
    have hn : Stops [.symbol .semicolon] (ts ++ rest) := hs.stops (by simp [Kind.OpensExpression])
    have hv : Stops [.keyword .var] (ts ++ rest) := hs.stops (by simp [Kind.OpensExpression])
    exact (gives_accept_none hn trivial).bind ((gives_accept_none hv trivial).bind hs.gives.map)

/-! ## Where a statement begins -/

/-- Kinds with which a statement cannot begin. -/
def notBeforeStatement : List Kind :=
  [.keyword .class, .keyword .fun, .keyword .var, .symbol .rightBrace, .keyword .else]

theorem Statement.stops {rule : ElseRule} {isOpen : Bool} {ts rest : List Token} {s : Stmt Unit}
    (h : Statement rule isOpen ts s) : Stops notBeforeStatement (ts ++ rest) := by
  cases h
  case expression hs => exact hs.stops (by simp [notBeforeStatement, Kind.OpensExpression])
  case block hb =>
    cases hb with
    | mk hl _ _ => exact stops_cons.mpr (by simp [hl, notBeforeStatement])
  all_goals exact stops_cons.mpr (by simp [*, notBeforeStatement])

theorem Declaration.stops {rule : ElseRule} {ts rest : List Token} {s : Stmt Unit}
    (h : Declaration rule ts s) :
    Stops [.symbol .rightBrace, .keyword .else] (ts ++ rest) := by
  cases h with
  | «class» ht => exact stops_cons.mpr (by simp [ht])
  | function ht => exact stops_cons.mpr (by simp [ht])
  | var ht => exact stops_cons.mpr (by simp [ht])
  | statement hs => exact hs.stops.mono (by simp [notBeforeStatement])

/-- After a declaration comes no `else`, if none comes after all of them. -/
theorem Declarations.stops_else {rule : ElseRule} {ts rest : List Token} {ss : List (Stmt Unit)}
    (h : Declarations rule ts ss) (he : Stops [.keyword .else] rest) :
    Stops [.keyword .else] (ts ++ rest) := by
  cases h with
  | nil => exact he
  | cons hs _ =>
    rw [List.append_assoc]
    exact hs.stops.mono (by simp)

theorem Statement.ne_nil {rule : ElseRule} {isOpen : Bool} {ts : List Token} {s : Stmt Unit}
    (h : Statement rule isOpen ts s) : ts ≠ [] := by
  cases h
  case expression hs => cases hs; simp
  case block hb => cases hb; simp
  all_goals simp

theorem Declaration.ne_nil {rule : ElseRule} {ts : List Token} {s : Stmt Unit}
    (h : Declaration rule ts s) : ts ≠ [] := by
  cases h
  case statement hs => exact hs.ne_nil
  all_goals simp

end Grammar

/-! ## Statements -/

section

open Grammar Script

variable {left right : Token} {ts input rest : List Token} {condition : Expr Unit}
variable {body : Stmt Unit}

theorem gives_whileStatement (hl : left.kind = .symbol .leftParen) (hc : Expression ts condition)
    (hr : right.kind = .symbol .rightParen) (hb : Rule.statement.Gives input body rest) :
    Rule.whileStatement.Gives (left :: (ts ++ right :: input)) (.while condition body) rest :=
  Rule.gives_of_plain rfl ((gives_symbol hl).bind
    ((hc.gives (endsExpression_cons (by simp [hr]))).bind
      ((gives_symbol hr).bind (hb.bind (gives_pure _ rest)))))

theorem gives_forStatement {semicolon : Token} {us vs : List Token} {initializer : Option (Stmt Unit)}
    {condition increment : Option (Expr Unit)} (hl : left.kind = .symbol .leftParen)
    (hi : ForInitializer ts initializer) (hc : Optional Expression us condition)
    (hs : semicolon.kind = .symbol .semicolon) (hn : Optional Expression vs increment)
    (hr : right.kind = .symbol .rightParen) (hb : Rule.statement.Gives input body rest) :
    Rule.forStatement.Gives (left :: (ts ++ (us ++ semicolon :: (vs ++ right :: input))))
      (Stmt.forLoop initializer condition increment body) rest :=
  Rule.gives_of_plain rfl ((gives_symbol hl).bind (hi.gives.bind ((hc.gives (.inl rfl) hs).bind
    ((gives_symbol hs).bind ((hn.gives (.inr rfl) hr).bind
      ((gives_symbol hr).bind (hb.bind (gives_pure _ rest))))))))

theorem gives_ifStatement {mid : List Token} {elseBranch : Option (Stmt Unit)}
    (hl : left.kind = .symbol .leftParen) (hc : Expression ts condition)
    (hr : right.kind = .symbol .rightParen) (hb : Rule.statement.Gives input body mid)
    (he : (optionally (.keyword .else) (rule .statement)).Gives mid elseBranch rest) :
    Rule.ifStatement.Gives (left :: (ts ++ right :: input)) (.ifElse condition body elseBranch)
      rest :=
  Rule.gives_of_plain rfl ((gives_symbol hl).bind
    ((hc.gives (endsExpression_cons (by simp [hr]))).bind
      ((gives_symbol hr).bind (hb.bind (he.bind (gives_pure _ rest))))))

theorem gives_function {role : FunctionRole} {x left right brace : Token} {params : List Name}
    {body : List (Stmt Unit)} (hx : x.kind = .identifier) (hl : left.kind = .symbol .leftParen)
    (hp : ParameterList ts params) (hr : right.kind = .symbol .rightParen)
    (hc : brace.kind = .symbol .leftBrace) (hb : Rule.block.Gives input body rest) :
    (Rule.function role).Gives (x :: left :: (ts ++ right :: brace :: input))
      (.mk x.toName params body) rest := by
  have hparams : (unlessNext .rightParen [] (rule (.parameters 0))).Gives
      (ts ++ right :: brace :: input) params (right :: brace :: input) := by
    cases hp with
    | nil => exact gives_unlessNext_absent hr
    | some hp hm =>
      have hn : Stops [.symbol .rightParen] (ts ++ right :: brace :: input) := by
        cases hp with
        | one hx => exact stops_cons.mpr (by simp [hx])
        | cons hx _ _ => exact stops_cons.mpr (by simp [hx])
      exact gives_unlessNext_other hn (hp.gives hr (by omega)).script
  exact Rule.gives_of_plain rfl ((gives_name hx).bind ((gives_symbol hl).bind (hparams.bind
    ((gives_symbol hr).bind ((gives_symbol hc).bind (hb.bind (gives_pure _ rest)))))))

theorem gives_classDeclaration {x left right : Token} {superclass : Option (Expr Unit)}
    {fs : List (FunDecl Unit)} (hx : x.kind = .identifier) (hs : Optional Superclass ts superclass)
    (hl : left.kind = .symbol .leftBrace) (hr : right.kind = .symbol .rightBrace)
    (hm : Rule.methods.Gives input fs (right :: rest)) :
    Rule.classDeclaration.Gives (x :: (ts ++ left :: input)) (.class x.toName superclass fs)
      rest := by
  have hsuperclass : (optionally (.symbol .less) Script.superclass).Gives (ts ++ left :: input)
      superclass (left :: input) := by
    cases hs with
    | none => exact gives_optionally_none (stops_cons.mpr (by simp [hl])) trivial
    | some hs =>
      cases hs with
      | mk hk hy =>
        exact gives_optionally_some hk trivial
          ((gives_name hy).bind ((gives_fresh _).bind (gives_pure _ _)))
  exact Rule.gives_of_plain rfl ((gives_name hx).bind (hsuperclass.bind
    ((gives_symbol hl).bind (hm.bind ((gives_symbol hr).bind (gives_pure _ rest))))))

end

namespace Grammar

open Script

mutual

theorem Declarations.gives {ts : List Token} {ss : List (Stmt Unit)} :
    Declarations .nearest ts ss → ∀ {right : Token} {rest : List Token},
      right.kind = .symbol .rightBrace →
      Rule.declarations.Gives (ts ++ right :: rest) ss (right :: rest)
  | .nil, right, rest, hr => Rule.gives_of_plain rfl (gives_unlessClosed_absent hr)
  | @Declarations.cons _ us vs s ss hs hss, right, rest, hr => by
    rw [List.append_assoc]
    have hb : Stops [.symbol .rightBrace] (us ++ (vs ++ right :: rest)) :=
      hs.stops.mono (by simp)
    have he : Stops [.keyword .else] (vs ++ right :: rest) :=
      hss.stops_else (stops_cons.mpr (by simp [hr]))
    exact Rule.gives_of_plain rfl (gives_unlessClosed_other hb (by simp)
      ((hs.gives he).bind ((hss.gives hr).bind (gives_pure _ (right :: rest)))))

theorem Declaration.gives {ts : List Token} {s : Stmt Unit} :
    Declaration .nearest ts s → ∀ {rest : List Token}, Stops [.keyword .else] rest →
      Rule.declaration.Gives (ts ++ rest) (some s) rest
  | .class ht hx hs hl hm hr, rest, he => by
    simp only [List.cons_append, List.append_assoc]
    refine Rule.declaration_of_ok
      ((gives_acceptAny_some (by simp [ht]) (by simp [Kind.IsPlain])).bind ?_)
    simp only [ht]
    exact (gives_classDeclaration hx hs hl hr (hm.gives hr)).script
  | .function ht hf, rest, he => by
    refine Rule.declaration_of_ok
      ((gives_acceptAny_some (by simp [ht]) (by simp [Kind.IsPlain])).bind ?_)
    simp only [ht]
    exact hf.gives.script.map
  | .var ht hs, rest, he => by
    refine Rule.declaration_of_ok
      ((gives_acceptAny_some (by simp [ht]) (by simp [Kind.IsPlain])).bind ?_)
    simp only [ht]
    exact hs.gives
  | .statement hs, rest, he => by
    have hn : Stops [.keyword .class, .keyword .fun, .keyword .var] (ts ++ rest) :=
      hs.stops.mono (by simp [notBeforeStatement])
    exact Rule.declaration_of_ok ((gives_acceptAny_none hn (by simp [Kind.IsPlain])).bind
      (hs.gives fun _ => he).script)

theorem Function.gives {ts : List Token} {f : FunDecl Unit} :
    Function .nearest ts f → ∀ {role : FunctionRole} {rest : List Token},
      (Rule.function role).Gives (ts ++ rest) f rest
  | .mk hx hl hp hr hb, role, rest => by
    obtain ⟨brace, us, rfl, hc, hb⟩ := hb.gives
    simp only [List.cons_append, List.append_assoc]
    exact gives_function hx hl hp hr hc hb

theorem Methods.gives {ts : List Token} {fs : List (FunDecl Unit)} :
    Methods .nearest ts fs → ∀ {right : Token} {rest : List Token},
      right.kind = .symbol .rightBrace →
      Rule.methods.Gives (ts ++ right :: rest) fs (right :: rest)
  | .nil, right, rest, hr => Rule.gives_of_plain rfl (gives_unlessClosed_absent hr)
  | @Methods.cons _ us vs f fs hf hfs, right, rest, hr => by
    rw [List.append_assoc]
    have hb : Stops [.symbol .rightBrace] (us ++ (vs ++ right :: rest)) := by
      cases hf with
      | mk hx _ _ _ _ => exact stops_cons.mpr (by simp [hx])
    exact Rule.gives_of_plain rfl (gives_unlessClosed_other hb (by simp)
      (hf.gives.bind ((hfs.gives hr).bind (gives_pure _ (right :: rest)))))

/-- A block is read after its opening brace. -/
theorem Block.gives {ts : List Token} {body : List (Stmt Unit)} :
    Block .nearest ts body → ∃ left us, ts = left :: us ∧ left.kind = .symbol .leftBrace ∧
      ∀ {rest : List Token}, Rule.block.Gives (us ++ rest) body rest
  | .mk hl hb hr => by
    refine ⟨_, _, rfl, hl, fun {rest} => ?_⟩
    rw [List.append_assoc]
    exact Rule.gives_of_plain rfl ((hb.gives hr).bind ((gives_symbol hr).bind (gives_pure _ rest)))

theorem Statement.gives {isOpen : Bool} {ts : List Token} {s : Stmt Unit} :
    Statement .nearest isOpen ts s → ∀ {rest : List Token},
      (isOpen = true → Stops [.keyword .else] rest) →
      Rule.statement.Gives (ts ++ rest) s rest
  | .expression hs, rest, he => by
    refine Rule.gives_of_plain rfl
      ((gives_acceptAny_none ?_ (by simp [Kind.IsPlain])).bind hs.gives)
    exact hs.stops (by simp [Kind.OpensExpression])
  | .print ht hp hs, rest, he => by
    rw [List.cons_append, List.append_assoc]
    refine Rule.gives_of_plain rfl
      ((gives_acceptAny_some (by simp [ht]) (by simp [Kind.IsPlain])).bind ?_)
    simp only [ht]
    exact (hp.gives (endsExpression_cons (by simp [hs]))).bind
      ((gives_symbol hs).bind (gives_pure _ rest))
  | .return ht hv hs, rest, he => by
    rw [List.cons_append, List.append_assoc]
    refine Rule.gives_of_plain rfl
      ((gives_acceptAny_some (by simp [ht]) (by simp [Kind.IsPlain])).bind ?_)
    simp only [ht]
    exact (hv.gives (.inl rfl) hs).bind ((gives_symbol hs).bind (gives_pure _ rest))
  | .block hb, rest, he => by
    obtain ⟨left, us, rfl, hl, hb⟩ := hb.gives
    refine Rule.gives_of_plain rfl
      ((gives_acceptAny_some (by simp [hl]) (by simp [Kind.IsPlain])).bind ?_)
    simp only [hl]
    exact hb.script.map
  | .while ht hl hc hr hb, rest, he => by
    simp only [List.cons_append, List.append_assoc]
    refine Rule.gives_of_plain rfl
      ((gives_acceptAny_some (by simp [ht]) (by simp [Kind.IsPlain])).bind ?_)
    simp only [ht]
    exact (gives_whileStatement hl hc hr (hb.gives he)).script
  | .for ht hl hi hc hs hm hr hb, rest, he => by
    simp only [List.cons_append, List.append_assoc]
    refine Rule.gives_of_plain rfl
      ((gives_acceptAny_some (by simp [ht]) (by simp [Kind.IsPlain])).bind ?_)
    simp only [ht]
    exact (gives_forStatement hl hi hc hs hm hr (hb.gives he)).script
  | .ifThen ht hl hc hr hb, rest, he => by
    simp only [List.cons_append, List.append_assoc]
    refine Rule.gives_of_plain rfl
      ((gives_acceptAny_some (by simp [ht]) (by simp [Kind.IsPlain])).bind ?_)
    simp only [ht]
    exact (gives_ifStatement hl hc hr (hb.gives fun _ => he rfl)
      (gives_optionally_none (he rfl) trivial)).script
  | .ifElse ht hl hc hr hb ho hw hd, rest, he => by
    simp only [List.cons_append, List.append_assoc]
    refine Rule.gives_of_plain rfl
      ((gives_acceptAny_some (by simp [ht]) (by simp [Kind.IsPlain])).bind ?_)
    simp only [ht]
    -- the `then` branch is closed, so it may stand before `else`
    refine (gives_ifStatement hl hc hr (hb.gives fun h => ?_)
      (gives_optionally_some hw trivial (hd.gives he).script)).script
    rw [ho rfl] at h
    cases h

end

/-- Declarations in front of other tokens are read as they are, and then what comes after them. -/
theorem Declarations.program_append {ts rest : List Token} {ss ss' : List (Stmt Unit)}
    {noted : List SyntaxError} (h : Declarations .nearest ts ss) (he : Stops [.keyword .else] rest)
    (hr : Rule.program.Replies rest (.ok ss' [] noted)) :
    Rule.program.Replies (ts ++ rest) (.ok (ss ++ ss') [] noted) := by
  match h with
  | .nil => exact hr
  | @Declarations.cons _ us vs s ss hs hss =>
    rw [List.append_assoc]
    exact Rule.program_of_declaration (by simp [hs.ne_nil]) (hs.gives (hss.stops_else he))
      (hss.program_append he hr)

theorem Declarations.gives_program {ts : List Token} {ss : List (Stmt Unit)}
    (h : Declarations .nearest ts ss) : Rule.program.Gives ts ss [] := by
  have hend : Rule.program.Replies [] (.ok [] [] []) :=
    Rule.replies_of_plain rfl ((gives_atEnd []).bind (gives_pure [] []))
  have hp := h.program_append (stops_nil _) hend
  rwa [List.append_nil, List.append_nil] at hp

end Grammar

end Lox
