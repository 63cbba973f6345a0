import Lox.Proofs.Syntax.Drawing
import Lox.Proofs.Syntax.Lines
import Lox.Proofs.Syntax.Scripts

/-!
# What a parser with a counter reads

`Draw.Follows ℓ R k p q` compares a parser that draws numbers from `k` on with one that draws none,
on the same tokens but for their lines, which are under `ℓ` for the first one: both come to the same
answer up to `ℓ`, the counter is not set back, and `R` relates the two values and the number at
which the counter is left.

Both follow the same scripts, one with numbers and one without. `Script.Follows` relates such a pair,
step by step, and `Rule.Follows` says which rules call each other's counterparts.

* `Rule.Follows.phrase`: what is done by a rule with numbers is what is done by it without;
* `Rule.Follows.draw`: so a phrase is read as without a counter, and its nodes have numbers that were
  drawn for them alone;
* `labeling_readDrawing`: a program with the numbers that it drew is a labeling of the program;
* `parse_map_relocate`: and the lines of the tokens only reach the lines of the tree and its errors.
-/

namespace Lox

/-! ## Answers on other lines -/

/-- The first answer is the second one on other lines, with values that `R` relates. -/
inductive Reply.Matches {α β : Type} (ℓ : Nat → Nat) (R : α → β → Prop) :
    Reply α → Reply β → Prop where
  | ok {a : α} {b : β} {rest : List Token} {noted : List SyntaxError} (h : R a b) :
    Matches ℓ R (.ok a (rest.map (Token.relocate ℓ)) (noted.map (SyntaxError.relocate ℓ)))
      (.ok b rest noted)
  | fail {error : SyntaxError} {rest : List Token} {noted : List SyntaxError} :
    Matches ℓ R (.fail (error.relocate ℓ) (rest.map (Token.relocate ℓ))
      (noted.map (SyntaxError.relocate ℓ))) (.fail error rest noted)
  | exhausted : Matches ℓ R .exhausted .exhausted

theorem Reply.Matches.after {α β : Type} {ℓ : Nat → Nat} {R : α → β → Prop} {r : Reply α}
    {r' : Reply β} (h : r.Matches ℓ R r') (noted : List SyntaxError) :
    (r.after (noted.map (SyntaxError.relocate ℓ))).Matches ℓ R (r'.after noted) := by
  cases h with
  | ok h =>
    rw [Reply.after, ← List.map_append]
    exact .ok h
  | fail =>
    rw [Reply.after, ← List.map_append]
    exact .fail
  | exhausted => exact .exhausted

theorem Reply.Matches.mono {α β : Type} {ℓ : Nat → Nat} {R R' : α → β → Prop} {r : Reply α}
    {r' : Reply β} (h : r.Matches ℓ R r') (hR : ∀ a b, R a b → R' a b) : r.Matches ℓ R' r' := by
  cases h with
  | ok h => exact .ok (hR _ _ h)
  | fail => exact .fail
  | exhausted => exact .exhausted

theorem Reply.matches_relocate {α β : Type} (ℓ : Nat → Nat) (h : β → α) (r : Reply β) :
    (r.relocate ℓ h).Matches ℓ (fun a b => a = h b) r := by
  cases r with
  | ok => exact .ok rfl
  | fail => exact .fail
  | exhausted => exact .exhausted

/-! ## Parsers -/

namespace Draw

variable {α β γ δ : Type} {ℓ : Nat → Nat} {k : NodeId}

/-- From `k` on, on tokens whose lines are under `ℓ`, the first parser reads what the second one
reads. -/
def Follows (ℓ : Nat → Nat) (R : α → β → NodeId → Prop) (k : NodeId) (p : Draw α) (q : Parse β) :
    Prop :=
  ∀ ts, k ≤ ((p (ts.map (Token.relocate ℓ))).run k).2 ∧
    ((p (ts.map (Token.relocate ℓ))).run k).1.Matches ℓ
      (R · · ((p (ts.map (Token.relocate ℓ))).run k).2) (q ts)

section

variable {p : Draw α} {f : α → Draw β} {ts rest : List Token} {noted : List SyntaxError}
  {k' : NodeId}

theorem run_bind_of_ok {a : α} (h : (p ts).run k = (.ok a rest noted, k')) :
    ((p >>= f) ts).run k = (((f a rest).run k').1.after noted, ((f a rest).run k').2) := by
  show (bind (p ts) _).run k = _
  rw [StateT.run_bind, h]
  rfl

theorem run_bind_of_fail {error : SyntaxError} (h : (p ts).run k = (.fail error rest noted, k')) :
    ((p >>= f) ts).run k = (.fail error rest noted, k') := by
  show (bind (p ts) _).run k = _
  rw [StateT.run_bind, h]
  rfl

theorem run_bind_of_exhausted (h : (p ts).run k = (.exhausted, k')) :
    ((p >>= f) ts).run k = (.exhausted, k') := by
  show (bind (p ts) _).run k = _
  rw [StateT.run_bind, h]
  rfl

theorem run_recover_of_ok {a : α} (h : (p ts).run k = (.ok a rest noted, k')) :
    (recover p ts).run k = (.ok (some a) rest noted, k') := by
  rw [recover, StateT.run_bind, h]
  rfl

theorem run_recover_of_fail {error : SyntaxError}
    (h : (p ts).run k = (.fail error rest noted, k')) :
    (recover p ts).run k = (.ok none (Parse.synchronize rest) (noted ++ [error]), k') := by
  rw [recover, StateT.run_bind, h]
  rfl

theorem run_recover_of_exhausted (h : (p ts).run k = (.exhausted, k')) :
    (recover p ts).run k = (.exhausted, k') := by
  rw [recover, StateT.run_bind, h]
  rfl

end

variable {R : α → β → NodeId → Prop} {S : γ → δ → NodeId → Prop} {p : Draw α} {q : Parse β}
  {f : α → Draw γ} {g : β → Parse δ}

theorem follows_pure {a : α} {b : β} (h : R a b k) : Follows ℓ R k (pure a) (pure b) :=
  fun ts => ⟨Nat.le_refl k, @Reply.Matches.ok α β ℓ _ a b ts [] h⟩

theorem follows_exhausted : Follows ℓ R k exhausted Parse.exhausted :=
  fun _ => ⟨Nat.le_refl k, .exhausted⟩

theorem follows_fail {fault : SyntaxFault} :
    Follows ℓ R k (liftM (Parse.fail fault : Parse α)) (Parse.fail fault) := by
  refine fun ts => ⟨Nat.le_refl k, ?_⟩
  show Reply.Matches ℓ _ (.fail ⟨fault, Parse.found (ts.map (Token.relocate ℓ))⟩ _ []) _
  rw [Parse.found_map_relocate]
  exact @Reply.Matches.fail α β ℓ _ ⟨fault, Parse.found ts⟩ ts []

theorem Follows.bind (hp : Follows ℓ R k p q)
    (hf : ∀ a b k', k ≤ k' → R a b k' → Follows ℓ S k' (f a) (g b)) :
    Follows ℓ S k (p >>= f) (q >>= g) := by
  intro ts
  obtain ⟨hle, hm⟩ := hp ts
  generalize hr : (p (ts.map (Token.relocate ℓ))).run k = r at hle hm
  obtain ⟨reply, k'⟩ := r
  generalize hq : q ts = reply' at hm
  cases hm with
  | ok h =>
    obtain ⟨hle', hm'⟩ := hf _ _ k' hle h _
    rw [run_bind_of_ok hr, Parse.bind_of_ok hq]
    exact ⟨Nat.le_trans hle hle', hm'.after _⟩
  | fail =>
    rw [run_bind_of_fail hr, Parse.bind_of_fail hq]
    exact ⟨hle, .fail⟩
  | exhausted =>
    rw [run_bind_of_exhausted hr, Parse.bind_of_exhausted hq]
    exact ⟨hle, .exhausted⟩

/-- A number that is drawn is the next one, and the counter goes on. -/
theorem follows_fresh_bind {f : NodeId → Draw α} (h : Follows ℓ R (k + 1) (f k) q) :
    Follows ℓ R k (fresh >>= f) q := by
  intro ts
  obtain ⟨hle, hm⟩ := h ts
  have hfresh : (fresh (ts.map (Token.relocate ℓ))).run k =
      (.ok k (ts.map (Token.relocate ℓ)) [], k + 1) := rfl
  rw [run_bind_of_ok hfresh, Reply.after_nil]
  exact ⟨Nat.le_trans (Nat.le_succ k) hle, hm⟩

/-- A step draws no number. -/
theorem follows_step_bind (s : Step β) {f : β → Draw γ}
    (h : ∀ b, Follows ℓ S k (f (s.relocated ℓ b)) (g b)) :
    Follows ℓ S k (liftM (s.relocate ℓ).run >>= f) (s.run >>= g) := by
  have hstep : Follows ℓ (fun a b k' => a = s.relocated ℓ b ∧ k' = k) k
      (liftM (s.relocate ℓ).run) s.run := by
    refine fun ts => ⟨Nat.le_refl k, ?_⟩
    show ((s.relocate ℓ).run (ts.map (Token.relocate ℓ))).Matches ℓ _ (s.run ts)
    rw [Step.run_map_relocate]
    exact (Reply.matches_relocate ℓ (s.relocated ℓ) (s.run ts)).mono fun _ _ he => ⟨he, rfl⟩
  refine hstep.bind fun a b k' _ he => ?_
  obtain ⟨rfl, rfl⟩ := he
  exact h b

/-- What a failed parser drew is thrown away, and the counter is not set back. -/
theorem Follows.recover {S : Option α → Option β → NodeId → Prop} (hp : Follows ℓ R k p q)
    (hsome : ∀ a b k', k ≤ k' → R a b k' → S (some a) (some b) k')
    (hnone : ∀ k', k ≤ k' → S none none k') : Follows ℓ S k (recover p) (Parse.recover q) := by
  intro ts
  obtain ⟨hle, hm⟩ := hp ts
  generalize hr : (p (ts.map (Token.relocate ℓ))).run k = r at hle hm
  obtain ⟨reply, k'⟩ := r
  generalize hq : q ts = reply' at hm
  unfold Parse.recover
  rw [hq]
  cases hm with
  | ok h =>
    rw [run_recover_of_ok hr]
    exact ⟨hle, .ok (hsome _ _ k' hle h)⟩
  | @fail error rest noted =>
    rw [run_recover_of_fail hr, Parse.synchronize_map_relocate, ← List.map_singleton,
      ← List.map_append]
    exact ⟨hle, .ok (hnone k' hle)⟩
  | exhausted =>
    rw [run_recover_of_exhausted hr]
    exact ⟨hle, .exhausted⟩

end Draw

/-! ## Drawn trees -/

/-- A tree with numbers from `k` on and below `k'` is a tree without numbers on other lines. -/
structure Drawn {α β γ : Type} (forget : α → γ) (relocate : β → γ)
    (references : α → List Reference) (k : NodeId) (a : α) (b : β) (k' : NodeId) : Prop where
  tree : forget a = relocate b
  within : Reference.Within k k' (references a)

section

variable (ℓ : Nat → Nat)

abbrev Expr.Drawn : NodeId → Expr NodeId → Expr Unit → NodeId → Prop :=
  Lox.Drawn (Expr.recode .forget) (Expr.recode ⟨id, ℓ⟩) Expr.references

/-- No number is drawn for names. -/
abbrev Name.DrawnAll (k : NodeId) (ns ns' : List Name) (k' : NodeId) : Prop :=
  ns = ns'.map (Name.relocate ℓ) ∧ k' = k

abbrev Expr.DrawnAll : NodeId → List (Expr NodeId) → List (Expr Unit) → NodeId → Prop :=
  Lox.Drawn (Expr.recodeAll .forget) (Expr.recodeAll ⟨id, ℓ⟩) Expr.referencesAll

abbrev Expr.Drawn? : NodeId → Option (Expr NodeId) → Option (Expr Unit) → NodeId → Prop :=
  Lox.Drawn (Option.map (Expr.recode .forget)) (Option.map (Expr.recode ⟨id, ℓ⟩)) Expr.references?

abbrev Stmt.Drawn : NodeId → Stmt NodeId → Stmt Unit → NodeId → Prop :=
  Lox.Drawn (Stmt.recode .forget) (Stmt.recode ⟨id, ℓ⟩) Stmt.references

abbrev Stmt.Drawn? : NodeId → Option (Stmt NodeId) → Option (Stmt Unit) → NodeId → Prop :=
  Lox.Drawn (Stmt.recode? .forget) (Stmt.recode? ⟨id, ℓ⟩) Stmt.references?

abbrev Stmt.DrawnAll : NodeId → List (Stmt NodeId) → List (Stmt Unit) → NodeId → Prop :=
  Lox.Drawn (Stmt.recodeAll .forget) (Stmt.recodeAll ⟨id, ℓ⟩) Stmt.referencesAll

abbrev FunDecl.Drawn : NodeId → FunDecl NodeId → FunDecl Unit → NodeId → Prop :=
  Lox.Drawn (FunDecl.recode .forget) (FunDecl.recode ⟨id, ℓ⟩) FunDecl.references

abbrev FunDecl.DrawnAll : NodeId → List (FunDecl NodeId) → List (FunDecl Unit) → NodeId → Prop :=
  Lox.Drawn (FunDecl.recodeAll .forget) (FunDecl.recodeAll ⟨id, ℓ⟩) FunDecl.referencesAll

end

section

variable {ℓ : Nat → Nat} {i j k : NodeId}

theorem Expr.Drawn.node {left right : Expr NodeId} {left' right' : Expr Unit}
    (hl : Expr.Drawn ℓ i left left' j) (level : Level) (operator : Token)
    (hr : Expr.Drawn ℓ j right right' k) :
    Expr.Drawn ℓ i (level.node left (operator.relocate ℓ) right)
      (level.node left' operator right') k := by
  cases level with
  | or | and => exact ⟨congrArg₂ (Expr.logical · _ ·) hl.tree hr.tree, hl.within.append hr.within⟩
  | _ => exact ⟨congrArg₂ (Expr.binary · _ ·) hl.tree hr.tree, hl.within.append hr.within⟩

theorem Expr.Drawn.cons {e : Expr NodeId} {e' : Expr Unit} {es : List (Expr NodeId)}
    {es' : List (Expr Unit)} (h : Expr.Drawn ℓ i e e' j) (hs : Expr.DrawnAll ℓ j es es' k) :
    Expr.DrawnAll ℓ i (e :: es) (e' :: es') k :=
  ⟨congrArg₂ List.cons h.tree hs.tree, h.within.append hs.within⟩

theorem Expr.drawn?_some {e : Expr NodeId} {e' : Expr Unit} (h : Expr.Drawn ℓ i e e' k) :
    Expr.Drawn? ℓ i (some e) (some e') k := ⟨congrArg some h.tree, h.within⟩

theorem Stmt.drawn?_some {s : Stmt NodeId} {s' : Stmt Unit} (h : Stmt.Drawn ℓ i s s' k) :
    Stmt.Drawn? ℓ i (some s) (some s') k := ⟨congrArg some h.tree, h.within⟩

/-- A part that may be absent is absent from both trees or from none. -/
theorem Expr.Drawn?.cases {o : Option (Expr NodeId)} {o' : Option (Expr Unit)}
    (h : Expr.Drawn? ℓ i o o' k) :
    (o = none ∧ o' = none ∧ i ≤ k) ∨
      ∃ e e', o = some e ∧ o' = some e' ∧ Expr.Drawn ℓ i e e' k := by
  cases o with
  | none =>
    cases o' with
    | none => exact .inl ⟨rfl, rfl, h.within.le⟩
    | some => cases h.tree
  | some e =>
    cases o' with
    | none => cases h.tree
    | some e' => exact .inr ⟨e, e', rfl, rfl, Option.some.inj h.tree, h.within⟩

theorem Stmt.Drawn?.cases {o : Option (Stmt NodeId)} {o' : Option (Stmt Unit)}
    (h : Stmt.Drawn? ℓ i o o' k) :
    (o = none ∧ o' = none ∧ i ≤ k) ∨
      ∃ s s', o = some s ∧ o' = some s' ∧ Stmt.Drawn ℓ i s s' k := by
  cases o with
  | none =>
    cases o' with
    | none => exact .inl ⟨rfl, rfl, h.within.le⟩
    | some => cases h.tree
  | some s =>
    cases o' with
    | none => cases h.tree
    | some s' => exact .inr ⟨s, s', rfl, rfl, Option.some.inj h.tree, h.within⟩

theorem Stmt.Drawn?.toList_append {o : Option (Stmt NodeId)} {o' : Option (Stmt Unit)}
    {ss : List (Stmt NodeId)} {ss' : List (Stmt Unit)} (h : Stmt.Drawn? ℓ i o o' j)
    (hs : Stmt.DrawnAll ℓ j ss ss' k) :
    Stmt.DrawnAll ℓ i (o.toList ++ ss) (o'.toList ++ ss') k := by
  obtain ⟨rfl, rfl, hle⟩ | ⟨s, s', rfl, rfl, hfirst⟩ := h.cases
  · exact ⟨hs.tree, hs.within.mono hle (Nat.le_refl k)⟩
  · exact ⟨congrArg₂ List.cons hfirst.tree hs.tree, hfirst.within.append hs.within⟩

theorem Stmt.drawn_function {f : FunDecl NodeId} {f' : FunDecl Unit}
    (h : FunDecl.Drawn ℓ i f f' k) : Stmt.Drawn ℓ i (.function f) (.function f') k :=
  ⟨congrArg Stmt.function h.tree, h.within⟩

theorem Stmt.drawn_ifElse {c : Expr NodeId} {c' : Expr Unit} {t : Stmt NodeId} {t' : Stmt Unit}
    {o : Option (Stmt NodeId)} {o' : Option (Stmt Unit)} {h i j k : NodeId}
    (hc : Expr.Drawn ℓ h c c' i) (ht : Stmt.Drawn ℓ i t t' j) (ho : Stmt.Drawn? ℓ j o o' k) :
    Stmt.Drawn ℓ h (.ifElse c t o) (.ifElse c' t' o') k :=
  ⟨congr (congrArg₂ Stmt.ifElse hc.tree ht.tree) ho.tree,
    (hc.within.append ht.within).append ho.within⟩

theorem Stmt.drawn_while {c : Expr NodeId} {c' : Expr Unit} {b : Stmt NodeId} {b' : Stmt Unit}
    (hc : Expr.Drawn ℓ i c c' j) (hb : Stmt.Drawn ℓ j b b' k) :
    Stmt.Drawn ℓ i (.while c b) (.while c' b') k :=
  ⟨congrArg₂ Stmt.while hc.tree hb.tree, hc.within.append hb.within⟩

theorem Expr.drawn_getD {o : Option (Expr NodeId)} {o' : Option (Expr Unit)} (value : Literal)
    (h : Expr.Drawn? ℓ i o o' k) :
    Expr.Drawn ℓ i (o.getD (.literal value)) (o'.getD (.literal value)) k := by
  obtain ⟨rfl, rfl, hle⟩ | ⟨e, e', rfl, rfl, he⟩ := h.cases
  · exact ⟨rfl, h.within⟩
  · exact he

/-- The increment of a loop is read before its body and comes after it. -/
theorem Stmt.drawn_forLoop {o : Option (Stmt NodeId)} {o' : Option (Stmt Unit)}
    {c n : Option (Expr NodeId)} {c' n' : Option (Expr Unit)} {b : Stmt NodeId} {b' : Stmt Unit}
    {g h i j k : NodeId} (ho : Stmt.Drawn? ℓ g o o' h) (hc : Expr.Drawn? ℓ h c c' i)
    (hn : Expr.Drawn? ℓ i n n' j) (hb : Stmt.Drawn ℓ j b b' k) :
    Stmt.Drawn ℓ g (.forLoop o c n b) (.forLoop o' c' n' b') k := by
  have hinitialized {s : Stmt NodeId} {s' : Stmt Unit} (hs : Stmt.Drawn ℓ h s s' k) :
      Stmt.Drawn ℓ g (o.elim s fun first => .block [first, s])
        (o'.elim s' fun first => .block [first, s']) k := by
    obtain ⟨rfl, rfl, hle⟩ | ⟨first, first', rfl, rfl, hf⟩ := ho.cases
    · exact ⟨hs.tree, hs.within.mono hle (Nat.le_refl k)⟩
    · exact ⟨congrArg₂ (fun s t => Stmt.block [s, t]) hf.tree hs.tree,
        hf.within.append (hs.within.append (.nil k))⟩
  have hbody : Stmt.Drawn ℓ i (n.elim b fun e => .block [b, .expression e])
      (n'.elim b' fun e => .block [b', .expression e]) k := by
    obtain ⟨rfl, rfl, hle⟩ | ⟨e, e', rfl, rfl, he⟩ := hn.cases
    · exact ⟨hb.tree, hb.within.mono hle (Nat.le_refl k)⟩
    · exact ⟨congrArg₂ (fun b e => Stmt.block [b, .expression e]) hb.tree he.tree,
        (he.within.append (.nil j)).append_swap hb.within⟩
  have hloop := hinitialized (Stmt.drawn_while (Expr.drawn_getD (.bool true) hc) hbody)
  cases o <;> cases o' <;> cases n <;> cases n' <;> exact hloop

end

/-! ## Rules -/

/-- At the number `k`, the first rule is called where the second one is called, with trees that were
drawn; and then `R` relates what is read by them. -/
inductive Rule.Follows (ℓ : Nat → Nat) : {α β : Type} → (α → β → NodeId → Prop) → NodeId →
    Rule NodeId α → Rule Unit β → Prop
  | expression {k : NodeId} : Follows ℓ (Expr.Drawn ℓ k) k .expression .expression
  | binary {k : NodeId} (levels : List Level) :
    Follows ℓ (Expr.Drawn ℓ k) k (.binary levels) (.binary levels)
  | operands {i k : NodeId} (level : Level) (levels : List Level) {left : Expr NodeId}
    {left' : Expr Unit} (h : Expr.Drawn ℓ i left left' k) :
    Follows ℓ (Expr.Drawn ℓ i) k (.operands level levels left) (.operands level levels left')
  | unary {k : NodeId} : Follows ℓ (Expr.Drawn ℓ k) k .unary .unary
  | calls {i k : NodeId} {callee : Expr NodeId} {callee' : Expr Unit}
    (h : Expr.Drawn ℓ i callee callee' k) :
    Follows ℓ (Expr.Drawn ℓ i) k (.calls callee) (.calls callee')
  | arguments {k : NodeId} (count : Nat) :
    Follows ℓ (Expr.DrawnAll ℓ k) k (.arguments count) (.arguments count)
  | primary {k : NodeId} : Follows ℓ (Expr.Drawn ℓ k) k .primary .primary
  | parameters {k : NodeId} (count : Nat) :
    Follows ℓ (Name.DrawnAll ℓ k) k (.parameters count) (.parameters count)
  | declaration {k : NodeId} : Follows ℓ (Stmt.Drawn? ℓ k) k .declaration .declaration
  | declarations {k : NodeId} : Follows ℓ (Stmt.DrawnAll ℓ k) k .declarations .declarations
  | block {k : NodeId} : Follows ℓ (Stmt.DrawnAll ℓ k) k .block .block
  | function {k : NodeId} (role : FunctionRole) :
    Follows ℓ (FunDecl.Drawn ℓ k) k (.function role) (.function role)
  | methods {k : NodeId} : Follows ℓ (FunDecl.DrawnAll ℓ k) k .methods .methods
  | classDeclaration {k : NodeId} : Follows ℓ (Stmt.Drawn ℓ k) k .classDeclaration .classDeclaration
  | statement {k : NodeId} : Follows ℓ (Stmt.Drawn ℓ k) k .statement .statement
  | forStatement {k : NodeId} : Follows ℓ (Stmt.Drawn ℓ k) k .forStatement .forStatement
  | ifStatement {k : NodeId} : Follows ℓ (Stmt.Drawn ℓ k) k .ifStatement .ifStatement
  | whileStatement {k : NodeId} : Follows ℓ (Stmt.Drawn ℓ k) k .whileStatement .whileStatement
  | program {k : NodeId} : Follows ℓ (Stmt.DrawnAll ℓ k) k .program .program

/-! ## Scripts -/

/-- From the number `k` on, the first script takes the steps of the second one on other lines, and in
the end `R` relates what they give. -/
inductive Script.Follows (ℓ : Nat → Nat) {α β : Type} (R : α → β → NodeId → Prop) :
    NodeId → Script NodeId α → Script Unit β → Prop
  | done {k : NodeId} {a : α} {b : β} (h : R a b k) : Follows ℓ R k (.done a) (.done b)
  | fail {k : NodeId} {fault : SyntaxFault} : Follows ℓ R k (.fail fault) (.fail fault)
  | step {k : NodeId} {γ : Type} (s : Step γ) {next : γ → Script NodeId α}
    {next' : γ → Script Unit β} (h : ∀ c, Follows ℓ R k (next (s.relocated ℓ c)) (next' c)) :
    Follows ℓ R k (.step (s.relocate ℓ) next) (.step s next')
  | label {k : NodeId} {next : NodeId → Script NodeId α} {next' : Unit → Script Unit β}
    (h : Follows ℓ R (k + 1) (next k) (next' ())) : Follows ℓ R k (.label next) (.label next')
  | call {k : NodeId} {γ δ : Type} {S : γ → δ → NodeId → Prop} {r : Rule NodeId γ}
    {r' : Rule Unit δ} {next : γ → Script NodeId α} {next' : δ → Script Unit β}
    (hr : Rule.Follows ℓ S k r r')
    (h : ∀ c d k', k ≤ k' → S c d k' → Follows ℓ R k' (next c) (next' d)) :
    Follows ℓ R k (.call r next) (.call r' next')

namespace Script

section

variable {α β γ δ : Type} {ℓ : Nat → Nat} {k : NodeId} {R : α → β → NodeId → Prop}
  {S : γ → δ → NodeId → Prop} {s : Script NodeId α} {s' : Script Unit β}

theorem follows_pure {a : α} {b : β} (h : R a b k) : Follows ℓ R k (pure a) (pure b) := .done h

theorem Follows.bind {f : α → Script NodeId γ} {f' : β → Script Unit δ} (hs : Follows ℓ R k s s')
    (hf : ∀ a b k', k ≤ k' → R a b k' → Follows ℓ S k' (f a) (f' b)) :
    Follows ℓ S k (s >>= f) (s' >>= f') := by
  induction hs with
  | done h => exact hf _ _ _ (Nat.le_refl _) h
  | fail => exact .fail
  | step s _ ih => exact .step s fun c => ih c hf
  | label _ ih => exact .label (ih fun a b k' hle => hf a b k' (Nat.le_of_succ_le hle))
  | call hr _ ih =>
    exact .call hr fun c d k' hle hc => ih c d k' hle hc fun a b k'' hle' =>
      hf a b k'' (Nat.le_trans hle hle')

theorem Follows.map {g : α → γ} {g' : β → δ} (hs : Follows ℓ R k s s')
    (h : ∀ a b k', k ≤ k' → R a b k' → S (g a) (g' b) k') : Follows ℓ S k (g <$> s) (g' <$> s') :=
  hs.bind fun a b k' hle hr => .done (h a b k' hle hr)

theorem follows_rule {r : Rule NodeId α} {r' : Rule Unit β} (h : r.Follows ℓ R k r') :
    Follows ℓ R k (rule r) (rule r') :=
  .call h fun _ _ _ _ => .done

section Bind

variable {R : α → β → NodeId → Prop}

theorem follows_rule_bind {r : Rule NodeId γ} {r' : Rule Unit δ} {f : γ → Script NodeId α}
    {f' : δ → Script Unit β} (h : r.Follows ℓ S k r')
    (hf : ∀ a b k', k ≤ k' → S a b k' → Follows ℓ R k' (f a) (f' b)) :
    Follows ℓ R k (rule r >>= f) (rule r' >>= f') :=
  .call h hf

theorem follows_fresh_bind {f : NodeId → Script NodeId α} {f' : Unit → Script Unit β}
    (h : Follows ℓ R (k + 1) (f k) (f' ())) : Follows ℓ R k (fresh >>= f) (fresh >>= f') :=
  .label h

theorem follows_note_bind (error : SyntaxError) {f : Unit → Script NodeId α}
    {f' : Unit → Script Unit β} (h : Follows ℓ R k (f ()) (f' ())) :
    Follows ℓ R k (note (error.relocate ℓ) >>= f) (note error >>= f') :=
  .step (.note error) fun _ => h

theorem follows_acceptAny_bind {kinds : List Kind} {f : Option Token → Script NodeId α}
    {f' : Option Token → Script Unit β}
    (h : ∀ t, Follows ℓ R k (f (t.map (Token.relocate ℓ))) (f' t)) :
    Follows ℓ R k (acceptAny kinds >>= f) (acceptAny kinds >>= f') :=
  .step (.take kinds) h

theorem follows_accept_bind {kind : Kind} {f : Option Token → Script NodeId α}
    {f' : Option Token → Script Unit β}
    (h : ∀ t, Follows ℓ R k (f (t.map (Token.relocate ℓ))) (f' t)) :
    Follows ℓ R k (accept kind >>= f) (accept kind >>= f') :=
  follows_acceptAny_bind h

theorem follows_expect_bind {kind : Kind} {fault : SyntaxFault} {f : Token → Script NodeId α}
    {f' : Token → Script Unit β} (h : ∀ t, Follows ℓ R k (f (t.relocate ℓ)) (f' t)) :
    Follows ℓ R k (expect kind fault >>= f) (expect kind fault >>= f') := by
  refine .step (.take [kind]) ?_
  rintro (_ | t)
  · exact .fail
  · exact h t

theorem follows_symbol_bind {symbol : Symbol} {place : Place} {f : Token → Script NodeId α}
    {f' : Token → Script Unit β} (h : ∀ t, Follows ℓ R k (f (t.relocate ℓ)) (f' t)) :
    Follows ℓ R k (Script.symbol symbol place >>= f) (Script.symbol symbol place >>= f') :=
  follows_expect_bind h

/-- A name has no number. -/
theorem follows_name (role : NameRole) :
    Follows ℓ (fun own own' k' => own = own'.relocate ℓ ∧ k' = k) k (name role) (name role) := by
  refine .step (.take [.identifier]) ?_
  rintro (_ | t)
  · exact .fail
  · exact follows_pure ⟨rfl, rfl⟩

theorem follows_name_bind {role : NameRole} {f : Name → Script NodeId α} {f' : Name → Script Unit β}
    (h : ∀ own, Follows ℓ R k (f (own.relocate ℓ)) (f' own)) :
    Follows ℓ R k (name role >>= f) (name role >>= f') := by
  refine (follows_name role).bind ?_
  rintro _ own _ - ⟨rfl, rfl⟩
  exact h own

end Bind

/-! What scripts are made of -/

theorem follows_optionally {T : Option α → Option β → NodeId → Prop} (kind : Kind)
    (hs : Follows ℓ R k s s') (hnone : T none none k)
    (hsome : ∀ a b k', k ≤ k' → R a b k' → T (some a) (some b) k') :
    Follows ℓ T k (optionally kind s) (optionally kind s') := by
  refine follows_accept_bind ?_
  rintro (_ | _)
  · exact follows_pure hnone
  · exact hs.map hsome

theorem follows_unlessNext {a : α} {b : β} (next : Symbol) (h : R a b k)
    (hs : Follows ℓ R k s s') : Follows ℓ R k (unlessNext next a s) (unlessNext next b s') := by
  refine .step (.nextIs (.symbol next)) ?_
  rintro (_ | _)
  · exact hs
  · exact follows_pure h

theorem follows_unlessClosed {a : α} {b : β} (h : R a b k) (hs : Follows ℓ R k s s') :
    Follows ℓ R k (unlessClosed a s) (unlessClosed b s') := by
  refine .step (.nextIs (.symbol .rightBrace)) fun closed => .step .atEnd fun ended => ?_
  show Follows ℓ R k (if closed || ended then pure a else s) (if closed || ended then pure b else s')
  split
  · exact follows_pure h
  · exact hs

/-- A list that is too long is noted before its next item is read. -/
theorem follows_checkCount_bind {f : Unit → Script NodeId α} {f' : Unit → Script Unit β}
    (count : Nat) (role : ListRole) (h : Follows ℓ R k (f ()) (f' ())) :
    Follows ℓ R k (checkCount count role >>= f) (checkCount count role >>= f') := by
  unfold checkCount
  split
  · exact .step (.noteHere (.tooMany role)) fun _ => h
  · exact h

theorem follows_list {T : List α → List β → NodeId → Prop}
    {U : NodeId → List α → List β → NodeId → Prop} {others : Rule NodeId (List α)}
    {others' : Rule Unit (List β)} (count : Nat) (role : ListRole) (hs : Follows ℓ R k s s')
    (hothers : ∀ k', others.Follows ℓ (U k') k' others')
    (hsingle : ∀ a b k', R a b k' → T [a] [b] k')
    (hcons : ∀ a b k' as bs k'', R a b k' → U k' as bs k'' → T (a :: as) (b :: bs) k'') :
    Follows ℓ T k (list count role s others) (list count role s' others') := by
  refine follows_checkCount_bind count role (hs.bind fun a b k' _ ha => follows_accept_bind ?_)
  rintro (_ | _)
  · exact follows_pure (hsingle a b k' ha)
  · exact (follows_rule (hothers k')).map fun as bs k'' _ has => hcons a b k' as bs k'' ha has

end

variable {ℓ : Nat → Nat} {i j k : NodeId}

/-! ### Expressions -/

theorem follows_refused {target : Expr NodeId} {target' : Expr Unit}
    (h : Expr.Drawn ℓ i target target' j) (hle : j ≤ k) (equals : Token) :
    Follows ℓ (Expr.Drawn ℓ i) k
      (do
        note ⟨.invalidAssignmentTarget, some (equals.relocate ℓ).toName⟩
        pure target)
      (do
        note ⟨.invalidAssignmentTarget, some equals.toName⟩
        pure target') := by
  refine follows_note_bind ⟨.invalidAssignmentTarget, some equals.toName⟩ (follows_pure ?_)
  exact ⟨h.tree, h.within.mono (Nat.le_refl i) hle⟩

/-- What was drawn for a target that is thrown away has no node, and the number of an assignment is
drawn after those of its value. -/
theorem follows_assignment {target value : Expr NodeId} {target' value' : Expr Unit}
    (ht : Expr.Drawn ℓ i target target' j) (hv : Expr.Drawn ℓ j value value' k) (equals : Token) :
    Follows ℓ (Expr.Drawn ℓ i) k (assignment target (equals.relocate ℓ) value)
      (assignment target' equals value') := by
  cases target' with
  | «variable» _ name' =>
    cases target with
    | «variable» _ name =>
      obtain rfl : name = name'.relocate ℓ := (Expr.variable.inj ht.tree).2
      refine follows_fresh_bind (follows_pure ⟨congrArg (Expr.assign () _) hv.tree, ?_⟩)
      exact (hv.within.append_swap (.fresh .assign k _)).mono ht.within.le (Nat.le_refl _)
    | _ => cases ht.tree
  | get object' name' =>
    cases target with
    | get object name =>
      obtain ⟨ho, hn⟩ := Expr.get.inj ht.tree
      obtain rfl : name = name'.relocate ℓ := hn
      exact follows_pure ⟨congrArg₂ (Expr.set · _ ·) ho hv.tree, ht.within.append hv.within⟩
    | _ => cases ht.tree
  | _ =>
    -- trees that differ in labels and lines have one form, so the first target is refused as well
    cases target with
    | «variable» | get => cases ht.tree
    | _ => exact follows_refused ht hv.within.le equals

theorem follows_expression : Follows ℓ (Expr.Drawn ℓ k) k expression expression := by
  refine follows_rule_bind (.binary Level.all) fun target target' k₁ _ ht => follows_accept_bind ?_
  rintro (_ | equals)
  · exact follows_pure ht
  · exact follows_rule_bind .expression fun value value' k₂ _ hv => follows_assignment ht hv equals

theorem follows_binary (levels : List Level) :
    Follows ℓ (Expr.Drawn ℓ k) k (binary levels) (binary levels) := by
  cases levels with
  | nil => exact follows_rule .unary
  | cons level levels =>
    exact follows_rule_bind (.binary levels) fun left left' k₁ _ hl =>
      follows_rule (.operands level levels hl)

theorem follows_operands (level : Level) (levels : List Level) {left : Expr NodeId}
    {left' : Expr Unit} (h : Expr.Drawn ℓ i left left' k) :
    Follows ℓ (Expr.Drawn ℓ i) k (operands level levels left) (operands level levels left') := by
  refine follows_acceptAny_bind ?_
  rintro (_ | operator)
  · exact follows_pure h
  · exact follows_rule_bind (.binary levels) fun right right' k₁ _ hr =>
      follows_rule (.operands level levels (h.node level operator hr))

theorem follows_unary : Follows ℓ (Expr.Drawn ℓ k) k unary unary := by
  refine follows_acceptAny_bind ?_
  rintro (_ | operator)
  · exact follows_rule_bind .primary fun callee callee' k₁ _ hc => follows_rule (.calls hc)
  · exact (follows_rule .unary).map fun right right' k₁ _ hr =>
      ⟨congrArg (Expr.unary _) hr.tree, hr.within⟩

theorem follows_calls {callee : Expr NodeId} {callee' : Expr Unit}
    (h : Expr.Drawn ℓ i callee callee' k) :
    Follows ℓ (Expr.Drawn ℓ i) k (calls callee) (calls callee') := by
  refine follows_accept_bind ?_
  rintro (_ | _)
  · refine follows_accept_bind ?_
    rintro (_ | _)
    · exact follows_pure h
    · exact follows_name_bind fun property =>
        follows_rule (.calls ⟨congrArg (Expr.get · _) h.tree, h.within⟩)
  · have harguments : Follows ℓ (Expr.DrawnAll ℓ k) k
        (unlessNext .rightParen [] (rule (.arguments 0)))
        (unlessNext .rightParen [] (rule (.arguments 0))) :=
      follows_unlessNext .rightParen ⟨rfl, .nil k⟩ (follows_rule (.arguments 0))
    refine harguments.bind fun arguments arguments' k₁ _ ha => follows_symbol_bind fun paren => ?_
    exact follows_rule (.calls
      ⟨congrArg₂ (Expr.call · (ℓ paren.line) ·) h.tree ha.tree, h.within.append ha.within⟩)

theorem follows_arguments (count : Nat) :
    Follows ℓ (Expr.DrawnAll ℓ k) k
      (list count .arguments (rule .expression) (.arguments (count + 1)))
      (list count .arguments (rule .expression) (.arguments (count + 1))) :=
  follows_list count .arguments (follows_rule .expression) (fun _ => .arguments (count + 1))
    (fun _ _ k' ha => ha.cons ⟨rfl, .nil k'⟩) fun _ _ _ _ _ _ ha hr => ha.cons hr

theorem follows_primary : Follows ℓ (Expr.Drawn ℓ k) k primary primary := by
  have hliteral (value : Literal) : Follows ℓ (Expr.Drawn ℓ k) k (pure (.literal value))
      (pure (.literal value)) := follows_pure ⟨rfl, .nil k⟩
  have hgroup : Follows ℓ (Expr.Drawn ℓ k) k
      (do
        let inner ← rule .expression
        let _ ← symbol .rightParen .afterExpression
        return .group inner)
      (do
        let inner ← rule .expression
        let _ ← symbol .rightParen .afterExpression
        return .group inner) :=
    follows_rule_bind .expression fun _ _ k₁ _ hi => follows_symbol_bind fun _ =>
      follows_pure ⟨congrArg Expr.group hi.tree, hi.within⟩
  refine follows_acceptAny_bind ?_
  -- one case for each kind of token; three of them draw a number
  rintro (_ | ⟨⟨kind, lexeme, line⟩⟩)
  · exact .fail
  · cases kind with
    | keyword keyword =>
      cases keyword with
      | «false» => exact hliteral (.bool false)
      | «true» => exact hliteral (.bool true)
      | nil => exact hliteral .nil
      | this => exact follows_fresh_bind (follows_pure ⟨rfl, .fresh .this k _⟩)
      | super =>
        exact follows_symbol_bind fun _ => follows_name_bind fun method =>
          follows_fresh_bind (follows_pure ⟨rfl, .fresh .super k _⟩)
      | _ => exact hgroup
    | number value => exact hliteral (.number value)
    | string value => exact hliteral (.string value)
    | identifier => exact follows_fresh_bind (follows_pure ⟨rfl, .fresh .variable k _⟩)
    | _ => exact hgroup

/-! ### Statements -/

theorem follows_expressionUnless (next : Symbol) :
    Follows ℓ (Expr.Drawn? ℓ k) k (expressionUnless next) (expressionUnless next) :=
  follows_unlessNext next ⟨rfl, .nil k⟩
    ((follows_rule .expression).map fun _ _ _ _ => Expr.drawn?_some)

theorem follows_expressionStatement :
    Follows ℓ (Stmt.Drawn ℓ k) k expressionStatement expressionStatement :=
  follows_rule_bind .expression fun _ _ _ _ h => follows_symbol_bind fun _ =>
    follows_pure ⟨congrArg Stmt.expression h.tree, h.within⟩

theorem follows_varDeclaration : Follows ℓ (Stmt.Drawn ℓ k) k varDeclaration varDeclaration := by
  have hinitializer : Follows ℓ (Expr.Drawn? ℓ k) k (optionally (.symbol .equal) (rule .expression))
      (optionally (.symbol .equal) (rule .expression)) :=
    follows_optionally (.symbol .equal) (follows_rule .expression) ⟨rfl, .nil k⟩
      fun _ _ _ _ => Expr.drawn?_some
  exact follows_name_bind fun own => hinitializer.bind fun _ _ k₁ _ h => follows_symbol_bind fun _ =>
    follows_pure ⟨congrArg (Stmt.var _) h.tree, h.within⟩

theorem follows_parameters (count : Nat) :
    Follows ℓ (Name.DrawnAll ℓ k) k
      (list count .parameters (name .parameter) (.parameters (count + 1)))
      (list count .parameters (name .parameter) (.parameters (count + 1))) := by
  refine follows_list count .parameters (follows_name .parameter) (fun _ => .parameters (count + 1)) ?_ ?_
  · rintro _ b _ ⟨rfl, rfl⟩
    exact ⟨rfl, rfl⟩
  · rintro _ b _ _ bs _ ⟨rfl, rfl⟩ ⟨rfl, rfl⟩
    exact ⟨rfl, rfl⟩

theorem follows_superclass : Follows ℓ (Expr.Drawn ℓ k) k superclass superclass :=
  follows_name_bind fun _ => follows_fresh_bind (follows_pure ⟨rfl, .fresh .variable k _⟩)

theorem follows_forInitializer :
    Follows ℓ (Stmt.Drawn? ℓ k) k forInitializer forInitializer := by
  refine follows_accept_bind ?_
  rintro (_ | _)
  · refine follows_accept_bind ?_
    rintro (_ | _)
    · exact follows_expressionStatement.map fun _ _ _ _ => Stmt.drawn?_some
    · exact follows_varDeclaration.map fun _ _ _ _ => Stmt.drawn?_some
  · exact follows_pure ⟨rfl, .nil k⟩

theorem follows_declaration : Follows ℓ (Stmt.Drawn ℓ k) k declaration declaration := by
  refine follows_acceptAny_bind ?_
  rintro (_ | ⟨⟨kind, lexeme, line⟩⟩)
  · exact follows_rule .statement
  · cases kind with
    | keyword keyword =>
      cases keyword with
      | «class» => exact follows_rule .classDeclaration
      | «fun» => exact (follows_rule (.function .function)).map fun _ _ _ _ => Stmt.drawn_function
      | _ => exact follows_varDeclaration
    | _ => exact follows_varDeclaration

theorem follows_declarations : Follows ℓ (Stmt.DrawnAll ℓ k) k declarations declarations :=
  follows_unlessClosed ⟨rfl, .nil k⟩ <| follows_rule_bind .declaration fun _ _ _ _ hf =>
    (follows_rule .declarations).map fun _ _ _ _ hr => hf.toList_append hr

theorem follows_block : Follows ℓ (Stmt.DrawnAll ℓ k) k block block :=
  follows_rule_bind .declarations fun _ _ _ _ hb => follows_symbol_bind fun _ => follows_pure hb

theorem follows_function (role : FunctionRole) :
    Follows ℓ (FunDecl.Drawn ℓ k) k (function role) (function role) := by
  have hparams : Follows ℓ (Name.DrawnAll ℓ k) k (unlessNext .rightParen [] (rule (.parameters 0)))
      (unlessNext .rightParen [] (rule (.parameters 0))) :=
    follows_unlessNext .rightParen ⟨rfl, rfl⟩ (follows_rule (.parameters 0))
  refine follows_name_bind fun own => follows_symbol_bind fun _ => hparams.bind ?_
  rintro params params' k₁ - ⟨rfl, rfl⟩
  refine follows_symbol_bind fun _ => follows_symbol_bind fun _ => ?_
  refine (follows_rule .block).map fun body body' k₂ _ hb => ⟨?_, hb.within⟩
  exact congrArg₂ (FunDecl.mk _) (Name.map_relocate_id _) hb.tree

theorem follows_methods : Follows ℓ (FunDecl.DrawnAll ℓ k) k methods methods :=
  follows_unlessClosed ⟨rfl, .nil k⟩ <| follows_rule_bind (.function .method) fun _ _ _ _ hf =>
    (follows_rule .methods).map fun _ _ _ _ hr =>
      ⟨congrArg₂ List.cons hf.tree hr.tree, hf.within.append hr.within⟩

theorem follows_classDeclaration :
    Follows ℓ (Stmt.Drawn ℓ k) k classDeclaration classDeclaration := by
  have hsuperclass : Follows ℓ (Expr.Drawn? ℓ k) k (optionally (.symbol .less) superclass)
      (optionally (.symbol .less) superclass) :=
    follows_optionally (.symbol .less) follows_superclass ⟨rfl, .nil k⟩
      fun _ _ _ _ => Expr.drawn?_some
  refine follows_name_bind fun own => hsuperclass.bind fun _ _ k₁ _ hs => ?_
  refine follows_symbol_bind fun _ => follows_rule_bind .methods fun _ _ k₂ _ hm =>
    follows_symbol_bind fun _ => follows_pure ?_
  exact ⟨congrArg₂ (Stmt.class _) hs.tree hm.tree, hs.within.append hm.within⟩

theorem follows_statement : Follows ℓ (Stmt.Drawn ℓ k) k statement statement := by
  have hblock : Follows ℓ (Stmt.Drawn ℓ k) k (.block <$> rule .block) (.block <$> rule .block) :=
    (follows_rule .block).map fun _ _ _ _ hb => ⟨congrArg Stmt.block hb.tree, hb.within⟩
  refine follows_acceptAny_bind ?_
  rintro (_ | ⟨⟨kind, lexeme, line⟩⟩)
  · exact follows_expressionStatement
  · cases kind with
    | keyword keyword =>
      cases keyword with
      | «for» => exact follows_rule .forStatement
      | «if» => exact follows_rule .ifStatement
      | print =>
        exact follows_rule_bind .expression fun _ _ _ _ hv => follows_symbol_bind fun _ =>
          follows_pure ⟨congrArg Stmt.print hv.tree, hv.within⟩
      | «return» =>
        exact (follows_expressionUnless .semicolon).bind fun _ _ _ _ hv =>
          follows_symbol_bind fun _ => follows_pure ⟨congrArg (Stmt.return _) hv.tree, hv.within⟩
      | «while» => exact follows_rule .whileStatement
      | _ => exact hblock
    | _ => exact hblock

theorem follows_forStatement : Follows ℓ (Stmt.Drawn ℓ k) k forStatement forStatement :=
  follows_symbol_bind fun _ => follows_forInitializer.bind fun _ _ _ _ hi =>
    (follows_expressionUnless .semicolon).bind fun _ _ _ _ hc => follows_symbol_bind fun _ =>
    (follows_expressionUnless .rightParen).bind fun _ _ _ _ hn => follows_symbol_bind fun _ =>
    (follows_rule .statement).map fun _ _ _ _ hb => Stmt.drawn_forLoop hi hc hn hb

theorem follows_ifStatement : Follows ℓ (Stmt.Drawn ℓ k) k ifStatement ifStatement := by
  refine follows_symbol_bind fun _ => follows_rule_bind .expression fun _ _ k₁ _ hc =>
    follows_symbol_bind fun _ => follows_rule_bind .statement fun _ _ k₂ _ ht => ?_
  have helse : Follows ℓ (Stmt.Drawn? ℓ k₂) k₂ (optionally (.keyword .else) (rule .statement))
      (optionally (.keyword .else) (rule .statement)) :=
    follows_optionally (.keyword .else) (follows_rule .statement) ⟨rfl, .nil k₂⟩
      fun _ _ _ _ => Stmt.drawn?_some
  exact helse.map fun _ _ _ _ he => Stmt.drawn_ifElse hc ht he

theorem follows_whileStatement : Follows ℓ (Stmt.Drawn ℓ k) k whileStatement whileStatement :=
  follows_symbol_bind fun _ => follows_rule_bind .expression fun _ _ _ _ hc =>
    follows_symbol_bind fun _ => (follows_rule .statement).map fun _ _ _ _ hb =>
      ⟨congrArg₂ Stmt.while hc.tree hb.tree, hc.within.append hb.within⟩

theorem follows_program : Follows ℓ (Stmt.DrawnAll ℓ k) k program program := by
  refine .step .atEnd ?_
  rintro (_ | _)
  · exact follows_rule_bind .declaration fun _ _ _ _ hf =>
      (follows_rule .program).map fun _ _ _ _ hr => hf.toList_append hr
  · exact follows_pure ⟨rfl, .nil k⟩

end Script

/-! ## Reading -/

/-- Both rules read by a script, the first one as the second one; a script whose failure is noted gives
nothing then. -/
inductive Phrase.Follows (ℓ : Nat → Nat) (k : NodeId) : {α β : Type} →
    (α → β → NodeId → Prop) → Phrase NodeId α → Phrase Unit β → Prop
  | plain {α β : Type} {R : α → β → NodeId → Prop} {s : Script NodeId α} {s' : Script Unit β}
    (h : s.Follows ℓ R k s') : Follows ℓ k R (.plain s) (.plain s')
  | guarded {α β : Type} {R : α → β → NodeId → Prop} {S : Option α → Option β → NodeId → Prop}
    {s : Script NodeId α} {s' : Script Unit β} (h : s.Follows ℓ R k s')
    (hsome : ∀ a b k', k ≤ k' → R a b k' → S (some a) (some b) k')
    (hnone : ∀ k', k ≤ k' → S none none k') : Follows ℓ k S (.guarded s) (.guarded s')

section

variable {α β : Type} {ℓ : Nat → Nat} {k : NodeId} {R : α → β → NodeId → Prop}

theorem Rule.Follows.phrase {r : Rule NodeId α} {r' : Rule Unit β} (h : r.Follows ℓ R k r') :
    r.phrase.Follows ℓ k R r'.phrase := by
  cases h with
  | expression => exact .plain Script.follows_expression
  | binary levels => exact .plain (Script.follows_binary levels)
  | operands level levels h => exact .plain (Script.follows_operands level levels h)
  | unary => exact .plain Script.follows_unary
  | calls h => exact .plain (Script.follows_calls h)
  | arguments count => exact .plain (Script.follows_arguments count)
  | primary => exact .plain Script.follows_primary
  | parameters count => exact .plain (Script.follows_parameters count)
  | declaration =>
    exact .guarded Script.follows_declaration (fun _ _ _ _ => Stmt.drawn?_some)
      fun k' hle => ⟨rfl, (Reference.Within.nil k').mono hle (Nat.le_refl k')⟩
  | declarations => exact .plain Script.follows_declarations
  | block => exact .plain Script.follows_block
  | function role => exact .plain (Script.follows_function role)
  | methods => exact .plain Script.follows_methods
  | classDeclaration => exact .plain Script.follows_classDeclaration
  | statement => exact .plain Script.follows_statement
  | forStatement => exact .plain Script.follows_forStatement
  | ifStatement => exact .plain Script.follows_ifStatement
  | whileStatement => exact .plain Script.follows_whileStatement
  | program => exact .plain Script.follows_program

variable {go : {γ : Type} → Rule NodeId γ → Draw γ} {go' : {γ : Type} → Rule Unit γ → Parse γ}
  (hgo : ∀ {γ δ : Type} {S : γ → δ → NodeId → Prop} {k : NodeId} {r : Rule NodeId γ}
    {r' : Rule Unit δ}, r.Follows ℓ S k r' → Draw.Follows ℓ S k (go r) (go' r'))

include hgo

theorem Script.Follows.draw {s : Script NodeId α} {s' : Script Unit β} (h : s.Follows ℓ R k s') :
    Draw.Follows ℓ R k (s.draw go) (s'.run go') := by
  induction h with
  | done h => exact Draw.follows_pure h
  | fail => exact Draw.follows_fail
  | step s _ ih => exact Draw.follows_step_bind s ih
  | label _ ih => exact Draw.follows_fresh_bind ih
  | call hr _ ih => exact (hgo hr).bind ih

theorem Phrase.Follows.draw {p : Phrase NodeId α} {p' : Phrase Unit β} (h : p.Follows ℓ k R p') :
    Draw.Follows ℓ R k (p.draw go) (p'.run go') := by
  cases h with
  | plain h => exact h.draw hgo
  | guarded h hsome hnone => exact (h.draw hgo).recover hsome hnone

end

/-- What is read with numbers is what is read without them, on other lines. -/
theorem Rule.Follows.draw {α β : Type} {ℓ : Nat → Nat} {k : NodeId} {R : α → β → NodeId → Prop}
    {r : Rule NodeId α} {r' : Rule Unit β} (h : r.Follows ℓ R k r') (n : Nat) :
    Draw.Follows ℓ R k (r.draw n) (r'.read n) := by
  induction n generalizing α β k with
  | zero => exact Draw.follows_exhausted
  | succ n ih => exact h.phrase.draw fun h => ih h

/-! ## Programs -/

theorem Drawing.endLine_ofReply (endLine : Nat) (reply : Reply (List (Stmt NodeId))) :
    (ofReply endLine reply).endLine = endLine := by
  cases reply <;> rfl

theorem run_readDrawing (ts : List Token) (k : NodeId) :
    (readDrawing ts).run k = Prod.map (.ofReply (TokenSequence.ofTokens ts).endLine) id
      ((Rule.program.draw (Parse.depth (TokenSequence.ofTokens ts).tokens.length)
        (TokenSequence.ofTokens ts).tokens).run k) := rfl

/-- A program on other lines is drawn as it is parsed. -/
theorem drawnAll_readDrawing (ℓ : Nat → Nat) (ts : List Token) (k : NodeId) :
    Stmt.DrawnAll ℓ k ((readDrawing (ts.map (Token.relocate ℓ))).run k).1.program
        (parse ts).statements ((readDrawing (ts.map (Token.relocate ℓ))).run k).2 ∧
      ((readDrawing (ts.map (Token.relocate ℓ))).run k).1.errors =
        (parse ts).errors.map (SyntaxError.relocate ℓ) := by
  obtain ⟨hle, hm⟩ := (Rule.Follows.program (ℓ := ℓ) (k := k)).draw
    (Parse.depth (TokenSequence.ofTokens ts).tokens.length) (TokenSequence.ofTokens ts).tokens
  rw [run_readDrawing, TokenSequence.tokens_ofTokens_map_relocate, List.length_map, parse]
  generalize (Rule.program.draw _ _).run k = r at hle hm
  generalize Rule.program.read _ _ = reply at hm
  obtain ⟨reply', k'⟩ := r
  have hnil : Reference.Within k k' [] := (Reference.Within.nil k').mono hle (Nat.le_refl k')
  cases hm with
  | ok h => exact ⟨h, rfl⟩
  | @fail error rest noted =>
    exact ⟨⟨rfl, hnil⟩, (@List.map_append _ _ (SyntaxError.relocate ℓ) noted [error]).symm⟩
  | exhausted => exact ⟨⟨rfl, hnil⟩, rfl⟩

theorem endLine_readDrawing (ts : List Token) (k : NodeId) :
    ((readDrawing ts).run k).1.endLine = (TokenSequence.ofTokens ts).endLine := by
  rw [run_readDrawing]
  exact Drawing.endLine_ofReply _ _

/-- A program with the numbers that were drawn for it is a labeling of the program. -/
theorem labeling_readDrawing (ts : List Token) (first : NodeId) :
    Labeling (parse ts).statements first ((readDrawing ts).run first).2
      ((readDrawing ts).run first).1.program := by
  obtain ⟨hdrawn, -⟩ := drawnAll_readDrawing id ts first
  rw [Token.map_relocate_id] at hdrawn
  exact ⟨hdrawn.within, hdrawn.tree.trans (Stmt.recodeAll_id _)⟩

/-- What is read does not depend on the counter. -/
theorem parsed_readDrawing (ts : List Token) (first : NodeId) :
    ((readDrawing ts).run first).1.parsed = parse ts := by
  obtain ⟨-, herrors⟩ := drawnAll_readDrawing id ts first
  rw [Token.map_relocate_id, SyntaxError.map_relocate_id] at herrors
  rw [Drawing.parsed, (labeling_readDrawing ts first).forget, herrors, endLine_readDrawing,
    ← endLine_parse]

/-- On other lines a program has the same tree and the same errors, on these lines. -/
theorem parse_map_relocate (ℓ : Nat → Nat) (ts : List Token) :
    (parse (ts.map (Token.relocate ℓ))).statements =
        Stmt.recodeAll ⟨id, ℓ⟩ (parse ts).statements ∧
      (parse (ts.map (Token.relocate ℓ))).errors =
        (parse ts).errors.map (SyntaxError.relocate ℓ) := by
  obtain ⟨hdrawn, herrors⟩ := drawnAll_readDrawing ℓ ts 0
  rw [← parsed_readDrawing _ 0]
  exact ⟨hdrawn.tree, herrors⟩

end Lox
