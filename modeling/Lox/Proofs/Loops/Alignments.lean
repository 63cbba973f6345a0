import Lox.Proofs.Scope.Accepted

/-!
# Code at two places

One piece of code can stand at two places, with other scopes around it, so that its nodes have other
distances there. An `Alignment` says which distances lead to the same scope, seen from the one place and
from the other. Code is aligned if each of its nodes has distances that do, and if it declares names
only in a scope that is the same at both places.

* `Alignment.push`, `Alignment.pushLeft`, `Alignment.pushRight`: a scope is opened at both places, or at one of
  them only;
* `Stmt.Aligned`: what is asked of a statement, along its tree;
* `Scopes.Aligned`: each name lies in the same scope at both places, or is global at both;
* `Stmt.aligned_of_visits`: then a statement with the distances that the walk finds at the two places is
  aligned.
-/

namespace Lox

/-! ## Distances from two places -/

/-- Which distances lead to the same scope, seen from two places. -/
abbrev Alignment := Nat → Nat → Prop

namespace Alignment

variable {P Q : Alignment}

/-- Seen from inside a scope that is opened at both places. -/
def push (P : Alignment) : Alignment
  | 0, 0 => True
  | d + 1, d' + 1 => P d d'
  | _, _ => False

/-- Seen from inside a scope that is opened at the first place only. -/
def pushLeft (P : Alignment) : Alignment
  | d + 1, d' => P d d'
  | 0, _ => False

/-- Seen from inside a scope that is opened at the second place only. -/
def pushRight (P : Alignment) : Alignment
  | d, d' + 1 => P d d'
  | _, 0 => False

/-- Distances inside the same scopes are the same. -/
def same (n : Nat) : Alignment := fun d d' => d' = d ∧ d < n

/-- Seen from inside a scope, if one is opened at both places. -/
def pushIf (P : Alignment) (opened : Bool) : Alignment := if opened then P.push else P

theorem push_mono (h : ∀ d d', P d d' → Q d d') : ∀ d d', P.push d d' → Q.push d d'
  | 0, 0, _ => trivial
  | _ + 1, _ + 1, hp => h _ _ hp

theorem pushLeft_mono (h : ∀ d d', P d d' → Q d d') : ∀ d d', P.pushLeft d d' → Q.pushLeft d d'
  | _ + 1, _, hp => h _ _ hp

theorem pushRight_mono (h : ∀ d d', P d d' → Q d d') :
    ∀ d d', P.pushRight d d' → Q.pushRight d d'
  | _, _ + 1, hp => h _ _ hp

theorem pushIf_mono (h : ∀ d d', P d d' → Q d d') (opened : Bool) :
    ∀ d d', P.pushIf opened d d' → Q.pushIf opened d d' := by
  cases opened with
  | false => exact h
  | true => exact push_mono h

end Alignment

/-! ## Aligned code -/

section

variable (D E : NodeId → Option Nat)

/-- A node is global at both places, or its distances lead to the same scope. For `super` so do those
of the scope inside, which holds `this`. -/
def Reference.Aligned (P : Alignment) (r : Reference) : Prop :=
  Option.Rel (fun d d' => P d d' ∧ (r.kind = .super → P (d - 1) (d' - 1))) (D r.id) (E r.id)

/-- All these nodes are aligned. -/
def Reference.AlignedAll (P : Alignment) (rs : List Reference) : Prop := ∀ r ∈ rs, r.Aligned D E P

mutual

/-- All nodes of a statement are aligned, and it declares names in the same scope. -/
def Stmt.Aligned (P : Alignment) : Stmt NodeId → Prop
  | .expression e | .print e => Reference.AlignedAll D E P e.references
  | .var _ initializer => P 0 0 ∧ Reference.AlignedAll D E P (Expr.references? initializer)
  | .block body => Stmt.AlignedAll P.push body
  | .ifElse condition thenBranch elseBranch =>
    Reference.AlignedAll D E P condition.references ∧ thenBranch.Aligned P ∧
      Stmt.Aligned? P elseBranch
  | .while condition body => Reference.AlignedAll D E P condition.references ∧ body.Aligned P
  | .function declaration => P 0 0 ∧ declaration.Aligned P
  | .return _ value => Reference.AlignedAll D E P (Expr.references? value)
  | .class _ superclass methods =>
    P 0 0 ∧ Reference.AlignedAll D E P (Expr.references? superclass) ∧
      FunDecl.AlignedAll (P.pushIf superclass.isSome).push methods

/-- The same for a statement that may be absent. -/
def Stmt.Aligned? (P : Alignment) : Option (Stmt NodeId) → Prop
  | none => True
  | some s => s.Aligned P

/-- The same for several statements. -/
def Stmt.AlignedAll (P : Alignment) : List (Stmt NodeId) → Prop
  | [] => True
  | s :: ss => s.Aligned P ∧ Stmt.AlignedAll P ss

/-- The same for the body of a function. -/
def FunDecl.Aligned (P : Alignment) : FunDecl NodeId → Prop
  | .mk _ _ body => Stmt.AlignedAll P.push body

/-- The same for several functions. -/
def FunDecl.AlignedAll (P : Alignment) : List (FunDecl NodeId) → Prop
  | [] => True
  | f :: fs => f.Aligned P ∧ FunDecl.AlignedAll P fs

end

variable {D E} {P Q : Alignment}

theorem Reference.AlignedAll.mono (h : ∀ d d', P d d' → Q d d') {rs : List Reference}
    (hp : AlignedAll D E P rs) : AlignedAll D E Q rs := by
  intro r hr
  have hrel := hp r hr
  unfold Reference.Aligned at hrel ⊢
  generalize D r.id = o, E r.id = o' at hrel ⊢
  cases hrel with
  | none => exact .none
  | some hd => exact .some ⟨h _ _ hd.1, fun hk => h _ _ (hd.2 hk)⟩

mutual

theorem Stmt.Aligned.mono {P Q : Alignment} (h : ∀ d d', P d d' → Q d d') :
    {s : Stmt NodeId} → s.Aligned D E P → s.Aligned D E Q
  | .expression _, hs | .print _, hs | .return _ _, hs => by
    rw [Stmt.Aligned] at hs ⊢
    exact hs.mono h
  | .var _ _, hs => by
    rw [Stmt.Aligned] at hs ⊢
    exact ⟨h _ _ hs.1, hs.2.mono h⟩
  | .block _, hs => by
    rw [Stmt.Aligned] at hs ⊢
    exact Stmt.AlignedAll.mono (Alignment.push_mono h) hs
  | .ifElse _ _ _, hs => by
    rw [Stmt.Aligned] at hs ⊢
    exact ⟨hs.1.mono h, Stmt.Aligned.mono h hs.2.1, Stmt.Aligned?.mono h hs.2.2⟩
  | .while _ _, hs => by
    rw [Stmt.Aligned] at hs ⊢
    exact ⟨hs.1.mono h, Stmt.Aligned.mono h hs.2⟩
  | .function _, hs => by
    rw [Stmt.Aligned] at hs ⊢
    exact ⟨h _ _ hs.1, FunDecl.Aligned.mono h hs.2⟩
  | .class _ _ _, hs => by
    rw [Stmt.Aligned] at hs ⊢
    exact ⟨h _ _ hs.1, hs.2.1.mono h,
      FunDecl.AlignedAll.mono (Alignment.push_mono (Alignment.pushIf_mono h _)) hs.2.2⟩

theorem Stmt.Aligned?.mono {P Q : Alignment} (h : ∀ d d', P d d' → Q d d') :
    {s? : Option (Stmt NodeId)} → Stmt.Aligned? D E P s? → Stmt.Aligned? D E Q s?
  | none, _ => by
    rw [Stmt.Aligned?]
    trivial
  | some _, hs => by
    rw [Stmt.Aligned?] at hs ⊢
    exact Stmt.Aligned.mono h hs

theorem Stmt.AlignedAll.mono {P Q : Alignment} (h : ∀ d d', P d d' → Q d d') :
    {ss : List (Stmt NodeId)} → Stmt.AlignedAll D E P ss → Stmt.AlignedAll D E Q ss
  | [], _ => by
    rw [Stmt.AlignedAll]
    trivial
  | _ :: _, hs => by
    rw [Stmt.AlignedAll] at hs ⊢
    exact ⟨Stmt.Aligned.mono h hs.1, Stmt.AlignedAll.mono h hs.2⟩

theorem FunDecl.Aligned.mono {P Q : Alignment} (h : ∀ d d', P d d' → Q d d') :
    {f : FunDecl NodeId} → f.Aligned D E P → f.Aligned D E Q
  | .mk _ _ _, hf => by
    rw [FunDecl.Aligned] at hf ⊢
    exact Stmt.AlignedAll.mono (Alignment.push_mono h) hf

theorem FunDecl.AlignedAll.mono {P Q : Alignment} (h : ∀ d d', P d d' → Q d d') :
    {fs : List (FunDecl NodeId)} → FunDecl.AlignedAll D E P fs → FunDecl.AlignedAll D E Q fs
  | [], _ => by
    rw [FunDecl.AlignedAll]
    trivial
  | _ :: _, hs => by
    rw [FunDecl.AlignedAll] at hs ⊢
    exact ⟨FunDecl.Aligned.mono h hs.1, FunDecl.AlignedAll.mono h hs.2⟩

end

end

/-! ## Aligned scopes -/

namespace Scopes

/-- Each name lies in the same scope at both places, or is global at both. Where a scope that holds `super`
has one inside that holds `this`, so it is with these scopes. -/
structure Aligned (P : Alignment) (scopes scopes' : Scopes) : Prop where
  find (name : String) : Option.Rel P (scopes.distance? name) (scopes'.distance? name)
  receiver {d : Nat} : scopes.distance? "super" = some (d + 1) → scopes.at? d "this" = some true →
    ∃ d', scopes'.distance? "super" = some (d' + 1) ∧ P d d'

/-- The innermost scope is the same at both places, and can take names. -/
structure Shared (P : Alignment) (scopes scopes' : Scopes) : Prop where
  inner : P 0 0
  left : scopes ≠ []
  right : scopes' ≠ []
  unheld : scopes.distance? "super" ≠ some 0

section

variable {P : Alignment} {scopes scopes' : Scopes}

theorem distance?_declare_self (h : scopes ≠ []) (name : String) :
    (scopes.declare name).distance? name = some 0 := by
  cases scopes with
  | nil => exact absurd rfl h
  | cons inner outer => simp [declare, distance?_cons, Bindings.contains_insert]

theorem distance?_bind_self (h : scopes ≠ []) (name : String) :
    (scopes.bind name).distance? name = some 0 := by
  cases scopes with
  | nil => exact absurd rfl h
  | cons inner outer => simp [bind, declare, define, distance?_cons, Bindings.contains_insert]

theorem bind_ne_nil (h : scopes ≠ []) (name : String) : scopes.bind name ≠ [] := by
  cases scopes with
  | nil => exact absurd rfl h
  | cons inner outer => exact List.cons_ne_nil _ _

/-- The same scopes, seen from the same place. -/
theorem aligned_self (scopes : Scopes) : scopes.Aligned (.same scopes.length) scopes where
  find name := by
    cases hd : scopes.distance? name with
    | none => exact .none
    | some d => exact .some ⟨rfl, (List.findIdx?_eq_some_iff_findIdx_eq.mp hd).1⟩
  receiver {d} hd _ := by
    have hlt : d + 1 < scopes.length := (List.findIdx?_eq_some_iff_findIdx_eq.mp hd).1
    exact ⟨d, hd, rfl, Nat.lt_of_succ_lt hlt⟩

/-! ### A new scope -/

/-- A scope that does not hold `this` has no place between `super` and its receiver. -/
theorem receiver_push {d : Nat} (hd : distance? (∅ :: scopes) "super" = some (d + 1))
    (ht : at? (∅ :: scopes) d "this" = some true) :
    ∃ e, d = e + 1 ∧ scopes.distance? "super" = some (e + 1) ∧ scopes.at? e "this" = some true := by
  cases d with
  | zero => cases ht
  | succ e => exact ⟨e, rfl, by simpa [distance?_push] using hd, ht⟩

theorem Aligned.push (h : scopes.Aligned P scopes') : Aligned P.push (∅ :: scopes) (∅ :: scopes') where
  find name := by
    have hf := h.find name
    rw [distance?_push, distance?_push]
    generalize scopes.distance? name = o, scopes'.distance? name = o' at hf ⊢
    cases hf with
    | none => exact .none
    | some hd => exact .some hd
  receiver hd ht := by
    obtain ⟨e, rfl, hd, ht⟩ := receiver_push hd ht
    obtain ⟨d', hd', hp⟩ := h.receiver hd ht
    exact ⟨d' + 1, by simp [distance?_push, hd'], hp⟩

theorem Aligned.pushLeft (h : scopes.Aligned P scopes') :
    Aligned P.pushLeft (∅ :: scopes) scopes' where
  find name := by
    have hf := h.find name
    rw [distance?_push]
    generalize scopes.distance? name = o, scopes'.distance? name = o' at hf ⊢
    cases hf with
    | none => exact .none
    | some hd => exact .some hd
  receiver hd ht := by
    obtain ⟨e, rfl, hd, ht⟩ := receiver_push hd ht
    exact h.receiver hd ht

theorem Aligned.pushRight (h : scopes.Aligned P scopes') :
    Aligned P.pushRight scopes (∅ :: scopes') where
  find name := by
    have hf := h.find name
    rw [distance?_push]
    generalize scopes.distance? name = o, scopes'.distance? name = o' at hf ⊢
    cases hf with
    | none => exact .none
    | some hd => exact .some hd
  receiver hd ht := by
    obtain ⟨d', hd', hp⟩ := h.receiver hd ht
    exact ⟨d' + 1, by simp [distance?_push, hd'], hp⟩

/-- A new scope at both places can take names. -/
theorem shared_push (P : Alignment) (scopes scopes' : Scopes) :
    Shared P.push (∅ :: scopes) (∅ :: scopes') where
  inner := trivial
  left := List.cons_ne_nil _ _
  right := List.cons_ne_nil _ _
  unheld h := by simp [distance?_push] at h

/-! ### A new name -/

theorem Aligned.declare (h : scopes.Aligned P scopes') (hs : scopes.Shared P scopes') {name : String}
    (hthis : name ≠ "this") (hsuper : name ≠ "super") :
    Aligned P (scopes.declare name) (scopes'.declare name) where
  find other := by
    by_cases hn : name = other
    · subst hn
      rw [distance?_declare_self hs.left, distance?_declare_self hs.right]
      exact .some hs.inner
    · rw [distance?_declare_of_ne hn, distance?_declare_of_ne hn]
      exact h.find other
  receiver hd ht := by
    rw [distance?_declare_of_ne hsuper] at hd ⊢
    rw [at?_declare_of_ne hthis] at ht
    exact h.receiver hd ht

theorem Aligned.bind (h : scopes.Aligned P scopes') (hs : scopes.Shared P scopes') {name : String}
    (hthis : name ≠ "this") (hsuper : name ≠ "super") :
    Aligned P (scopes.bind name) (scopes'.bind name) where
  find other := by
    by_cases hn : name = other
    · subst hn
      rw [distance?_bind_self hs.left, distance?_bind_self hs.right]
      exact .some hs.inner
    · rw [distance?_bind_of_ne hn, distance?_bind_of_ne hn]
      exact h.find other
  receiver hd ht := by
    rw [distance?_bind_of_ne hsuper] at hd ⊢
    rw [at?_bind_of_ne hthis] at ht
    exact h.receiver hd ht

theorem Shared.bind (h : scopes.Shared P scopes') {name : String} (hsuper : name ≠ "super") :
    Shared P (scopes.bind name) (scopes'.bind name) where
  inner := h.inner
  left := bind_ne_nil h.left name
  right := bind_ne_nil h.right name
  unheld := by
    rw [distance?_bind_of_ne hsuper]
    exact h.unheld

theorem Aligned.bindAll (h : scopes.Aligned P scopes') (hs : scopes.Shared P scopes')
    {names : List String} (hn : ∀ n ∈ names, n ≠ "this" ∧ n ≠ "super") :
    Aligned P (scopes.bindAll names) (scopes'.bindAll names) ∧
      Shared P (scopes.bindAll names) (scopes'.bindAll names) := by
  induction names generalizing scopes scopes' with
  | nil => exact ⟨h, hs⟩
  | cons name names ih =>
    obtain ⟨hthis, hsuper⟩ := hn name List.mem_cons_self
    exact ih (h.bind hs hthis hsuper) (hs.bind hsuper) fun n hm => hn n (List.mem_cons_of_mem _ hm)

/-! ### The scopes of methods -/

/-- A scope that holds one name at both places. -/
theorem find_cons_insert (h : ∀ name, Option.Rel P (scopes.distance? name) (scopes'.distance? name))
    (held name : String) :
    Option.Rel P.push (distance? ((∅ : Scope).insert held true :: scopes) name)
      (distance? ((∅ : Scope).insert held true :: scopes') name) := by
  rw [distance?_cons, distance?_cons]
  split
  · exact .some trivial
  · have hf := h name
    generalize scopes.distance? name = o, scopes'.distance? name = o' at hf ⊢
    cases hf with
    | none => exact .none
    | some hd => exact .some hd

theorem Aligned.methodScopes (h : scopes.Aligned P scopes') (hs : scopes.Shared P scopes')
    (hasSuperclass : Bool) :
    Aligned (P.pushIf hasSuperclass).push (methodScopes scopes hasSuperclass)
      (methodScopes scopes' hasSuperclass) := by
  cases hasSuperclass with
  | false =>
    refine ⟨find_cons_insert h.find "this", fun {d} hd ht => ?_⟩
    have hd : scopes.distance? "super" = some d := by
      simpa [Lox.methodScopes, distance?_cons, Bindings.contains_insert] using hd
    cases d with
    | zero => exact absurd hd hs.unheld
    | succ d =>
      obtain ⟨d', hd', hp⟩ := h.receiver hd ht
      refine ⟨d' + 1, ?_, hp⟩
      simp [Lox.methodScopes, distance?_cons, Bindings.contains_insert, hd']
  | true =>
    refine ⟨find_cons_insert (find_cons_insert h.find "super") "this", fun {d} hd _ => ?_⟩
    have hd : d = 0 := by
      simpa [Lox.methodScopes, distance?_cons, Bindings.contains_insert] using hd.symm
    subst hd
    exact ⟨0, by simp [Lox.methodScopes, distance?_cons, Bindings.contains_insert], trivial⟩

end

end Scopes

/-! ## The walk at two places -/

section

variable {D E : NodeId → Option Nat} {P : Alignment} {scopes scopes' : Scopes}

/-- What the walk finds in some scopes of an accepted program. -/
def Visit.Found (D : NodeId → Option Nat) (v : Visit) : Prop :=
  v.Sound ∧ D v.reference.id = v.distance?

/-- An expression is aligned at two places if each name is. -/
theorem Expr.aligned_of_visits {e : Expr NodeId} (h : scopes.Aligned P scopes')
    (hD : ∀ v ∈ e.visits scopes, v.Found D)
    (hE : ∀ v ∈ e.visits scopes', E v.reference.id = v.distance?) :
    Reference.AlignedAll D E P e.references := by
  intro r hr
  have hleft := hD ⟨r, scopes⟩ (Expr.mem_visits_iff.mpr ⟨hr, rfl⟩)
  have hright := hE ⟨r, scopes'⟩ (Expr.mem_visits_iff.mpr ⟨hr, rfl⟩)
  have hfind := h.find r.name.text
  obtain ⟨hsound, hdist⟩ := hleft
  unfold Reference.Aligned
  rw [hdist, hright]
  unfold Visit.distance?
  dsimp only
  by_cases hk : r.kind = .super
  · obtain ⟨kind, id, name⟩ := r
    obtain rfl : kind = .super := hk
    obtain ⟨hname, d, hd, -, ht⟩ := hsound
    have hname : name.text = "super" := hname
    have hd : scopes.distance? name.text = some (d + 1) := hd
    rw [hname] at hd
    obtain ⟨d', hd', hp⟩ := h.receiver hd ht
    simp only [hname, hd, hd'] at hfind ⊢
    cases hfind with
    | some hpd => exact .some ⟨hpd, fun _ => hp⟩
  · generalize scopes.distance? r.name.text = o, scopes'.distance? r.name.text = o' at hfind ⊢
    cases hfind with
    | none => exact .none
    | some hd => exact .some ⟨hd, fun hc => absurd hc hk⟩

theorem Expr.aligned_of_visits? {e? : Option (Expr NodeId)} (h : scopes.Aligned P scopes')
    (hD : ∀ v ∈ Expr.visits? scopes e?, v.Found D)
    (hE : ∀ v ∈ Expr.visits? scopes' e?, E v.reference.id = v.distance?) :
    Reference.AlignedAll D E P (Expr.references? e?) := by
  cases e? with
  | none => exact List.forall_mem_nil _
  | some e => exact Expr.aligned_of_visits h hD hE

mutual

/-- A statement is aligned at two places if each name is, and if names are declared in the same
scope. -/
theorem Stmt.aligned_of_visits {P : Alignment} {scopes scopes' : Scopes} :
    {s : Stmt NodeId} → s.WellFormed → scopes.Aligned P scopes' →
      s.declares = [] ∨ scopes.Shared P scopes' → (∀ v ∈ s.visits scopes, v.Found D) →
      (∀ v ∈ s.visits scopes', E v.reference.id = v.distance?) → s.Aligned D E P
  | .expression _, _, h, _, hD, hE | .print _, _, h, _, hD, hE => by
    rw [Stmt.visits] at hD hE
    rw [Stmt.Aligned]
    exact Expr.aligned_of_visits h hD hE
  | .return _ _, _, h, _, hD, hE => by
    rw [Stmt.visits] at hD hE
    rw [Stmt.Aligned]
    exact Expr.aligned_of_visits? h hD hE
  | .var name _, hw, h, hs, hD, hE => by
    rw [Stmt.visits] at hD hE
    rw [Stmt.WellFormed] at hw
    rw [Stmt.Aligned]
    have hs := hs.resolve_left (List.cons_ne_nil _ _)
    exact ⟨hs.inner, Expr.aligned_of_visits? (h.declare hs hw.1.ne_this hw.1.ne_super) hD hE⟩
  | .block _, hw, h, _, hD, hE => by
    rw [Stmt.visits] at hD hE
    rw [Stmt.WellFormed] at hw
    rw [Stmt.Aligned]
    exact Stmt.alignedAll_of_visits hw h.push (Scopes.shared_push P scopes scopes') hD hE
  | .ifElse _ _ _, hw, h, _, hD, hE => by
    rw [Stmt.visits, List.forall_mem_append, List.forall_mem_append] at hD hE
    rw [Stmt.WellFormed] at hw
    rw [Stmt.Aligned]
    exact ⟨Expr.aligned_of_visits h hD.1.1 hE.1.1,
      Stmt.aligned_of_visits hw.2.1.2 h (.inl hw.2.1.1) hD.1.2 hE.1.2,
      Stmt.aligned?_of_visits hw.2.2 h hD.2 hE.2⟩
  | .while _ _, hw, h, _, hD, hE => by
    rw [Stmt.visits, List.forall_mem_append] at hD hE
    rw [Stmt.WellFormed] at hw
    rw [Stmt.Aligned]
    exact ⟨Expr.aligned_of_visits h hD.1 hE.1,
      Stmt.aligned_of_visits hw.2.2 h (.inl hw.2.1) hD.2 hE.2⟩
  | .function _, hw, h, hs, hD, hE => by
    rw [Stmt.visits] at hD hE
    rw [Stmt.WellFormed] at hw
    rw [Stmt.Aligned]
    have hs := hs.resolve_left (List.cons_ne_nil _ _)
    have hn := hw.isIdentifier_name
    exact ⟨hs.inner, FunDecl.aligned_of_visits hw (h.bind hs hn.ne_this hn.ne_super) hD hE⟩
  | .class _ _ _, hw, h, hs, hD, hE => by
    rw [Stmt.visits, List.forall_mem_append] at hD hE
    rw [Stmt.WellFormed] at hw
    rw [Stmt.Aligned]
    have hs := hs.resolve_left (List.cons_ne_nil _ _)
    have hinside := h.bind hs hw.1.ne_this hw.1.ne_super
    have hmethods := hinside.methodScopes (hs.bind hw.1.ne_super)
    exact ⟨hs.inner, Expr.aligned_of_visits? hinside hD.1 hE.1,
      FunDecl.alignedAll_of_visits hw.2.2 (hmethods _) hD.2 hE.2⟩

theorem Stmt.aligned?_of_visits {P : Alignment} {scopes scopes' : Scopes} :
    {s? : Option (Stmt NodeId)} → Stmt.WellFormed? s? → scopes.Aligned P scopes' →
      (∀ v ∈ Stmt.visits? scopes s?, v.Found D) →
      (∀ v ∈ Stmt.visits? scopes' s?, E v.reference.id = v.distance?) → Stmt.Aligned? D E P s?
  | none, _, _, _, _ => by
    rw [Stmt.Aligned?]
    trivial
  | some _, hw, h, hD, hE => by
    rw [Stmt.visits?] at hD hE
    rw [Stmt.WellFormed?] at hw
    rw [Stmt.Aligned?]
    exact Stmt.aligned_of_visits hw.2 h (.inl hw.1) hD hE

theorem Stmt.alignedAll_of_visits {P : Alignment} {scopes scopes' : Scopes} :
    {ss : List (Stmt NodeId)} → Stmt.WellFormedAll ss → scopes.Aligned P scopes' →
      scopes.Shared P scopes' → (∀ v ∈ Stmt.visitsAll scopes ss, v.Found D) →
      (∀ v ∈ Stmt.visitsAll scopes' ss, E v.reference.id = v.distance?) → Stmt.AlignedAll D E P ss
  | [], _, _, _, _, _ => by
    rw [Stmt.AlignedAll]
    trivial
  | _ :: _, hw, h, hs, hD, hE => by
    rw [Stmt.visitsAll, List.forall_mem_append] at hD hE
    rw [Stmt.WellFormedAll] at hw
    rw [Stmt.AlignedAll]
    obtain ⟨hrest, hsrest⟩ := h.bindAll hs hw.1.ne_of_mem_declares
    exact ⟨Stmt.aligned_of_visits hw.1 h (.inr hs) hD.1 hE.1,
      Stmt.alignedAll_of_visits hw.2 hrest hsrest hD.2 hE.2⟩

theorem FunDecl.aligned_of_visits {P : Alignment} {scopes scopes' : Scopes} :
    {f : FunDecl NodeId} → f.WellFormed → scopes.Aligned P scopes' →
      (∀ v ∈ f.visits scopes, v.Found D) →
      (∀ v ∈ f.visits scopes', E v.reference.id = v.distance?) → f.Aligned D E P
  | .mk _ params _, hw, h, hD, hE => by
    rw [FunDecl.visits] at hD hE
    rw [FunDecl.WellFormed] at hw
    rw [FunDecl.Aligned]
    have hn : ∀ n ∈ params.map Name.text, n ≠ "this" ∧ n ≠ "super" := by
      rw [List.forall_mem_map]
      exact fun p hp => ⟨(hw.2.1 p hp).ne_this, (hw.2.1 p hp).ne_super⟩
    obtain ⟨hinside, hs⟩ := h.push.bindAll (Scopes.shared_push P scopes scopes') hn
    exact Stmt.alignedAll_of_visits hw.2.2 hinside hs hD hE

theorem FunDecl.alignedAll_of_visits {P : Alignment} {scopes scopes' : Scopes} :
    {fs : List (FunDecl NodeId)} → FunDecl.WellFormedAll fs → scopes.Aligned P scopes' →
      (∀ v ∈ FunDecl.visitsAll scopes fs, v.Found D) →
      (∀ v ∈ FunDecl.visitsAll scopes' fs, E v.reference.id = v.distance?) →
      FunDecl.AlignedAll D E P fs
  | [], _, _, _, _ => by
    rw [FunDecl.AlignedAll]
    trivial
  | _ :: _, hw, h, hD, hE => by
    rw [FunDecl.visitsAll, List.forall_mem_append] at hD hE
    rw [FunDecl.WellFormedAll] at hw
    rw [FunDecl.AlignedAll]
    exact ⟨FunDecl.aligned_of_visits hw.1 h hD.1 hE.1,
      FunDecl.alignedAll_of_visits hw.2 h hD.2 hE.2⟩

end

end

end Lox
