import Lox.Proofs.Scope.Visits

/-!
# Scopes of accepted programs

What the walk of `resolve` makes sure of when it finds no error. A `Visit` is
`Sound` if the name of its node may be read in the scope in which the walk
finds it; `this` is found wherever it stands, and `super` is found one scope
further out than a scope that binds `this`. An assignment may name a variable
that may not be read yet: the one whose initializer it stands in.

* `Scopes.AllReadable`, `Scopes.Sees`: what holds of the scopes before every
  statement;
* `Stmt.sound_visits`: a statement without errors has sound visits only;
* `Stmt.grounded_of_clean`: no class in it inherits from itself;
* `sound_visits_of_errors_eq_nil`, `groundedAll_of_errors_eq_nil`: so it is with a
  program without errors.
-/

namespace Lox

/-! ## Findings without errors -/

/-- No finding is an error. -/
def Finding.Clean (findings : List Finding) : Prop := ∀ e, Finding.error e ∉ findings

namespace Finding

@[simp] theorem clean_append {fs fs' : List Finding} :
    Clean (fs ++ fs') ↔ Clean fs ∧ Clean fs' := by
  simp only [Clean, List.mem_append, not_or, forall_and]

@[simp] theorem not_clean_error (e : ScopeError) : ¬ Clean [.error e] :=
  fun h => h e List.mem_cons_self

theorem clean_iff_errors_eq_nil {findings : List Finding} :
    Clean findings ↔ (Resolution.ofFindings findings).errors = [] := by
  unfold Clean Resolution.ofFindings
  rw [List.filterMap_eq_nil_iff]
  constructor
  · intro h f hf
    cases f with
    | distance => rfl
    | error e => exact absurd hf (h e)
  · intro h e he
    cases h _ he

end Finding

/-! ## Reading the scopes -/

namespace Scopes

/-- Whether a name may be read, in the scope that lies `d` scopes out; none if that scope does not
declare it. -/
def at? (scopes : Scopes) (d : Nat) (name : String) : Option Bool :=
  scopes[d]?.bind fun scope => scope.get? name

@[simp] theorem at?_cons_zero (scope : Scope) (outer : Scopes) (name : String) :
    at? (scope :: outer) 0 name = scope.get? name := rfl

@[simp] theorem at?_cons_succ (scope : Scope) (outer : Scopes) (d : Nat) (name : String) :
    at? (scope :: outer) (d + 1) name = outer.at? d name := rfl

theorem distance?_cons (scope : Scope) (outer : Scopes) (name : String) :
    distance? (scope :: outer) name =
      if scope.contains name then some 0 else (outer.distance? name).map (· + 1) :=
  List.findIdx?_cons

/-- A name is declared in the scope in which it is found. -/
theorem exists_at?_of_distance? {scopes : Scopes} {name : String} {d : Nat}
    (h : scopes.distance? name = some d) : ∃ readable, scopes.at? d name = some readable := by
  induction scopes generalizing d with
  | nil => cases h
  | cons scope outer ih =>
    rw [distance?_cons] at h
    split at h
    · next hc =>
      obtain rfl : 0 = d := Option.some.inj h
      exact Option.isSome_iff_exists.mp hc
    · obtain ⟨d', hd, rfl⟩ := Option.map_eq_some_iff.mp h
      exact ih hd

section

variable {name other : String} (h : other ≠ name)
include h

theorem distance?_insert_of_ne (inner : Scope) (outer : Scopes) (readable : Bool) :
    distance? (inner.insert other readable :: outer) name = distance? (inner :: outer) name := by
  rw [distance?_cons, distance?_cons, Bindings.contains_insert]
  simp [h]

theorem at?_insert_of_ne (inner : Scope) (outer : Scopes) (readable : Bool) (d : Nat) :
    at? (inner.insert other readable :: outer) d name = at? (inner :: outer) d name := by
  cases d with
  | zero => exact Bindings.get?_insert_of_ne inner readable h
  | succ d => rfl

theorem distance?_declare_of_ne (scopes : Scopes) :
    (scopes.declare other).distance? name = scopes.distance? name := by
  cases scopes with
  | nil => rfl
  | cons inner outer => exact distance?_insert_of_ne h inner outer false

theorem at?_declare_of_ne (scopes : Scopes) (d : Nat) :
    (scopes.declare other).at? d name = scopes.at? d name := by
  cases scopes with
  | nil => rfl
  | cons inner outer => exact at?_insert_of_ne h inner outer false d

theorem distance?_bind_of_ne (scopes : Scopes) :
    (scopes.bind other).distance? name = scopes.distance? name := by
  cases scopes with
  | nil => rfl
  | cons inner outer =>
    exact (distance?_insert_of_ne h _ outer true).trans (distance?_insert_of_ne h inner outer false)

theorem at?_bind_of_ne (scopes : Scopes) (d : Nat) :
    (scopes.bind other).at? d name = scopes.at? d name := by
  cases scopes with
  | nil => rfl
  | cons inner outer =>
    exact (at?_insert_of_ne h _ outer true d).trans (at?_insert_of_ne h inner outer false d)

end

theorem distance?_bindAll_of_ne {name : String} {names : List String} (scopes : Scopes)
    (h : ∀ n ∈ names, n ≠ name) : (scopes.bindAll names).distance? name = scopes.distance? name := by
  induction names generalizing scopes with
  | nil => rfl
  | cons n names ih =>
    obtain ⟨hn, hnames⟩ := List.forall_mem_cons.mp h
    exact (ih _ hnames).trans (distance?_bind_of_ne hn scopes)

/-- An empty scope around a place puts everything one scope further out. -/
theorem distance?_push (scopes : Scopes) (name : String) :
    distance? (∅ :: scopes) name = (scopes.distance? name).map (· + 1) := by
  simp [distance?_cons]

/-! ## Scopes in which everything may be read -/

/-- Every name that is declared may be read. -/
def AllReadable (scopes : Scopes) : Prop :=
  ∀ scope ∈ scopes, ∀ name readable, scope.get? name = some readable → readable = true

namespace AllReadable

variable {scopes : Scopes}

theorem nil : AllReadable [] := fun _ h => absurd h List.not_mem_nil

theorem push (h : scopes.AllReadable) : AllReadable (∅ :: scopes) := by
  intro scope hs
  rcases List.mem_cons.mp hs with rfl | hs
  · intro name readable hn
    cases hn
  · exact h scope hs

theorem cons_insert {inner : Scope} {outer : Scopes} (h : AllReadable (inner :: outer))
    (name : String) : AllReadable (inner.insert name true :: outer) := by
  intro scope hs
  rcases List.mem_cons.mp hs with rfl | hs
  · intro other readable ho
    rw [Bindings.get?_insert] at ho
    split at ho
    · exact (Option.some.inj ho).symm
    · exact h inner List.mem_cons_self other readable ho
  · exact h scope (List.mem_cons_of_mem _ hs)

theorem bind (h : scopes.AllReadable) (name : String) : (scopes.bind name).AllReadable := by
  cases scopes with
  | nil => exact h
  | cons inner outer =>
    intro scope hs
    rcases List.mem_cons.mp hs with rfl | hs
    · intro other readable ho
      rw [Bindings.get?_insert, Bindings.get?_insert] at ho
      by_cases hn : name = other
      · rw [if_pos hn] at ho
        exact (Option.some.inj ho).symm
      · rw [if_neg hn, if_neg hn] at ho
        exact h inner List.mem_cons_self other readable ho
    · exact h scope (List.mem_cons_of_mem _ hs)

theorem bindAll (h : scopes.AllReadable) (names : List String) :
    (scopes.bindAll names).AllReadable := by
  induction names generalizing scopes with
  | nil => exact h
  | cons name names ih => exact ih (h.bind name)

theorem at?_eq_true (h : scopes.AllReadable) {d : Nat} {name : String} {readable : Bool}
    (ha : scopes.at? d name = some readable) : readable = true := by
  obtain ⟨scope, hs, hn⟩ := Option.bind_eq_some_iff.mp ha
  exact h scope (List.mem_of_getElem? hs) name readable hn

theorem tail (h : scopes.AllReadable) : AllReadable scopes.tail :=
  fun scope hs => h scope (List.mem_of_mem_tail hs)

theorem tail_declare (h : AllReadable scopes.tail) (name : String) :
    AllReadable (scopes.declare name).tail := by
  cases scopes with
  | nil => exact h
  | cons => exact h

end AllReadable

/-- What the methods of a class find around them: `this`, and in a subclass `super`, one scope
further out than a scope that binds `this`. -/
structure Sees (scopes : Scopes) (inClass : ClassContext) : Prop where
  this : inClass ≠ .none → ∃ d, scopes.distance? "this" = some d ∧ scopes.at? d "this" = some true
  super : inClass = .subclass → ∃ d, scopes.distance? "super" = some (d + 1) ∧
    scopes.at? (d + 1) "super" = some true ∧ scopes.at? d "this" = some true

namespace Sees

variable {scopes : Scopes} {inClass : ClassContext}

theorem nil : Sees [] .none := ⟨fun h => absurd rfl h, fun h => by cases h⟩

theorem push (h : scopes.Sees inClass) : Sees (∅ :: scopes) inClass where
  this hc := by
    obtain ⟨d, hd, ha⟩ := h.this hc
    exact ⟨d + 1, by simp [distance?_push, hd], ha⟩
  super hc := by
    obtain ⟨d, hd, ha, ht⟩ := h.super hc
    exact ⟨d + 1, by simp [distance?_push, hd], ha, ht⟩

theorem declare (h : scopes.Sees inClass) {n : Name} (hn : n.IsIdentifier) :
    (scopes.declare n.text).Sees inClass where
  this hc := by
    rw [distance?_declare_of_ne hn.ne_this]
    simpa only [at?_declare_of_ne hn.ne_this] using h.this hc
  super hc := by
    rw [distance?_declare_of_ne hn.ne_super]
    simpa only [at?_declare_of_ne hn.ne_this, at?_declare_of_ne hn.ne_super] using h.super hc

theorem bind (h : scopes.Sees inClass) {name : String} (ht : name ≠ "this") (hs : name ≠ "super") :
    (scopes.bind name).Sees inClass where
  this hc := by
    rw [distance?_bind_of_ne ht]
    simpa only [at?_bind_of_ne ht] using h.this hc
  super hc := by
    rw [distance?_bind_of_ne hs]
    simpa only [at?_bind_of_ne ht, at?_bind_of_ne hs] using h.super hc

theorem bindAll (h : scopes.Sees inClass) {names : List String}
    (hn : ∀ n ∈ names, n ≠ "this" ∧ n ≠ "super") : (scopes.bindAll names).Sees inClass := by
  induction names generalizing scopes with
  | nil => exact h
  | cons name names ih =>
    obtain ⟨ht, hs⟩ := hn name List.mem_cons_self
    exact ih (h.bind ht hs) fun n hm => hn n (List.mem_cons_of_mem _ hm)

/-- The scopes of the methods of a class, whatever is around the class. -/
theorem methodScopes (scopes : Scopes) (subclass : Bool) :
    (Lox.methodScopes scopes subclass).Sees (if subclass then .subclass else .class) where
  this _ := ⟨0, by simp [Lox.methodScopes, distance?_cons, Bindings.contains_insert], by
    simp [Lox.methodScopes]⟩
  super hc := by
    obtain rfl : subclass = true := by
      cases subclass
      · cases hc
      · rfl
    exact ⟨0, by simp [Lox.methodScopes, distance?_cons, Bindings.contains_insert], by
      simp [Lox.methodScopes], by simp [Lox.methodScopes]⟩

end Sees

end Scopes

theorem Scopes.AllReadable.methodScopes {scopes : Scopes} (h : scopes.AllReadable)
    (subclass : Bool) : (Lox.methodScopes scopes subclass).AllReadable := by
  cases subclass with
  | false => exact h.push.cons_insert "this"
  | true => exact (h.push.cons_insert "super").push.cons_insert "this"

/-! ## Sound visits -/

/-- A visit of an accepted program: the node finds a name that may be read. -/
def Visit.Sound (v : Visit) : Prop :=
  match v.reference.kind with
  | .variable => ∀ d, v.distance? = some d → v.scopes.at? d v.reference.name.text = some true
  | .assign => True
  | .this =>
    v.reference.name.text = "this" ∧ ∃ d, v.distance? = some d ∧ v.scopes.at? d "this" = some true
  | .super =>
    v.reference.name.text = "super" ∧ ∃ d, v.distance? = some (d + 1) ∧
      v.scopes.at? (d + 1) "super" = some true ∧ v.scopes.at? d "this" = some true

/-- A variable that is not read in its own initializer. -/
theorem Visit.sound_variable {context : Context} {scopes : Scopes} {id : NodeId} {name : Name}
    (ht : Scopes.AllReadable scopes.tail)
    (h : Finding.Clean ((Expr.variable id name).resolve context scopes)) :
    (⟨⟨.variable, id, name⟩, scopes⟩ : Visit).Sound := by
  intro d hd
  obtain ⟨readable, ha⟩ := Scopes.exists_at?_of_distance? hd
  refine ha.trans (congrArg some ?_)
  cases scopes with
  | nil => cases hd
  | cons inner outer =>
    cases d with
    | succ d => exact ht.at?_eq_true (d := d) ha
    | zero =>
      have hown : inOwnInitializer context (inner :: outer) name.text = false := by
        rw [Expr.resolve, Finding.clean_append] at h
        by_contra hown
        rw [Bool.not_eq_false] at hown
        rw [if_pos hown] at h
        exact Finding.not_clean_error _ h.1
      cases readable with
      | true => rfl
      | false =>
        have hf : inner.get? name.text = some false := ha
        simp [inOwnInitializer, hf] at hown

mutual

/-- An expression without errors has sound visits only. -/
theorem Expr.sound_visits {context : Context} {scopes : Scopes}
    (ht : Scopes.AllReadable scopes.tail) (hc : scopes.Sees context.inClass) :
    {e : Expr NodeId} → e.WellFormed → Finding.Clean (e.resolve context scopes) →
      ∀ v ∈ e.visits scopes, v.Sound
  | .literal _, _, _ => by simp [Expr.visits]
  | .group inner, hw, h => by
    rw [Expr.resolve] at h
    rw [Expr.visits]
    exact Expr.sound_visits ht hc (e := inner) hw h
  | .unary _ right, ⟨_, hw⟩, h => by
    rw [Expr.resolve] at h
    rw [Expr.visits]
    exact Expr.sound_visits ht hc hw h
  | .binary left _ right, ⟨_, hl, hr⟩, h => by
    rw [Expr.resolve, Finding.clean_append] at h
    rw [Expr.visits, List.forall_mem_append]
    exact ⟨Expr.sound_visits ht hc hl h.1, Expr.sound_visits ht hc hr h.2⟩
  | .logical left _ right, ⟨_, hl, hr⟩, h => by
    rw [Expr.resolve, Finding.clean_append] at h
    rw [Expr.visits, List.forall_mem_append]
    exact ⟨Expr.sound_visits ht hc hl h.1, Expr.sound_visits ht hc hr h.2⟩
  | .variable id name, _, h => by
    rw [Expr.visits, List.forall_mem_singleton]
    exact Visit.sound_variable ht h
  | .assign id name value, ⟨_, hv⟩, h => by
    rw [Expr.resolve, Finding.clean_append] at h
    rw [Expr.visits, List.forall_mem_append, List.forall_mem_singleton]
    exact ⟨Expr.sound_visits ht hc hv h.1, trivial⟩
  | .call callee _ arguments, ⟨hf, ha⟩, h => by
    rw [Expr.resolve, Finding.clean_append] at h
    rw [Expr.visits, List.forall_mem_append]
    exact ⟨Expr.sound_visits ht hc hf h.1, Expr.sound_visitsAll ht hc ha h.2⟩
  | .get object _, hw, h => by
    rw [Expr.resolve] at h
    rw [Expr.visits]
    exact Expr.sound_visits ht hc (e := object) hw h
  | .set object _ value, ⟨ho, hv⟩, h => by
    rw [Expr.resolve, Finding.clean_append] at h
    rw [Expr.visits, List.forall_mem_append]
    exact ⟨Expr.sound_visits ht hc hv h.1, Expr.sound_visits ht hc ho h.2⟩
  | .this id keyword, hw, h => by
    have hw : keyword.text = "this" := hw
    have hn : context.inClass ≠ .none := by
      intro hn
      rw [Expr.resolve, hn] at h
      exact Finding.not_clean_error _ h
    rw [Expr.visits, List.forall_mem_singleton]
    refine ⟨hw, ?_⟩
    simpa only [Visit.distance?, hw] using hc.this hn
  | .super id keyword method, hw, h => by
    have hw : keyword.text = "super" := hw
    have hs : context.inClass = .subclass := by
      rw [Expr.resolve, Finding.clean_append] at h
      cases hk : context.inClass with
      | subclass => rfl
      | _ =>
        rw [hk] at h
        exact absurd h.1 (Finding.not_clean_error _)
    rw [Expr.visits, List.forall_mem_singleton]
    refine ⟨hw, ?_⟩
    simpa only [Visit.distance?, hw] using hc.super hs

theorem Expr.sound_visitsAll {context : Context} {scopes : Scopes}
    (ht : Scopes.AllReadable scopes.tail) (hc : scopes.Sees context.inClass) :
    {es : List (Expr NodeId)} → Expr.WellFormedAll es →
      Finding.Clean (Expr.resolveAll context scopes es) → ∀ v ∈ Expr.visitsAll scopes es, v.Sound
  | [], _, _ => by simp [Expr.visitsAll]
  | e :: es, ⟨he, hes⟩, h => by
    rw [Expr.resolveAll, Finding.clean_append] at h
    rw [Expr.visitsAll, List.forall_mem_append]
    exact ⟨Expr.sound_visits ht hc he h.1, Expr.sound_visitsAll ht hc hes h.2⟩

end

theorem Expr.sound_visits? {context : Context} {scopes : Scopes}
    (ht : Scopes.AllReadable scopes.tail) (hc : scopes.Sees context.inClass) :
    {o : Option (Expr NodeId)} → Expr.WellFormed? o →
      Finding.Clean (Expr.resolve? context scopes o) → ∀ v ∈ Expr.visits? scopes o, v.Sound
  | none, _, _ => by simp [Expr.visits?]
  | some _, hw, h => Expr.sound_visits ht hc hw h

mutual

/-- A statement without errors has sound visits only. -/
theorem Stmt.sound_visits {context : Context} {scopes : Scopes} (ha : scopes.AllReadable)
    (hc : scopes.Sees context.inClass) :
    {s : Stmt NodeId} → s.WellFormed → Finding.Clean (s.resolve context scopes).2 →
      ∀ v ∈ s.visits scopes, v.Sound
  | .expression _, hw, h => by
    rw [Stmt.resolve] at h
    rw [Stmt.visits]
    exact Expr.sound_visits ha.tail hc hw h
  | .print _, hw, h => by
    rw [Stmt.resolve] at h
    rw [Stmt.visits]
    exact Expr.sound_visits ha.tail hc hw h
  | .var name initializer, ⟨hn, hi⟩, h => by
    rw [Stmt.resolve, Finding.clean_append] at h
    rw [Stmt.visits]
    refine Expr.sound_visits? (ha.tail.tail_declare name.text) ?_ hi h.2
    split <;> exact hc.declare hn
  | .block _, hw, h => by
    rw [Stmt.resolve] at h
    rw [Stmt.visits]
    exact Stmt.sound_visitsAll ha.push hc.push hw h
  | .ifElse _ _ _, ⟨hcond, ⟨hd, hthen⟩, helse⟩, h => by
    rw [Stmt.resolve_ifElse, Finding.clean_append, Finding.clean_append, Stmt.fst_resolve hthen, hd,
      Scopes.bindAll_nil] at h
    rw [Stmt.visits, List.forall_mem_append, List.forall_mem_append]
    exact ⟨⟨Expr.sound_visits ha.tail hc hcond h.1.1, Stmt.sound_visits ha hc hthen h.1.2⟩,
      Stmt.sound_visits? ha hc helse h.2⟩
  | .while _ _, ⟨hcond, _, hb⟩, h => by
    rw [Stmt.resolve_while, Finding.clean_append] at h
    rw [Stmt.visits, List.forall_mem_append]
    exact ⟨Expr.sound_visits ha.tail hc hcond h.1, Stmt.sound_visits ha hc hb h.2⟩
  | .function declaration, hw, h => by
    have hn := FunDecl.WellFormed.isIdentifier_name hw
    rw [Stmt.resolve, Finding.clean_append] at h
    rw [Stmt.visits]
    refine FunDecl.sound_visits (ha.bind _) ?_ hw h.2
    exact hc.bind hn.ne_this hn.ne_super
  | .return _ _, hw, h => by
    rw [Stmt.resolve, Finding.clean_append] at h
    rw [Stmt.visits]
    exact Expr.sound_visits? ha.tail hc hw h.2
  | .class name superclass methods, ⟨_, hs, hm⟩, h => by
    simp only [Stmt.resolve, Finding.clean_append] at h
    rw [Stmt.visits, List.forall_mem_append]
    have ha' := ha.bind name.text
    constructor
    · cases superclass with
      | none => simp [Expr.visits?]
      | some e =>
        obtain ⟨id, own, rfl, -⟩ := (hs e rfl).exists_eq
        rw [Expr.visits?, Expr.visits, List.forall_mem_singleton]
        have h := h.1.2
        rw [Finding.clean_append] at h
        exact Visit.sound_variable ha'.tail h.2
    · refine FunDecl.sound_visitsAll (ha'.methodScopes _) ?_ hm h.2
      exact Scopes.Sees.methodScopes _ _

theorem Stmt.sound_visits? {context : Context} {scopes : Scopes} (ha : scopes.AllReadable)
    (hc : scopes.Sees context.inClass) :
    {o : Option (Stmt NodeId)} → Stmt.WellFormed? o →
      Finding.Clean (Stmt.resolve? context scopes o).2 → ∀ v ∈ Stmt.visits? scopes o, v.Sound
  | none, _, _ => by simp [Stmt.visits?]
  | some _, hw, h => by
    rw [Stmt.resolve?] at h
    rw [Stmt.visits?]
    exact Stmt.sound_visits ha hc hw.2 h

theorem Stmt.sound_visitsAll {context : Context} {scopes : Scopes} (ha : scopes.AllReadable)
    (hc : scopes.Sees context.inClass) :
    {ss : List (Stmt NodeId)} → Stmt.WellFormedAll ss →
      Finding.Clean (Stmt.resolveAll context scopes ss).2 → ∀ v ∈ Stmt.visitsAll scopes ss, v.Sound
  | [], _, _ => by simp [Stmt.visitsAll]
  | s :: ss, ⟨hs, hss⟩, h => by
    rw [Stmt.resolveAll_cons, Finding.clean_append, Stmt.fst_resolve hs] at h
    rw [Stmt.visitsAll, List.forall_mem_append]
    exact ⟨Stmt.sound_visits ha hc hs h.1,
      Stmt.sound_visitsAll (ha.bindAll _) (hc.bindAll hs.ne_of_mem_declares) hss h.2⟩

theorem FunDecl.sound_visits {context : Context} {scopes : Scopes} (ha : scopes.AllReadable)
    (hc : scopes.Sees context.inClass) :
    {f : FunDecl NodeId} → f.WellFormed → Finding.Clean (f.resolve context scopes) →
      ∀ v ∈ f.visits scopes, v.Sound
  | .mk _ params _, hw, h => by
    rw [FunDecl.resolve_mk, Finding.clean_append, fst_resolveParams] at h
    rw [FunDecl.visits]
    exact Stmt.sound_visitsAll (ha.push.bindAll _) (hc.push.bindAll hw.ne_of_mem_params) hw.2.2 h.2

theorem FunDecl.sound_visitsAll {context : Context} {scopes : Scopes} (ha : scopes.AllReadable)
    (hc : scopes.Sees context.inClass) :
    {fs : List (FunDecl NodeId)} → FunDecl.WellFormedAll fs →
      Finding.Clean (FunDecl.resolveMethods context scopes fs) →
      ∀ v ∈ FunDecl.visitsAll scopes fs, v.Sound
  | [], _, _ => by simp [FunDecl.visitsAll]
  | f :: _, ⟨hf, hfs⟩, h => by
    rw [FunDecl.resolveMethods, Finding.clean_append] at h
    rw [FunDecl.visitsAll, List.forall_mem_append]
    refine ⟨FunDecl.sound_visits ha ?_ hf h.1, FunDecl.sound_visitsAll ha hc hfs h.2⟩
    exact hc

end

/-! ## Superclasses -/

/-- The superclass of a class is a variable with another name. -/
def Expr.IsOther (name : Name) (e : Expr NodeId) : Prop :=
  ∃ id superclass, e = .variable id superclass ∧ superclass.text ≠ name.text

mutual

/-- No class inherits from itself. -/
def Stmt.Grounded : Stmt NodeId → Prop
  | .block body => Stmt.GroundedAll body
  | .ifElse _ thenBranch elseBranch => thenBranch.Grounded ∧ Stmt.Grounded? elseBranch
  | .while _ body => body.Grounded
  | .function declaration => declaration.Grounded
  | .class name superclass methods =>
    (∀ e ∈ superclass, e.IsOther name) ∧ FunDecl.GroundedAll methods
  | .expression _ | .print _ | .var _ _ | .return _ _ => True

/-- No class in a branch inherits from itself. -/
def Stmt.Grounded? : Option (Stmt NodeId) → Prop
  | none => True
  | some s => s.Grounded

/-- No class in several statements inherits from itself. -/
def Stmt.GroundedAll : List (Stmt NodeId) → Prop
  | [] => True
  | s :: ss => s.Grounded ∧ Stmt.GroundedAll ss

/-- No class in a function inherits from itself. -/
def FunDecl.Grounded : FunDecl NodeId → Prop
  | .mk _ _ body => Stmt.GroundedAll body

/-- No class in several functions inherits from itself. -/
def FunDecl.GroundedAll : List (FunDecl NodeId) → Prop
  | [] => True
  | f :: fs => f.Grounded ∧ FunDecl.GroundedAll fs

end

mutual

/-- In a statement without errors no class inherits from itself. -/
theorem Stmt.grounded_of_clean {context : Context} {scopes : Scopes} :
    {s : Stmt NodeId} → s.WellFormed → Finding.Clean (s.resolve context scopes).2 → s.Grounded
  | .expression _, _, _ => by rw [Stmt.Grounded]; trivial
  | .print _, _, _ => by rw [Stmt.Grounded]; trivial
  | .var _ _, _, _ => by rw [Stmt.Grounded]; trivial
  | .return _ _, _, _ => by rw [Stmt.Grounded]; trivial
  | .block _, hw, h => by
    rw [Stmt.resolve] at h
    rw [Stmt.Grounded]
    exact Stmt.groundedAll_of_clean hw h
  | .ifElse _ _ _, ⟨_, ⟨_, hthen⟩, helse⟩, h => by
    rw [Stmt.resolve_ifElse, Finding.clean_append, Finding.clean_append] at h
    rw [Stmt.Grounded]
    exact ⟨Stmt.grounded_of_clean hthen h.1.2, Stmt.grounded?_of_clean helse h.2⟩
  | .while _ _, ⟨_, _, hb⟩, h => by
    rw [Stmt.resolve_while, Finding.clean_append] at h
    rw [Stmt.Grounded]
    exact Stmt.grounded_of_clean hb h.2
  | .function _, hw, h => by
    rw [Stmt.resolve, Finding.clean_append] at h
    rw [Stmt.Grounded]
    exact FunDecl.grounded_of_clean hw h.2
  | .class name superclass _, ⟨_, hs, hm⟩, h => by
    simp only [Stmt.resolve, Finding.clean_append] at h
    rw [Stmt.Grounded]
    refine ⟨fun e he => ?_, FunDecl.groundedAll_of_clean hm h.2⟩
    obtain ⟨id, own, rfl, -⟩ := (hs e he).exists_eq
    refine ⟨id, own, rfl, fun heq => ?_⟩
    obtain rfl : superclass = some (.variable id own) := he
    have h := h.1.2
    rw [Finding.clean_append, superclassFindings, if_pos heq] at h
    exact Finding.not_clean_error _ h.1

theorem Stmt.grounded?_of_clean {context : Context} {scopes : Scopes} :
    {o : Option (Stmt NodeId)} → Stmt.WellFormed? o →
      Finding.Clean (Stmt.resolve? context scopes o).2 → Stmt.Grounded? o
  | none, _, _ => by rw [Stmt.Grounded?]; trivial
  | some _, hw, h => by
    rw [Stmt.resolve?] at h
    rw [Stmt.Grounded?]
    exact Stmt.grounded_of_clean hw.2 h

theorem Stmt.groundedAll_of_clean {context : Context} {scopes : Scopes} :
    {ss : List (Stmt NodeId)} → Stmt.WellFormedAll ss →
      Finding.Clean (Stmt.resolveAll context scopes ss).2 → Stmt.GroundedAll ss
  | [], _, _ => by rw [Stmt.GroundedAll]; trivial
  | _ :: _, ⟨hs, hss⟩, h => by
    rw [Stmt.resolveAll_cons, Finding.clean_append] at h
    rw [Stmt.GroundedAll]
    exact ⟨Stmt.grounded_of_clean hs h.1, Stmt.groundedAll_of_clean hss h.2⟩

theorem FunDecl.grounded_of_clean {context : Context} {scopes : Scopes} :
    {f : FunDecl NodeId} → f.WellFormed → Finding.Clean (f.resolve context scopes) → f.Grounded
  | .mk _ _ _, hw, h => by
    rw [FunDecl.resolve_mk, Finding.clean_append] at h
    rw [FunDecl.Grounded]
    exact Stmt.groundedAll_of_clean hw.2.2 h.2

theorem FunDecl.groundedAll_of_clean {context : Context} {scopes : Scopes} :
    {fs : List (FunDecl NodeId)} → FunDecl.WellFormedAll fs →
      Finding.Clean (FunDecl.resolveMethods context scopes fs) → FunDecl.GroundedAll fs
  | [], _, _ => by rw [FunDecl.GroundedAll]; trivial
  | _ :: _, ⟨hf, hfs⟩, h => by
    rw [FunDecl.resolveMethods, Finding.clean_append] at h
    rw [FunDecl.GroundedAll]
    exact ⟨FunDecl.grounded_of_clean hf h.1, FunDecl.groundedAll_of_clean hfs h.2⟩

end

/-! ## Programs -/

/-- A program without errors has sound visits only. -/
theorem sound_visits_of_errors_eq_nil {program : List (Stmt NodeId)}
    (hw : Stmt.WellFormedAll program) (h : (resolve program).errors = []) :
    ∀ v ∈ Stmt.visitsAll [] program, v.Sound :=
  Stmt.sound_visitsAll .nil .nil hw (Finding.clean_iff_errors_eq_nil.mpr h)

/-- In a program without errors no class inherits from itself. -/
theorem groundedAll_of_errors_eq_nil {program : List (Stmt NodeId)}
    (hw : Stmt.WellFormedAll program) (h : (resolve program).errors = []) :
    Stmt.GroundedAll program :=
  Stmt.groundedAll_of_clean hw (Finding.clean_iff_errors_eq_nil.mpr h)

end Lox
