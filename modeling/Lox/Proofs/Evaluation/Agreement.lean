import Lox.Proofs.Evaluation.Plans
import Lox.Proofs.Evaluation.WellScoped

/-!
# The walk and the evaluator agree on scopes

`Visit.Fits` says of a node and a frame what the walk of `resolve` foresaw when
it visited the node: there are as many frames as there were scopes, the frame
`d` steps out is there if the walk found the name `d` scopes out, and it binds
the name unless the node is an assignment. The contract `scoping` asks this of
every expression that is evaluated. The evaluator keeps it, whatever it runs:
functions long after the scope that declared them is left, methods of any
class, code of any earlier program.

* `Task.InScope`: what a task relies on;
* `scoping_kept`: every plan keeps the contract;
* an undefined variable is raised only by a variable or an assignment for which
  the walk found no scope, and which the globals do not bind (`Task.Raises`).
-/

namespace Lox

/-! ## What the walk foresaw -/

/-- The frames from `f` outward are as the walk foresaw them for a node. -/
structure Visit.Fits (s : Store) (f : FrameId) (v : Visit) : Prop where
  frames : s.HasLocalFrames f v.scopes.length
  ancestor {d : Nat} : v.distance? = some d → (s.ancestor? f d).isSome
  reads {d : Nat} : v.reference.kind ≠ .assign → v.distance? = some d →
    (s.getAt f d v.reference.name.text).isSome
  receiver {d : Nat} : v.reference.kind = .super → v.distance? = some d →
    (s.getAt f (d - 1) "this").isSome

/-- What a setting knows of visits: they come from accepted programs, and the distances are those
that the walk found. -/
structure Setting.Knows (s : Setting) (vs : List Visit) : Prop where
  sound : ∀ v ∈ vs, v.Sound
  distance? : ∀ v ∈ vs, s.distance? v.reference.id = v.distance?

namespace Scopes

theorem lt_length_of_distance? {scopes : Scopes} {name : String} {d : Nat}
    (h : scopes.distance? name = some d) : d < scopes.length :=
  (List.findIdx?_eq_some_iff_findIdx_eq.mp h).1

@[simp] theorem length_bind (scopes : Scopes) (name : String) :
    (scopes.bind name).length = scopes.length := by
  cases scopes <;> rfl

end Scopes

section

variable {vs : List Visit} {store : Store} {f : FrameId}

theorem Visit.Fits.grow {s' : Store} (hg : store.Grows s') {v : Visit} (h : v.Fits store f) :
    v.Fits s' f where
  frames := h.frames.grow hg
  ancestor hd := by
    obtain ⟨g, ha⟩ := Option.isSome_iff_exists.mp (h.ancestor hd)
    simp [hg.ancestor? ha]
  reads hk hd := hg.getAt (h.reads hk hd)
  receiver hk hd := hg.getAt (h.receiver hk hd)

/-- In the frames of its scopes, a sound visit is as the walk foresaw it. -/
theorem Visit.fits_of_chain (hw : store.WellScoped vs) {v : Visit} (hs : v.Sound)
    (hc : store.Chain f v.scopes) : v.Fits store f where
  frames := hc.hasLocalFrames hw.enclosing_globals
  ancestor hd := by
    obtain ⟨g, ha, -⟩ := hc.ancestor (Scopes.lt_length_of_distance? hd)
    simp [ha]
  reads {d} hk hd := by
    obtain ⟨⟨kind, id, name⟩, scopes⟩ := v
    cases kind with
    | «variable» => exact hc.getAt (hs d hd)
    | assign => exact absurd rfl hk
    | this =>
      obtain ⟨hn, d', hd', ha⟩ := hs
      obtain rfl : d' = d := Option.some.inj (hd'.symm.trans hd)
      exact hn ▸ hc.getAt ha
    | super =>
      obtain ⟨hn, d', hd', ha, -⟩ := hs
      obtain rfl : d' + 1 = d := Option.some.inj (hd'.symm.trans hd)
      exact hn ▸ hc.getAt ha
  receiver {d} hk hd := by
    obtain ⟨⟨kind, id, name⟩, scopes⟩ := v
    obtain rfl : kind = .super := hk
    obtain ⟨-, d', hd', -, ht⟩ := hs
    obtain rfl : d' + 1 = d := Option.some.inj (hd'.symm.trans hd)
    exact hc.getAt ht

/-- A superclass is evaluated before the name of its class is bound, but it has another name. -/
theorem Visit.fits_superclass (hw : store.WellScoped vs) {scopes : Scopes}
    (hc : store.Chain f scopes) {id : NodeId} {name superclass : Name}
    (hne : superclass.text ≠ name.text)
    (hs : (⟨⟨.variable, id, superclass⟩, scopes.bind name.text⟩ : Visit).Sound) :
    (⟨⟨.variable, id, superclass⟩, scopes.bind name.text⟩ : Visit).Fits store f := by
  have hs' : (⟨⟨.variable, id, superclass⟩, scopes⟩ : Visit).Sound := by
    intro d hd
    have hd' := (Scopes.distance?_bind_of_ne (Ne.symm hne) scopes).trans hd
    exact (Scopes.at?_bind_of_ne (Ne.symm hne) scopes d).symm.trans (hs d hd')
  have h := Visit.fits_of_chain hw hs' hc
  have hd {d : Nat} (hd : (scopes.bind name.text).distance? superclass.text = some d) :
      scopes.distance? superclass.text = some d :=
    (Scopes.distance?_bind_of_ne (Ne.symm hne) scopes).symm.trans hd
  exact ⟨by simpa using h.frames, fun e => h.ancestor (hd e), fun hk e => h.reads hk (hd e),
    fun hk => by cases hk⟩

/-! ## The contract -/

/-- The reference that an expression makes by itself. -/
def Expr.reference? : Expr NodeId → Option Reference
  | .variable id name => some ⟨.variable, id, name⟩
  | .assign id name _ => some ⟨.assign, id, name⟩
  | .this id keyword => some ⟨.this, id, keyword⟩
  | .super id keyword _ => some ⟨.super, id, keyword⟩
  | _ => none

/-- Every one of these references was visited, and the frames are as the walk foresaw them. -/
def Foreseen (vs : List Visit) (m : Machine) (rs : List Reference) : Prop :=
  ∀ r ∈ rs, ∃ v ∈ vs, v.reference = r ∧ v.Fits m.store m.environment

/-- What a task relies on: the frames are those of the scopes in which its code was visited. -/
def Task.InScope (vs : List Visit) : Task → Machine → Prop
  | .evaluate e, m => Foreseen vs m e.references
  | .evaluateAll es, m => Foreseen vs m (Expr.referencesAll es)
  | .call _ _ _, _ => True
  | .enter f arguments _, m =>
    f.InScope vs m.store ∧ arguments.length = f.declaration.params.length
  | .execute statement, m =>
    statement.Grounded ∧
      ∃ scopes, m.store.Chain m.environment scopes ∧ statement.visits scopes ⊆ vs
  | .executeAll statements, m =>
    Stmt.GroundedAll statements ∧
      ∃ scopes, m.store.Chain m.environment scopes ∧ Stmt.visitsAll scopes statements ⊆ vs
  | .loop condition body, m =>
    Foreseen vs m condition.references ∧ body.Grounded ∧
      ∃ scopes, m.store.Chain m.environment scopes ∧ body.visits scopes ⊆ vs

/-- A statement has bound the names that it declares. -/
def Task.Declares : Task → Machine → Prop
  | .execute statement, m =>
    ∀ name ∈ statement.declares, (m.store.own? m.environment name).isSome
  | _, _ => True

/-- A task that fails by itself because a variable is undefined looks it up in the globals, where it
is not bound: it is a variable or an assignment for which there is no distance. -/
def Task.Raises (s : Setting) (t : Task) (failure : Failure) (m : Machine) : Prop :=
  ∀ name line, failure = .fault (.undefinedVariable name) line →
    ∃ e r, t = .evaluate e ∧ e.reference? = some r ∧ (r.kind = .variable ∨ r.kind = .assign) ∧
      r.name = ⟨name, line⟩ ∧ s.distance? r.id = none ∧ m.store.own? .globals name = none

/-- What holds when a task starts in the frames of its scopes, and when it ends. -/
def scoping (vs : List Visit) (s : Setting) : Contract where
  pre t m := m.store.WellScoped vs ∧ t.InScope vs m
  done t m _ m' := m.Keeps vs m' ∧ t.Declares m'
  failed _ m m' := m.Keeps vs m'
  raised t _ failure m' := t.Raises s failure m'

/-! ## References that were foreseen -/

theorem Foreseen.keeps {m m' : Machine} (hk : m.Keeps vs m') {rs : List Reference}
    (h : Foreseen vs m rs) : Foreseen vs m' rs := by
  intro r hr
  obtain ⟨v, hv, rfl, hf⟩ := h r hr
  refine ⟨v, hv, rfl, ?_⟩
  rw [hk.environment]
  exact hf.grow hk.grows

theorem foreseen_append {m : Machine} {rs rs' : List Reference} :
    Foreseen vs m (rs ++ rs') ↔ Foreseen vs m rs ∧ Foreseen vs m rs' :=
  List.forall_mem_append

variable {s : Setting}

/-- The references of an expression that was visited in the current scopes. -/
theorem Setting.Knows.foreseen (hk : s.Knows vs) {m : Machine} (hw : m.store.WellScoped vs)
    {scopes : Scopes} (hc : m.store.Chain m.environment scopes) {e : Expr NodeId}
    (hv : e.visits scopes ⊆ vs) : Foreseen vs m e.references := by
  intro r hr
  have hm : ⟨r, scopes⟩ ∈ vs := hv (Expr.mem_visits_iff.mpr ⟨hr, rfl⟩)
  exact ⟨_, hm, rfl, Visit.fits_of_chain hw (hk.sound _ hm) hc⟩

/-- The superclass of a class that was visited in the current scopes. -/
theorem Setting.Knows.foreseen_superclass (hk : s.Knows vs) {m : Machine}
    (hw : m.store.WellScoped vs) {scopes : Scopes} (hc : m.store.Chain m.environment scopes)
    {name : Name} {e : Expr NodeId} (he : e.IsOther name)
    (hv : e.visits (scopes.bind name.text) ⊆ vs) : Foreseen vs m e.references := by
  obtain ⟨id, superclass, rfl, hne⟩ := he
  intro r hr
  obtain rfl : r = ⟨.variable, id, superclass⟩ := List.mem_singleton.mp hr
  have hm : ⟨⟨.variable, id, superclass⟩, scopes.bind name.text⟩ ∈ vs :=
    hv (Expr.mem_visits_iff.mpr ⟨hr, rfl⟩)
  exact ⟨_, hm, rfl, Visit.fits_superclass hw hc hne (hk.sound _ hm)⟩

/-- The reference that an expression makes by itself is one of its references. -/
theorem Expr.mem_references_of_reference? {e : Expr NodeId} {r : Reference}
    (h : e.reference? = some r) : r ∈ e.references := by
  cases e with
  | «variable» | assign | this | super =>
    obtain rfl := Option.some.inj h
    exact List.mem_cons_self
  | _ => cases h

/-! ## What the evaluator does by itself -/

section

variable {m m' : Machine} {t : Task}

/-- A fault that is no undefined variable. -/
theorem meets_fault (hm : m.Keeps vs m') {cause : RuntimeFault}
    (hc : ∀ name, cause ≠ .undefinedVariable name) (line : Nat) :
    (scoping vs s).Meets t m (.finish (m'.fault cause line)) := by
  refine ⟨hm, fun name line' h => ?_⟩
  injection h with h _
  exact absurd h (hc name)

/-- A task that starts another one stays in its frame, and goes on from what that one kept. -/
theorem meets_start (u : Task) (h : m.Keeps vs m') (hu : u.InScope vs m')
    {resume : u.Answer → Machine → Plan t.Answer}
    (hresume : ∀ a m'', m.Keeps vs m'' → u.Declares m'' →
      (scoping vs s).Meets t m (resume a m'')) :
    (scoping vs s).Meets t m (.start u m' .stay resume) :=
  ⟨⟨h.wellScoped, hu⟩, fun a m'' hd => hresume a m'' (h.trans hd.1) hd.2,
    fun _ hf => h.trans hf⟩

theorem applyUnary_ne_undefinedVariable {operator : Token} {right : Value} {cause : RuntimeFault}
    (h : applyUnary operator right = .error cause) (name : String) :
    cause ≠ .undefinedVariable name := by
  rintro rfl
  unfold applyUnary at h
  split at h
  · cases h
  · split at h <;> cases h
  · cases h

theorem onNumbers_ne_undefinedVariable {f : Float → Float → Value} {left right : Value}
    {cause : RuntimeFault} (h : onNumbers f left right = .error cause) (name : String) :
    cause ≠ .undefinedVariable name := by
  rintro rfl
  unfold onNumbers at h
  split at h <;> cases h

theorem applyBinary_ne_undefinedVariable {operator : Token} {left right : Value}
    {cause : RuntimeFault} (h : applyBinary operator left right = .error cause) (name : String) :
    cause ≠ .undefinedVariable name := by
  intro hcause
  unfold applyBinary at h
  split at h
  case h_1 =>
    subst hcause
    split at h <;> cases h
  all_goals
    first
    | exact onNumbers_ne_undefinedVariable h name hcause
    | (subst hcause; cases h)

theorem meets_settle {e : Expr NodeId} (hm : m.Keeps vs m') (line : Nat)
    {result : Except RuntimeFault Value}
    (hr : ∀ cause, result = .error cause → ∀ name, cause ≠ .undefinedVariable name) :
    (scoping vs s).Meets (.evaluate e) m (.finish (m'.settle line result)) := by
  cases result with
  | ok value => exact ⟨hm, trivial⟩
  | error cause => exact meets_fault hm (hr cause rfl) line

/-- What was foreseen of the reference that an expression makes by itself. -/
theorem exists_visit_of_reference? (hk : s.Knows vs) {e : Expr NodeId}
    (hf : Foreseen vs m e.references) {r : Reference} (hr : e.reference? = some r) :
    ∃ v : Visit, v.reference = r ∧ v.Sound ∧ v.Fits m.store m.environment ∧
      s.distance? r.id = v.distance? := by
  obtain ⟨v, hv, rfl, hfits⟩ := hf r (Expr.mem_references_of_reference? hr)
  exact ⟨v, rfl, hk.sound v hv, hfits, hk.distance? v hv⟩

theorem meets_readVariable (hk : s.Knows vs) (hw : m.store.WellScoped vs) {e : Expr NodeId}
    (hf : Foreseen vs m e.references) {kind : ReferenceKind} {id : NodeId} {name : Name}
    (hr : e.reference? = some ⟨kind, id, name⟩) (hkind : kind = .variable ∨ kind = .this) :
    (scoping vs s).Meets (.evaluate e) m (.finish (readVariable s id name m)) := by
  obtain ⟨v, hv, hs, hfits, hd⟩ := exists_visit_of_reference? hk hf hr
  have hd : s.distance? id = v.distance? := hd
  have hna : v.reference.kind ≠ .assign := by
    rw [hv]
    rcases hkind with rfl | rfl <;> intro h <;> cases h
  unfold readVariable
  rw [hd]
  cases hdist : v.distance? with
  | some d =>
    have hread := hfits.reads hna hdist
    rw [hv] at hread
    obtain ⟨value, hvalue⟩ := Option.isSome_iff_exists.mp hread
    simp only [hvalue]
    exact ⟨.refl hw, trivial⟩
  | none =>
    simp only [hw.get_globals]
    cases hown : m.store.own? .globals name.text with
    | some value => exact ⟨.refl hw, trivial⟩
    | none =>
      refine ⟨.refl hw, fun x line h => ?_⟩
      injection h with h hline
      injection h with hx
      subst hx hline
      refine ⟨e, _, rfl, hr, ?_, rfl, hd.trans hdist, hown⟩
      rcases hkind with rfl | rfl
      · exact .inl rfl
      · unfold Visit.Sound at hs
        rw [hv] at hs
        obtain ⟨-, d, hd', -⟩ := hs
        rw [hdist] at hd'
        cases hd'

theorem meets_writeVariable (hk : s.Knows vs) {e : Expr NodeId} (hm : m.Keeps vs m')
    (hf : Foreseen vs m' e.references) {id : NodeId} {name : Name}
    (hr : e.reference? = some ⟨.assign, id, name⟩) (value : Value) :
    (scoping vs s).Meets (.evaluate e) m (.finish (writeVariable s id name value m')) := by
  obtain ⟨v, hv, -, hfits, hd⟩ := exists_visit_of_reference? hk hf hr
  have hd : s.distance? id = v.distance? := hd
  have hw := hm.wellScoped
  have hdefine (f : FrameId) :
      m.Keeps vs { m' with store := m'.store.define f name.text value } :=
    hm.trans ⟨hw.define _ _ _, .define _ _ _ _, rfl, rfl⟩
  unfold writeVariable
  rw [hd]
  cases hdist : v.distance? with
  | some d =>
    obtain ⟨f, hf⟩ := Option.isSome_iff_exists.mp (hfits.ancestor hdist)
    simp only [hf]
    exact ⟨hdefine f, trivial⟩
  | none =>
    simp only [hw.binder?_globals]
    cases hown : m'.store.own? .globals name.text with
    | some _ => exact ⟨hdefine .globals, trivial⟩
    | none =>
      refine ⟨hm, fun x line h => ?_⟩
      injection h with h hline
      injection h with hx
      subst hx hline
      exact ⟨e, _, rfl, hr, .inr rfl, rfl, hd.trans hdist, hown⟩

theorem meets_bound {e : Expr NodeId} (hm : m.Keeps vs m') {method : FunctionObject}
    (hmethod : method.MethodInScope vs m'.store) (receiver : InstanceId) :
    (scoping vs s).Meets (.evaluate e) m (.finish (bound method receiver m')) := by
  obtain ⟨value, m'', he, hk⟩ := Machine.Keeps.bound hm.wellScoped hmethod receiver
  rw [he]
  exact ⟨hm.trans hk, trivial⟩

theorem meets_readProperty {e : Expr NodeId} (hm : m.Keeps vs m') (object : Value) (name : Name) :
    (scoping vs s).Meets (.evaluate e) m (.finish (readProperty object name m')) := by
  cases object with
  | «instance» id =>
    cases hi : m'.store.instance? id with
    | none =>
      simp only [readProperty, hi]
      exact meets_fault hm (fun _ h => by cases h) _
    | some i =>
      simp only [readProperty, hi]
      cases i.fields.get? name.text with
      | some value => exact ⟨hm, trivial⟩
      | none =>
        cases hf : m'.store.findMethod i.class name.text with
        | none => exact meets_fault hm (fun _ h => by cases h) _
        | some method => exact meets_bound hm (hm.wellScoped.inScope_findMethod hf) id
  | _ => exact meets_fault hm (fun _ h => by cases h) _

theorem meets_readSuper (hk : s.Knows vs) (hw : m.store.WellScoped vs) {id : NodeId}
    {keyword method : Name} (hf : Foreseen vs m (Expr.super id keyword method).references) :
    (scoping vs s).Meets (.evaluate (.super id keyword method)) m
      (.finish (readSuper s id keyword method m)) := by
  obtain ⟨v, hv, hs, hfits, hd⟩ := exists_visit_of_reference? hk hf rfl
  have hd : s.distance? id = v.distance? := hd
  have hm : m.Keeps vs m := .refl hw
  unfold Visit.Sound at hs
  rw [hv] at hs
  obtain ⟨-, d, hdist, -⟩ := hs
  have hsuper := hfits.reads (by rw [hv]; intro h; cases h) hdist
  rw [hv] at hsuper
  obtain ⟨superclass, hsuper⟩ := Option.isSome_iff_exists.mp hsuper
  obtain ⟨receiver, hthis⟩ := Option.isSome_iff_exists.mp (hfits.receiver (by rw [hv]) hdist)
  unfold readSuper
  simp only [hd, hdist, hsuper, hthis]
  split
  · split
    · next hf => exact meets_bound hm (hw.inScope_findMethod hf) _
    · exact meets_fault hm (fun _ h => by cases h) _
  · exact meets_fault hm (fun _ h => by cases h) _

/-! ## Plans keep the contract -/

theorem Expr.meets_plan (hk : s.Knows vs) (e : Expr NodeId) (hw : m.store.WellScoped vs)
    (hf : Foreseen vs m e.references) : (scoping vs s).Meets (.evaluate e) m (e.plan s m) := by
  have hm : m.Keeps vs m := .refl hw
  cases e with
  | literal value => exact ⟨hm, trivial⟩
  | group inner => exact meets_start (.evaluate inner) hm hf fun a m₁ h₁ _ => ⟨h₁, trivial⟩
  | unary operator right =>
    exact meets_start (.evaluate right) hm hf fun a m₁ h₁ _ =>
      meets_settle h₁ _ fun _ he => applyUnary_ne_undefinedVariable he
  | binary left operator right =>
    obtain ⟨hl, hr⟩ := foreseen_append.mp hf
    refine meets_start (.evaluate left) hm hl fun a m₁ h₁ _ => ?_
    exact meets_start (.evaluate right) h₁ (hr.keeps h₁) fun b m₂ h₂ _ =>
      meets_settle h₂ _ fun _ he => applyBinary_ne_undefinedVariable he
  | logical left operator right =>
    obtain ⟨hl, hr⟩ := foreseen_append.mp hf
    refine meets_start (.evaluate left) hm hl fun a m₁ h₁ _ => ?_
    split
    · exact ⟨h₁, trivial⟩
    · exact meets_start (.evaluate right) h₁ (hr.keeps h₁) fun b m₂ h₂ _ => ⟨h₂, trivial⟩
  | «variable» id name => exact meets_readVariable hk hw hf rfl (.inl rfl)
  | this id keyword => exact meets_readVariable hk hw hf rfl (.inr rfl)
  | super id keyword method => exact meets_readSuper hk hw hf
  | assign id name value =>
    have hv : Foreseen vs m value.references := fun r hr => hf r (List.mem_cons_of_mem _ hr)
    exact meets_start (.evaluate value) hm hv fun a m₁ h₁ _ => meets_writeVariable hk h₁ (hf.keeps h₁) rfl a
  | call callee line arguments =>
    obtain ⟨hc, ha⟩ := foreseen_append.mp hf
    refine meets_start (.evaluate callee) hm hc fun a m₁ h₁ _ => ?_
    refine meets_start (.evaluateAll arguments) h₁ (ha.keeps h₁) fun as m₂ h₂ _ => ?_
    exact meets_start (.call a as line) h₂ trivial fun b m₃ h₃ _ => ⟨h₃, trivial⟩
  | get object name =>
    exact meets_start (.evaluate object) hm hf fun a m₁ h₁ _ => meets_readProperty h₁ a name
  | set object name value =>
    obtain ⟨ho, hv⟩ := foreseen_append.mp hf
    refine meets_start (.evaluate object) hm ho fun a m₁ h₁ _ => ?_
    cases a with
    | «instance» id =>
      refine meets_start (.evaluate value) h₁ (hv.keeps h₁) fun b m₂ h₂ _ => ⟨h₂.trans ?_, trivial⟩
      exact ⟨h₂.wellScoped.setField _ _ _, .setField _ _ _ _, rfl, rfl⟩
    | _ => exact meets_fault h₁ (fun _ h => by cases h) _

theorem Expr.meets_planAll (es : List (Expr NodeId)) (hw : m.store.WellScoped vs)
    (hf : Foreseen vs m (Expr.referencesAll es)) :
    (scoping vs s).Meets (.evaluateAll es) m (Expr.planAll es m) := by
  have hm : m.Keeps vs m := .refl hw
  cases es with
  | nil => exact ⟨hm, trivial⟩
  | cons e es =>
    obtain ⟨he, hes⟩ := foreseen_append.mp hf
    refine meets_start (.evaluate e) hm he fun a m₁ h₁ _ => ?_
    exact meets_start (.evaluateAll es) h₁ (hes.keeps h₁) fun as m₂ h₂ _ => ⟨h₂, trivial⟩

/-- Looking up a method does not depend on the instances. -/
theorem Store.findMethod_addInstance (store : Store) (i : InstanceObject) (id : ClassId)
    (name : String) : (store.addInstance i).2.findMethod id name = store.findMethod id name := by
  have hclass (c : ClassId) : (store.addInstance i).2.class? c = store.class? c := rfl
  exact findMethod_of_class?_eq hclass id name

theorem Value.meets_callPlan (callee : Value) (arguments : List Value) (line : Nat)
    (hw : m.store.WellScoped vs) :
    (scoping vs s).Meets (.call callee arguments line) m (callee.callPlan arguments line m) := by
  have hm : m.Keeps vs m := .refl hw
  cases callee with
  | function id =>
    cases hf : m.store.function? id with
    | none =>
      simp only [callPlan, callRule, hf]
      exact meets_fault hm (fun _ h => by cases h) _
    | some f =>
      simp only [callPlan, callRule, hf]
      split
      · next ha =>
        exact meets_start (.enter f arguments line) hm ⟨hw.function hf, ha⟩ fun a m₁ h₁ _ => ⟨h₁, trivial⟩
      · exact meets_fault hm (fun _ h => by cases h) _
  | «class» id =>
    rw [callPlan, callRule]
    split
    · next ha =>
      have hi : m.Keeps vs { m with store := (m.store.addInstance ⟨id, ∅⟩).2 } :=
        ⟨hw.addInstance _, .addInstance _ _, rfl, rfl⟩
      have hfind := m.store.findMethod_addInstance ⟨id, ∅⟩ id initializerName
      cases hf : m.store.findMethod id initializerName with
      | none =>
        simp only [hfind, hf]
        exact ⟨hi, trivial⟩
      | some initializer =>
        simp only [hfind, hf]
        have hscope := hi.wellScoped.inScope_findMethod (hfind.trans hf)
        let method := (m.store.addInstance ⟨id, ∅⟩).2.bindMethod initializer
          (m.store.addInstance ⟨id, ∅⟩).1
        have hb : method.1.InScope vs method.2 := Store.inScope_bindMethod hscope _
        have hmethod : m.Keeps vs { m with store := method.2 } :=
          hi.trans ⟨hi.wellScoped.addFrame _, .addFrame _ _, rfl, rfl⟩
        rw [Store.classArity, hf] at ha
        exact meets_start (.enter method.1 arguments line) hmethod ⟨hb, ha⟩
          fun a m₁ h₁ _ => ⟨h₁, trivial⟩
    · exact meets_fault hm (fun _ h => by cases h) _
  | _ => exact meets_fault hm (fun _ h => by cases h) _

/-- Going into a new frame and back again. -/
theorem Machine.Keeps.leave (bindings : Bindings Value) (f : FrameId) (calls : Nat)
    (h : (m.enter bindings f calls).Keeps vs m') :
    m.Keeps vs (m'.leave m.environment calls) where
  wellScoped := h.wellScoped
  grows := (Store.Grows.addFrame _ _).trans h.grows
  environment := rfl
  depth := by
    have hd : m'.depth = m.depth + calls := h.depth
    show m'.depth - calls = m.depth
    rw [hd, Nat.add_sub_cancel]

/-- An initializer gives back the instance that its closure binds. -/
theorem FunctionObject.meets_result {f : FunctionObject} (hm : m.Keeps vs m')
    (hthis : f.isInitializer → (m'.store.own? f.closure "this").isSome) (arguments : List Value)
    (line : Nat) (completion : Completion) :
    (scoping vs s).Meets (.enter f arguments line) m (.finish (f.result completion m')) := by
  unfold result
  cases hi : f.isInitializer with
  | true =>
    obtain ⟨this, hown⟩ := Option.isSome_iff_exists.mp (hthis hi)
    have hget : m'.store.getAt f.closure 0 "this" = some this := hown
    simp only [if_true, hget]
    exact ⟨hm, trivial⟩
  | false => cases completion <;> exact ⟨hm, trivial⟩

theorem FunctionObject.meets_plan (f : FunctionObject) (arguments : List Value) (line : Nat)
    (hw : m.store.WellScoped vs) (hf : f.InScope vs m.store)
    (ha : arguments.length = f.declaration.params.length) :
    (scoping vs s).Meets (.enter f arguments line) m (f.plan s arguments line m) := by
  rw [plan, rule]
  split
  · exact meets_fault (.refl hw) (fun _ h => by cases h) _
  · obtain ⟨scopes, hc, hv⟩ := hf.scopes
    obtain ⟨⟨name, params, body⟩, closure, isInitializer⟩ := f
    have ha : arguments.length = params.length := ha
    let parameters := (params.map Name.text).zip arguments
    have hfst : parameters.map Prod.fst = params.map Name.text :=
      List.map_fst_zip (by simp [ha])
    have hchain : (m.store.addFrame ⟨.ofList parameters, some closure⟩).2.Chain _ (∅ :: scopes) :=
      hc.addFrame fun _ h => by cases h
    have hbound : ∀ p ∈ params.map Name.text, ((Bindings.ofList parameters).get? p).isSome := by
      intro p hp
      have h := Bindings.contains_ofList parameters p
      rw [hfst] at h
      exact h.trans (by simpa using hp)
    have hin := hchain.bindAll fun p hp =>
      (Store.own?_addFrame_self _ _ p).symm ▸ hbound p hp
    have hg := hf.grounded
    rw [FunDecl.Grounded] at hg
    rw [FunDecl.visits] at hv
    refine ⟨⟨hw.addFrame _, hg, _, hin, hv⟩, fun completion m₁ h₁ => ?_, fun m₁ h₁ =>
      .leave _ _ _ h₁⟩
    have hk : m.Keeps vs (m₁.leave m.environment 1) := .leave _ _ _ h₁.1
    exact meets_result hk (fun hi => hk.grows.own (hf.this hi)) arguments line completion

theorem Stmt.meets_plan (hk : s.Knows vs) (statement : Stmt NodeId) (hw : m.store.WellScoped vs)
    {scopes : Scopes} (hg : statement.Grounded) (hc : m.store.Chain m.environment scopes)
    (hv : statement.visits scopes ⊆ vs) :
    (scoping vs s).Meets (.execute statement) m (statement.plan s m) := by
  have hm : m.Keeps vs m := .refl hw
  -- only declarations have anything to show for the names that they declare
  have undeclared {m' : Machine} {t : Stmt NodeId} (h : t.declares = []) :
      Task.Declares (.execute t) m' := by
    intro name hn
    rw [h] at hn
    cases hn
  cases statement with
  | expression e =>
    rw [visits] at hv
    exact meets_start (.evaluate e) hm (hk.foreseen hw hc hv) fun a m₁ h₁ _ =>
      ⟨h₁, undeclared rfl⟩
  | print e =>
    rw [visits] at hv
    refine meets_start (.evaluate e) hm (hk.foreseen hw hc hv) fun a m₁ h₁ _ => ?_
    unfold printValue
    cases s.writeFailure (m₁.printed a) with
    | some message => exact ⟨h₁, fun _ _ h => by cases h⟩
    | none => exact ⟨⟨h₁.wellScoped, h₁.grows, h₁.environment, h₁.depth⟩, undeclared rfl⟩
  | var name initializer =>
    have own {m₁ : Machine} (h₁ : m.Keeps vs m₁) (value : Value) :
        Task.Declares (.execute (.var name initializer)) (m₁.define name.text value) := by
      intro n hn
      obtain rfl : n = name.text := List.mem_singleton.mp hn
      exact Machine.Keeps.own?_define_self h₁.wellScoped (h₁.chain hc) name.text value
    cases initializer with
    | none => exact ⟨.define hw _ _, own hm .nil⟩
    | some e =>
      rw [visits] at hv
      refine meets_start (.evaluate e) hm (hk.foreseen hw (hc.declare name.text) hv)
        fun a m₁ h₁ _ => ⟨h₁.trans (.define h₁.wellScoped _ _), own h₁ a⟩
  | block body =>
    rw [visits] at hv
    rw [Grounded] at hg
    have hin : (m.store.addFrame ⟨∅, some m.environment⟩).2.Chain _ (∅ :: scopes) :=
      hc.addFrame fun _ h => by cases h
    refine ⟨⟨hw.addFrame _, hg, _, hin, hv⟩, fun completion m₁ h₁ => ?_, fun m₁ h₁ =>
      .leave _ _ _ h₁⟩
    exact ⟨.leave _ _ _ h₁.1, undeclared rfl⟩
  | ifElse condition thenBranch elseBranch =>
    rw [visits, List.append_subset, List.append_subset] at hv
    rw [Grounded] at hg
    refine meets_start (.evaluate condition) hm (hk.foreseen hw hc hv.1.1) fun a m₁ h₁ _ => ?_
    split
    · exact meets_start (.execute thenBranch) h₁ ⟨hg.1, scopes, h₁.chain hc, hv.1.2⟩
        fun b m₂ h₂ _ => ⟨h₂, undeclared rfl⟩
    · cases elseBranch with
      | none => exact ⟨h₁, undeclared rfl⟩
      | some elseBranch =>
        rw [visits?] at hv
        rw [Grounded?] at hg
        exact meets_start (.execute elseBranch) h₁ ⟨hg.2, scopes, h₁.chain hc, hv.2⟩
          fun b m₂ h₂ _ => ⟨h₂, undeclared rfl⟩
  | «while» condition body =>
    rw [visits, List.append_subset] at hv
    rw [Grounded] at hg
    exact meets_start (.loop condition body) hm ⟨hk.foreseen hw hc hv.1, hg, scopes, hc, hv.2⟩
      fun a m₁ h₁ _ => ⟨h₁, undeclared rfl⟩
  | function declaration =>
    rw [visits] at hv
    rw [Grounded] at hg
    refine ⟨.declareFunction hw hc hg hv, fun n hn => ?_⟩
    obtain rfl : n = declaration.name.text := List.mem_singleton.mp hn
    exact Machine.Keeps.own?_declareFunction hw hc declaration
  | «return» keyword value =>
    cases value with
    | none => exact ⟨hm, undeclared rfl⟩
    | some e =>
      rw [visits] at hv
      exact meets_start (.evaluate e) hm (hk.foreseen hw hc hv) fun a m₁ h₁ _ =>
        ⟨h₁, undeclared rfl⟩
  | «class» name superclass methods =>
    rw [visits, List.append_subset] at hv
    rw [Grounded] at hg
    cases superclass with
    | none =>
      refine ⟨.declareClass hw hc hg.2 hv.2, fun n hn => ?_⟩
      obtain rfl : n = name.text := List.mem_singleton.mp hn
      exact Machine.Keeps.own?_declareClass hw hc name none methods
    | some e =>
      refine meets_start (.evaluate e) hm (hk.foreseen_superclass hw hc (hg.1 e rfl) hv.1)
        fun a m₁ h₁ _ => ?_
      cases a with
      | «class» c =>
        have hc₁ := h₁.chain hc
        refine ⟨h₁.trans (.declareClass h₁.wellScoped hc₁ hg.2 hv.2), fun n hn => ?_⟩
        obtain rfl : n = name.text := List.mem_singleton.mp hn
        exact Machine.Keeps.own?_declareClass h₁.wellScoped hc₁ name (some c) methods
      | _ => exact meets_fault h₁ (fun _ h => by cases h) _

theorem Stmt.meets_planAll (statements : List (Stmt NodeId)) (hw : m.store.WellScoped vs)
    {scopes : Scopes} (hg : Stmt.GroundedAll statements)
    (hc : m.store.Chain m.environment scopes) (hv : Stmt.visitsAll scopes statements ⊆ vs) :
    (scoping vs s).Meets (.executeAll statements) m (Stmt.planAll statements m) := by
  have hm : m.Keeps vs m := .refl hw
  cases statements with
  | nil => exact ⟨hm, trivial⟩
  | cons statement rest =>
    rw [visitsAll, List.append_subset] at hv
    rw [GroundedAll] at hg
    refine meets_start (.execute statement) hm ⟨hg.1, scopes, hc, hv.1⟩ fun a m₁ h₁ hd => ?_
    cases a with
    | normal =>
      have hc₁ := (h₁.chain hc).bindAll hd
      exact meets_start (.executeAll rest) h₁ ⟨hg.2, _, hc₁, hv.2⟩ fun b m₂ h₂ _ =>
        ⟨h₂, trivial⟩
    | returned value => exact ⟨h₁, trivial⟩

theorem Stmt.meets_loopPlan (condition : Expr NodeId) (body : Stmt NodeId)
    (hw : m.store.WellScoped vs) (hf : Foreseen vs m condition.references) {scopes : Scopes}
    (hg : body.Grounded) (hc : m.store.Chain m.environment scopes)
    (hv : body.visits scopes ⊆ vs) :
    (scoping vs s).Meets (.loop condition body) m (Stmt.loopPlan condition body m) := by
  refine meets_start (.evaluate condition) (.refl hw) hf fun a m₁ h₁ _ => ?_
  split
  · refine meets_start (.execute body) h₁ ⟨hg, scopes, h₁.chain hc, hv⟩ fun b m₂ h₂ _ => ?_
    cases b with
    | normal =>
      exact meets_start (.loop condition body) h₂ ⟨hf.keeps h₂, hg, scopes, h₂.chain hc, hv⟩
        fun d m₃ h₃ _ => ⟨h₃, trivial⟩
    | returned value => exact ⟨h₂, trivial⟩
  · exact ⟨h₁, trivial⟩

end

/-- Every plan keeps the contract. -/
theorem scoping_kept (hk : s.Knows vs) : (scoping vs s).Kept s := by
  rintro t m ⟨hw, ht⟩
  cases t with
  | evaluate e => exact e.meets_plan hk hw ht
  | evaluateAll es => exact Expr.meets_planAll es hw ht
  | call callee arguments line => exact callee.meets_callPlan arguments line hw
  | enter f arguments line => exact f.meets_plan arguments line hw ht.1 ht.2
  | execute statement =>
    obtain ⟨hg, scopes, hc, hv⟩ := ht
    exact statement.meets_plan hk hw hg hc hv
  | executeAll statements =>
    obtain ⟨hg, scopes, hc, hv⟩ := ht
    exact Stmt.meets_planAll statements hw hg hc hv
  | loop condition body =>
    obtain ⟨hf, hg, scopes, hc, hv⟩ := ht
    exact Stmt.meets_loopPlan condition body hw hf hg hc hv

end

end Lox
