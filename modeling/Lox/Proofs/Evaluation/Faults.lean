import Lox.Proofs.Evaluation.Agreement
import Lox.Proofs.Evaluation.Supers
import Lox.Proofs.Syntax.Grammar

/-!
# Faults that no source leads to

The evaluator looks out for some faults that code from a source never raises: an
operator that is none of those of its node, a `super` that finds no class or no instance, and
a `this` or `super` that is not bound (`RuntimeFault.IsDefensive`). Operators are right because
the parser builds each node from operators of its own. What `super` finds is known from the
frames of its method.

* `Level.Builds.binary_kind`, `Level.Builds.logical_kind`: the operators of a node;
* `Task.Blames`: which tasks raise faults by themselves (`blaming_kept`);
* `Task.Blames.not_isDefensive`: tasks whose code comes from a source raise no such fault, unless it
  is an undefined variable.
-/

namespace Lox

/-- A fault that the evaluator looks out for, but that code from a source does not raise. -/
def RuntimeFault.IsDefensive : RuntimeFault → Prop
  | .invalidUnaryOperator _ | .invalidBinaryOperator _ | .superOutsideMethod => True
  | .undefinedVariable name => name = "this" ∨ name = "super"
  | _ => False

/-! ## Operators -/

section

variable {operator : Token} {cause : RuntimeFault}

/-- A logical node carries `and` or `or`. -/
theorem Level.Builds.logical_kind (h : Level.Builds operator true) :
    operator.kind = .keyword .and ∨ operator.kind = .keyword .or := by
  obtain ⟨level, -, hkind, hlevel⟩ := h
  rw [Kind.any_sameAs_iff_mem level.isPlain_operators] at hkind
  rcases hlevel.mpr rfl with rfl | rfl
  · exact .inr (List.mem_singleton.mp hkind)
  · exact .inl (List.mem_singleton.mp hkind)

/-- A binary node carries an operator of one of the other levels. -/
theorem Level.Builds.binary_kind (h : Level.Builds operator false) :
    operator.kind ∈ [Level.equality, .comparison, .term, .factor].flatMap Level.operators := by
  obtain ⟨level, -, hkind, hlevel⟩ := h
  rw [Kind.any_sameAs_iff_mem level.isPlain_operators] at hkind
  refine List.mem_flatMap.mpr ⟨level, ?_, hkind⟩
  cases level with
  | or => exact absurd (hlevel.mp (.inl rfl)) Bool.false_ne_true
  | and => exact absurd (hlevel.mp (.inr rfl)) Bool.false_ne_true
  | equality | comparison | term | factor => simp

theorem not_isDefensive_applyUnary (ho : prefixOperators.any operator.kind.sameAs) {right : Value}
    (h : applyUnary operator right = .error cause) : ¬ cause.IsDefensive := by
  rw [Kind.any_sameAs_iff_mem isPlain_prefixOperators] at ho
  rcases List.mem_pair.mp ho with hk | hk <;> simp only [applyUnary, hk] at h
  · cases h
  · split at h
    · cases h
    · obtain rfl := Except.error.inj h
      exact id

theorem not_isDefensive_onNumbers {f : Float → Float → Value} {left right : Value}
    (h : onNumbers f left right = .error cause) : ¬ cause.IsDefensive := by
  unfold onNumbers at h
  split at h
  · cases h
  · obtain rfl := Except.error.inj h
    exact id

theorem not_isDefensive_applyBinary (ho : Level.Builds operator false) {left right : Value}
    (h : applyBinary operator left right = .error cause) : ¬ cause.IsDefensive := by
  have hk := ho.binary_kind
  simp only [List.flatMap_cons, List.flatMap_nil, Level.operators, List.cons_append,
    List.nil_append, List.append_nil, List.mem_cons, List.not_mem_nil, or_false] at hk
  rcases hk with hk | hk | hk | hk | hk | hk | hk | hk | hk | hk <;>
    simp only [applyBinary, hk] at h
  -- the two equalities, and then the sum, which also takes strings
  iterate 2 cases h
  case inr.inr.inr.inr.inr.inr.inr.inl =>
    split at h
    · cases h
    · cases h
    · obtain rfl := Except.error.inj h
      exact id
  all_goals exact not_isDefensive_onNumbers h

end

/-! ## `super` -/

section

variable {declared : SubclassDecl → FrameId → ClassId → Prop} {vs : List Visit} {s : Setting}
  {m m' : Machine}

/-- A `super` in the frames of its method gives a method, or its property is undefined. -/
theorem readSuper_cases_of_code (hk : s.Knows vs) {id : NodeId} {keyword method : Name}
    (hc : (lineage declared vs).code m.store m.environment (.expr (.super id keyword method))) :
    (∃ f i, readSuper s id keyword method m = bound f i m) ∨
      readSuper s id keyword method m = m.fault (.undefinedProperty method.text) method.line := by
  rcases hc.2 with hfree | ⟨C, closure, superclass, i, k, hl, ⟨d, hd, hlies⟩, hh⟩
  · exact absurd .here (hfree 0 id keyword method)
  obtain ⟨htext, v, hv, href, hdist⟩ := hl.locates d hd k id keyword method hlies
  have hdist : s.distance? id = some (k + 1) := by
    have hknown := hk.distance? v hv
    rwa [href, hdist] at hknown
  obtain ⟨hfound, hnone⟩ := readSuper_of_home method hdist htext hl.own hh
  cases hf : m.store.findMethod superclass method.text with
  | some f => exact .inl ⟨f, i, hfound f hf⟩
  | none => exact .inr (hnone hf)

/-! ## Who raises a fault -/

/-- A task may raise a fault by itself: an operator that does not take its operands, a `super`, an
undefined variable, or a fault that the evaluator does not look out for. -/
inductive Task.Blames (s : Setting) : Task → Machine → RuntimeFault → Prop where
  | unary {operator : Token} {right : Expr NodeId} {m : Machine} {value : Value}
    {cause : RuntimeFault} (h : applyUnary operator value = .error cause) :
    Blames s (.evaluate (.unary operator right)) m cause
  | binary {left right : Expr NodeId} {operator : Token} {m : Machine} {a b : Value}
    {cause : RuntimeFault} (h : applyBinary operator a b = .error cause) :
    Blames s (.evaluate (.binary left operator right)) m cause
  | super {id : NodeId} {keyword method : Name} {m : Machine} {cause : RuntimeFault} {line : Nat}
    (h : readSuper s id keyword method m = m.fault cause line) :
    Blames s (.evaluate (.super id keyword method)) m cause
  | undefined (t : Task) (m : Machine) (name : String) : Blames s t m (.undefinedVariable name)
  | other {t : Task} {m : Machine} {cause : RuntimeFault} (h : ¬ cause.IsDefensive) :
    Blames s t m cause

/-- A fault has a task that may raise it by itself. -/
def blaming (s : Setting) : Contract where
  pre _ _ := True
  done _ _ _ _ := True
  failed _ _ _ := True
  raised t m failure _ := ∀ cause line, failure = .fault cause line → t.Blames s m cause

section

variable {t : Task}

theorem meets_blaming_done {a : t.Answer} : (blaming s).Meets t m (.finish (.done a m')) := trivial

theorem meets_blaming_fault {cause : RuntimeFault} {line : Nat} (h : t.Blames s m cause) :
    (blaming s).Meets t m (.finish (m'.fault cause line)) := by
  refine ⟨trivial, fun cause' line' he => ?_⟩
  obtain ⟨rfl, -⟩ := Failure.fault.inj he
  exact h

theorem meets_blaming_start (u : Task) (exit : Exit) {resume : u.Answer → Machine → Plan t.Answer}
    (h : ∀ a m'', (blaming s).Meets t m (resume a (exit.apply m''))) :
    (blaming s).Meets t m (.start u m' exit resume) :=
  ⟨trivial, fun a m'' _ => h a m'', fun _ _ => trivial⟩

end

theorem meets_blaming_settle {e : Expr NodeId} (line : Nat) {result : Except RuntimeFault Value}
    (h : ∀ cause, result = .error cause → (Task.evaluate e).Blames s m cause) :
    (blaming s).Meets (.evaluate e) m (.finish (m'.settle line result)) := by
  cases result with
  | ok value => exact meets_blaming_done
  | error cause => exact meets_blaming_fault (h cause rfl)

theorem Expr.blaming_plan (e : Expr NodeId) :
    (blaming s).Meets (.evaluate e) m (e.plan s m) := by
  cases e with
  | literal value => exact meets_blaming_done
  | group inner => exact meets_blaming_start (.evaluate inner) .stay fun _ _ => meets_blaming_done
  | unary operator right =>
    exact meets_blaming_start (.evaluate right) .stay fun _ _ => meets_blaming_settle _ fun _ => .unary
  | binary left operator right =>
    refine meets_blaming_start (.evaluate left) .stay fun _ _ => ?_
    exact meets_blaming_start (.evaluate right) .stay fun _ _ => meets_blaming_settle _ fun _ => .binary
  | logical left operator right =>
    refine meets_blaming_start (.evaluate left) .stay fun _ _ => ?_
    split
    · exact meets_blaming_done
    · exact meets_blaming_start (.evaluate right) .stay fun _ _ => meets_blaming_done
  | «variable» id name | this id name =>
    rw [plan, rule, readVariable]
    split
    · exact meets_blaming_done
    · exact meets_blaming_fault (.undefined _ _ _)
  | assign id name value =>
    refine meets_blaming_start (.evaluate value) .stay fun _ _ => ?_
    rw [writeVariable]
    split
    · exact meets_blaming_done
    · exact meets_blaming_fault (.undefined _ _ _)
  | call callee line arguments =>
    refine meets_blaming_start (.evaluate callee) .stay fun callee _ => ?_
    refine meets_blaming_start (.evaluateAll arguments) .stay fun arguments _ => ?_
    exact meets_blaming_start (.call callee arguments line) .stay fun _ _ => meets_blaming_done
  | get object name =>
    refine meets_blaming_start (.evaluate object) .stay fun object m₁ => ?_
    cases object with
    | «instance» i =>
      simp only [readProperty]
      split
      · exact meets_blaming_fault (.other id)
      split
      · exact meets_blaming_done
      split
      · exact meets_blaming_done
      · exact meets_blaming_fault (.other id)
    | _ => exact meets_blaming_fault (.other id)
  | set object name value =>
    refine meets_blaming_start (.evaluate object) .stay fun object _ => ?_
    cases object with
    | «instance» i =>
      exact meets_blaming_start (.evaluate value) .stay fun _ _ => meets_blaming_done
    | _ => exact meets_blaming_fault (.other id)
  | super id keyword method =>
    rw [plan, rule]
    rcases readSuper_cases s id keyword method m with
      ⟨c, i, f, outer, inner, -, -, -, -, -, he⟩ | ⟨cause, line, he⟩
    · rw [he]
      exact meets_blaming_done
    · rw [he]
      exact meets_blaming_fault (.super he)

theorem Expr.blaming_planAll (es : List (Expr NodeId)) :
    (blaming s).Meets (.evaluateAll es) m (Expr.planAll es m) := by
  cases es with
  | nil => exact meets_blaming_done
  | cons e es =>
    refine meets_blaming_start (.evaluate e) .stay fun _ _ => ?_
    exact meets_blaming_start (.evaluateAll es) .stay fun _ _ => meets_blaming_done

theorem Value.blaming_callPlan (callee : Value) (arguments : List Value) (line : Nat) :
    (blaming s).Meets (.call callee arguments line) m (callee.callPlan arguments line m) := by
  cases callee with
  | function g =>
    rw [callPlan, callRule]
    split
    · exact meets_blaming_fault (.other id)
    · next f _ =>
      split
      · exact meets_blaming_start (.enter f arguments line) .stay fun _ _ => meets_blaming_done
      · exact meets_blaming_fault (.other id)
  | «class» c =>
    rw [callPlan, callRule]
    split
    · dsimp only
      split
      · exact meets_blaming_done
      · exact meets_blaming_start (.enter _ arguments line) .stay fun _ _ => meets_blaming_done
    · exact meets_blaming_fault (.other id)
  | _ => exact meets_blaming_fault (.other id)

theorem FunctionObject.blaming_plan (f : FunctionObject) (arguments : List Value) (line : Nat) :
    (blaming s).Meets (.enter f arguments line) m (f.plan s arguments line m) := by
  rw [plan, rule]
  split
  · exact meets_blaming_fault (.other id)
  · refine meets_blaming_start (.executeAll f.declaration.body) _ fun completion m₁ => ?_
    unfold result
    split
    · split
      · exact meets_blaming_done
      · exact meets_blaming_fault (.undefined _ _ _)
    · cases completion <;> exact meets_blaming_done

theorem Stmt.blaming_plan (statement : Stmt NodeId) :
    (blaming s).Meets (.execute statement) m (statement.plan s m) := by
  cases statement with
  | expression e => exact meets_blaming_start (.evaluate e) .stay fun _ _ => meets_blaming_done
  | print e =>
    refine meets_blaming_start (.evaluate e) .stay fun value m₁ => ?_
    rw [printValue]
    split
    · exact ⟨trivial, nofun⟩
    · exact meets_blaming_done
  | var name initializer =>
    cases initializer with
    | none => exact meets_blaming_done
    | some e => exact meets_blaming_start (.evaluate e) .stay fun _ _ => meets_blaming_done
  | block body => exact meets_blaming_start (.executeAll body) _ fun _ _ => meets_blaming_done
  | ifElse condition thenBranch elseBranch =>
    refine meets_blaming_start (.evaluate condition) .stay fun value m₁ => ?_
    split
    · exact meets_blaming_start (.execute thenBranch) .stay fun _ _ => meets_blaming_done
    · cases elseBranch with
      | none => exact meets_blaming_done
      | some elseBranch =>
        exact meets_blaming_start (.execute elseBranch) .stay fun _ _ => meets_blaming_done
  | «while» condition body =>
    exact meets_blaming_start (.loop condition body) .stay fun _ _ => meets_blaming_done
  | function declaration => exact meets_blaming_done
  | «return» keyword value =>
    cases value with
    | none => exact meets_blaming_done
    | some e => exact meets_blaming_start (.evaluate e) .stay fun _ _ => meets_blaming_done
  | «class» name superclass methods =>
    cases superclass with
    | none => exact meets_blaming_done
    | some e =>
      refine meets_blaming_start (.evaluate e) .stay fun value m₁ => ?_
      cases value with
      | «class» c => exact meets_blaming_done
      | _ => exact meets_blaming_fault (.other id)

theorem Stmt.blaming_planAll (statements : List (Stmt NodeId)) :
    (blaming s).Meets (.executeAll statements) m (Stmt.planAll statements m) := by
  cases statements with
  | nil => exact meets_blaming_done
  | cons statement rest =>
    refine meets_blaming_start (.execute statement) .stay fun completion m₁ => ?_
    cases completion with
    | normal => exact meets_blaming_start (.executeAll rest) .stay fun _ _ => meets_blaming_done
    | returned value => exact meets_blaming_done

theorem Stmt.blaming_loopPlan (condition : Expr NodeId) (body : Stmt NodeId) :
    (blaming s).Meets (.loop condition body) m (Stmt.loopPlan condition body m) := by
  refine meets_blaming_start (.evaluate condition) .stay fun value m₁ => ?_
  split
  · refine meets_blaming_start (.execute body) .stay fun completion m₂ => ?_
    cases completion with
    | normal =>
      exact meets_blaming_start (.loop condition body) .stay fun _ _ => meets_blaming_done
    | returned value => exact meets_blaming_done
  · exact meets_blaming_done

end

/-- Every fault has a task that may raise it. -/
theorem blaming_kept (s : Setting) : (blaming s).Kept s := by
  intro t m _
  cases t with
  | evaluate e => exact e.blaming_plan
  | evaluateAll es => exact Expr.blaming_planAll es
  | call callee arguments line => exact callee.blaming_callPlan arguments line
  | enter f arguments line => exact f.blaming_plan arguments line
  | execute statement => exact statement.blaming_plan
  | executeAll statements => exact Stmt.blaming_planAll statements
  | loop condition body => exact Stmt.blaming_loopPlan condition body

/-- Code from a source is to blame only for undefined variables, and for faults that programs may
have. -/
theorem Task.Blames.not_isDefensive {declared : SubclassDecl → FrameId → ClassId → Prop}
    {vs : List Visit} {s : Setting} {t : Task} {m : Machine} {cause : RuntimeFault}
    (h : t.Blames s m cause) (hk : s.Knows vs) (ht : (lineage declared vs).starts t m)
    (hc : ∀ name, cause ≠ .undefinedVariable name) : ¬ cause.IsDefensive := by
  cases h with
  | unary h => exact not_isDefensive_applyUnary ht.1.self.wellFormed.1 h
  | binary h => exact not_isDefensive_applyBinary ht.1.self.wellFormed.1 h
  | super h =>
    rcases readSuper_cases_of_code hk ht with ⟨f, i, hb⟩ | hp
    · rw [hb] at h
      cases h
    · rw [hp] at h
      obtain ⟨rfl, -⟩ := Failure.fault.inj (Outcome.failed.inj h).1
      exact id
  | undefined _ _ name => exact absurd rfl (hc name)
  | other h => exact h

end Lox
