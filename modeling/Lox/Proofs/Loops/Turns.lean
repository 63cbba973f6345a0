import Lox.Proofs.Loops.ForLoops

/-!
# The turns of a `for` loop, in its blocks and in one scope

The statement that expresses a `for` loop and a copy of the loop that runs directly take the same turns. In the
first run each turn may have a frame of its own, in the second there may be one more frame for the whole
loop; both bind nothing. The clauses are aligned with their copies accordingly (`ForLoop.Aligned`).

* `repeatWhile_mirrors`: two loops whose tests and turns run in lockstep do so themselves;
* `ForLoop.runInBlocks_mirrors`: so do the two runs of a `for` loop;
* `ForLoop.aligned_of_visits`: its clauses are aligned, with the distances that the walk finds for the
  statement and for the copy in one scope.
-/

namespace Lox

/-! ## Lockstep -/

section

variable {D E : NodeId → Option Nat} {β β₁ : Pairing} {m m' m₁ m₁' : Machine}

namespace Outcome.Mirrors

variable {α γ : Type}

theorem bind {o o' : Outcome α} {f f' : α → Machine → Outcome γ} (h : o.Mirrors D E β m m' o')
    (hf : ∀ a β₁ m₁ m₁', m.After D E β m' β₁ m₁ m₁' →
      (f a m₁).Mirrors D E β₁ m₁ m₁' (f' a m₁')) :
    (o.bind f).Mirrors D E β m m' (o'.bind f') := by
  cases h with
  | done ha h =>
    obtain rfl := eq_of_heq ha
    exact (hf _ _ _ _ h).since h
  | failed failure h => exact .failed failure h
  | outOfFuel => exact .outOfFuel

theorem andThen {o o' : Outcome Completion} {f f' : Machine → Outcome Completion}
    (h : o.Mirrors D E β m m' o')
    (hf : ∀ β₁ m₁ m₁', m.After D E β m' β₁ m₁ m₁' → (f m₁).Mirrors D E β₁ m₁ m₁' (f' m₁')) :
    (o.andThen f).Mirrors D E β m m' (o'.andThen f') := by
  refine h.bind fun completion β₁ m₁ m₁' h₁ => ?_
  cases completion with
  | normal => exact hf β₁ m₁ m₁' h₁
  | returned value => exact .value h₁.mirrors _

theorem ended_iff {o o' : Outcome α} (h : o.Mirrors D E β m m' o') : o.Ended ↔ o'.Ended := by
  cases h <;> exact Iff.rfl

theorem output_eq {o o' : Outcome α} (h : o.Mirrors D E β m m' o') :
    o'.state?.map Machine.output = o.state?.map Machine.output := by
  cases h with
  | done _ h => exact congrArg some h.mirrors.output
  | failed _ h => exact congrArg some h.mirrors.output
  | outOfFuel => rfl

/-- Each run goes back to the frame from which it came. -/
theorem exit {o o' : Outcome α} {exit exit' : Exit} (h : o.Mirrors D E β₁ m₁ m₁' o')
    (hx : Exit.Mirrors m m' m₁ m₁' exit exit')
    (he : Pairing.Extends m.store m'.store β m₁.store m₁'.store β₁) :
    (o.onExit exit.apply).Mirrors D E β m m' (o'.onExit exit'.apply) := by
  cases h with
  | done ha h => exact .done ha (hx.after he h)
  | failed failure h => exact .failed failure (hx.after he h)
  | outOfFuel => exact .outOfFuel

end Outcome.Mirrors

namespace Machine.Mirrors

variable {α : Type} {run run' : Machine → Outcome α}

/-- Both runs open a scope. -/
theorem inScope (h : m.Mirrors D E β m')
    (hrun : ∀ β₁ m₁ m₁', m₁.Mirrors D E β₁ m₁' →
      (∀ d d', (m.alignment β m').push d d' → m₁.alignment β₁ m₁' d d') →
      (run m₁).Mirrors D E β₁ m₁ m₁' (run' m₁')) :
    (m.inScope run).Mirrors D E β m m' (m'.inScope run') := by
  obtain ⟨he, hin, ha⟩ := h.enter ∅ m.environment m'.environment 0
  exact (hrun _ _ _ hin ha).exit (.leave 0) he

/-- Only the first run opens a scope. -/
theorem inScope_left (h : m.Mirrors D E β m')
    (hrun : ∀ m₁, m₁.Mirrors D E β m' →
      (∀ d d', (m.alignment β m').pushLeft d d' → m₁.alignment β m' d d') →
      (run m₁).Mirrors D E β m₁ m' (run' m')) :
    (m.inScope run).Mirrors D E β m m' (run' m') := by
  have he := Store.Mirrors.extends_addLeft m.store m'.store β ⟨∅, some m.environment⟩
  have hin : (m.enter ∅ m.environment 0).Mirrors D E β m' :=
    ⟨h.store.addLeft _, h.depth, h.output⟩
  have ho := hrun _ hin fun d d' hp =>
    Store.alignment_pushLeft (Store.enclosing?_addFrame_self _ _) d d'
      (Alignment.pushLeft_mono (Store.alignment_mono he) d d' hp)
  have hexit := ho.exit (.leaveLeft rfl) he
  rwa [Outcome.onExit_stay] at hexit

/-- Only the second run opens a scope. -/
theorem inScope_right (h : m.Mirrors D E β m') (run : Machine → Outcome α)
    (hrun : ∀ m₁', m.Mirrors D E β m₁' →
      (∀ d d', (m.alignment β m').pushRight d d' → m.alignment β m₁' d d') →
      (run m).Mirrors D E β m m₁' (run' m₁')) :
    (run m).Mirrors D E β m m' (m'.inScope run') := by
  have he := Store.Mirrors.extends_addRight m.store m'.store β ⟨∅, some m'.environment⟩
  have hin : m.Mirrors D E β (m'.enter ∅ m'.environment 0) :=
    ⟨h.store.addRight _, h.depth, h.output⟩
  have ho := hrun _ hin fun d d' hp =>
    Store.alignment_pushRight (Store.enclosing?_addFrame_self _ _) d d'
      (Alignment.pushRight_mono (Store.alignment_mono he) d d' hp)
  have hexit := ho.exit (.leaveRight rfl) he
  rwa [Outcome.onExit_stay] at hexit

end Machine.Mirrors

/-- Two loops run in lockstep if their tests and turns do, as long as something holds of the frames that
new frames do not break. -/
theorem repeatWhile_mirrors {test test' : Nat → Machine → Outcome Value}
    {turn turn' : Nat → Machine → Outcome Completion} {C : Alignment → Prop}
    (hC : ∀ {P Q : Alignment}, (∀ d d', P d d' → Q d d') → C P → C Q)
    (htest : ∀ n β m m', m.Mirrors D E β m' → C (m.alignment β m') →
      (test n m).Mirrors D E β m m' (test' n m'))
    (hturn : ∀ n β m m', m.Mirrors D E β m' → C (m.alignment β m') →
      (turn n m).Mirrors D E β m m' (turn' n m'))
    (n : Nat) (h : m.Mirrors D E β m') (hc : C (m.alignment β m')) :
    (repeatWhile test turn n m).Mirrors D E β m m' (repeatWhile test' turn' n m') := by
  induction n generalizing β m m' with
  | zero => exact .outOfFuel
  | succ n ih =>
    refine (htest n β m m' h hc).bind fun value β₁ m₁ m₁' h₁ => ?_
    have hc₁ := hC h₁.alignment hc
    split
    · exact (hturn n β₁ m₁ m₁' h₁.mirrors hc₁).andThen fun β₂ m₂ m₂' h₂ =>
        ih h₂.mirrors (hC h₂.alignment hc₁)
    · exact .value h₁.mirrors _

end

/-! ## The clauses of a loop -/

namespace ForLoop

section

variable (D E : NodeId → Option Nat)

/-- The clauses that take turns are aligned with those of a copy. The body and the increment stand in one more
block if there is an increment. -/
structure TurnsAligned (P : Alignment) (l : ForLoop NodeId) : Prop where
  condition : Reference.AlignedAll D E P (Expr.references? l.condition)
  body : l.body.Aligned D E (if l.increment.isSome then P.pushLeft else P)
  increment : Reference.AlignedAll D E (if l.increment.isSome then P.pushLeft else P)
    (Expr.references? l.increment)

/-- All clauses are aligned with those of a copy that stands in a scope of its own. So do those of the
loop only if there is an initializer. -/
structure Aligned (P : Alignment) (l : ForLoop NodeId) : Prop where
  initializer : ∀ first ∈ l.initializer, first.Aligned D E P.push
  turns : l.TurnsAligned D E (if l.initializer.isSome then P.push else P.pushRight)

end

section

variable {D E : NodeId → Option Nat} {P Q : Alignment} {l : ForLoop NodeId}

theorem TurnsAligned.mono (h : ∀ d d', P d d' → Q d d') (hl : l.TurnsAligned D E P) :
    l.TurnsAligned D E Q := by
  have hinside : ∀ d d', (if l.increment.isSome then P.pushLeft else P) d d' →
      (if l.increment.isSome then Q.pushLeft else Q) d d' := by
    split
    · exact Alignment.pushLeft_mono h
    · exact h
  exact ⟨hl.condition.mono h, hl.body.mono hinside, hl.increment.mono hinside⟩

theorem Aligned.mono (h : ∀ d d', P d d' → Q d d') (hl : l.Aligned D E P) : l.Aligned D E Q := by
  refine ⟨fun first hf => (hl.initializer first hf).mono (Alignment.push_mono h), hl.turns.mono ?_⟩
  split
  · exact Alignment.push_mono h
  · exact Alignment.pushRight_mono h

variable {s : Setting} {φ : NodeId → NodeId} {β : Pairing} {m m' : Machine}

theorem start_mirrors (n : Nat) (h : m.Mirrors s.distance? E β m')
    (hl : ∀ first ∈ l.initializer, first.Aligned s.distance? (E ∘ φ) (m.alignment β m')) :
    (l.start s n m).Mirrors s.distance? E β m m'
      ((l.recode ⟨φ, id⟩).start (s.withDistances E) n m') := by
  unfold start recode
  cases hi : l.initializer with
  | none =>
    rw [Stmt.recode?]
    exact .value h _
  | some first =>
    rw [Stmt.recode?]
    exact Task.run_mirrors s n h (.execute φ first (hl first hi))

theorem test_mirrors (n : Nat) (h : m.Mirrors s.distance? E β m')
    (hl : Reference.AlignedAll s.distance? (E ∘ φ) (m.alignment β m') (Expr.references? l.condition)) :
    (l.test s n m).Mirrors s.distance? E β m m'
      ((l.recode ⟨φ, id⟩).test (s.withDistances E) n m') := by
  unfold test recode
  cases hi : l.condition with
  | none => exact .value h _
  | some e =>
    rw [hi] at hl
    exact Task.run_mirrors s n h (.evaluate φ e hl)

theorem turn_mirrors (n : Nat) (h : m.Mirrors s.distance? E β m')
    (hb : l.body.Aligned s.distance? (E ∘ φ) (m.alignment β m'))
    (hl : Reference.AlignedAll s.distance? (E ∘ φ) (m.alignment β m') (Expr.references? l.increment)) :
    (l.turn s n m).Mirrors s.distance? E β m m'
      ((l.recode ⟨φ, id⟩).turn (s.withDistances E) n m') := by
  refine Outcome.Mirrors.andThen (Task.run_mirrors s n h (.execute φ l.body hb)) fun β₁ m₁ m₁' h₁ => ?_
  unfold advance recode
  cases hi : l.increment with
  | none => exact .value h₁.mirrors _
  | some e =>
    rw [hi] at hl
    have he := Task.run_mirrors s n h₁.mirrors (.evaluate φ e (Reference.AlignedAll.mono h₁.alignment hl))
    exact Outcome.Mirrors.bind he fun _ _ _ _ h₂ => .value h₂.mirrors _

/-- A turn in the block of the body and the increment, and one of the copy. -/
theorem turnInBlock_mirrors (n : Nat) (h : m.Mirrors s.distance? E β m')
    (hl : l.TurnsAligned s.distance? (E ∘ φ) (m.alignment β m')) :
    (l.turnInBlock s n m).Mirrors s.distance? E β m m'
      ((l.recode ⟨φ, id⟩).turn (s.withDistances E) n m') := by
  obtain ⟨-, hb, hi⟩ := hl
  unfold turnInBlock
  split
  · next hsome =>
    simp only [hsome, if_true] at hb hi
    exact h.inScope_left fun m₁ h₁ ha => turn_mirrors n h₁ (hb.mono ha) (Reference.AlignedAll.mono ha hi)
  · next hnone =>
    simp only [hnone] at hb hi
    exact turn_mirrors n h hb hi

/-- The turns of a loop and of its copy. -/
theorem repeatWhile_turns_mirrors (n : Nat) (h : m.Mirrors s.distance? E β m')
    (hl : l.TurnsAligned s.distance? (E ∘ φ) (m.alignment β m')) :
    (repeatWhile (l.test s) (l.turnInBlock s) n m).Mirrors s.distance? E β m m'
      (repeatWhile ((l.recode ⟨φ, id⟩).test (s.withDistances E))
        ((l.recode ⟨φ, id⟩).turn (s.withDistances E)) n m') :=
  repeatWhile_mirrors (fun hPQ hl => TurnsAligned.mono hPQ hl)
    (fun n _ _ _ h hl => test_mirrors n h hl.condition) (fun n _ _ _ h hl => turnInBlock_mirrors n h hl)
    n h hl

/-- The loop in its blocks and the copy in one scope run in lockstep. -/
theorem runInBlocks_mirrors (n : Nat) (h : m.Mirrors s.distance? E β m')
    (hl : l.Aligned s.distance? (E ∘ φ) (m.alignment β m')) :
    (l.runInBlocks s n m).Mirrors s.distance? E β m m'
      ((l.recode ⟨φ, id⟩).run (s.withDistances E) n m') := by
  obtain ⟨hinit, hturns⟩ := hl
  unfold runInBlocks run
  split
  · next hsome =>
    simp only [hsome, if_true] at hturns
    refine h.inScope fun β₁ m₁ m₁' h₁ ha => ?_
    refine Outcome.Mirrors.andThen (start_mirrors n h₁ fun first hf => (hinit first hf).mono ha)
      fun β₂ m₂ m₂' h₂ => ?_
    exact repeatWhile_turns_mirrors n h₂.mirrors ((hturns.mono ha).mono h₂.alignment)
  · next hnone =>
    have hi : l.initializer = none := by simpa using hnone
    simp only [hnone] at hturns
    refine h.inScope_right (repeatWhile (l.test s) (l.turnInBlock s) n) fun m₁' h₁ ha => ?_
    have hstart : (l.recode ⟨φ, id⟩).start (s.withDistances E) n m₁' = .done .normal m₁' := by
      unfold start recode
      rw [hi]
      rfl
    rw [hstart]
    exact repeatWhile_turns_mirrors n h₁ (hturns.mono ha)

end

/-! ## The walk -/

/-- The names that the initializer declares. -/
def declares {ι : Type} (l : ForLoop ι) : List String := (l.initializer.map Stmt.declares).getD []

/-- The visits of a loop that opens one scope, for all its clauses. -/
def visits (scopes : Scopes) (l : ForLoop NodeId) : List Visit :=
  let inside := Scopes.bindAll (∅ :: scopes) l.declares
  Stmt.visits? (∅ :: scopes) l.initializer ++ Expr.visits? inside l.condition ++ l.body.visits inside ++
    Expr.visits? inside l.increment

section

variable (l : ForLoop NodeId) (scopes : Scopes)

theorem references_statement :
    l.statement.references = Stmt.references? l.initializer ++ Expr.references? l.condition ++
      l.body.references ++ Expr.references? l.increment := by
  obtain ⟨initializer, condition, increment, body⟩ := l
  cases initializer <;> cases condition <;> cases increment <;>
    simp [statement, Stmt.forLoop, Stmt.references, Stmt.referencesAll, Stmt.references?, Expr.references,
      Expr.references?]

/-- The walk through the loop in one scope visits the nodes of the statement. -/
theorem references_visits_perm : (Visit.references (l.visits scopes)).Perm l.statement.references := by
  rw [references_statement]
  simp only [visits, Visit.references_append]
  exact (((Stmt.references_visits?_perm _ _).append (Expr.references_visits?_perm _ _)).append
    (Stmt.references_visits_perm _ _)).append (Expr.references_visits?_perm _ _)

theorem declares_recode (ρ : Recoding NodeId NodeId) : (l.recode ρ).declares = l.declares := by
  obtain ⟨initializer, condition, increment, body⟩ := l
  cases initializer with
  | none => rfl
  | some first => exact first.declares_recode ρ

theorem visits_recode (ρ : Recoding NodeId NodeId) :
    (l.recode ρ).visits scopes = (l.visits scopes).map (Visit.recode ρ) := by
  rw [visits, visits, declares_recode]
  simp only [recode, List.map_append, Stmt.visits?_recode?, Expr.visits?_map_recode, Stmt.visits_recode]

end

section

variable {D E : NodeId → Option Nat} {P : Alignment} {l : ForLoop NodeId} {scopes scopes' : Scopes}

/-- What is known of the visits of the `while` loop is known of those of the condition, the body and the
increment. -/
theorem forall_visits_while (hb : l.body.declares = []) {F : Visit → Prop}
    (h : ∀ v ∈ (Stmt.while l.whileCondition l.whileBody).visits scopes, F v) :
    let inside := if l.increment.isSome then ∅ :: scopes else scopes
    (∀ v ∈ Expr.visits? scopes l.condition, F v) ∧ (∀ v ∈ l.body.visits inside, F v) ∧
      ∀ v ∈ Expr.visits? inside l.increment, F v := by
  rw [Stmt.visits, List.forall_mem_append] at h
  obtain ⟨hcondition, hbody⟩ := h
  unfold whileCondition at hcondition
  unfold whileBody at hbody
  refine ⟨?_, ?_⟩
  · cases hi : l.condition with
    | none => exact List.forall_mem_nil _
    | some e =>
      rw [hi] at hcondition
      exact hcondition
  · cases hi : l.increment with
    | none =>
      rw [hi] at hbody
      exact ⟨hbody, List.forall_mem_nil _⟩
    | some e =>
      rw [hi] at hbody
      simp only [Stmt.visits, Stmt.visitsAll, hb, Scopes.bindAll_nil, List.append_nil,
        List.forall_mem_append] at hbody
      exact hbody

/-- Around the condition the walk comes to the same scopes as around the statement, or has opened one more, with the
names that the initializer declares. -/
theorem forall_visits_statement {F : Visit → Prop} (h : ∀ v ∈ l.statement.visits scopes, F v) :
    (∀ v ∈ Stmt.visits? (∅ :: scopes) l.initializer, F v) ∧
      ∀ v ∈ (Stmt.while l.whileCondition l.whileBody).visits
        (if l.initializer.isSome then Scopes.bindAll (∅ :: scopes) l.declares else scopes), F v := by
  unfold declares
  cases hi : l.initializer with
  | none =>
    rw [statement_of_none hi] at h
    rw [Stmt.visits?]
    exact ⟨List.forall_mem_nil _, h⟩
  | some first =>
    rw [statement_of_some hi, Stmt.visits, Stmt.visitsAll, Stmt.visitsAll, Stmt.visitsAll,
      List.append_nil, List.forall_mem_append] at h
    rw [Stmt.visits?]
    exact h

theorem wellFormed_clauses (h : l.statement.WellFormed) :
    (∀ first ∈ l.initializer, first.WellFormed) ∧ l.body.WellFormed := by
  have hbody (h : (Stmt.while l.whileCondition l.whileBody).WellFormed) : l.body.WellFormed := by
    rw [Stmt.WellFormed] at h
    have hb := h.2.2
    unfold whileBody at hb
    cases hi : l.increment with
    | none =>
      rw [hi] at hb
      exact hb
    | some e =>
      rw [hi, Stmt.WellFormed, Stmt.WellFormedAll] at hb
      exact hb.1
  cases hi : l.initializer with
  | none =>
    rw [statement_of_none hi] at h
    exact ⟨nofun, hbody h⟩
  | some first =>
    rw [statement_of_some hi, Stmt.WellFormed, Stmt.WellFormedAll, Stmt.WellFormedAll] at h
    refine ⟨fun _ he => ?_, hbody h.2.1⟩
    obtain rfl := Option.some.inj he
    exact h.1

theorem turnsAligned_of_visits (h : scopes.Aligned P scopes') (hw : l.body.WellFormed)
    (hb : l.body.declares = [])
    (hD : ∀ v ∈ (Stmt.while l.whileCondition l.whileBody).visits scopes, v.Found D)
    (hcondition : ∀ v ∈ Expr.visits? scopes' l.condition, E v.reference.id = v.distance?)
    (hbody : ∀ v ∈ l.body.visits scopes', E v.reference.id = v.distance?)
    (hincrement : ∀ v ∈ Expr.visits? scopes' l.increment, E v.reference.id = v.distance?) :
    l.TurnsAligned D E P := by
  obtain ⟨hcond, hin, hinc⟩ := forall_visits_while hb hD
  have hinside : Scopes.Aligned (if l.increment.isSome then P.pushLeft else P)
      (if l.increment.isSome then ∅ :: scopes else scopes) scopes' := by
    split
    · exact h.pushLeft
    · exact h
  exact ⟨Expr.aligned_of_visits? h hcond hcondition,
    Stmt.aligned_of_visits hw hinside (.inl hb) hin hbody,
    Expr.aligned_of_visits? hinside hinc hincrement⟩

/-- The clauses are aligned with a copy in one scope, if one has the distances that the walk finds for the
statement, and the other those that it finds in this scope. -/
theorem aligned_of_visits (hw : l.statement.WellFormed) (hb : l.body.declares = [])
    (hD : ∀ v ∈ l.statement.visits scopes, v.Found D)
    (hE : ∀ v ∈ l.visits scopes, E v.reference.id = v.distance?) :
    l.Aligned D E (.same scopes.length) := by
  obtain ⟨hfirst, hbody⟩ := wellFormed_clauses hw
  obtain ⟨hinit, hwhile⟩ := forall_visits_statement hD
  simp only [visits, List.forall_mem_append] at hE
  obtain ⟨⟨⟨hinitE, hconditionE⟩, hbodyE⟩, hincrementE⟩ := hE
  have hsame := Scopes.aligned_self scopes
  have hshared := Scopes.shared_push (.same scopes.length) scopes scopes
  refine ⟨fun first hf => ?_, turnsAligned_of_visits ?_ hbody hb hwhile hconditionE hbodyE hincrementE⟩
  · have hi : l.initializer = some first := hf
    rw [hi, Stmt.visits?] at hinit hinitE
    exact Stmt.aligned_of_visits (hfirst first hf) hsame.push (.inr hshared) hinit hinitE
  · unfold declares
    cases hi : l.initializer with
    | none => exact hsame.pushRight
    | some first =>
      exact (hsame.push.bindAll hshared (hfirst first hi).ne_of_mem_declares).1

end

end ForLoop

end Lox
