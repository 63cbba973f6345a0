import Lox.Proofs.Evaluation.Fuel
import Lox.Proofs.Evaluation.Restoration
import Lox.Proofs.Loops.Runs
import Lox.Proofs.Scope.Recoding
import Lox.Proofs.Syntax.Grammar

/-!
# What a `for` loop does

A `for` loop has no statement of its own: it is expressed by a `while` loop in blocks (`Stmt.forLoop`). Run directly,
it opens one scope, runs its initializer there once, and then takes its turns in this scope
(`ForLoop.run`). The blocks have other frames: one for each turn if there is an increment, and none for
the whole loop if there is no initializer (`ForLoop.runInBlocks`).

* `ForLoop.execute_below`, `ForLoop.below_execute`: what the statement does, in its blocks;
* `ForLoop.Comes`: the turns to which the loop comes when it runs directly, each in the scope of the loop
  (`ForLoop.Comes.returns`);
* `ForLoop.exists_of_derives`: the `for` loops of the grammar are such loops.
-/

namespace Lox

/-! ## The direct semantics -/

/-- The clauses of a `for` loop. -/
structure ForLoop (ι : Type) where
  initializer : Option (Stmt ι)
  condition : Option (Expr ι)
  increment : Option (Expr ι)
  body : Stmt ι

/-- Goes on after a statement, unless it returned. -/
def Outcome.andThen (o : Outcome Completion) (f : Machine → Outcome Completion) : Outcome Completion :=
  o.bind fun completion m =>
    match completion with
    | .normal => f m
    | .returned value => .done (.returned value) m

/-- Runs something in a new frame, and leaves this frame in whichever way it ends. -/
def Machine.inScope {α : Type} (m : Machine) (run : Machine → Outcome α) : Outcome α :=
  (run (m.enter ∅ m.environment 0)).onExit fun m' => m'.leave m.environment 0

/-- Takes turns as long as a test gives a value that counts as true, and no turn returns. -/
def repeatWhile (test : Nat → Machine → Outcome Value) (turn : Nat → Machine → Outcome Completion) :
    Nat → Machine → Outcome Completion
  | 0, _ => .outOfFuel
  | n + 1, m =>
    (test n m).bind fun value m =>
      if value.isTruthy then (turn n m).andThen (repeatWhile test turn n) else .done .normal m

namespace ForLoop

/-- The statement that expresses the loop. -/
def statement {ι : Type} (l : ForLoop ι) : Stmt ι :=
  .forLoop l.initializer l.condition l.increment l.body

/-- The loop with other labels. -/
def recode {ι κ : Type} (ρ : Recoding ι κ) (l : ForLoop ι) : ForLoop κ :=
  ⟨Stmt.recode? ρ l.initializer, l.condition.map (Expr.recode ρ), l.increment.map (Expr.recode ρ),
    l.body.recode ρ⟩

section

variable (l : ForLoop NodeId) (s : Setting) (fuel : Nat) (m : Machine)

/-- Runs the initializer, if there is one. -/
def start : Outcome Completion :=
  match l.initializer with
  | none => .done .normal m
  | some statement => execute fuel s statement m

/-- Evaluates the condition. An absent one is true. -/
def test : Outcome Value :=
  match l.condition with
  | none => .done (.bool true) m
  | some e => evaluate fuel s e m

/-- Evaluates the increment, if there is one. -/
def advance : Outcome Completion :=
  match l.increment with
  | none => .done .normal m
  | some e => (evaluate fuel s e m).bind fun _ m => .done .normal m

/-- A turn: the body, and then the increment, unless the body returned. -/
def turn : Outcome Completion := (execute fuel s l.body m).andThen (l.advance s fuel)

/-- Runs the loop in one new scope: the initializer once, and then turns as long as the condition
holds. -/
def run : Outcome Completion :=
  m.inScope fun m => (l.start s fuel m).andThen (repeatWhile (l.test s) (l.turn s) fuel)

/-! ## The loop in blocks -/

/-- A turn in the block that holds the body and the increment. -/
def turnInBlock : Outcome Completion :=
  if l.increment.isSome then m.inScope (l.turn s fuel) else l.turn s fuel m

/-- The loop in the block that holds the initializer, if there is one. -/
def runInBlocks : Outcome Completion :=
  if l.initializer.isSome then
    m.inScope fun m => (l.start s fuel m).andThen (repeatWhile (l.test s) (l.turnInBlock s) fuel)
  else repeatWhile (l.test s) (l.turnInBlock s) fuel m

end

end ForLoop

/-! ## Fuel -/

namespace Outcome

@[simp] theorem andThen_normal (o : Outcome Completion) :
    (o.andThen fun m => .done .normal m) = o := by
  cases o with
  | done completion m => cases completion <;> rfl
  | _ => rfl

theorem Below.andThen {o o' : Outcome Completion} {f f' : Machine → Outcome Completion}
    (h : o.Below o') (hf : ∀ m, (f m).Below (f' m)) : (o.andThen f).Below (o'.andThen f') := by
  refine h.bind fun completion m => ?_
  cases completion with
  | normal => exact hf m
  | returned value => exact .refl _

theorem Below.inScope {α : Type} {run run' : Machine → Outcome α} (h : ∀ m, (run m).Below (run' m))
    (m : Machine) : (m.inScope run).Below (m.inScope run') :=
  (h _).onExit _

end Outcome

/-- If the test and the turns end in the same way with some more fuel, so does the loop. -/
theorem repeatWhile_below {test test' : Nat → Machine → Outcome Value}
    {turn turn' : Nat → Machine → Outcome Completion} {k : Nat}
    (htest : ∀ n m, (test n m).Below (test' (n + k) m))
    (hturn : ∀ n m, (turn n m).Below (turn' (n + k) m)) (n : Nat) (m : Machine) :
    (repeatWhile test turn n m).Below (repeatWhile test' turn' (n + k) m) := by
  induction n generalizing m with
  | zero => exact .outOfFuel _
  | succ n ih =>
    rw [Nat.succ_add, repeatWhile, repeatWhile]
    refine (htest n m).bind fun value m => ?_
    split
    · exact (hturn n m).andThen ih
    · exact .refl _

section

variable (n : Nat) (s : Setting) (m : Machine)

theorem loop_eq_repeatWhile (condition : Expr NodeId) (body : Stmt NodeId) :
    loop n s condition body m =
      repeatWhile (fun n => evaluate n s condition) (fun n => execute n s body) n m := by
  induction n generalizing m with
  | zero => rfl
  | succ n ih =>
    rw [repeatWhile]
    refine Outcome.bind_congr fun value m => ?_
    dsimp only
    split
    · refine Outcome.bind_congr fun completion m => ?_
      cases completion with
      | normal => exact ih m
      | returned value => rfl
    · rfl

theorem executeAll_cons (statement : Stmt NodeId) (rest : List (Stmt NodeId)) :
    executeAll (n + 1) s (statement :: rest) m =
      (execute n s statement m).andThen (executeAll n s rest) := by
  refine Outcome.bind_congr fun completion m => ?_
  cases completion <;> rfl

theorem execute_block (body : List (Stmt NodeId)) :
    execute (n + 1) s (.block body) m = m.inScope (executeAll n s body) :=
  Outcome.bind_done _

variable {n m}

/-- A block with two statements runs the one and then the other. -/
theorem execute_pair_below {first second : Stmt NodeId} {o : Machine → Outcome Completion}
    (h : ∀ k ≤ n, ∀ m, (execute k s second m).Below (o m)) :
    (execute n s (.block [first, second]) m).Below
      (m.inScope fun m => (execute n s first m).andThen o) := by
  have hrest (k : Nat) (hk : k ≤ n) (m : Machine) : (executeAll k s [second] m).Below (o m) := by
    cases k with
    | zero => exact .outOfFuel _
    | succ k =>
      rw [executeAll_cons]
      have hnil (m : Machine) : (executeAll k s [] m).Below (.done .normal m) := by
        cases k with
        | zero => exact .outOfFuel _
        | succ k => exact .refl _
      have ho := (h k (Nat.le_of_succ_le hk) m).andThen hnil
      rwa [Outcome.andThen_normal] at ho
  cases n with
  | zero => exact .outOfFuel _
  | succ n =>
    rw [execute_block]
    refine Outcome.Below.inScope (fun m => ?_) m
    cases n with
    | zero => exact .outOfFuel _
    | succ n =>
      rw [executeAll_cons]
      exact (Task.run_below (Nat.le_add_right n 2) (.execute first) m).andThen
        (hrest n (Nat.le_add_right n 2))

/-- Some more fuel is enough for such a block. -/
theorem below_execute_pair {first second : Stmt NodeId} {o : Machine → Outcome Completion} {k : Nat}
    (hn : n ≤ k) (h : ∀ m, (o m).Below (execute k s second m)) :
    (m.inScope fun m => (execute n s first m).andThen o).Below
      (execute (k + 4) s (.block [first, second]) m) := by
  rw [execute_block]
  refine Outcome.Below.inScope (fun m => ?_) m
  rw [executeAll_cons]
  refine (Task.run_below (Nat.le_trans hn (Nat.le_add_right k 2)) (.execute first) m).andThen fun m => ?_
  rw [executeAll_cons]
  have ho := (h m).trans (Task.run_below (Nat.le_add_right k 1) (.execute second) m)
  rw [← Outcome.andThen_normal (o m)]
  exact ho.andThen fun _ => .refl _

end

namespace ForLoop

section

variable (l : ForLoop NodeId) (s : Setting) (n : Nat) (m : Machine)

/-- The condition of the `while` loop. -/
def whileCondition {ι : Type} (l : ForLoop ι) : Expr ι := l.condition.getD (.literal (.bool true))

/-- The body of the `while` loop. -/
def whileBody {ι : Type} (l : ForLoop ι) : Stmt ι :=
  match l.increment with
  | some e => .block [l.body, .expression e]
  | none => l.body

theorem statement_of_none {ι : Type} {l : ForLoop ι} (h : l.initializer = none) :
    l.statement = .while l.whileCondition l.whileBody := by
  rw [statement, h]
  rfl

theorem statement_of_some {ι : Type} {l : ForLoop ι} {first : Stmt ι} (h : l.initializer = some first) :
    l.statement = .block [first, .while l.whileCondition l.whileBody] := by
  rw [statement, h]
  rfl

theorem evaluate_below : (evaluate n s l.whileCondition m).Below (l.test s n m) := by
  unfold whileCondition test
  cases l.condition with
  | none =>
    cases n with
    | zero => exact .outOfFuel _
    | succ n => exact .refl _
  | some e => exact .refl _

theorem below_evaluate : (l.test s n m).Below (evaluate (n + 1) s l.whileCondition m) := by
  unfold whileCondition test
  cases l.condition with
  | none => exact .refl _
  | some e => exact Task.run_below (Nat.le_succ n) (.evaluate e) m

theorem execute_whileBody_below : (execute n s l.whileBody m).Below (l.turnInBlock s n m) := by
  unfold whileBody turnInBlock turn advance
  cases l.increment with
  | none =>
    rw [Outcome.andThen_normal]
    exact .refl _
  | some e =>
    refine execute_pair_below s fun k hk m => ?_
    cases k with
    | zero => exact .outOfFuel _
    | succ k =>
      exact (Task.run_below (Nat.le_of_succ_le hk) (.evaluate e) m).bind fun _ _ => .refl _

theorem below_execute_whileBody : (l.turnInBlock s n m).Below (execute (n + 5) s l.whileBody m) := by
  unfold whileBody turnInBlock turn advance
  cases l.increment with
  | none =>
    rw [Outcome.andThen_normal]
    exact Task.run_below (Nat.le_add_right n 5) (.execute l.body) m
  | some e => exact below_execute_pair s (Nat.le_succ n) fun m => .refl _

/-- What the statement does, it does in its blocks. -/
theorem execute_below : (execute n s l.statement m).Below (l.runInBlocks s n m) := by
  have hwhile (k : Nat) (hk : k ≤ n) (m : Machine) :
      (execute k s (.while l.whileCondition l.whileBody) m).Below
        (repeatWhile (l.test s) (l.turnInBlock s) n m) := by
    cases k with
    | zero => exact .outOfFuel _
    | succ k =>
      have hloop := Task.run_below (s := s) (Nat.le_of_succ_le hk) (.loop l.whileCondition l.whileBody) m
      refine Outcome.Below.trans hloop ?_
      show (loop n s l.whileCondition l.whileBody m).Below _
      rw [loop_eq_repeatWhile]
      exact repeatWhile_below (k := 0) (fun n m => l.evaluate_below s n m)
        (fun n m => l.execute_whileBody_below s n m) n m
  unfold runInBlocks start
  cases hi : l.initializer with
  | none =>
    rw [statement_of_none hi]
    exact hwhile n (Nat.le_refl n) m
  | some first =>
    rw [statement_of_some hi]
    exact execute_pair_below s hwhile

/-- What the statement does in its blocks it does with some more fuel. -/
theorem below_execute : (l.runInBlocks s n m).Below (execute (n + 10) s l.statement m) := by
  have hwhile (m : Machine) : (repeatWhile (l.test s) (l.turnInBlock s) n m).Below
      (execute (n + 6) s (.while l.whileCondition l.whileBody) m) := by
    show Outcome.Below _ (loop (n + 5) s l.whileCondition l.whileBody m)
    rw [loop_eq_repeatWhile]
    refine repeatWhile_below (k := 5) (fun n m => ?_) (fun n m => l.below_execute_whileBody s n m) n m
    have hfuel : n + 1 ≤ n + 5 := Nat.add_le_add_left (by decide) n
    exact (l.below_evaluate s n m).trans (Task.run_below hfuel (.evaluate l.whileCondition) m)
  unfold runInBlocks start
  cases hi : l.initializer with
  | none =>
    rw [statement_of_none hi]
    have hfuel : n + 6 ≤ n + 10 := Nat.add_le_add_left (by decide) n
    exact (hwhile m).trans
      (Task.run_below (s := s) hfuel (.execute (.while l.whileCondition l.whileBody)) m)
  | some first =>
    rw [statement_of_some hi]
    exact below_execute_pair s (Nat.le_add_right n 6) hwhile

end

end ForLoop

/-! ## Turns -/

/-- The states in which turns start, when these turns are taken. -/
inductive Turns (test : Nat → Machine → Outcome Value) (turn : Nat → Machine → Outcome Completion) :
    Nat → Machine → Machine → Prop
  | first {n : Nat} {m m₁ : Machine} {value : Value} (ht : test n m = .done value m₁)
    (hv : value.isTruthy) : Turns test turn (n + 1) m m₁
  | later {n : Nat} {m m₁ m₂ m' : Machine} {value : Value} (ht : test n m = .done value m₁)
    (hv : value.isTruthy) (hturn : turn n m₁ = .done .normal m₂) (h : Turns test turn n m₂ m') :
    Turns test turn (n + 1) m m'

/-- Turns start in the frame in which the loop starts, if tests and turns end where they start. -/
theorem Turns.returns {test : Nat → Machine → Outcome Value}
    {turn : Nat → Machine → Outcome Completion} {n : Nat} {m m' : Machine}
    (htest : ∀ n m, (test n m).Ensures m.Returns) (hturn : ∀ n m, (turn n m).Ensures m.Returns)
    (h : Turns test turn n m m') : m.Returns m' := by
  induction h with
  | @first n m m₁ value ht =>
    have h := htest n m
    rw [ht] at h
    exact Outcome.ensures_done.mp h
  | @later n m m₁ m₂ m' value ht hv hd _ ih =>
    have h₁ := htest n m
    have h₂ := hturn n m₁
    rw [ht] at h₁
    rw [hd] at h₂
    exact ((Outcome.ensures_done.mp h₁).trans (Outcome.ensures_done.mp h₂)).trans ih

namespace ForLoop

section

variable (l : ForLoop NodeId) (s : Setting) (n : Nat) (m : Machine)

/-- The loop comes to a turn in this state when it runs directly. -/
def Comes (m' : Machine) : Prop :=
  ∃ m₁, l.start s n (m.enter ∅ m.environment 0) = .done .normal m₁ ∧
    Turns (l.test s) (l.turn s) n m₁ m'

theorem returns_start : (l.start s n m).Ensures m.Returns := by
  unfold start
  cases l.initializer with
  | none => exact Outcome.ensures_done.mpr (.refl m)
  | some first => exact Task.returns_run n s (.execute first) m

theorem returns_test : (l.test s n m).Ensures m.Returns := by
  unfold test
  cases l.condition with
  | none => exact Outcome.ensures_done.mpr (.refl m)
  | some e => exact Task.returns_run n s (.evaluate e) m

theorem returns_advance : (l.advance s n m).Ensures m.Returns := by
  unfold advance
  cases l.increment with
  | none => exact Outcome.ensures_done.mpr (.refl m)
  | some e => exact (Task.returns_run n s (.evaluate e) m).bind fun _ _ h => Outcome.ensures_done.mpr h

theorem returns_turn : (l.turn s n m).Ensures m.Returns := by
  refine (Task.returns_run n s (.execute l.body) m).bind fun completion m₁ h => ?_
  cases completion with
  | normal => exact fun m' hm' => h.trans (l.returns_advance s n m₁ m' hm')
  | returned value => exact Outcome.ensures_done.mpr h

variable {l s n m}

/-- All turns start in the one frame that was added for the loop. -/
theorem Comes.returns {m' : Machine} (h : l.Comes s n m m') : (m.enter ∅ m.environment 0).Returns m' := by
  obtain ⟨m₁, hstart, hturns⟩ := h
  have h₁ := l.returns_start s n (m.enter ∅ m.environment 0)
  rw [hstart] at h₁
  exact (Outcome.ensures_done.mp h₁).trans
    (hturns.returns (fun n m => l.returns_test s n m) fun n m => l.returns_turn s n m)

/-- This frame was not there before. -/
theorem Comes.frame?_eq_none {m' : Machine} (h : l.Comes s n m m') :
    m.store.frame? m'.environment = none := by
  rw [h.returns.environment]
  refine Option.not_isSome_iff_eq_none.mp fun hs => ?_
  have hne : _ ≠ (m.store.addFrame ⟨∅, some m.environment⟩).1 := Store.ne_addFrame hs
  exact hne rfl

end

end ForLoop

/-! ## The loops of the grammar -/

section

variable {ι κ : Type} {ρ : Recoding ι κ} {s : Stmt ι}

theorem Stmt.exists_of_recode_eq_expression {e' : Expr κ} (h : s.recode ρ = .expression e') :
    ∃ e, s = .expression e ∧ e.recode ρ = e' := by
  cases s with
  | expression e => exact ⟨e, rfl, Stmt.expression.inj h⟩
  | _ => cases h

theorem Stmt.exists_of_recode_eq_while {c' : Expr κ} {b' : Stmt κ} (h : s.recode ρ = .while c' b') :
    ∃ c b, s = .while c b ∧ c.recode ρ = c' ∧ b.recode ρ = b' := by
  cases s with
  | «while» c b => exact ⟨c, b, rfl, Stmt.while.inj h⟩
  | _ => cases h

theorem Stmt.exists_of_recode_eq_pair {first' second' : Stmt κ}
    (h : s.recode ρ = .block [first', second']) :
    ∃ first second, s = .block [first, second] ∧ first.recode ρ = first' ∧ second.recode ρ = second' := by
  cases s with
  | block body =>
    have h : Stmt.recodeAll ρ body = [first', second'] := Stmt.block.inj h
    rcases body with _ | ⟨first, _ | ⟨second, _ | _⟩⟩
    · cases h
    · cases h
    · obtain ⟨hf, h⟩ := List.cons.inj h
      exact ⟨first, second, rfl, hf, (List.cons.inj h).1⟩
    · cases h
  | _ => cases h

namespace ForLoop

theorem exists_of_recode_eq_whileCondition {e : Expr ι} {l' : ForLoop κ}
    (h : e.recode ρ = l'.whileCondition) :
    ∃ condition : Option (Expr ι), e = condition.getD (.literal (.bool true)) ∧
      condition.map (Expr.recode ρ) = l'.condition := by
  unfold whileCondition at h
  cases hc : l'.condition with
  | some e' =>
    rw [hc] at h
    exact ⟨some e, rfl, congrArg some h⟩
  | none =>
    rw [hc] at h
    cases e with
    | literal value => exact ⟨none, congrArg _ (Expr.literal.inj h), rfl⟩
    | _ => cases h

theorem exists_of_recode_eq_whileBody {l' : ForLoop κ} (h : s.recode ρ = l'.whileBody) :
    ∃ l : ForLoop ι, s = l.whileBody ∧ l.increment.map (Expr.recode ρ) = l'.increment ∧
      l.body.recode ρ = l'.body := by
  unfold whileBody at h
  cases hi : l'.increment with
  | none =>
    rw [hi] at h
    exact ⟨⟨none, none, none, s⟩, rfl, rfl, h⟩
  | some e' =>
    rw [hi] at h
    obtain ⟨body, second, rfl, hbody, hsecond⟩ := Stmt.exists_of_recode_eq_pair h
    obtain ⟨e, rfl, he⟩ := Stmt.exists_of_recode_eq_expression hsecond
    exact ⟨⟨none, none, some e, body⟩, rfl, congrArg some he, hbody⟩

/-- A statement is that of a loop if it is so with other labels. -/
theorem exists_of_recode_eq_statement {l' : ForLoop κ} (h : s.recode ρ = l'.statement) :
    ∃ l : ForLoop ι, l.statement = s ∧ l.recode ρ = l' := by
  have hwhile {s : Stmt ι} (h : s.recode ρ = .while l'.whileCondition l'.whileBody) :
      ∃ l : ForLoop ι, s = .while l.whileCondition l.whileBody ∧
        l.condition.map (Expr.recode ρ) = l'.condition ∧
        l.increment.map (Expr.recode ρ) = l'.increment ∧ l.body.recode ρ = l'.body := by
    obtain ⟨c, b, rfl, hc, hb⟩ := Stmt.exists_of_recode_eq_while h
    obtain ⟨condition, rfl, hcondition⟩ := exists_of_recode_eq_whileCondition hc
    obtain ⟨l, rfl, hincrement, hbody⟩ := exists_of_recode_eq_whileBody hb
    exact ⟨⟨none, condition, l.increment, l.body⟩, rfl, hcondition, hincrement, hbody⟩
  obtain ⟨initializer', condition', increment', body'⟩ := l'
  cases initializer' with
  | none =>
    rw [statement_of_none rfl] at h
    obtain ⟨l, rfl, hc, hi, hb⟩ := hwhile h
    refine ⟨⟨none, l.condition, l.increment, l.body⟩, rfl, ?_⟩
    rw [recode, hc, hi, hb]
    rfl
  | some first' =>
    rw [statement_of_some rfl] at h
    obtain ⟨first, second, rfl, hf, h⟩ := Stmt.exists_of_recode_eq_pair h
    obtain ⟨l, rfl, hc, hi, hb⟩ := hwhile h
    refine ⟨⟨some first, l.condition, l.increment, l.body⟩, rfl, ?_⟩
    rw [recode, Stmt.recode?, hf, hc, hi, hb]

end ForLoop
end

namespace ForLoop

theorem declares_statement {ι : Type} (l : ForLoop ι) : l.statement.declares = [] := by
  obtain ⟨initializer, condition, increment, body⟩ := l
  cases initializer <;> cases increment <;> rfl

end ForLoop

theorem Grammar.Statement.declares_eq_nil {rule : ElseRule} {isOpen : Bool} {ts : List Token}
    {s : Stmt Unit} (h : Statement rule isOpen ts s) : s.declares = [] := by
  cases h with
  | expression hs =>
    cases hs
    rfl
  | «for» => exact ForLoop.declares_statement ⟨_, _, _, _⟩
  | _ => rfl

/-- A numbered `for` loop of the grammar is the statement of a loop whose body declares nothing. -/
theorem ForLoop.exists_of_derives {rule : Grammar.ElseRule} {isOpen : Bool} {ts : List Token}
    {s : Stmt NodeId} {initializer : Option (Stmt Unit)} {condition increment : Option (Expr Unit)}
    {body : Stmt Unit} (hb : Grammar.Statement rule isOpen ts body)
    (hs : s.recode .forget = Stmt.forLoop initializer condition increment body) :
    ∃ l : ForLoop NodeId, l.statement = s ∧
      l.recode .forget = ⟨initializer, condition, increment, body⟩ ∧ l.body.declares = [] := by
  have hs : s.recode .forget = (⟨initializer, condition, increment, body⟩ : ForLoop Unit).statement := hs
  obtain ⟨l, rfl, hl⟩ := exists_of_recode_eq_statement hs
  refine ⟨l, rfl, hl, ?_⟩
  have hbody : l.body.recode .forget = body := congrArg ForLoop.body hl
  rw [← l.body.declares_recode .forget, hbody]
  exact hb.declares_eq_nil

end Lox
