import Lox.Proofs.Evaluation.Creation
import Mathlib.Data.List.Chain

/-!
# What one step changes

The states of a run (`Setting.states`) are those at which its tasks start and end. From each to the
next a single task does something by itself, and there are few things that this can do to the store.

* `Task.Changes`: all of them, each with the code that asks for it;
* `Task.eachStep_plan`: no plan does anything else;
* `Setting.stepwise_states`, `Setting.stepwise_statesIn`: so each state of a run comes from the one
  before it by such a change, and the last is that in which the run ends;
* `Task.ensures_of_changes`: and what all changes keep, every run keeps.
-/

namespace Lox

/-! ## Changes -/

/-- A task that was started in the first state goes by itself from the second to the third, if the
tasks that it starts end in these outcomes. -/
inductive Task.Changes (go : (t : Task) → Machine → Outcome t.Answer) :
    Task → Machine → Machine → Machine → Prop where
  | keep {t : Task} {m x y : Machine} (h : y.store = x.store) : Changes go t m x y
  /-- A block and a call have a frame of their own. -/
  | frame {t : Task} {m x : Machine} (bindings : Bindings Value) (outer : FrameId) (calls : Nat) :
    Changes go t m x (x.enter bindings outer calls)
  | var {name : Name} {initializer : Option (Expr NodeId)} {m x : Machine} (v : Value) :
    Changes go (.execute (.var name initializer)) m x (x.define name.text v)
  | assign {id : NodeId} {name : Name} {value : Expr NodeId} {m x : Machine} (f : FrameId)
    (v : Value) : Changes go (.evaluate (.assign id name value)) m x
      { x with store := x.store.define f name.text v }
  | set {object value : Expr NodeId} {name : Name} {i : InstanceId} {v : Value} {m m₁ x : Machine}
    (ho : go (.evaluate object) m = .done (.instance i) m₁)
    (hv : go (.evaluate value) m₁ = .done v x) : Changes go (.evaluate (.set object name value)) m x
      { x with store := x.store.setField i name.text v }
  | bind {e : Expr NodeId} {m x : Machine} (method : FunctionObject) (i : InstanceId) :
    Changes go (.evaluate e) m x { x with store :=
      ((x.store.bindMethod method i).2.addFunction (x.store.bindMethod method i).1).2 }
  | function {declaration : FunDecl NodeId} {m x : Machine} :
    Changes go (.execute (.function declaration)) m x (declareFunction declaration x)
  | «class» {name : Name} {superclass : Option (Expr NodeId)} {methods : List (FunDecl NodeId)}
    {m x : Machine} (c : Option ClassId) :
    Changes go (.execute (.class name superclass methods)) m x (declareClass name c methods x)
  | new {c : ClassId} {arguments : List Value} {line : Nat} {m x : Machine} :
    Changes go (.call (.class c) arguments line) m x
      { x with store := (x.store.addInstance ⟨c, ∅⟩).2 }
  | construct {c : ClassId} {arguments : List Value} {line : Nat} {m x : Machine}
    (method : FunctionObject) : Changes go (.call (.class c) arguments line) m x
      { x with store := ((x.store.addInstance ⟨c, ∅⟩).2.bindMethod method
        (x.store.addInstance ⟨c, ∅⟩).1).2 }

/-- Each state to which a plan comes by itself is related to the one before it, if the tasks that it
starts end in these outcomes. -/
def Plan.EachStep {α : Type} (go : (t : Task) → Machine → Outcome t.Answer)
    (Q : Machine → Machine → Prop) : Plan α → Machine → Prop
  | .finish o, x => o.Ensures (Q x)
  | .start u m exit resume, x =>
    Q x m ∧ (∀ m', Q m' (exit.apply m')) ∧
      ∀ a m', go u m = .done a m' → (resume a (exit.apply m')).EachStep go Q (exit.apply m')

section

variable {go : (t : Task) → Machine → Outcome t.Answer} {t : Task} {m x y : Machine} {α : Type}

theorem eachStep_done {a : α} (h : t.Changes go m x y) :
    (Plan.finish (.done a y)).EachStep go (t.Changes go m) x := Outcome.ensures_done.mpr h

theorem eachStep_fault (cause : RuntimeFault) (line : Nat) :
    (Plan.finish (x.fault cause line) : Plan α).EachStep go (t.Changes go m) x :=
  Outcome.ensures_fault.mpr (.keep rfl)

/-- A plan goes on from the state in which a task ended. -/
theorem eachStep_start (u : Task) (h : t.Changes go m x y) {resume : u.Answer → Machine → Plan α}
    (hresume : ∀ a m', go u y = .done a m' → (resume a m').EachStep go (t.Changes go m) m') :
    (Plan.start u y .stay resume).EachStep go (t.Changes go m) x :=
  ⟨h, fun _ => .keep rfl, hresume⟩

theorem eachStep_delegate (u : Task) :
    (Plan.delegate u x).EachStep go (t.Changes go m) x :=
  eachStep_start u (.keep rfl) fun _ _ _ => eachStep_done (.keep rfl)

/-- A plan comes back from a new frame. -/
theorem eachStep_enter (u : Task) (bindings : Bindings Value) (outer environment : FrameId)
    (calls : Nat) {resume : u.Answer → Machine → Plan α}
    (hresume : ∀ a m', (resume a m').EachStep go (t.Changes go m) m') :
    (Plan.start u (x.enter bindings outer calls) (.leave environment calls) resume).EachStep go
      (t.Changes go m) x :=
  ⟨.frame bindings outer calls, fun _ => .keep rfl, fun a _ _ => hresume a _⟩

end

section

variable {go : (t : Task) → Machine → Outcome t.Answer} (s : Setting) (m : Machine)

theorem Expr.eachStep_plan (e : Expr NodeId) :
    (e.plan s m).EachStep go ((Task.evaluate e).Changes go m) m := by
  cases e with
  | literal value => exact eachStep_done (.keep rfl)
  | group inner => exact eachStep_delegate (.evaluate inner)
  | unary operator right =>
    exact eachStep_start (.evaluate right) (.keep rfl) fun _ _ _ => ensures_settle (.keep rfl) _ _
  | binary left operator right =>
    exact eachStep_start (.evaluate left) (.keep rfl) fun _ _ _ =>
      eachStep_start (.evaluate right) (.keep rfl) fun _ _ _ => ensures_settle (.keep rfl) _ _
  | logical left operator right =>
    refine eachStep_start (.evaluate left) (.keep rfl) fun value m₁ _ => ?_
    split
    · exact eachStep_done (.keep rfl)
    · exact eachStep_delegate (.evaluate right)
  | «variable» id name | this id name => exact ensures_readVariable s id name (.keep rfl)
  | assign id name value =>
    exact eachStep_start (.evaluate value) (.keep rfl) fun v _ _ =>
      ensures_writeVariable s id name v (.keep rfl) fun frame => .assign frame v
  | call callee line arguments =>
    exact eachStep_start (.evaluate callee) (.keep rfl) fun callee _ _ =>
      eachStep_start (.evaluateAll arguments) (.keep rfl) fun arguments _ _ =>
        eachStep_delegate (.call callee arguments line)
  | get object name =>
    exact eachStep_start (.evaluate object) (.keep rfl) fun _ _ _ =>
      ensures_readProperty _ name (.keep rfl) fun _ i method _ =>
        Outcome.ensures_done.mpr (.bind method i)
  | set object name value =>
    refine eachStep_start (.evaluate object) (.keep rfl) fun object m₁ ho => ?_
    cases object with
    | «instance» i =>
      exact eachStep_start (.evaluate value) (.keep rfl) fun _ _ hv => eachStep_done (.set ho hv)
    | _ => exact eachStep_fault _ _
  | super id keyword method =>
    exact ensures_readSuper s id keyword method (.keep rfl) fun _ i f _ =>
      Outcome.ensures_done.mpr (.bind f i)

theorem Expr.eachStep_planAll (es : List (Expr NodeId)) :
    (Expr.planAll es m).EachStep go ((Task.evaluateAll es).Changes go m) m := by
  cases es with
  | nil => exact eachStep_done (.keep rfl)
  | cons e es =>
    exact eachStep_start (.evaluate e) (.keep rfl) fun _ _ _ =>
      eachStep_start (.evaluateAll es) (.keep rfl) fun _ _ _ => eachStep_done (.keep rfl)

theorem Value.eachStep_callPlan (callee : Value) (arguments : List Value) (line : Nat) :
    (callee.callPlan arguments line m).EachStep go
      ((Task.call callee arguments line).Changes go m) m := by
  cases callee with
  | function id =>
    rw [callPlan, callRule]
    split
    · exact eachStep_fault _ _
    · split
      · exact eachStep_delegate (.enter _ arguments line)
      · exact eachStep_fault _ _
  | «class» id =>
    rw [callPlan, callRule]
    split
    · dsimp only
      split
      · exact eachStep_done .new
      · exact eachStep_start (.enter _ arguments line) (.construct _) fun _ _ _ =>
          eachStep_done (.keep rfl)
    · exact eachStep_fault _ _
  | _ => exact eachStep_fault _ _

theorem FunctionObject.eachStep_plan (f : FunctionObject) (arguments : List Value) (line : Nat) :
    (f.plan s arguments line m).EachStep go ((Task.enter f arguments line).Changes go m) m := by
  unfold plan rule
  split
  · exact eachStep_fault _ _
  · exact eachStep_enter (.executeAll f.declaration.body) _ _ _ 1 fun completion _ =>
      ensures_result f completion (.keep rfl)

theorem Stmt.eachStep_plan (statement : Stmt NodeId) :
    (statement.plan s m).EachStep go ((Task.execute statement).Changes go m) m := by
  cases statement with
  | expression e =>
    exact eachStep_start (.evaluate e) (.keep rfl) fun _ _ _ => eachStep_done (.keep rfl)
  | print e =>
    exact eachStep_start (.evaluate e) (.keep rfl) fun _ _ _ =>
      ensures_printValue s _ (.keep rfl) (.keep rfl)
  | var name initializer =>
    cases initializer with
    | none => exact eachStep_done (.var .nil)
    | some e => exact eachStep_start (.evaluate e) (.keep rfl) fun v _ _ => eachStep_done (.var v)
  | block body =>
    exact eachStep_enter (.executeAll body) ∅ _ _ 0 fun _ _ => eachStep_done (.keep rfl)
  | ifElse condition thenBranch elseBranch =>
    refine eachStep_start (.evaluate condition) (.keep rfl) fun value m₁ _ => ?_
    split
    · exact eachStep_delegate (.execute thenBranch)
    · cases elseBranch with
      | none => exact eachStep_done (.keep rfl)
      | some elseBranch => exact eachStep_delegate (.execute elseBranch)
  | «while» condition body => exact eachStep_delegate (.loop condition body)
  | function declaration => exact eachStep_done .function
  | «return» keyword value =>
    cases value with
    | none => exact eachStep_done (.keep rfl)
    | some e =>
      exact eachStep_start (.evaluate e) (.keep rfl) fun _ _ _ => eachStep_done (.keep rfl)
  | «class» name superclass methods =>
    cases superclass with
    | none => exact eachStep_done (.class none)
    | some e =>
      refine eachStep_start (.evaluate e) (.keep rfl) fun value m₁ _ => ?_
      cases value with
      | «class» c => exact eachStep_done (.class (some c))
      | _ => exact eachStep_fault _ _

theorem Stmt.eachStep_planAll (statements : List (Stmt NodeId)) :
    (Stmt.planAll statements m).EachStep go ((Task.executeAll statements).Changes go m) m := by
  cases statements with
  | nil => exact eachStep_done (.keep rfl)
  | cons statement rest =>
    refine eachStep_start (.execute statement) (.keep rfl) fun completion m₁ _ => ?_
    cases completion with
    | normal => exact eachStep_delegate (.executeAll rest)
    | returned value => exact eachStep_done (.keep rfl)

theorem Stmt.eachStep_loopPlan (condition : Expr NodeId) (body : Stmt NodeId) :
    (Stmt.loopPlan condition body m).EachStep go ((Task.loop condition body).Changes go m) m := by
  refine eachStep_start (.evaluate condition) (.keep rfl) fun value m₁ _ => ?_
  split
  · refine eachStep_start (.execute body) (.keep rfl) fun completion m₂ _ => ?_
    cases completion with
    | normal => exact eachStep_delegate (.loop condition body)
    | returned value => exact eachStep_done (.keep rfl)
  · exact eachStep_done (.keep rfl)

/-- Whatever a task does by itself is one of the changes. -/
theorem Task.eachStep_plan (t : Task) : (t.plan s m).EachStep go (t.Changes go m) m :=
  match t with
  | .evaluate e => e.eachStep_plan s m
  | .evaluateAll es => Expr.eachStep_planAll m es
  | .call callee arguments line => callee.eachStep_callPlan m arguments line
  | .enter f arguments line => f.eachStep_plan s m arguments line
  | .execute statement => statement.eachStep_plan s m
  | .executeAll statements => Stmt.eachStep_planAll m statements
  | .loop condition body => Stmt.eachStep_loopPlan m condition body

end

/-! ## The states of a run -/

/-- The states of a run: the first is that in which it starts, each comes from the one before it, and
the last is that in which the run ends, if it does. -/
structure Stepwise (Q : Machine → Machine → Prop) (m : Machine) (states : List Machine)
    (last? : Option Machine) : Prop where
  head : states.head? = some m
  chain : states.IsChain Q
  last {m' : Machine} : last? = some m' → states.getLast? = some m'

namespace Stepwise

variable {Q Q' : Machine → Machine → Prop} {m m₁ m₂ : Machine} {states rest : List Machine}
  {last? : Option Machine}

theorem singleton (m : Machine) : Stepwise Q m [m] (some m) := ⟨rfl, .singleton m, id⟩

theorem ne_nil (h : Stepwise Q m states last?) : states ≠ [] := by
  rintro rfl
  cases h.head

/-- The end is left open. -/
theorem start (h : Stepwise Q m states last?) : Stepwise Q m states none := ⟨h.head, h.chain, nofun⟩

/-- One run goes on from the end of another. -/
theorem append (h : Stepwise Q m states (some m₁)) (hm : Q m₁ m₂)
    (h' : Stepwise Q m₂ rest last?) : Stepwise Q m (states ++ rest) last? where
  head := List.head?_append_of_ne_nil _ h.ne_nil ▸ h.head
  chain := by
    refine h.chain.append h'.chain fun a ha b hb => ?_
    rw [h.last rfl] at ha
    rw [h'.head] at hb
    obtain rfl := Option.some.inj ha
    obtain rfl := Option.some.inj hb
    exact hm
  last he := List.getLast?_append_of_ne_nil _ h'.ne_nil ▸ h'.last he

/-- One more state before the first. -/
theorem cons (hm : Q m m₁) (h : Stepwise Q m₁ states last?) : Stepwise Q m (m :: states) last? :=
  (singleton m).append hm h

theorem mono (h : Stepwise Q m states last?) (hQ : ∀ x y, Q x y → Q' x y) :
    Stepwise Q' m states last? := ⟨h.head, h.chain.imp hQ, h.last⟩

/-- What each state is to the next, the first is to the last. -/
theorem ends [Trans Q Q Q] (h : Stepwise Q m states (some m₁)) : m₁ = m ∨ Q m m₁ := by
  obtain ⟨rest, rfl⟩ := List.head?_eq_some_iff.mp h.head
  exact (List.mem_cons.mp (List.mem_of_getLast? (h.last rfl))).imp_right h.chain.rel_cons

end Stepwise

section

variable {go : (t : Task) → Machine → Outcome t.Answer} {inner : Task → Machine → List Machine}
  {Q Q' : Machine → Machine → Prop} {α : Type}

theorem Plan.EachStep.mono {p : Plan α} {x : Machine} (h : p.EachStep go Q x)
    (hQ : ∀ x y, Q x y → Q' x y) : p.EachStep go Q' x := by
  induction p generalizing x with
  | finish o => exact fun m hm => hQ x m (h m hm)
  | start u m exit resume ih =>
    obtain ⟨hm, hexit, hresume⟩ := h
    exact ⟨hQ _ _ hm, fun m' => hQ _ _ (hexit m'), fun a m' hgo => ih a _ (hresume a m' hgo)⟩

/-- The states of a plan, after that in which it starts. -/
theorem Plan.EachStep.stepwise {p : Plan α} {x : Machine} (h : p.EachStep go Q x)
    (hinner : ∀ u m, p.Starts go u m → Stepwise Q m (inner u m) (go u m).state?) :
    Stepwise Q x (x :: p.states go inner) (p.run go).state? := by
  induction p generalizing x with
  | finish o =>
    cases o with
    | done a m | failed failure m => exact .cons (h m rfl) (.singleton m)
    | outOfFuel => exact (Stepwise.singleton x).start
  | start u m exit resume ih =>
    obtain ⟨hm, hexit, hresume⟩ := h
    have hu := (hinner u m (.first _ _ _ _)).cons hm
    rw [Plan.states, Plan.run, ← List.cons_append]
    cases hgo : go u m with
    | done a m' =>
      rw [hgo] at hu
      have hgoes := ih a _ (hresume a m' hgo) fun v m₂ hv => hinner v m₂ (.later hgo hv)
      exact hu.append (hexit m') hgoes
    | failed failure m' =>
      rw [hgo] at hu
      exact hu.append (hexit m') (.singleton _)
    | outOfFuel =>
      rw [List.append_nil]
      exact hu.start

end

namespace Setting

variable {s : Setting} {Q : Machine → Machine → Prop} {n : Nat}

/-- Each state of a run comes from the one before it as the plans of its tasks say. -/
theorem stepwise_states {t : Task} {m : Machine}
    (h : ∀ k u m', s.Reaches n t m u m' → (u.plan s m').EachStep (fun t m => t.run k s m) Q m') :
    Stepwise Q m (s.states n t m) (t.run n s m).state? := by
  induction n generalizing t m with
  | zero =>
    rw [Task.run_zero]
    exact (Stepwise.singleton m).start
  | succ n ih =>
    rw [Task.run_succ]
    exact (h n t m (.here _ _ _)).stepwise fun u m₁ hu =>
      ih fun k v m₂ hv => h k v m₂ (.inside hu hv)

theorem stepwise_statesIn {program : List (Stmt NodeId)} {m : Machine} (hrefl : ∀ x, Q x x)
    (h : ∀ k u m', s.ReachesIn n program m u m' →
      (u.plan s m').EachStep (fun t m => t.run k s m) Q m') :
    Stepwise Q m (s.statesIn n program m) (runStatements n s program m).state? := by
  induction program generalizing m with
  | nil => exact .singleton m
  | cons statement rest ih =>
    have hx : Stepwise Q m (s.states n (.execute statement) m) (execute n s statement m).state? :=
      stepwise_states (t := .execute statement) fun k u m' hu => h k u m' (.first hu)
    rw [statesIn, runStatements]
    cases he : execute n s statement m with
    | done completion m' =>
      rw [he] at hx
      exact hx.append (hrefl m') (ih fun k u m₂ hu => h k u m₂ (.later he hu))
    | failed failure m' =>
      rw [he] at hx
      rw [List.append_nil]
      exact hx
    | outOfFuel =>
      rw [he] at hx
      rw [List.append_nil]
      exact hx

end Setting

/-- What all changes keep, every run keeps. -/
theorem Task.ensures_of_changes {Q : Machine → Machine → Prop} [Trans Q Q Q] (hrefl : ∀ x, Q x x)
    (h : ∀ go (t : Task) m x y, t.Changes go m x y → Q x y) (n : Nat) (s : Setting) (t : Task)
    (m : Machine) : (t.run n s m).Ensures (Q m) := by
  intro m' hm'
  have hstates := s.stepwise_states (Q := Q) (n := n) (t := t) (m := m) fun k u m₁ _ =>
    (u.eachStep_plan s m₁).mono (h _ u m₁)
  rw [hm'] at hstates
  rcases hstates.ends with rfl | hQ
  · exact hrefl m'
  · exact hQ

end Lox
