import Lox.Proofs.Evaluation.Frames
import Lox.Proofs.Evaluation.States

/-!
# What is fixed at creation

A frame never changes the frame around it, and a function or a class never changes at all. Every
frame that is added lies in another one. So a store only grows by frames that are no roots
(`Store.Extends`), and whatever was found along the frames, or along the superclasses, is on the
same way later.

* `Machine.Precedes`: the store of a later state extends that of an earlier one, and its current
  frame is in the store;
* `Task.advances_plan`: every step of the evaluator goes to a later state;
* `Setting.trail_precedes`: so each state of a program precedes all that come after it.
-/

namespace Lox

/-! ## Stores -/

/-- The frame around a frame, if the frame is in the store. A root has none. -/
def Store.link? (s : Store) (f : FrameId) : Option (Option FrameId) :=
  (s.frame? f).map Frame.enclosing

/-- The second store has all frames, functions and classes of the first, with the same frames around
them, and its other frames lie in frames. -/
structure Store.Extends (s s' : Store) : Prop where
  link {f : FrameId} {outer : Option FrameId} : s.link? f = some outer → s'.link? f = some outer
  root {f : FrameId} : s'.link? f = some none → s.link? f = some none
  function {id : FunctionId} {f : FunctionObject} :
    s.function? id = some f → s'.function? id = some f
  «class» {id : ClassId} {c : ClassObject} : s.class? id = some c → s'.class? id = some c

namespace Store

variable {s s' s'' : Store}

theorem link?_define (s : Store) (f g : FrameId) (name : String) (value : Value) :
    (s.define f name value).link? g = s.link? g := by
  rw [link?, frame?_define]
  split
  · rw [Option.map_map]
    rfl
  · rfl

theorem link?_addFrame (s : Store) (frame : Frame) (g : FrameId) :
    (s.addFrame frame).2.link? g =
      if g = (s.addFrame frame).1 then some frame.enclosing else s.link? g := by
  rw [link?, frame?_addFrame]
  split <;> rfl

/-- The number of a new frame was not that of a frame before. -/
theorem link?_addFrame_self (s : Store) (frame : Frame) : s.link? (s.addFrame frame).1 = none := by
  simp [link?, frame?, addFrame]

theorem link?_isSome_iff {f : FrameId} : (s.link? f).isSome ↔ f.index < s.frames.size := by
  simp [link?, frame?]

namespace Extends

theorem refl (s : Store) : s.Extends s := ⟨id, id, id, id⟩

theorem trans (h : s.Extends s') (h' : s'.Extends s'') : s.Extends s'' :=
  ⟨h'.link ∘ h.link, h.root ∘ h'.root, h'.function ∘ h.function, h'.class ∘ h.class⟩

theorem isSome_link? (h : s.Extends s') {f : FrameId} (hf : (s.link? f).isSome) :
    (s'.link? f).isSome := by
  obtain ⟨outer, ho⟩ := Option.isSome_iff_exists.mp hf
  rw [h.link ho]
  rfl

theorem define (s : Store) (f : FrameId) (name : String) (value : Value) :
    s.Extends (s.define f name value) where
  link h := by rwa [link?_define]
  root h := by rwa [link?_define] at h
  function := id
  «class» := id

/-- A new frame is no root. -/
theorem addFrame (s : Store) (bindings : Bindings Value) (outer : FrameId) :
    s.Extends (s.addFrame ⟨bindings, some outer⟩).2 where
  link {f _} h := by
    rw [link?_addFrame, if_neg]
    · exact h
    · rintro rfl
      rw [link?_addFrame_self] at h
      cases h
  root {f} h := by
    rw [link?_addFrame] at h
    split at h
    · cases h
    · exact h
  function := id
  «class» := id

theorem addFunction (s : Store) (f : FunctionObject) : s.Extends (s.addFunction f).2 where
  link := id
  root := id
  function {id g} h := by
    have hlt := (Array.getElem?_eq_some_iff.mp h).1
    rw [function?, Store.addFunction, Array.getElem?_push_lt hlt, ← Array.getElem?_eq_getElem hlt]
    exact h
  «class» := id

theorem addClass (s : Store) (c : ClassObject) : s.Extends (s.addClass c).2 where
  link := id
  root := id
  function := id
  «class» {id d} h := by
    have hlt := (Array.getElem?_eq_some_iff.mp h).1
    rw [class?, Store.addClass, Array.getElem?_push_lt hlt, ← Array.getElem?_eq_getElem hlt]
    exact h

theorem addInstance (s : Store) (i : InstanceObject) : s.Extends (s.addInstance i).2 :=
  ⟨id, id, id, id⟩

theorem setField (s : Store) (i : InstanceId) (name : String) (value : Value) :
    s.Extends (s.setField i name value) := ⟨id, id, id, id⟩

theorem bindMethod (s : Store) (method : FunctionObject) (receiver : InstanceId) :
    s.Extends (s.bindMethod method receiver).2 := addFrame s _ _

end Extends

end Store

/-! ## States -/

/-- The store of the second state extends that of the first, and it has the frame that is current.
-/
structure Machine.Precedes (m m' : Machine) : Prop where
  store : m.store.Extends m'.store
  environment : (m'.store.link? m'.environment).isSome

theorem Machine.later_precedes : Later Machine.Precedes where
  trans h h' := ⟨h.store.trans h'.store, h'.environment⟩
  self h := ⟨.refl _, h.environment⟩

namespace Machine.Precedes

variable {m m₁ m₂ : Machine}

theorem trans (h : m.Precedes m₁) (h' : m₁.Precedes m₂) : m.Precedes m₂ := later_precedes.trans h h'

/-- The current frame stays when the store is extended. -/
theorem withStore (h : m.Precedes m) {store : Store} (hs : m.store.Extends store) :
    m.Precedes { m with store } := ⟨hs, hs.isSome_link? h.environment⟩

theorem define (h : m.Precedes m) (name : String) (value : Value) :
    m.Precedes (m.define name value) := h.withStore (.define _ _ _ _)

theorem enter (m : Machine) (bindings : Bindings Value) (enclosing : FrameId) (calls : Nat) :
    m.Precedes (m.enter bindings enclosing calls) where
  store := .addFrame _ _ _
  environment := by
    have hlink := Store.link?_addFrame m.store ⟨bindings, some enclosing⟩
      (m.store.addFrame ⟨bindings, some enclosing⟩).1
    rw [if_pos rfl] at hlink
    exact Option.isSome_of_eq_some hlink

/-- The frame of an earlier state is there to go back to. -/
theorem leave (h : m.Precedes m) (h₁ : m.Precedes m₁) (calls : Nat) :
    m₁.Precedes (m₁.leave m.environment calls) :=
  ⟨.refl _, h₁.store.isSome_link? h.environment⟩

theorem bound (h : m.Precedes m) (method : FunctionObject) (receiver : InstanceId) :
    (Lox.bound method receiver m).Ensures m.Precedes :=
  Outcome.ensures_done.mpr (h.withStore ((Store.Extends.bindMethod _ _ _).trans (.addFunction _ _)))

theorem declareFunction (h : m.Precedes m) (declaration : FunDecl NodeId) :
    m.Precedes (Lox.declareFunction declaration m) :=
  h.withStore ((Store.Extends.addFunction _ _).trans (.define _ _ _ _))

theorem declareClass (h : m.Precedes m) (name : Name) (superclass : Option ClassId)
    (methods : List (FunDecl NodeId)) :
    m.Precedes (Lox.declareClass name superclass methods m) := by
  have hdefined := Store.Extends.define m.store m.environment name.text .nil
  cases superclass with
  | none =>
    exact h.withStore (hdefined.trans ((Store.Extends.addClass _ _).trans (.define _ _ _ _)))
  | some c =>
    have hframe := hdefined.trans (.addFrame _ ((∅ : Bindings Value).insert "super" (.class c))
      m.environment)
    exact h.withStore (hframe.trans ((Store.Extends.addClass _ _).trans (.define _ _ _ _)))

end Machine.Precedes

/-! ## Plans -/

section

variable {α : Type} {m m₁ : Machine}

theorem advances_finish {o : Outcome α} (h : o.Ensures m.Precedes) :
    (Plan.finish o).Advances Machine.Precedes m := h

theorem advances_done {a : α} (h : m.Precedes m₁) :
    (Plan.finish (.done a m₁)).Advances Machine.Precedes m := Outcome.ensures_done.mpr h

theorem advances_fault (h : m.Precedes m) (cause : RuntimeFault) (line : Nat) :
    (Plan.finish (m.fault cause line) : Plan α).Advances Machine.Precedes m :=
  Outcome.ensures_fault.mpr h

/-- A plan goes on from the state in which a task ended. -/
theorem advances_start (u : Task) (h : m.Precedes m₁) {resume : u.Answer → Machine → Plan α}
    (hresume : ∀ a m', m'.Precedes m' → (resume a m').Advances Machine.Precedes m') :
    (Plan.start u m₁ .stay resume).Advances Machine.Precedes m :=
  ⟨h, fun m' h' => ⟨Machine.later_precedes.self h',
    fun a => hresume a m' (Machine.later_precedes.self h')⟩⟩

theorem advances_delegate (u : Task) (h : m.Precedes m) :
    (Plan.delegate u m).Advances Machine.Precedes m :=
  advances_start u h fun _ _ h₁ => advances_done h₁

/-- A plan comes back from a new frame to the one that was current. -/
theorem advances_enter (u : Task) (h : m.Precedes m) (bindings : Bindings Value)
    (enclosing : FrameId) (calls : Nat) {resume : u.Answer → Machine → Plan α}
    (hresume : ∀ a m', m'.Precedes m' → (resume a m').Advances Machine.Precedes m') :
    (Plan.start u (m.enter bindings enclosing calls) (.leave m.environment calls) resume).Advances
      Machine.Precedes m := by
  have hentered := Machine.Precedes.enter m bindings enclosing calls
  refine ⟨hentered, fun m' h' => ?_⟩
  have hleft := h.leave (hentered.trans h') calls
  exact ⟨hleft, fun a => hresume a _ (Machine.later_precedes.self hleft)⟩

end

section

variable {m : Machine} (s : Setting) (h : m.Precedes m)

include h

theorem Expr.advances_plan (e : Expr NodeId) : (e.plan s m).Advances Machine.Precedes m := by
  cases e with
  | literal value => exact advances_done h
  | group inner => exact advances_delegate (.evaluate inner) h
  | unary operator right =>
    exact advances_start (.evaluate right) h fun _ _ h₁ => advances_finish (ensures_settle h₁ _ _)
  | binary left operator right =>
    exact advances_start (.evaluate left) h fun _ _ h₁ =>
      advances_start (.evaluate right) h₁ fun _ _ h₂ => advances_finish (ensures_settle h₂ _ _)
  | logical left operator right =>
    refine advances_start (.evaluate left) h fun value m₁ h₁ => ?_
    split
    · exact advances_done h₁
    · exact advances_delegate (.evaluate right) h₁
  | «variable» id name | this id name => exact advances_finish (ensures_readVariable s id name h)
  | assign id name value =>
    exact advances_start (.evaluate value) h fun _ _ h₁ =>
      advances_finish (ensures_writeVariable s id name _ h₁ fun _ => h₁.withStore (.define _ _ _ _))
  | call callee line arguments =>
    exact advances_start (.evaluate callee) h fun callee _ h₁ =>
      advances_start (.evaluateAll arguments) h₁ fun arguments _ h₂ =>
        advances_delegate (.call callee arguments line) h₂
  | get object name =>
    exact advances_start (.evaluate object) h fun _ _ h₁ =>
      advances_finish (ensures_readProperty _ name h₁ fun _ i method _ => h₁.bound method i)
  | set object name value =>
    refine advances_start (.evaluate object) h fun object m₁ h₁ => ?_
    cases object with
    | «instance» id =>
      exact advances_start (.evaluate value) h₁ fun _ _ h₂ =>
        advances_done (h₂.withStore (.setField _ _ _ _))
    | _ => exact advances_fault h₁ _ _
  | super id keyword method =>
    exact advances_finish (ensures_readSuper s id keyword method h fun _ i f _ => h.bound f i)

theorem Expr.advances_planAll (es : List (Expr NodeId)) :
    (Expr.planAll es m).Advances Machine.Precedes m := by
  cases es with
  | nil => exact advances_done h
  | cons e es =>
    exact advances_start (.evaluate e) h fun _ _ h₁ =>
      advances_start (.evaluateAll es) h₁ fun _ _ h₂ => advances_done h₂

theorem Value.advances_callPlan (callee : Value) (arguments : List Value) (line : Nat) :
    (callee.callPlan arguments line m).Advances Machine.Precedes m := by
  cases callee with
  | function id =>
    rw [callPlan, callRule]
    split
    · exact advances_fault h _ _
    · split
      · exact advances_delegate (.enter _ arguments line) h
      · exact advances_fault h _ _
  | «class» id =>
    rw [callPlan, callRule]
    split
    · have hadded := Store.Extends.addInstance m.store ⟨id, ∅⟩
      dsimp only
      split
      · exact advances_done (h.withStore hadded)
      · exact advances_start (.enter _ arguments line)
          (h.withStore (hadded.trans (.bindMethod _ _ _))) fun _ _ h₁ => advances_done h₁
    · exact advances_fault h _ _
  | _ => exact advances_fault h _ _

theorem FunctionObject.advances_plan (f : FunctionObject) (arguments : List Value) (line : Nat) :
    (f.plan s arguments line m).Advances Machine.Precedes m := by
  unfold plan rule
  split
  · exact advances_fault h _ _
  · exact advances_enter (.executeAll f.declaration.body) h _ _ 1 fun completion _ h₁ =>
      advances_finish (ensures_result f completion h₁)

theorem Stmt.advances_plan (statement : Stmt NodeId) :
    (statement.plan s m).Advances Machine.Precedes m := by
  cases statement with
  | expression e =>
    exact advances_start (.evaluate e) h fun _ _ h₁ => advances_done h₁
  | print e =>
    exact advances_start (.evaluate e) h fun _ _ h₁ =>
      advances_finish (ensures_printValue s _ h₁ ⟨h₁.store, h₁.environment⟩)
  | var name initializer =>
    cases initializer with
    | none => exact advances_done (h.define name.text .nil)
    | some e =>
      exact advances_start (.evaluate e) h fun _ _ h₁ => advances_done (h₁.define name.text _)
  | block body =>
    exact advances_enter (.executeAll body) h ∅ m.environment 0 fun _ _ h₁ => advances_done h₁
  | ifElse condition thenBranch elseBranch =>
    refine advances_start (.evaluate condition) h fun value m₁ h₁ => ?_
    split
    · exact advances_delegate (.execute thenBranch) h₁
    · cases elseBranch with
      | none => exact advances_done h₁
      | some elseBranch => exact advances_delegate (.execute elseBranch) h₁
  | «while» condition body => exact advances_delegate (.loop condition body) h
  | function declaration => exact advances_done (h.declareFunction declaration)
  | «return» keyword value =>
    cases value with
    | none => exact advances_done h
    | some e => exact advances_start (.evaluate e) h fun _ _ h₁ => advances_done h₁
  | «class» name superclass methods =>
    cases superclass with
    | none => exact advances_done (h.declareClass name none methods)
    | some e =>
      refine advances_start (.evaluate e) h fun value m₁ h₁ => ?_
      cases value with
      | «class» c => exact advances_done (h₁.declareClass name (some c) methods)
      | _ => exact advances_fault h₁ _ _

theorem Stmt.advances_planAll (statements : List (Stmt NodeId)) :
    (Stmt.planAll statements m).Advances Machine.Precedes m := by
  cases statements with
  | nil => exact advances_done h
  | cons statement rest =>
    refine advances_start (.execute statement) h fun completion m₁ h₁ => ?_
    cases completion with
    | normal => exact advances_delegate (.executeAll rest) h₁
    | returned value => exact advances_done h₁

theorem Stmt.advances_loopPlan (condition : Expr NodeId) (body : Stmt NodeId) :
    (Stmt.loopPlan condition body m).Advances Machine.Precedes m := by
  refine advances_start (.evaluate condition) h fun value m₁ h₁ => ?_
  split
  · refine advances_start (.execute body) h₁ fun completion m₂ h₂ => ?_
    cases completion with
    | normal => exact advances_delegate (.loop condition body) h₂
    | returned value => exact advances_done h₂
  · exact advances_done h₁

/-- Whatever a task does by itself, it goes to a later state. -/
theorem Task.advances_plan (t : Task) : (t.plan s m).Advances Machine.Precedes m :=
  match t with
  | .evaluate e => e.advances_plan s h
  | .evaluateAll es => Expr.advances_planAll h es
  | .call callee arguments line => callee.advances_callPlan h arguments line
  | .enter f arguments line => f.advances_plan s h arguments line
  | .execute statement => statement.advances_plan s h
  | .executeAll statements => Stmt.advances_planAll h statements
  | .loop condition body => Stmt.advances_loopPlan h condition body

/-- Each state of a program precedes all that come after it. -/
theorem Setting.trail_precedes (n : Nat) (program : List (Stmt NodeId)) :
    Trail Machine.Precedes m (s.statesIn n program m) (runStatements n s program m).state? :=
  trail_statesIn Machine.later_precedes (fun t _ h => t.advances_plan s h) n program h

end

end Lox
