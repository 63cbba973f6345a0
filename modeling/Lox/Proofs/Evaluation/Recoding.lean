import Lox.Proofs.Evaluation.Holding
import Lox.Proofs.Syntax.Recoding

/-!
# Runs of recoded code

The evaluator uses the number of a node only to look up its distance, and a line only to report
it. If all code is recoded, that of the program as well as that in the store, and each node keeps
its distance under the new label, then a run does the same, up to the labels and lines of the code
in its store and the line of its failure.

* `Store.recode`, `Machine.recode`, `Task.recode`: what is recoded; values and frames hold no code;
* `Expr.recodes_plan` and others: the plans of recoded tasks are recoded plans;
* `Task.run_recode`, `runProgram_recode`: so are the runs;
* `Store.Holds.recode_congr`: only the labels of numbers that occur in a store matter.
-/

namespace Lox

/-! ## Bindings -/

namespace Bindings

section

variable {α : Type} {name : String} {value : α} {entries : List (String × α)}

theorem map_fst_replace : (replace name value entries).map Prod.fst =
    if name ∈ entries.map Prod.fst then entries.map Prod.fst
    else entries.map Prod.fst ++ [name] := by
  induction entries with
  | nil => rfl
  | cons e rest ih =>
    obtain ⟨k, v⟩ := e
    rw [replace]
    by_cases hk : k = name
    · simp [hk]
    · simp only [if_neg hk, List.map_cons, ih, List.mem_cons, Ne.symm hk, false_or]
      split <;> rfl

/-- No name has two entries. -/
def Distinct (b : Bindings α) : Prop := (b.entries.map Prod.fst).Nodup

theorem Distinct.insert {b : Bindings α} (h : b.Distinct) (name : String) (value : α) :
    (b.insert name value).Distinct := by
  rw [Distinct, Bindings.insert, map_fst_replace]
  split
  · exact h
  · next hn =>
    refine List.nodup_append.mpr ⟨h, List.pairwise_singleton _ _, fun k hk k' hk' => ?_⟩
    rintro rfl
    exact hn (List.mem_singleton.mp hk' ▸ hk)

theorem find?_of_mem {e : String × α} (h : (entries.map Prod.fst).Nodup) (he : e ∈ entries) :
    find? e.1 entries = some e.2 := by
  induction entries with
  | nil => cases he
  | cons e' rest ih =>
    obtain ⟨hk, hrest⟩ := List.nodup_cons.mp h
    rcases List.mem_cons.mp he with rfl | he
    · exact if_pos rfl
    · have hne : e'.1 ≠ e.1 := fun h => hk (h ▸ List.mem_map_of_mem he)
      exact (if_neg hne).trans (ih hrest he)

theorem exists_get?_of_mem {b : Bindings α} {e : String × α} (h : e ∈ b.entries) :
    ∃ v, b.get? e.1 = some v := by
  have hfind : ∀ entries : List (String × α), e ∈ entries → ∃ v, find? e.1 entries = some v := by
    intro entries he
    induction entries with
    | nil => cases he
    | cons e' rest ih =>
      by_cases hk : e'.1 = e.1
      · exact ⟨e'.2, if_pos hk⟩
      · obtain ⟨v, hv⟩ := ih (by grind)
        exact ⟨v, (if_neg hk).trans hv⟩
  exact hfind b.entries h

end

section

variable {α β : Type} {f g : α → β}

/-- The same names, each with the image of its value. -/
def map (f : α → β) (b : Bindings α) : Bindings β :=
  ⟨b.entries.map fun (name, value) => (name, f ((b.get? name).getD value))⟩

theorem get?_map (b : Bindings α) (name : String) : (b.map f).get? name = (b.get? name).map f := by
  have hfind (entries : List (String × α)) :
      find? name (entries.map fun (k, v) => (k, f ((b.get? k).getD v))) =
        (find? name entries).map fun v => f ((b.get? name).getD v) := by
    induction entries with
    | nil => rfl
    | cons e rest ih =>
      obtain ⟨k, v⟩ := e
      simp only [List.map_cons, find?, ih]
      by_cases hk : k = name
      · subst hk
        simp only [if_true, Option.map_some]
      · simp only [if_neg hk]
  refine (hfind b.entries).trans ?_
  show (b.get? name).map _ = _
  cases b.get? name <;> rfl

/-- Only the values of names matter. -/
theorem map_congr {b : Bindings α} (h : ∀ name v, b.get? name = some v → f v = g v) :
    b.map f = b.map g := by
  refine congrArg Bindings.mk (List.map_congr_left fun e he => ?_)
  obtain ⟨v, hv⟩ := exists_get?_of_mem he
  simp only [hv, Option.getD_some, h e.1 v hv]

theorem Distinct.map {b : Bindings α} (h : b.Distinct) (f : α → β) :
    b.map f = ⟨b.entries.map (Prod.map id f)⟩ := by
  refine congrArg Bindings.mk (List.map_congr_left fun e he => ?_)
  have hv : b.get? e.1 = some e.2 := find?_of_mem h he
  simp only [hv, Option.getD_some, Prod.map, id]

theorem Distinct.map_insert {b : Bindings α} (h : b.Distinct) (name : String) (value : α) :
    (b.insert name value).map f = (b.map f).insert name (f value) := by
  have hreplace (entries : List (String × α)) :
      (replace name value entries).map (Prod.map id f) =
        replace name (f value) (entries.map (Prod.map id f)) := by
    induction entries with
    | nil => rfl
    | cons e rest ih =>
      obtain ⟨k, v⟩ := e
      simp only [List.map_cons, Prod.map_apply, id, replace, ← ih]
      split <;> rfl
  rw [(h.insert name value).map, h.map]
  exact congrArg Bindings.mk (hreplace b.entries)

theorem map_ofList (entries : List (String × α)) :
    (ofList entries).map f = ofList (entries.map (Prod.map id f)) := by
  have hfold (b : Bindings α) (h : b.Distinct) :
      (entries.foldl (fun b e => b.insert e.1 e.2) b).map f =
        (entries.map (Prod.map id f)).foldl (fun b e => b.insert e.1 e.2) (b.map f) := by
    induction entries generalizing b with
    | nil => rfl
    | cons e rest ih =>
      rw [List.foldl_cons, ih _ (h.insert e.1 e.2), h.map_insert]
      rfl
  exact hfold ∅ .nil

end

end Bindings

/-! ## Stores -/

section

variable (ρ : Recoding NodeId NodeId)

/-- A function with recoded code. -/
def FunctionObject.recode (f : FunctionObject) : FunctionObject :=
  { f with declaration := f.declaration.recode ρ }

/-- A class with recoded methods. -/
def ClassObject.recode (c : ClassObject) : ClassObject :=
  { c with methods := c.methods.map (FunctionObject.recode ρ) }

/-- A store with recoded code. -/
def Store.recode (s : Store) : Store :=
  { s with
    functions := s.functions.map (FunctionObject.recode ρ)
    classes := s.classes.map (ClassObject.recode ρ) }

namespace Store

variable (s : Store)

theorem function?_recode (id : FunctionId) :
    (s.recode ρ).function? id = (s.function? id).map (FunctionObject.recode ρ) :=
  Array.getElem?_map

theorem class?_recode (id : ClassId) :
    (s.recode ρ).class? id = (s.class? id).map (ClassObject.recode ρ) :=
  Array.getElem?_map

/-! Frames are those of the store. -/

theorem binder?_recode (id : FrameId) (name : String) :
    (s.recode ρ).binder? id name = s.binder? id name := by
  have hframe (id : FrameId) : (s.recode ρ).frame? id = s.frame? id := rfl
  induction id using binder?.induct s name with
  | case1 id hf => rw [binder?, binder?, hframe, hf]
  | case2 id frame hf hb =>
    rw [binder?, binder?, hframe, hf]
    simp only [if_pos hb]
  | case3 id frame hf hb he =>
    rw [binder?, binder?, hframe, hf]
    simp only [if_neg hb, he]
  | case4 id frame hf hb outer he hlt ih =>
    rw [binder?, binder?, hframe, hf]
    simp only [if_neg hb, he, if_pos hlt, ih]
  | case5 id frame hf hb outer he hlt =>
    rw [binder?, binder?, hframe, hf]
    simp only [if_neg hb, he, if_neg hlt]

theorem ancestor?_recode (id : FrameId) (distance : Nat) :
    (s.recode ρ).ancestor? id distance = s.ancestor? id distance := by
  induction distance generalizing id with
  | zero => rfl
  | succ distance ih => exact congrArg (s.enclosing? id).bind (funext ih)

theorem get_recode (id : FrameId) (name : String) : (s.recode ρ).get id name = s.get id name := by
  rw [get, get, binder?_recode]
  rfl

theorem getAt_recode (id : FrameId) (distance : Nat) (name : String) :
    (s.recode ρ).getAt id distance name = s.getAt id distance name := by
  rw [getAt, getAt, ancestor?_recode]
  rfl

/-! Methods are recoded where they are found. -/

theorem findMethod_recode (id : ClassId) (name : String) :
    (s.recode ρ).findMethod id name = (s.findMethod id name).map (FunctionObject.recode ρ) :=
  findMethod_eq_map (s.class?_recode ρ) (fun _ => ⟨rfl, Bindings.get?_map _ _⟩) id

theorem classArity_recode (id : ClassId) : (s.recode ρ).classArity id = s.classArity id := by
  rw [classArity, classArity, findMethod_recode]
  cases s.findMethod id initializerName with
  | none => rfl
  | some f =>
    exact (congrArg List.length (f.declaration.params_recode ρ)).trans (List.length_map _)

theorem addFunction_recode (f : FunctionObject) :
    (s.recode ρ).addFunction (f.recode ρ) = (s.addFunction f).map id (recode ρ) := by
  simp only [addFunction, recode, Array.size_map, Prod.map_apply, id, Array.map_push]

theorem addClass_recode (c : ClassObject) :
    (s.recode ρ).addClass (c.recode ρ) = (s.addClass c).map id (recode ρ) := by
  simp only [addClass, recode, Array.size_map, Prod.map_apply, id, Array.map_push]

theorem bindMethod_recode (f : FunctionObject) (receiver : InstanceId) :
    (s.recode ρ).bindMethod (f.recode ρ) receiver =
      (s.bindMethod f receiver).map (FunctionObject.recode ρ) (recode ρ) := rfl

theorem className_recode (id : ClassId) : (s.recode ρ).className id = s.className id := by
  rw [className, className, class?_recode, Option.map_map]
  rfl

/-- Values are written in the same way. -/
theorem display_recode (value : Value) : (s.recode ρ).display value = s.display value := by
  cases value with
  | function id =>
    rw [display, display, function?_recode, Option.map_map]
    cases s.function? id with
    | none => rfl
    | some f =>
      have hname : (f.recode ρ).declaration.name.text = f.declaration.name.text :=
        (congrArg Name.text (f.declaration.name_recode ρ)).trans (Name.text_relocate _ _)
      exact congrArg (fun text => "<fn " ++ text ++ ">") hname
  | «class» id => exact className_recode ρ s id
  | «instance» id =>
    rw [display, display, funext (className_recode ρ s)]
    rfl
  | bool b => cases b <;> rfl
  | _ => rfl

end Store

/-! ## States, outcomes and tasks -/

/-- A state whose store has recoded code. -/
def Machine.recode (m : Machine) : Machine := { m with store := m.store.recode ρ }

/-- A failure on another line. -/
def Failure.relocate (ℓ : Nat → Nat) : Failure → Failure
  | .fault cause line => .fault cause (ℓ line)
  | .output message => .output message

/-- An outcome in a recoded state, with an answer of another type. -/
def Outcome.recode {α β : Type} (f : α → β) : Outcome α → Outcome β
  | .done a m => .done (f a) (m.recode ρ)
  | .failed failure m => .failed (failure.relocate ρ.line) (m.recode ρ)
  | .outOfFuel => .outOfFuel

/-- A task with recoded code. -/
def Task.recode : Task → Task
  | .evaluate e => .evaluate (e.recode ρ)
  | .evaluateAll es => .evaluateAll (Expr.recodeAll ρ es)
  | .call callee arguments line => .call callee arguments (ρ.line line)
  | .enter f arguments line => .enter (f.recode ρ) arguments (ρ.line line)
  | .execute statement => .execute (statement.recode ρ)
  | .executeAll statements => .executeAll (Stmt.recodeAll ρ statements)
  | .loop condition body => .loop (condition.recode ρ) (body.recode ρ)

/-- The answer of a task as one of the recoded task: an answer holds no code. -/
def Task.carry : (t : Task) → t.Answer → (t.recode ρ).Answer
  | .evaluate _ | .call _ _ _ | .enter _ _ _ => id
  | .evaluateAll _ => id
  | .execute _ | .executeAll _ | .loop _ _ => id

/-- The second plan does what the first one does, with recoded tasks in recoded states. -/
inductive Plan.Recodes {α β : Type} (f : α → β) : Plan α → Plan β → Prop where
  | finish {o : Outcome α} {o' : Outcome β} (h : o' = o.recode ρ f) :
    Recodes f (.finish o) (.finish o')
  | start {t : Task} {m : Machine} {exit : Exit} {resume : t.Answer → Machine → Plan α}
    {resume' : (t.recode ρ).Answer → Machine → Plan β}
    (h : ∀ a m, Recodes f (resume a m) (resume' (t.carry ρ a) (m.recode ρ))) :
    Recodes f (.start t m exit resume) (.start (t.recode ρ) (m.recode ρ) exit resume')

/-- The second setting gives each node under its new label the distance that the first one gives it,
and is the same otherwise. -/
structure Setting.Recodes (s s' : Setting) : Prop where
  distance (id : NodeId) : s'.distance? (ρ.label id) = s.distance? id
  maxDepth : s'.maxDepth = s.maxDepth
  writeFailure : s'.writeFailure = s.writeFailure
  flushFailure : s'.flushFailure = s.flushFailure

end

section

variable {ρ : Recoding NodeId NodeId} {s s' : Setting} {m : Machine}

theorem Exit.apply_recode (exit : Exit) (m : Machine) :
    exit.apply (m.recode ρ) = (exit.apply m).recode ρ := by
  cases exit <;> rfl

theorem Plan.Recodes.run {n : Nat}
    (ih : ∀ (t : Task) m, (t.recode ρ).run n s' (m.recode ρ) = (t.run n s m).recode ρ (t.carry ρ))
    {α β : Type} {f : α → β} {p : Plan α} {p' : Plan β} (h : p.Recodes ρ f p') :
    p'.runWith n s' = (p.runWith n s).recode ρ f := by
  induction h with
  | finish h => exact h
  | @start t m exit resume resume' _ ihr =>
    rw [Plan.runWith_start, Plan.runWith_start, ih]
    cases t.run n s m with
    | done a m₁ =>
      show (resume' (t.carry ρ a) (exit.apply (m₁.recode ρ))).runWith n s' = _
      rw [exit.apply_recode]
      exact ihr a (exit.apply m₁)
    | failed failure m₁ =>
      show Outcome.failed (failure.relocate ρ.line) (exit.apply (m₁.recode ρ)) = _
      rw [exit.apply_recode]
      rfl
    | outOfFuel => rfl

theorem Plan.recodes_delegate (t : Task) (m : Machine) :
    (Plan.delegate t m).Recodes ρ (t.carry ρ) (.delegate (t.recode ρ) (m.recode ρ)) :=
  .start fun _ _ => .finish rfl

theorem Plan.Recodes.ite {α β : Type} {f : α → β} {c : Prop} {d d' : Decidable c} {p q : Plan α}
    {p' q' : Plan β} (hp : p.Recodes ρ f p') (hq : q.Recodes ρ f q') :
    Plan.Recodes ρ f (@ite _ c d p q) (@ite _ c d' p' q') := by
  by_cases h : c
  · rwa [if_pos h, if_pos h]
  · rwa [if_neg h, if_neg h]

/-! ## Steps -/

theorem settle_recode (line : Nat) (result : Except RuntimeFault Value) :
    (m.recode ρ).settle (ρ.line line) result = (m.settle line result).recode ρ id := by
  cases result <;> rfl

theorem readVariable_recode (h : s.Recodes ρ s') (label : NodeId) (name : Name) :
    readVariable s' (ρ.label label) (name.relocate ρ.line) (m.recode ρ) =
      (readVariable s label name m).recode ρ id := by
  unfold readVariable
  simp only [h.distance, Machine.recode, Store.getAt_recode, Store.get_recode, Name.text_relocate]
  split <;> rfl

theorem writeVariable_recode (h : s.Recodes ρ s') (label : NodeId) (name : Name) (value : Value) :
    writeVariable s' (ρ.label label) (name.relocate ρ.line) value (m.recode ρ) =
      (writeVariable s label name value m).recode ρ id := by
  unfold writeVariable
  simp only [h.distance, Machine.recode, Store.ancestor?_recode, Store.binder?_recode,
    Name.text_relocate]
  split <;> rfl

theorem bound_recode (method : FunctionObject) (receiver : InstanceId) :
    bound (method.recode ρ) receiver (m.recode ρ) = (bound method receiver m).recode ρ id := by
  unfold bound
  simp only [Machine.recode, Store.bindMethod_recode, Prod.map_fst, Prod.map_snd,
    Store.addFunction_recode]
  rfl

theorem readProperty_recode (object : Value) (name : Name) :
    readProperty object (name.relocate ρ.line) (m.recode ρ) =
      (readProperty object name m).recode ρ id := by
  cases object with
  | «instance» receiver =>
    have hinstance : (m.recode ρ).store.instance? receiver = m.store.instance? receiver := rfl
    have hmethod (c : ClassId) : (m.recode ρ).store.findMethod c name.text =
        (m.store.findMethod c name.text).map (FunctionObject.recode ρ) :=
      Store.findMethod_recode ρ m.store c name.text
    simp only [readProperty, hinstance, hmethod, Name.text_relocate]
    cases m.store.instance? receiver with
    | none => rfl
    | some i =>
      dsimp only
      cases i.fields.get? name.text with
      | some value => rfl
      | none =>
        dsimp only
        cases m.store.findMethod i.class name.text with
        | some method => exact bound_recode method receiver
        | none => rfl
  | _ => rfl

theorem readSuper_recode (h : s.Recodes ρ s') (label : NodeId) (keyword method : Name) :
    readSuper s' (ρ.label label) (keyword.relocate ρ.line) (method.relocate ρ.line) (m.recode ρ) =
      (readSuper s label keyword method m).recode ρ id := by
  have hat (distance : Nat) (name : String) :
      (m.recode ρ).store.getAt (m.recode ρ).environment distance name =
        m.store.getAt m.environment distance name := Store.getAt_recode ρ m.store _ _ _
  have hmethod (c : ClassId) : (m.recode ρ).store.findMethod c method.text =
      (m.store.findMethod c method.text).map (FunctionObject.recode ρ) :=
    Store.findMethod_recode ρ m.store c method.text
  simp only [readSuper, h.distance, hat, hmethod, Name.text_relocate]
  cases s.distance? label with
  | none => rfl
  | some distance =>
    dsimp only
    cases m.store.getAt m.environment distance keyword.text with
    | none => rfl
    | some superclass =>
      dsimp only
      cases m.store.getAt m.environment (distance - 1) "this" with
      | none => rfl
      | some receiver =>
        cases superclass with
        | «class» c =>
          cases receiver with
          | «instance» i =>
            dsimp only
            cases m.store.findMethod c method.text with
            | some f => exact bound_recode f i
            | none => rfl
          | _ => rfl
        | _ => rfl

theorem printValue_recode (h : s.Recodes ρ s') (value : Value) :
    printValue s' value (m.recode ρ) = (printValue s value m).recode ρ id := by
  have hprinted : (m.recode ρ).printed value = m.printed value := by
    simp only [Machine.printed, Machine.recode, Store.display_recode]
  unfold printValue
  rw [h.writeFailure, hprinted]
  split <;> rfl

theorem result_recode (f : FunctionObject) (completion : Completion) :
    (f.recode ρ).result completion (m.recode ρ) = (f.result completion m).recode ρ id := by
  have hinitializer : (f.recode ρ).isInitializer = f.isInitializer := rfl
  have hthis : (m.recode ρ).store.getAt (f.recode ρ).closure 0 "this" =
      m.store.getAt f.closure 0 "this" := Store.getAt_recode ρ m.store _ _ _
  have hname : (f.recode ρ).declaration.name = f.declaration.name.relocate ρ.line :=
    f.declaration.name_recode ρ
  simp only [FunctionObject.result, hinitializer, hthis, hname]
  cases f.isInitializer with
  | true => cases m.store.getAt f.closure 0 "this" <;> rfl
  | false => cases completion <;> rfl

theorem inside_recode (f : FunctionObject) (arguments : List Value) :
    (f.recode ρ).inside arguments (m.recode ρ) = (f.inside arguments m).recode ρ := by
  have hnames : (f.recode ρ).declaration.params.map Name.text =
      f.declaration.params.map Name.text :=
    (congrArg (List.map Name.text) (f.declaration.params_recode ρ)).trans
      (Name.map_text_map_relocate ρ.line f.declaration.params)
  rw [FunctionObject.inside, FunctionObject.inside, hnames]
  rfl

theorem declareFunction_recode (declaration : FunDecl NodeId) :
    declareFunction (declaration.recode ρ) (m.recode ρ) =
      (declareFunction declaration m).recode ρ := by
  have hadd : (m.recode ρ).store.addFunction ⟨declaration.recode ρ, m.environment, false⟩ =
      (m.store.addFunction ⟨declaration, m.environment, false⟩).map id (Store.recode ρ) :=
    m.store.addFunction_recode ρ ⟨declaration, m.environment, false⟩
  have henvironment : (m.recode ρ).environment = m.environment := rfl
  simp only [declareFunction, henvironment, hadd, FunDecl.name_recode]
  rfl

theorem methodTable_recode (closure : FrameId) (methods : List (FunDecl NodeId)) :
    methodTable closure (FunDecl.recodeAll ρ methods) =
      (methodTable closure methods).map (FunctionObject.recode ρ) := by
  unfold methodTable
  rw [Bindings.map_ofList, FunDecl.recodeAll_eq_map, List.map_map, List.map_map]
  refine congrArg Bindings.ofList (List.map_congr_left fun d _ => ?_)
  simp only [Function.comp_apply, FunDecl.name_recode, FunDecl.isInitializer_recode]
  rfl

theorem addClass_define_recode (ρ : Recoding NodeId NodeId) (m : Machine) (c : ClassObject)
    (name : String) :
    let added := (m.recode ρ).store.addClass (c.recode ρ)
    Machine.define { m.recode ρ with store := added.2 } name (.class added.1) =
      (Machine.define { m with store := (m.store.addClass c).2 } name
        (.class (m.store.addClass c).1)).recode ρ := by
  intro added
  have hadd : added = (m.store.addClass c).map id (Store.recode ρ) :=
    m.store.addClass_recode ρ c
  rw [hadd]
  rfl

theorem declareClass_recode (name : Name) (superclass : Option ClassId)
    (methods : List (FunDecl NodeId)) :
    declareClass name superclass (FunDecl.recodeAll ρ methods) (m.recode ρ) =
      (declareClass name superclass methods m).recode ρ := by
  have hclass (closure : FrameId) :
      ClassObject.recode ρ ⟨name.text, superclass, methodTable closure methods⟩ =
        ⟨name.text, superclass, methodTable closure (FunDecl.recodeAll ρ methods)⟩ := by
    rw [methodTable_recode]
    rfl
  let declared : Machine := m.define name.text .nil
  cases superclass with
  | none =>
    have h := addClass_define_recode ρ declared
      ⟨name.text, none, methodTable m.environment methods⟩ name.text
    rw [hclass] at h
    exact h
  | some c =>
    let inner := declared.store.addFrame
      ⟨(∅ : Bindings Value).insert "super" (.class c), some m.environment⟩
    have h := addClass_define_recode ρ { declared with store := inner.2 }
      ⟨name.text, some c, methodTable inner.1 methods⟩ name.text
    rw [hclass] at h
    exact h

/-! ## Plans of the evaluator -/

theorem Expr.recodes_plan (h : s.Recodes ρ s') (e : Expr NodeId) :
    (e.plan s m).Recodes ρ id ((e.recode ρ).plan s' (m.recode ρ)) := by
  cases e with
  | literal => exact .finish rfl
  | group inner => exact Plan.recodes_delegate (.evaluate inner) m
  | unary operator right => exact .start fun _ _ => .finish (settle_recode _ _)
  | binary left operator right =>
    exact .start fun _ _ => .start fun _ _ => .finish (settle_recode _ _)
  | logical left operator right =>
    exact .start fun _ m => .ite (.finish rfl) (Plan.recodes_delegate (.evaluate right) m)
  | «variable» label name | this label name => exact .finish (readVariable_recode h label name)
  | assign label name value =>
    exact .start fun _ _ => .finish (writeVariable_recode h label name _)
  | call callee line arguments =>
    exact .start fun callee _ => .start fun arguments m =>
      Plan.recodes_delegate (.call callee arguments line) m
  | get object name => exact .start fun _ _ => .finish (readProperty_recode _ name)
  | set object name value =>
    refine .start fun object m => ?_
    cases object with
    | «instance» id => exact .start fun _ _ => .finish rfl
    | _ => exact .finish rfl
  | super label keyword method => exact .finish (readSuper_recode h label keyword method)

theorem Expr.recodes_planAll (es : List (Expr NodeId)) :
    (Expr.planAll es m).Recodes ρ id (Expr.planAll (Expr.recodeAll ρ es) (m.recode ρ)) := by
  cases es with
  | nil => exact .finish rfl
  | cons e es => exact .start fun _ _ => .start fun _ _ => .finish rfl

theorem Value.recodes_callPlan (callee : Value) (arguments : List Value) (line : Nat) :
    (callee.callPlan arguments line m).Recodes ρ id
      (callee.callPlan arguments (ρ.line line) (m.recode ρ)) := by
  cases callee with
  | function id =>
    have hfunction : (m.recode ρ).store.function? id =
        (m.store.function? id).map (FunctionObject.recode ρ) := m.store.function?_recode ρ id
    rw [callPlan, callPlan, callRule, callRule, hfunction]
    cases m.store.function? id with
    | none => exact .finish rfl
    | some f =>
      have hparams : (f.recode ρ).declaration.params.length = f.declaration.params.length :=
        (congrArg List.length (f.declaration.params_recode ρ)).trans (List.length_map _)
      dsimp only [Option.map_some]
      rw [hparams]
      exact .ite (Plan.recodes_delegate (.enter f arguments line) m) (.finish rfl)
  | «class» id =>
    have harity : (m.recode ρ).store.classArity id = m.store.classArity id :=
      m.store.classArity_recode ρ id
    let made := m.store.addInstance ⟨id, ∅⟩
    have hmethod : ((m.recode ρ).store.addInstance ⟨id, ∅⟩).2.findMethod id initializerName =
        (made.2.findMethod id initializerName).map (FunctionObject.recode ρ) :=
      made.2.findMethod_recode ρ id initializerName
    rw [callPlan, callPlan, callRule, callRule, harity]
    refine .ite ?_ (.finish rfl)
    dsimp only
    rw [hmethod]
    cases made.2.findMethod id initializerName with
    | none => exact .finish rfl
    | some initializer => exact .start fun _ _ => .finish rfl
  | _ => exact .finish rfl

theorem FunctionObject.recodes_plan (h : s.Recodes ρ s') (f : FunctionObject)
    (arguments : List Value) (line : Nat) :
    (f.plan s arguments line m).Recodes ρ id
      ((f.recode ρ).plan s' arguments (ρ.line line) (m.recode ρ)) := by
  have hbody : (f.recode ρ).declaration.body = Stmt.recodeAll ρ f.declaration.body :=
    f.declaration.body_recode ρ
  rw [plan, plan, rule, rule, h.maxDepth, hbody, inside_recode]
  exact .ite (.finish rfl) (.start fun completion _ => .finish (result_recode f completion))

theorem Stmt.recodes_plan (h : s.Recodes ρ s') (statement : Stmt NodeId) :
    (statement.plan s m).Recodes ρ id ((statement.recode ρ).plan s' (m.recode ρ)) := by
  cases statement with
  | expression e => exact .start fun _ _ => .finish rfl
  | print e => exact .start fun value _ => .finish (printValue_recode h value)
  | var name initializer =>
    cases initializer with
    | none => exact .finish rfl
    | some e => exact .start fun _ _ => .finish rfl
  | block body => exact .start fun _ _ => .finish rfl
  | ifElse condition thenBranch elseBranch =>
    refine .start fun value m => .ite (Plan.recodes_delegate (.execute thenBranch) m) ?_
    cases elseBranch with
    | none => exact .finish rfl
    | some elseBranch => exact Plan.recodes_delegate (.execute elseBranch) m
  | «while» condition body => exact Plan.recodes_delegate (.loop condition body) m
  | function declaration =>
    exact .finish (congrArg (Outcome.done _) (declareFunction_recode declaration))
  | «return» keyword value =>
    cases value with
    | none => exact .finish rfl
    | some e => exact .start fun _ _ => .finish rfl
  | «class» name superclass methods =>
    cases superclass with
    | none => exact .finish (congrArg (Outcome.done _) (declareClass_recode name none methods))
    | some e =>
      have hname : superclassName (name.relocate ρ.line) (e.recode ρ) =
          (superclassName name e).relocate ρ.line := by cases e <;> rfl
      refine .start fun value m => ?_
      cases value with
      | «class» c =>
        exact .finish (congrArg (Outcome.done _) (declareClass_recode name (some c) methods))
      | _ =>
        exact .finish <|
          congrArg (fun n : Name => (m.recode ρ).fault .superclassNotClass n.line) hname

theorem Stmt.recodes_planAll (statements : List (Stmt NodeId)) :
    (Stmt.planAll statements m).Recodes ρ id
      (Stmt.planAll (Stmt.recodeAll ρ statements) (m.recode ρ)) := by
  cases statements with
  | nil => exact .finish rfl
  | cons statement rest =>
    refine .start fun completion m => ?_
    cases completion with
    | normal => exact Plan.recodes_delegate (.executeAll rest) m
    | returned => exact .finish rfl

theorem Stmt.recodes_loopPlan (condition : Expr NodeId) (body : Stmt NodeId) :
    (Stmt.loopPlan condition body m).Recodes ρ id
      (Stmt.loopPlan (condition.recode ρ) (body.recode ρ) (m.recode ρ)) := by
  refine .start fun value m => .ite (.start fun completion m => ?_) (.finish rfl)
  cases completion with
  | normal => exact Plan.recodes_delegate (.loop condition body) m
  | returned => exact .finish rfl

/-- The plan of a recoded task is the plan of the task, recoded. -/
theorem Task.recodes_plan (h : s.Recodes ρ s') (t : Task) (m : Machine) :
    (t.plan s m).Recodes ρ (t.carry ρ) ((t.recode ρ).plan s' (m.recode ρ)) := by
  cases t with
  | evaluate e => exact e.recodes_plan h
  | evaluateAll es => exact Expr.recodes_planAll es
  | call callee arguments line => exact callee.recodes_callPlan arguments line
  | enter f arguments line => exact f.recodes_plan h arguments line
  | execute statement => exact statement.recodes_plan h
  | executeAll statements => exact Stmt.recodes_planAll statements
  | loop condition body => exact Stmt.recodes_loopPlan condition body

end

/-! ## Runs -/

section

variable {ρ : Recoding NodeId NodeId} {s s' : Setting} (h : s.Recodes ρ s') (n : Nat)

include h

/-- A run of recoded code does the same. -/
theorem Task.run_recode (t : Task) (m : Machine) :
    (t.recode ρ).run n s' (m.recode ρ) = (t.run n s m).recode ρ (t.carry ρ) := by
  induction n generalizing t m with
  | zero =>
    rw [run_zero, run_zero]
    rfl
  | succ n ih =>
    rw [run_succ, run_succ]
    exact (t.recodes_plan h m).run ih

theorem runStatements_recode (program : List (Stmt NodeId)) (m : Machine) :
    runStatements n s' (Stmt.recodeAll ρ program) (m.recode ρ) =
      (runStatements n s program m).recode ρ id := by
  induction program generalizing m with
  | nil => rfl
  | cons statement rest ih =>
    have hx : execute n s' (statement.recode ρ) (m.recode ρ) =
        (execute n s statement m).recode ρ id := Task.run_recode h n (.execute statement) m
    simp only [Stmt.recodeAll, runStatements, hx]
    cases execute n s statement m with
    | done completion m₁ => exact ih m₁
    | failed | outOfFuel => rfl

/-- A recoded program does the same. -/
theorem runProgram_recode (program : List (Stmt NodeId)) (m : Machine) :
    runProgram n s' (Stmt.recodeAll ρ program) (m.recode ρ) =
      (runProgram n s program m).recode ρ id := by
  have hs : runStatements n s' (Stmt.recodeAll ρ program) { m.recode ρ with depth := 0 } =
      (runStatements n s program { m with depth := 0 }).recode ρ id :=
    runStatements_recode h n program { m with depth := 0 }
  simp only [runProgram, hs]
  cases runStatements n s program { m with depth := 0 } with
  | done u m₁ =>
    show flush s' (m₁.recode ρ) = (flush s m₁).recode ρ id
    have houtput : (m₁.recode ρ).output = m₁.output := rfl
    simp only [flush, h.flushFailure, houtput]
    cases s.flushFailure m₁.output <;> rfl
  | failed | outOfFuel => rfl

end

/-! ## Labels that occur -/

/-- The references of a piece of code have numbers below `k`. -/
def Code.Below (k : NodeId) (c : Code) : Prop := ∀ r ∈ c.references, r.id < k

section

variable {φ ψ : NodeId → NodeId} {ℓ : Nat → Nat} {k k' : NodeId}

theorem Code.Below.mono (hk : k ≤ k') {c : Code} (h : c.Below k) : c.Below k' :=
  fun r hr => Nat.lt_of_lt_of_le (h r hr) hk

theorem Code.Below.all {c : Code} (h : c.Below k) : c.All (Code.Below k) :=
  fun _ hw _ hr => h _ (Code.references_subset hw hr)

/-- If all numbers in the code of a store are below `k`, only the labels for such numbers matter. -/
theorem Store.Holds.recode_congr {s : Store} (h : s.Holds (Code.Below k))
    (hφ : ∀ id, id < k → φ id = ψ id) : s.recode ⟨φ, ℓ⟩ = s.recode ⟨ψ, ℓ⟩ := by
  have hcode {f : FunctionObject} (hf : (Code.decl f.declaration).All (Code.Below k)) :
      f.recode ⟨φ, ℓ⟩ = f.recode ⟨ψ, ℓ⟩ := by
    rw [FunctionObject.recode, FunctionObject.recode,
      f.declaration.recode_congr fun r hr => hφ r.id (hf.self r hr)]
  have hfunctions : s.functions.map (FunctionObject.recode ⟨φ, ℓ⟩) =
      s.functions.map (FunctionObject.recode ⟨ψ, ℓ⟩) := by
    refine Array.map_congr_left fun f hf => ?_
    obtain ⟨i, hi⟩ := Array.mem_iff_getElem?.mp hf
    have hf' : s.function? ⟨i⟩ = some f := hi
    exact hcode (h.function hf')
  have hclasses : s.classes.map (ClassObject.recode ⟨φ, ℓ⟩) =
      s.classes.map (ClassObject.recode ⟨ψ, ℓ⟩) := by
    refine Array.map_congr_left fun c hc => ?_
    obtain ⟨i, hi⟩ := Array.mem_iff_getElem?.mp hc
    have hc' : s.class? ⟨i⟩ = some c := hi
    have hmethods : c.methods.map (FunctionObject.recode ⟨φ, ℓ⟩) =
        c.methods.map (FunctionObject.recode ⟨ψ, ℓ⟩) :=
      Bindings.map_congr fun name f hf => hcode (h.method hc' hf)
    rw [ClassObject.recode, ClassObject.recode, hmethods]
  rw [Store.recode, Store.recode, hfunctions, hclasses]

end

end Lox
