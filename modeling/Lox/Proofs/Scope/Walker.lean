import Lox.Proofs.Scope.Batches
import Lox.Proofs.Scope.Violations
import Lox.Scope.Walker

/-!
# A walker restores its surroundings

A `Walker` opens and closes scopes and changes what surrounds it, and puts all that back by hand.
`Walker.Keeps` says what is as it was behind a construct, and what was only added to.
`Scopes.Grows` says the same of the scopes: only the innermost has changed, and it has gained
readable names.

* `Expr.keeps_walk`, `Stmt.keeps_walk`: every construct keeps what surrounds it;
* `Expr.scopes_walk`, `Stmt.grows_walk`: and what it does to the scopes;
* `Expr.walk_eq_find`, `Stmt.walk_eq_reach`: a walker finds what `resolve` finds;
* `walker_restores_surroundings`: all of this, for every state of a walker.
-/

namespace Lox

/-! ## What is kept -/

/-- One scope with more names than another. A name is as it was, or it may be read. -/
structure Scope.Gains (inner inner' : Scope) : Prop where
  contains (name : String) (h : inner.contains name) : inner'.contains name
  get? (name : String) : inner'.get? name = inner.get? name ∨ inner'.get? name = some true

/-- Scopes of which the innermost has gained names. -/
inductive Scopes.Grows : Scopes → Scopes → Prop
  | nil : Grows [] []
  | cons {inner inner' : Scope} {outer : Scopes} (h : Scope.Gains inner inner') :
    Grows (inner :: outer) (inner' :: outer)

/-- A walker that is where it was, with more errors behind those that it had, and with distances of
further nodes, which are among `ids`. -/
structure Walker.Keeps (ids : List NodeId) (w w' : Walker) : Prop where
  inFunction : w'.inFunction = w.inFunction
  inClass : w'.inClass = w.inClass
  initializing : w'.initializing = w.initializing
  errors : w.errors <+: w'.errors
  held (id : NodeId) (h : (w.table.get? id).isSome) : (w'.table.get? id).isSome
  others (id : NodeId) (h : id ∉ ids) : w'.table.get? id = w.table.get? id

namespace Scopes.Grows

variable {scopes scopes₁ scopes₂ : Scopes}

theorem refl : (scopes : Scopes) → Grows scopes scopes
  | [] => .nil
  | _ :: _ => .cons ⟨fun _ h => h, fun _ => .inl rfl⟩

theorem trans (h : Grows scopes scopes₁) (h' : Grows scopes₁ scopes₂) : Grows scopes scopes₂ := by
  cases h with
  | nil => exact h'
  | cons h =>
    cases h' with
    | cons h' =>
      refine .cons ⟨fun name hn => h'.contains name (h.contains name hn), fun name => ?_⟩
      rcases h'.get? name with hg | hg
      · rw [hg]
        exact h.get? name
      · exact .inr hg

/-- A name that is declared and then may be read. -/
theorem bind (scopes : Scopes) (name : String) : Grows scopes (scopes.bind name) := by
  cases scopes with
  | nil => exact .nil
  | cons inner outer =>
    refine .cons ⟨fun other ho => ?_, fun other => ?_⟩
    · rw [Bindings.contains_insert, Bindings.contains_insert, ho, Bool.or_true, Bool.or_true]
    · rw [Bindings.get?_insert, Bindings.get?_insert]
      by_cases h : name = other
      · exact .inr (if_pos h)
      · rw [if_neg h, if_neg h]
        exact .inl rfl

/-- What is left when a scope is closed that was opened before. -/
theorem tail_eq (h : Grows (∅ :: scopes) scopes₁) : scopes₁.tail = scopes := by
  cases h
  rfl

end Scopes.Grows

theorem DistanceTable.get?_insert (table : DistanceTable) (id other : NodeId) (d : Nat) :
    (table.insert id d).get? other = if id = other then some d else table.get? other := by
  unfold insert get?
  rw [Std.HashMap.getElem?_insert]
  simp only [beq_iff_eq]

namespace Walker

variable {w w₁ w₂ : Walker} {ids ids₁ ids₂ : List NodeId}

namespace Keeps

theorem refl (w : Walker) : Keeps [] w w :=
  ⟨rfl, rfl, rfl, List.prefix_rfl, fun _ h => h, fun _ _ => rfl⟩

theorem mono (h : Keeps ids₁ w w₁) (hs : ids₁ ⊆ ids) : Keeps ids w w₁ :=
  ⟨h.inFunction, h.inClass, h.initializing, h.errors, h.held,
    fun id hid => h.others id fun hm => hid (hs hm)⟩

theorem trans (h : Keeps ids₁ w w₁) (h' : Keeps ids₂ w₁ w₂) : Keeps (ids₁ ++ ids₂) w w₂ where
  inFunction := h'.inFunction.trans h.inFunction
  inClass := h'.inClass.trans h.inClass
  initializing := h'.initializing.trans h.initializing
  errors := h.errors.trans h'.errors
  held id hid := h'.held id (h.held id hid)
  others id hid := by
    rw [List.mem_append, not_or] at hid
    rw [h'.others id hid.2, h.others id hid.1]

/-- A step that adds no distance. -/
theorem step (h : Keeps ids w w₁) (h' : Keeps [] w₁ w₂) : Keeps ids w w₂ := by
  have ht := h.trans h'
  rwa [List.append_nil] at ht

/-- A construct after a step that adds no distance. -/
theorem after (h' : Keeps ids w₁ w₂) (h : Keeps [] w w₁) : Keeps ids w w₂ := h.trans h'

/-- What surrounds a walker in a function is put back behind it. -/
theorem leaveFunction {kind : FunctionContext} (h : Keeps ids (w.setFunction kind) w₁) :
    Keeps ids w (w₁.setFunction w.inFunction) :=
  ⟨rfl, h.inClass, h.initializing, h.errors, h.held, h.others⟩

/-- What surrounds a walker in a class is put back behind it. -/
theorem leaveClass {kind : ClassContext} (h : Keeps ids (w.setClass kind) w₁) :
    Keeps ids w (w₁.setClass w.inClass) :=
  ⟨h.inFunction, rfl, h.initializing, h.errors, h.held, h.others⟩

/-- What is kept outside of a class is kept in it. -/
theorem inside (h : Keeps ids w w₁) (kind : ClassContext) :
    Keeps ids (w.setClass kind) (w₁.setClass kind) :=
  ⟨h.inFunction, rfl, h.initializing, h.errors, h.held, h.others⟩

end Keeps

/-! ## Single steps -/

section

variable (w)

theorem keeps_scopes (scopes : Scopes) : Keeps [] w { w with scopes } := ⟨rfl, rfl, rfl,
  List.prefix_rfl, fun _ h => h, fun _ _ => rfl⟩

theorem keeps_beginScope : Keeps [] w w.beginScope := w.keeps_scopes _

theorem keeps_endScope : Keeps [] w w.endScope := w.keeps_scopes _

theorem keeps_note (fault : ScopeFault) (found : Name) : Keeps [] w (w.note fault found) :=
  ⟨rfl, rfl, rfl, List.prefix_append _ _, fun _ h => h, fun _ _ => rfl⟩

theorem keeps_declare (name : Name) : Keeps [] w (w.declare name) := by
  unfold declare
  split
  · exact .refl w
  · split
    · exact (w.keeps_scopes _).step (keeps_note _ _ _)
    · exact w.keeps_scopes _

@[simp] theorem scopes_declare (name : Name) :
    (w.declare name).scopes = w.scopes.declare name.text := by
  unfold declare
  cases hs : w.scopes with
  | nil => exact hs
  | cons inner outer =>
    dsimp only
    split <;> rfl

theorem keeps_define (name : String) : Keeps [] w (w.define name) := w.keeps_scopes _

theorem keeps_bind (name : Name) : Keeps [] w (w.bind name) :=
  (w.keeps_declare name).step (keeps_define _ _)

@[simp] theorem scopes_bind (name : Name) : (w.bind name).scopes = w.scopes.bind name.text := by
  show (w.declare name).scopes.define name.text = _
  rw [scopes_declare]
  rfl

theorem keeps_record (id : NodeId) (name : Name) : Keeps [id] w (w.record id name) := by
  unfold record
  split
  · refine ⟨rfl, rfl, rfl, List.prefix_rfl, fun other ho => ?_, fun other ho => ?_⟩
    · rw [DistanceTable.get?_insert]
      split
      · rfl
      · exact ho
    · rw [List.mem_singleton] at ho
      rw [DistanceTable.get?_insert, if_neg fun h => ho h.symm]
  · exact (Keeps.refl w).mono (List.nil_subset _)

@[simp] theorem scopes_record (id : NodeId) (name : Name) :
    (w.record id name).scopes = w.scopes := by
  unfold record
  split <;> rfl

theorem keeps_params (params : List Name) : Keeps [] w (params.foldl bind w) := by
  induction params generalizing w with
  | nil => exact .refl w
  | cons p params ih => exact (w.keeps_bind p).step (ih _)

theorem grows_params (params : List Name) : w.scopes.Grows (params.foldl bind w).scopes := by
  induction params generalizing w with
  | nil => exact .refl _
  | cons p params ih =>
    have hp := Scopes.Grows.bind w.scopes p.text
    rw [← scopes_bind] at hp
    exact hp.trans (ih _)

end

end Walker

/-! ## Expressions -/

mutual

/-- An expression changes no scope. -/
theorem Expr.scopes_walk (w : Walker) : (e : Expr NodeId) → (e.walk w).scopes = w.scopes
  | .literal _ => rfl
  | .group inner => inner.scopes_walk w
  | .unary _ right => right.scopes_walk w
  | .binary left _ right => (right.scopes_walk _).trans (left.scopes_walk w)
  | .logical left _ right => (right.scopes_walk _).trans (left.scopes_walk w)
  | .variable id name => by
    rw [Expr.walk, Walker.scopes_record]
    split <;> rfl
  | .assign id name value => by
    rw [Expr.walk, Walker.scopes_record]
    exact value.scopes_walk w
  | .call callee _ arguments => (Expr.scopes_walkAll _ arguments).trans (callee.scopes_walk w)
  | .get object _ => object.scopes_walk w
  | .set object _ value => (object.scopes_walk _).trans (value.scopes_walk w)
  | .this id keyword => by
    rw [Expr.walk]
    split
    · rfl
    · exact w.scopes_record id keyword
  | .super id keyword _ => by
    rw [Expr.walk, Walker.scopes_record]
    split <;> rfl

theorem Expr.scopes_walkAll (w : Walker) :
    (es : List (Expr NodeId)) → (Expr.walkAll w es).scopes = w.scopes
  | [] => rfl
  | e :: es => (Expr.scopes_walkAll _ es).trans (e.scopes_walk w)

end

mutual

/-- An expression keeps what surrounds it, and adds distances of its own nodes only. -/
theorem Expr.keeps_walk (w : Walker) :
    (e : Expr NodeId) → w.Keeps (Reference.ids e.references) (e.walk w)
  | .literal _ => .refl w
  | .group inner => inner.keeps_walk w
  | .unary _ right => right.keeps_walk w
  | .binary left _ right => by
    rw [Expr.references, Reference.ids_append]
    exact (left.keeps_walk w).trans (right.keeps_walk _)
  | .logical left _ right => by
    rw [Expr.references, Reference.ids_append]
    exact (left.keeps_walk w).trans (right.keeps_walk _)
  | .variable id name => by
    rw [Expr.walk]
    refine (Walker.keeps_record _ id name).after ?_
    split
    · exact w.keeps_note _ _
    · exact .refl w
  | .assign id name value => by
    have h := (value.keeps_walk w).trans (Walker.keeps_record _ id name)
    exact h.mono (by simp [Expr.references])
  | .call callee _ arguments => by
    rw [Expr.references, Reference.ids_append]
    exact (callee.keeps_walk w).trans (Expr.keeps_walkAll _ arguments)
  | .get object _ => object.keeps_walk w
  | .set object _ value => by
    have h := (value.keeps_walk w).trans (object.keeps_walk _)
    exact h.mono (by simp [Expr.references])
  | .this id keyword => by
    rw [Expr.walk]
    split
    · exact (w.keeps_note _ _).mono (List.nil_subset _)
    · exact w.keeps_record id keyword
  | .super id keyword _ => by
    rw [Expr.walk]
    refine (Walker.keeps_record _ id keyword).after ?_
    split
    · exact w.keeps_note _ _
    · exact w.keeps_note _ _
    · exact .refl w

theorem Expr.keeps_walkAll (w : Walker) : (es : List (Expr NodeId)) →
    w.Keeps (Reference.ids (Expr.referencesAll es)) (Expr.walkAll w es)
  | [] => .refl w
  | e :: es => by
    rw [Expr.referencesAll, Reference.ids_append]
    exact (e.keeps_walk w).trans (Expr.keeps_walkAll _ es)

end

theorem Expr.scopes_walkInitializer (w : Walker) (name : String) (o : Option (Expr NodeId)) :
    (Expr.walkInitializer w name o).scopes = w.scopes := by
  cases o with
  | none => rfl
  | some e =>
    rw [Expr.walkInitializer]
    split
    · exact e.scopes_walk _
    · exact e.scopes_walk w

theorem Expr.keeps_walkInitializer (w : Walker) (name : String) (o : Option (Expr NodeId)) :
    w.Keeps (Reference.ids (Expr.references? o)) (Expr.walkInitializer w name o) := by
  cases o with
  | none => exact .refl w
  | some e =>
    rw [Expr.walkInitializer]
    split
    · -- the name that was added at the end is taken away again
      have h := e.keeps_walk (w.beginInitializer name)
      refine ⟨h.inFunction, h.inClass, ?_, h.errors, h.held, h.others⟩
      exact (congrArg List.dropLast h.initializing).trans List.dropLast_concat
    · exact e.keeps_walk w

theorem Expr.scopes_walkReturn (w : Walker) (keyword : Name) (value : Option (Expr NodeId)) :
    (Expr.walkReturn w keyword value).scopes = w.scopes := by
  unfold Expr.walkReturn
  cases value with
  | none =>
    dsimp only
    split <;> rfl
  | some e =>
    dsimp only
    rw [e.scopes_walk]
    split <;> split <;> rfl

theorem Expr.keeps_walkReturn (w : Walker) (keyword : Name) (value : Option (Expr NodeId)) :
    w.Keeps (Reference.ids (Expr.references? value)) (Expr.walkReturn w keyword value) := by
  have hnote (w : Walker) (c : Prop) [Decidable c] (fault : ScopeFault) :
      w.Keeps [] (if c then w.note fault keyword else w) := by
    split
    · exact w.keeps_note fault keyword
    · exact .refl w
  unfold Expr.walkReturn
  cases value with
  | none => exact hnote w _ _
  | some e => exact (e.keeps_walk _).after ((hnote w _ _).step (hnote _ _ _))

theorem Expr.scopes_walkSuperclass (w : Walker) (name : Name) (o : Option (Expr NodeId)) :
    (Expr.walkSuperclass w name o).scopes =
      if o.isSome then (∅ : Scope).insert "super" true :: w.scopes else w.scopes := by
  cases o with
  | none => rfl
  | some e =>
    have hs : (Expr.walkSuperclass w name (some e)).scopes =
        Scopes.define (∅ :: w.scopes) "super" := by
      show Scopes.define (∅ :: (e.walk _).scopes) "super" = _
      rw [e.scopes_walk]
      show Scopes.define (∅ :: (w.noteSuperclass name e).scopes) "super" = _
      unfold Walker.noteSuperclass
      split
      · split <;> rfl
      · rfl
    exact hs

/-- The superclass is walked through as in a subclass. -/
theorem Expr.keeps_walkSuperclass (w : Walker) (name : Name) (o : Option (Expr NodeId)) :
    ∃ kind, Walker.Keeps (Reference.ids (Expr.references? o)) (w.setClass kind)
      (Expr.walkSuperclass w name o) := by
  cases o with
  | none => exact ⟨w.inClass, .refl w⟩
  | some e =>
    have hnoted : w.Keeps [] (w.noteSuperclass name e) := by
      unfold Walker.noteSuperclass
      split
      · split
        · exact w.keeps_note _ _
        · exact .refl w
      · exact .refl w
    have hwalk := (e.keeps_walk _).after (hnoted.inside .subclass)
    exact ⟨.subclass, (hwalk.step (Walker.keeps_beginScope _)).step (Walker.keeps_define _ _)⟩

/-! ## Statements -/

mutual

/-- After a statement the innermost scope has gained readable names. -/
theorem Stmt.grows_walk (w : Walker) : (s : Stmt NodeId) → w.scopes.Grows (s.walk w).scopes
  | .expression e => by
    rw [Stmt.walk, e.scopes_walk]
    exact .refl _
  | .print e => by
    rw [Stmt.walk, e.scopes_walk]
    exact .refl _
  | .var name initializer => by
    have hs : ((Stmt.var name initializer).walk w).scopes = w.scopes.bind name.text := by
      rw [Stmt.walk]
      show (Expr.walkInitializer _ _ initializer).scopes.define name.text = _
      rw [Expr.scopes_walkInitializer, Walker.scopes_declare]
      rfl
    rw [hs]
    exact .bind w.scopes name.text
  | .block body => by
    have hb := Stmt.grows_walkAll w.beginScope body
    rw [Stmt.walk]
    show w.scopes.Grows (Stmt.walkAll w.beginScope body).scopes.tail
    rw [hb.tail_eq]
    exact .refl _
  | .ifElse condition thenBranch elseBranch => by
    have ht := thenBranch.grows_walk (condition.walk w)
    rw [condition.scopes_walk] at ht
    exact ht.trans (Stmt.grows_walk? _ elseBranch)
  | .while condition body => by
    have hb := body.grows_walk (condition.walk w)
    rwa [condition.scopes_walk] at hb
  | .function declaration => by
    rw [Stmt.walk, FunDecl.scopes_walk, Walker.scopes_bind]
    exact .bind _ _
  | .return keyword value => by
    rw [Stmt.walk, Expr.scopes_walkReturn]
    exact .refl _
  | .class name superclass methods => by
    have hs : ((Stmt.class name superclass methods).walk w).scopes = w.scopes.bind name.text := by
      rw [Stmt.walk]
      cases superclass with
      | none =>
        show (FunDecl.walkMethods _ methods).scopes.tail = _
        rw [FunDecl.scopes_walkMethods]
        exact Walker.scopes_bind _ name
      | some e =>
        show (FunDecl.walkMethods _ methods).scopes.tail.tail = _
        rw [FunDecl.scopes_walkMethods]
        show (Expr.walkSuperclass _ name (some e)).scopes.tail = _
        rw [Expr.scopes_walkSuperclass]
        exact Walker.scopes_bind _ name
    rw [hs]
    exact .bind w.scopes name.text

theorem Stmt.grows_walk? (w : Walker) :
    (o : Option (Stmt NodeId)) → w.scopes.Grows (Stmt.walk? w o).scopes
  | none => .refl _
  | some s => s.grows_walk w

theorem Stmt.grows_walkAll (w : Walker) :
    (ss : List (Stmt NodeId)) → w.scopes.Grows (Stmt.walkAll w ss).scopes
  | [] => .refl _
  | s :: ss => (s.grows_walk w).trans (Stmt.grows_walkAll _ ss)

/-- A function changes no scope: its own is closed behind it. -/
theorem FunDecl.scopes_walk (w : Walker) (kind : FunctionContext) :
    (f : FunDecl NodeId) → (f.walk w kind).scopes = w.scopes
  | .mk _ params body => by
    have hp := Walker.grows_params (w.setFunction kind).beginScope params
    exact (hp.trans (Stmt.grows_walkAll _ body)).tail_eq

theorem FunDecl.scopes_walkMethods (w : Walker) :
    (fs : List (FunDecl NodeId)) → (FunDecl.walkMethods w fs).scopes = w.scopes
  | [] => rfl
  | f :: fs => (FunDecl.scopes_walkMethods _ fs).trans (f.scopes_walk w _)

end

mutual

/-- A statement keeps what surrounds it, and adds distances of its own nodes only. -/
theorem Stmt.keeps_walk (w : Walker) :
    (s : Stmt NodeId) → w.Keeps (Reference.ids s.references) (s.walk w)
  | .expression e => e.keeps_walk w
  | .print e => e.keeps_walk w
  | .var name initializer =>
    ((Expr.keeps_walkInitializer _ name.text initializer).after (w.keeps_declare name)).step
      (Walker.keeps_define _ _)
  | .block body =>
    ((Stmt.keeps_walkAll _ body).after w.keeps_beginScope).step (Walker.keeps_endScope _)
  | .ifElse condition thenBranch elseBranch => by
    rw [Stmt.references, Reference.ids_append, Reference.ids_append]
    exact ((condition.keeps_walk w).trans (thenBranch.keeps_walk _)).trans
      (Stmt.keeps_walk? _ elseBranch)
  | .while condition body => by
    rw [Stmt.references, Reference.ids_append]
    exact (condition.keeps_walk w).trans (body.keeps_walk _)
  | .function declaration => (declaration.keeps_walk _ _).after (w.keeps_bind _)
  | .return keyword value => Expr.keeps_walkReturn w keyword value
  | .class name superclass methods => by
    have hbind := Walker.keeps_bind (w.setClass .class) name
    obtain ⟨kind, hsuper⟩ := Expr.keeps_walkSuperclass _ name superclass
    rw [Stmt.references, Reference.ids_append, Stmt.walk]
    have hinside := ((hsuper.after (hbind.inside kind)).step (Walker.keeps_beginScope _)).step
      (Walker.keeps_define _ "this")
    have hmethods := (hinside.trans (FunDecl.keeps_walkMethods _ methods)).step
      (Walker.keeps_endScope _)
    split
    · exact Walker.Keeps.leaveClass (w := w) (hmethods.step (Walker.keeps_endScope _))
    · exact Walker.Keeps.leaveClass (w := w) hmethods

theorem Stmt.keeps_walk? (w : Walker) : (o : Option (Stmt NodeId)) →
    w.Keeps (Reference.ids (Stmt.references? o)) (Stmt.walk? w o)
  | none => .refl w
  | some s => s.keeps_walk w

theorem Stmt.keeps_walkAll (w : Walker) : (ss : List (Stmt NodeId)) →
    w.Keeps (Reference.ids (Stmt.referencesAll ss)) (Stmt.walkAll w ss)
  | [] => .refl w
  | s :: ss => by
    rw [Stmt.referencesAll, Reference.ids_append]
    exact (s.keeps_walk w).trans (Stmt.keeps_walkAll _ ss)

theorem FunDecl.keeps_walk (w : Walker) (kind : FunctionContext) : (f : FunDecl NodeId) →
    w.Keeps (Reference.ids f.references) (f.walk w kind)
  | .mk _ params body => by
    have hopen := (Walker.keeps_beginScope (w.setFunction kind)).step
      (Walker.keeps_params _ params)
    exact (((Stmt.keeps_walkAll _ body).after hopen).step (Walker.keeps_endScope _)).leaveFunction

theorem FunDecl.keeps_walkMethods (w : Walker) : (fs : List (FunDecl NodeId)) →
    w.Keeps (Reference.ids (FunDecl.referencesAll fs)) (FunDecl.walkMethods w fs)
  | [] => .refl w
  | f :: fs => by
    rw [FunDecl.referencesAll, Reference.ids_append]
    exact (f.keeps_walk w _).trans (FunDecl.keeps_walkMethods _ fs)

end

/-! ## What is found -/

namespace Walker

/-- What surrounds a walker, as `resolve` hands it down. -/
def context (w : Walker) : Context := ⟨w.inFunction, w.inClass, w.initializing.head?⟩

/-- The walker in other scopes, with what was found on the way there. -/
def reach (w : Walker) (r : Scopes × List Finding) : Walker :=
  { w with
    scopes := r.1
    table := w.table.merge (Finding.entries r.2)
    errors := w.errors ++ Finding.errors r.2 }

/-- The walker in the same scopes, with what was found. -/
def find (w : Walker) (findings : List Finding) : Walker := w.reach (w.scopes, findings)

variable (w : Walker)

@[simp] theorem scopes_reach (r : Scopes × List Finding) : (w.reach r).scopes = r.1 := rfl

@[simp] theorem context_reach (r : Scopes × List Finding) : (w.reach r).context = w.context := rfl

@[simp] theorem scopes_setFunction (kind : FunctionContext) :
    (w.setFunction kind).scopes = w.scopes := rfl

@[simp] theorem scopes_setClass (kind : ClassContext) : (w.setClass kind).scopes = w.scopes := rfl

@[simp] theorem context_setFunction (kind : FunctionContext) :
    (w.setFunction kind).context = { w.context with inFunction := kind } := rfl

@[simp] theorem context_setClass (kind : ClassContext) :
    (w.setClass kind).context = { w.context with inClass := kind } := rfl

@[simp] theorem initializing_setClass (kind : ClassContext) :
    (w.setClass kind).initializing = w.initializing := rfl

@[simp] theorem setFunction_reach (r : Scopes × List Finding) (kind : FunctionContext) :
    (w.reach r).setFunction kind = (w.setFunction kind).reach r := rfl

@[simp] theorem setClass_reach (r : Scopes × List Finding) (kind : ClassContext) :
    (w.reach r).setClass kind = (w.setClass kind).reach r := rfl

@[simp] theorem setFunction_setFunction (kind : FunctionContext) :
    (w.setFunction kind).setFunction w.inFunction = w := rfl

@[simp] theorem setClass_setClass (kind kind' : ClassContext) :
    (w.setClass kind).setClass kind' = w.setClass kind' := rfl

@[simp] theorem setClass_self : w.setClass w.inClass = w := rfl

@[simp] theorem scopes_find (fs : List Finding) : (w.find fs).scopes = w.scopes := rfl

@[simp] theorem context_find (fs : List Finding) : (w.find fs).context = w.context := rfl

@[simp] theorem initializing_find (fs : List Finding) :
    (w.find fs).initializing = w.initializing := rfl

@[simp] theorem reach_reach (r r' : Scopes × List Finding) :
    (w.reach r).reach r' = w.reach (r'.1, r.2 ++ r'.2) := by
  simp only [reach, Finding.entries_append, Finding.errors_append, DistanceTable.merge_append,
    List.append_assoc]

@[simp] theorem find_reach (fs : List Finding) (r : Scopes × List Finding) :
    (w.find fs).reach r = w.reach (r.1, fs ++ r.2) := reach_reach w _ r

@[simp] theorem reach_find (r : Scopes × List Finding) (fs : List Finding) :
    (w.reach r).find fs = w.reach (r.1, r.2 ++ fs) := reach_reach w r _

@[simp] theorem find_find (fs fs' : List Finding) : (w.find fs).find fs' = w.find (fs ++ fs') :=
  reach_reach w _ _

theorem merge_nil (table : DistanceTable) : table.merge [] = table :=
  congrArg DistanceTable.mk Std.HashMap.insertMany_nil

theorem reach_self (scopes : Scopes) : w.reach (scopes, []) = { w with scopes } := by
  rw [reach, Finding.entries_nil, merge_nil, Finding.errors_nil, List.append_nil]

@[simp] theorem find_nil : w.find [] = w := w.reach_self w.scopes

theorem note_eq_find (fault : ScopeFault) (found : Name) :
    w.note fault found = w.find [.error ⟨fault, found⟩] := by
  have hentries : Finding.entries [.error ⟨fault, found⟩] = [] := rfl
  rw [find, reach, hentries, merge_nil]
  rfl

theorem noteIf_eq_find (c : Prop) [Decidable c] (fault : ScopeFault) (found : Name) :
    (if c then w.note fault found else w) = w.find (if c then [.error ⟨fault, found⟩] else []) := by
  split
  · exact w.note_eq_find fault found
  · exact w.find_nil.symm

theorem noteSuperclass_eq_find (name : Name) (e : Expr NodeId) :
    w.noteSuperclass name e = w.find (superclassFindings name e) := by
  cases e with
  | «variable» id superclass => exact w.noteIf_eq_find _ _ _
  | _ => exact w.find_nil.symm

theorem record_eq_find (id : NodeId) (name : Name) :
    w.record id name = w.find (distanceFindings w.scopes id name) := by
  unfold record distanceFindings
  cases w.scopes.distance? name.text with
  | none => exact w.find_nil.symm
  | some d =>
    have hentries : Finding.entries [.distance id d] = [(id, d)] := rfl
    have herrors : Finding.errors [.distance id d] = [] := rfl
    rw [find, reach, hentries, herrors, DistanceTable.merge,
      Std.HashMap.insertMany_list_singleton, List.append_nil]
    rfl

theorem define_eq_reach (name : String) : w.define name = w.reach (w.scopes.define name, []) :=
  (w.reach_self _).symm

theorem beginScope_eq_reach : w.beginScope = w.reach (∅ :: w.scopes, []) := (w.reach_self _).symm

theorem endScope_eq_reach : w.endScope = w.reach (w.scopes.tail, []) := (w.reach_self _).symm

theorem declare_eq_reach (name : Name) :
    w.declare name = w.reach (w.scopes.declare name.text, declarationFindings w.scopes name) := by
  unfold declare declarationFindings
  cases hs : w.scopes with
  | nil =>
    show w = w.reach ([], [])
    rw [← hs]
    exact w.find_nil.symm
  | cons inner outer =>
    dsimp only
    split
    · rw [note_eq_find, ← w.reach_self, reach_find]
      rfl
    · exact (w.reach_self _).symm

theorem bind_eq_reach (name : Name) :
    w.bind name = w.reach (w.scopes.bind name.text, declarationFindings w.scopes name) := by
  rw [bind, declare_eq_reach, define_eq_reach, reach_reach, List.append_nil]
  rfl

theorem params_eq_reach (params : List Name) :
    params.foldl bind w = w.reach (resolveParams w.scopes params) := by
  induction params generalizing w with
  | nil => exact (w.reach_self w.scopes).symm
  | cons p params ih =>
    rw [List.foldl_cons, ih, bind_eq_reach, scopes_reach, reach_reach, resolveParams_cons]

/-- While one initializer at most is open, it is the one that `resolve` knows of. -/
theorem inOwnInitializer_eq (h : w.initializing.length ≤ 1) (name : String) :
    w.inOwnInitializer name = Lox.inOwnInitializer w.context w.scopes name := by
  unfold inOwnInitializer Lox.inOwnInitializer context
  cases w.scopes with
  | cons inner outer => rfl
  | nil =>
    match hi : w.initializing, h with
    | [], _ => rfl
    | [other], _ => simp [eq_comm]

end Walker

mutual

/-- In an expression a walker finds what `resolve` finds. -/
theorem Expr.walk_eq_find (w : Walker) (h : w.initializing.length ≤ 1) :
    (e : Expr NodeId) → e.walk w = w.find (e.resolve w.context w.scopes)
  | .literal _ => w.find_nil.symm
  | .group inner => inner.walk_eq_find w h
  | .unary _ right => right.walk_eq_find w h
  | .binary left _ right => by
    rw [Expr.walk, left.walk_eq_find w h, right.walk_eq_find (w.find _) h]
    exact Walker.find_find w _ _
  | .logical left _ right => by
    rw [Expr.walk, left.walk_eq_find w h, right.walk_eq_find (w.find _) h]
    exact Walker.find_find w _ _
  | .variable id name => by
    rw [Expr.walk, Expr.resolve, w.inOwnInitializer_eq h, Walker.noteIf_eq_find,
      Walker.record_eq_find]
    exact Walker.find_find w _ _
  | .assign id name value => by
    rw [Expr.walk, Walker.record_eq_find, value.walk_eq_find w h]
    exact Walker.find_find w _ _
  | .call callee _ arguments => by
    rw [Expr.walk, callee.walk_eq_find w h, Expr.walkAll_eq_find (w.find _) h arguments]
    exact Walker.find_find w _ _
  | .get object _ => object.walk_eq_find w h
  | .set object _ value => by
    rw [Expr.walk, value.walk_eq_find w h, object.walk_eq_find (w.find _) h]
    exact Walker.find_find w _ _
  | .this id keyword => by
    rw [Expr.walk, Expr.resolve, Walker.note_eq_find, Walker.record_eq_find]
    show _ = w.find (match w.inClass with
      | .none => [.error ⟨.thisOutsideClass, keyword⟩]
      | _ => distanceFindings w.scopes id keyword)
    cases w.inClass <;> rfl
  | .super id keyword _ => by
    rw [Expr.walk, Expr.resolve, Walker.record_eq_find, Walker.note_eq_find, Walker.note_eq_find]
    show _ = w.find ((match w.inClass with
      | .none => [.error ⟨.superOutsideClass, keyword⟩]
      | .class => [.error ⟨.superWithoutSuperclass, keyword⟩]
      | .subclass => []) ++ distanceFindings w.scopes id keyword)
    cases w.inClass with
    | none => exact Walker.find_find w _ _
    | «class» => exact Walker.find_find w _ _
    | subclass => rfl

theorem Expr.walkAll_eq_find (w : Walker) (h : w.initializing.length ≤ 1) :
    (es : List (Expr NodeId)) → Expr.walkAll w es = w.find (Expr.resolveAll w.context w.scopes es)
  | [] => w.find_nil.symm
  | e :: es => by
    rw [Expr.walkAll, e.walk_eq_find w h, Expr.walkAll_eq_find (w.find _) h es]
    exact Walker.find_find w _ _

end

section

variable {w : Walker} (h : w.initializing = [])

include h

theorem Expr.walkInitializer_eq_find (name : String) (o : Option (Expr NodeId)) :
    Expr.walkInitializer w name o =
      w.find (Expr.resolve? (if w.scopes.isEmpty then { w.context with initializing := some name }
        else w.context) w.scopes o) := by
  cases o with
  | none => exact w.find_nil.symm
  | some e =>
    rw [Expr.walkInitializer]
    split
    · have hi : w.beginInitializer name = { w with initializing := [name] } := by
        rw [Walker.beginInitializer, h, List.nil_append]
      have hw := e.walk_eq_find { w with initializing := [name] } (Nat.le_refl 1)
      rw [hi, hw]
      show { w.find _ with initializing := [] } = _
      rw [← h]
      rfl
    · exact e.walk_eq_find w (by simp [h])

theorem Expr.walkReturn_eq_find (keyword : Name) (value : Option (Expr NodeId)) :
    Expr.walkReturn w keyword value =
      w.find (returnFindings w.context keyword value.isSome ++
        Expr.resolve? w.context w.scopes value) := by
  unfold Expr.walkReturn
  rw [Walker.noteIf_eq_find]
  cases value with
  | none =>
    have hf : returnFindings w.context keyword false =
        if w.context.inFunction = .none then [.error ⟨.returnOutsideFunction, keyword⟩]
        else [] := by
      simp [returnFindings]
    rw [Option.isSome_none, hf, Expr.resolve?, List.append_nil]
    rfl
  | some e =>
    dsimp only
    rw [Walker.noteIf_eq_find, Walker.find_find, e.walk_eq_find _ (by simp [h]), Walker.find_find]
    have hf : returnFindings w.context keyword true =
        (if w.context.inFunction = .none then [.error ⟨.returnOutsideFunction, keyword⟩] else []) ++
          if w.context.inFunction = .initializer then [.error ⟨.valueFromInitializer, keyword⟩]
          else [] := by
      simp [returnFindings]
    rw [Option.isSome_some, hf]
    rfl

theorem Expr.walkSuperclass_eq_reach (name : Name) (e : Expr NodeId) :
    Expr.walkSuperclass w name (some e) =
      (w.setClass .subclass).reach ((∅ : Scope).insert "super" true :: w.scopes,
        superclassFindings name e ++
          e.resolve { w.context with inClass := .subclass } w.scopes) := by
  have hwalk := e.walk_eq_find ((w.setClass .subclass).find (superclassFindings name e))
    (by simp [h])
  rw [Expr.walkSuperclass, Walker.noteSuperclass_eq_find]
  show ((e.walk ((w.setClass .subclass).find _)).beginScope).define "super" = _
  rw [hwalk, Walker.beginScope_eq_reach, Walker.define_eq_reach]
  simp only [Walker.context_find, Walker.context_setClass, Walker.scopes_find,
    Walker.scopes_setClass, Walker.find_find, Walker.find_reach, List.append_nil,
    Walker.scopes_reach, Walker.reach_reach]
  rfl

end

mutual

/-- In a statement a walker that is in no initializer goes where `resolve` goes, and finds the
same. -/
theorem Stmt.walk_eq_reach (w : Walker) (h : w.initializing = []) :
    (s : Stmt NodeId) → s.walk w = w.reach (s.resolve w.context w.scopes)
  | .expression e => by
    rw [Stmt.walk, Stmt.resolve, e.walk_eq_find w (by simp [h])]
    rfl
  | .print e => by
    rw [Stmt.walk, Stmt.resolve, e.walk_eq_find w (by simp [h])]
    rfl
  | .var name initializer => by
    have hempty : (w.scopes.declare name.text).isEmpty = w.scopes.isEmpty := by
      cases w.scopes <;> rfl
    rw [Stmt.walk, Stmt.resolve, Walker.declare_eq_reach,
      Expr.walkInitializer_eq_find (w := w.reach _) h, Walker.define_eq_reach,
      Walker.reach_find, Walker.reach_reach]
    simp only [Walker.scopes_reach, Walker.context_reach, hempty, List.append_nil]
  | .block body => by
    have htail := (Stmt.grows_walkAll w.beginScope body).tail_eq
    rw [Walker.beginScope_eq_reach, Stmt.walkAll_eq_reach (w.reach _) h body] at htail
    rw [Stmt.walk, Stmt.resolve, Walker.endScope_eq_reach, Walker.beginScope_eq_reach,
      Stmt.walkAll_eq_reach (w.reach _) h body, Walker.reach_reach, Walker.reach_reach]
    simp only [Walker.scopes_reach, Walker.context_reach, List.nil_append,
      List.append_nil] at htail ⊢
    rw [htail]
  | .ifElse condition thenBranch elseBranch => by
    rw [Stmt.walk, Stmt.resolve_ifElse, condition.walk_eq_find w (by simp [h]),
      thenBranch.walk_eq_reach (w.find _) h, Stmt.walk?_eq_reach ((w.find _).reach _) h elseBranch]
    simp
  | .while condition body => by
    rw [Stmt.walk, Stmt.resolve_while, condition.walk_eq_find w (by simp [h]),
      body.walk_eq_reach (w.find _) h]
    simp
  | .function declaration => by
    rw [Stmt.walk, Stmt.resolve, Walker.bind_eq_reach, declaration.walk_eq_find (w.reach _) h]
    simp
  | .return keyword value => by
    rw [Stmt.walk, Stmt.resolve, Expr.walkReturn_eq_find h]
    rfl
  | .class name superclass methods => by
    have hbind := Walker.bind_eq_reach (w.setClass .class) name
    have hmethods (v : Walker) (hv : v.initializing = []) :
        (FunDecl.walkMethods (v.beginScope.define "this") methods).endScope =
          v.find (FunDecl.resolveMethods v.context ((∅ : Scope).insert "this" true :: v.scopes)
            methods) := by
      rw [Walker.beginScope_eq_reach, Walker.define_eq_reach, Walker.reach_reach,
        FunDecl.walkMethods_eq_find (v.reach _) hv methods, Walker.reach_find,
        Walker.endScope_eq_reach, Walker.reach_reach]
      simp only [Walker.scopes_reach, List.append_nil, Walker.context_reach, List.nil_append]
      rfl
    rw [Stmt.walk]
    cases superclass with
    | none =>
      rw [Expr.walkSuperclass, hbind, hmethods ((w.setClass .class).reach _) h, Stmt.resolve]
      simp only [Option.isSome_none, Bool.false_eq_true, ↓reduceIte, Walker.scopes_setClass,
        Walker.context_reach, Walker.context_setClass, Walker.scopes_reach, Walker.reach_find,
        Walker.setClass_reach, Walker.setClass_setClass, Walker.setClass_self, List.append_nil]
      rfl
    | some e =>
      have hinitializing : ((w.setClass .class).bind name).initializing = [] := by
        rw [hbind]
        exact h
      have hsuper := Expr.walkSuperclass_eq_reach hinitializing name e
      rw [hbind, Walker.setClass_reach, Walker.setClass_setClass, Walker.reach_reach] at hsuper
      rw [hbind, hsuper, hmethods ((w.setClass .subclass).reach _) h, Stmt.resolve]
      simp only [Option.isSome_some, ↓reduceIte, Walker.scopes_setClass, Walker.scopes_reach,
        Walker.context_reach, Walker.context_setClass, Walker.reach_find, List.append_assoc]
      rfl

theorem Stmt.walk?_eq_reach (w : Walker) (h : w.initializing = []) : (o : Option (Stmt NodeId)) →
    Stmt.walk? w o = w.reach (Stmt.resolve? w.context w.scopes o)
  | none => (w.reach_self w.scopes).symm
  | some s => s.walk_eq_reach w h

theorem Stmt.walkAll_eq_reach (w : Walker) (h : w.initializing = []) : (ss : List (Stmt NodeId)) →
    Stmt.walkAll w ss = w.reach (Stmt.resolveAll w.context w.scopes ss)
  | [] => (w.reach_self w.scopes).symm
  | s :: ss => by
    rw [Stmt.walkAll, Stmt.resolveAll_cons, s.walk_eq_reach w h,
      Stmt.walkAll_eq_reach (w.reach _) h ss]
    simp

theorem FunDecl.walk_eq_find (w : Walker) (h : w.initializing = []) (kind : FunctionContext) :
    (f : FunDecl NodeId) →
      f.walk w kind = w.find (f.resolve { w.context with inFunction := kind } w.scopes)
  | .mk name params body => by
    have hscopes := FunDecl.scopes_walk w kind (.mk name params body)
    rw [FunDecl.walk, Walker.beginScope_eq_reach, Walker.params_eq_reach,
      Stmt.walkAll_eq_reach (((w.setFunction kind).reach _).reach _) h body,
      Walker.endScope_eq_reach] at hscopes ⊢
    rw [FunDecl.resolve_mk]
    simp only [Walker.scopes_setFunction, Walker.scopes_reach, Walker.reach_reach, List.nil_append,
      Walker.context_reach, Walker.context_setFunction, List.append_nil, Walker.setFunction_reach,
      Walker.setFunction_setFunction] at hscopes ⊢
    rw [hscopes]
    rfl

theorem FunDecl.walkMethods_eq_find (w : Walker) (h : w.initializing = []) :
    (fs : List (FunDecl NodeId)) →
      FunDecl.walkMethods w fs = w.find (FunDecl.resolveMethods w.context w.scopes fs)
  | [] => w.find_nil.symm
  | f :: fs => by
    rw [FunDecl.walkMethods, FunDecl.resolveMethods, f.walk_eq_find w h,
      FunDecl.walkMethods_eq_find (w.find _) h fs]
    exact Walker.find_find w _ _

end

/-! ## The property -/

/-- A walker restores its surroundings, whatever its state is: where it stands, what it has found,
and how deep it is in scopes, functions, classes and initializers. Behind an expression or a
function, the scopes are those before it. Behind a statement, a class among them, they are the same
but for the innermost one, which has gained names that may all be read. The kinds of function and
class around, and the initializers, are those before; errors were added behind the others, and
distances for nodes of that tree only. In front of a program nothing surrounds the walker, and there
it finds what `resolve` finds. -/
theorem walker_restores_surroundings (w : Walker) :
    (∀ e : Expr NodeId,
      (e.walk w).scopes = w.scopes ∧ w.Keeps (Reference.ids e.references) (e.walk w)) ∧
    (∀ s : Stmt NodeId,
      w.scopes.Grows (s.walk w).scopes ∧ w.Keeps (Reference.ids s.references) (s.walk w)) ∧
    (∀ (kind : FunctionContext) (f : FunDecl NodeId),
      (f.walk w kind).scopes = w.scopes ∧ w.Keeps (Reference.ids f.references) (f.walk w kind)) ∧
    ∀ program, (walkProgram program).table = (resolve program).table ∧
      (walkProgram program).errors = (resolve program).errors := by
  refine ⟨fun e => ⟨e.scopes_walk w, e.keeps_walk w⟩, fun s => ⟨s.grows_walk w, s.keeps_walk w⟩,
    fun kind f => ⟨f.scopes_walk w kind, f.keeps_walk w kind⟩, fun program => ?_⟩
  rw [walkProgram, Stmt.walkAll_eq_reach .start rfl program, Resolution.table, resolve,
    Resolution.distances_ofFindings, Resolution.errors_ofFindings]
  exact ⟨rfl, List.nil_append _⟩

end Lox
