import Lox.Proofs.Evaluation.Frames
import Lox.Evaluation

/-!
# Well-scoped stores

A store is well-scoped if the globals are in no other frame, and every function
and every method of a class has been declared in frames that are those of the
scopes in which the walk of `resolve` visited its body (`Store.WellScoped`).
Everything that the evaluator does to a state by itself keeps the store
well-scoped, only adds to it, and stays in the same frame (`Machine.Keeps`).

* `Store.WellScoped.get_globals`: looking a name up from the globals outward;
* `Store.findMethod_rec`, `Store.findMethod_rel`: the walk along superclasses, class by class;
* `Store.WellScoped.inScope_findMethod`: a method that is found is in scope;
* `Machine.Keeps.define`, `Machine.Keeps.declareClass` and others: the steps of
  the evaluator.
-/

namespace Lox

/-- A function that runs in the frames of the scopes in which its body was visited. The closure of
an initializer binds `this`. -/
structure FunctionObject.InScope (vs : List Visit) (s : Store) (f : FunctionObject) : Prop where
  grounded : f.declaration.Grounded
  scopes : ∃ scopes, s.Chain f.closure scopes ∧ f.declaration.visits scopes ⊆ vs
  this : f.isInitializer → (s.own? f.closure "this").isSome

/-- A method of a class: it runs in a frame that binds `this`, inside the one in which it was
declared. -/
def FunctionObject.MethodInScope (vs : List Visit) (s : Store) (f : FunctionObject) : Prop :=
  f.declaration.Grounded ∧ ∃ scopes, s.Chain f.closure scopes ∧
    f.declaration.visits ((∅ : Scope).insert "this" true :: scopes) ⊆ vs

/-- Functions and methods are in scope, and the globals are in no other frame. -/
structure Store.WellScoped (vs : List Visit) (s : Store) : Prop where
  globals : ∃ frame, s.frame? .globals = some frame ∧ frame.enclosing = none
  function {id : FunctionId} {f : FunctionObject} : s.function? id = some f → f.InScope vs s
  method {id : ClassId} {c : ClassObject} {name : String} {f : FunctionObject} :
    s.class? id = some c → c.methods.get? name = some f → f.MethodInScope vs s

section

variable {vs : List Visit} {s s' : Store}

theorem FunctionObject.InScope.grow {f : FunctionObject} (hg : s.Grows s') (h : f.InScope vs s) :
    f.InScope vs s' := by
  obtain ⟨scopes, hc, hv⟩ := h.scopes
  exact ⟨h.grounded, ⟨scopes, hc.grow hg, hv⟩, fun hi => hg.own (h.this hi)⟩

theorem FunctionObject.MethodInScope.grow {f : FunctionObject} (hg : s.Grows s')
    (h : f.MethodInScope vs s) : f.MethodInScope vs s' := by
  obtain ⟨hf, scopes, hc, hv⟩ := h
  exact ⟨hf, scopes, hc.grow hg, hv⟩

namespace Store

/-! ## The globals -/

theorem WellScoped.enclosing_globals (h : s.WellScoped vs) : s.enclosing? .globals = none := by
  obtain ⟨frame, hf, he⟩ := h.globals
  rw [enclosing?, hf]
  exact he

theorem WellScoped.frame?_globals_isSome (h : s.WellScoped vs) : (s.frame? .globals).isSome := by
  obtain ⟨frame, hf, -⟩ := h.globals
  simp [hf]

/-- A frame that lies in no other one binds a name itself, or no frame does. -/
theorem binder?_of_enclosing?_eq_none {f : FrameId} (h : s.enclosing? f = none) (name : String) :
    s.binder? f name = if (s.own? f name).isSome then some f else none := by
  rw [enclosing?] at h
  rw [binder?, own?]
  cases hf : s.frame? f with
  | none => rfl
  | some frame =>
    rw [hf] at h
    have h : frame.enclosing = none := h
    simp only [h, Bindings.contains]
    rfl

theorem get_of_enclosing?_eq_none {f : FrameId} (h : s.enclosing? f = none) (name : String) :
    s.get f name = s.own? f name := by
  rw [get, binder?_of_enclosing?_eq_none h]
  cases hn : s.own? f name with
  | none => rfl
  | some value => exact hn

theorem WellScoped.binder?_globals (h : s.WellScoped vs) (name : String) :
    s.binder? .globals name = if (s.own? .globals name).isSome then some .globals else none :=
  binder?_of_enclosing?_eq_none h.enclosing_globals name

theorem WellScoped.get_globals (h : s.WellScoped vs) (name : String) :
    s.get .globals name = s.own? .globals name :=
  get_of_enclosing?_eq_none h.enclosing_globals name

/-- The frame of the innermost scope is there. -/
theorem Chain.frame?_isSome (hw : s.WellScoped vs) {f : FrameId} {scopes : Scopes}
    (h : s.Chain f scopes) : (s.frame? f).isSome := by
  cases scopes with
  | nil =>
    obtain rfl : f = .globals := h
    exact hw.frame?_globals_isSome
  | cons scope outer =>
    obtain ⟨-, g, he, -⟩ := h
    exact frame?_isSome_of_enclosing? he

/-- More visits leave a store well-scoped. -/
theorem WellScoped.mono {ws : List Visit} (h : s.WellScoped vs) (hs : vs ⊆ ws) :
    s.WellScoped ws where
  globals := h.globals
  function hf := by
    obtain ⟨hg, ⟨scopes, hc, hv⟩, ht⟩ := h.function hf
    exact ⟨hg, ⟨scopes, hc, List.Subset.trans hv hs⟩, ht⟩
  method hc hf := by
    obtain ⟨hg, scopes, hc, hv⟩ := h.method hc hf
    exact ⟨hg, scopes, hc, List.Subset.trans hv hs⟩

/-! ## Operations -/

theorem WellScoped.define (h : s.WellScoped vs) (f : FrameId) (name : String) (value : Value) :
    (s.define f name value).WellScoped vs where
  globals := by
    obtain ⟨frame, hf, he⟩ := h.globals
    rw [frame?_define, hf]
    split
    · exact ⟨_, rfl, he⟩
    · exact ⟨_, rfl, he⟩
  function hf := (h.function hf).grow (.define s f name value)
  method hc hf := (h.method hc hf).grow (.define s f name value)

theorem WellScoped.addFrame (h : s.WellScoped vs) (frame : Frame) :
    (s.addFrame frame).2.WellScoped vs where
  globals := by
    rw [frame?_addFrame, if_neg (ne_addFrame h.frame?_globals_isSome)]
    exact h.globals
  function hf := (h.function hf).grow (.addFrame s frame)
  method hc hf := (h.method hc hf).grow (.addFrame s frame)

theorem WellScoped.addFunction (h : s.WellScoped vs) {f : FunctionObject} (hf : f.InScope vs s) :
    (s.addFunction f).2.WellScoped vs where
  globals := h.globals
  function {id g} hg := by
    rw [function?, Store.addFunction, Array.getElem?_push] at hg
    split at hg
    · obtain rfl : f = g := Option.some.inj hg
      exact hf.grow (.addFunction s f)
    · exact (h.function hg).grow (.addFunction s f)
  method hc hm := (h.method hc hm).grow (.addFunction s f)

theorem WellScoped.addClass (h : s.WellScoped vs) {c : ClassObject}
    (hc : ∀ name f, c.methods.get? name = some f → f.MethodInScope vs s) :
    (s.addClass c).2.WellScoped vs where
  globals := h.globals
  function hf := (h.function hf).grow (.addClass s c)
  method {id d name f} hd hf := by
    rw [class?, Store.addClass, Array.getElem?_push] at hd
    split at hd
    · obtain rfl : c = d := Option.some.inj hd
      exact (hc name f hf).grow (.addClass s c)
    · exact (h.method hd hf).grow (.addClass s c)

theorem WellScoped.addInstance (h : s.WellScoped vs) (i : InstanceObject) :
    (s.addInstance i).2.WellScoped vs where
  globals := h.globals
  function hf := (h.function hf).grow (.addInstance s i)
  method hc hf := (h.method hc hf).grow (.addInstance s i)

theorem WellScoped.setField (h : s.WellScoped vs) (id : InstanceId) (name : String)
    (value : Value) : (s.setField id name value).WellScoped vs where
  globals := h.globals
  function hf := (h.function hf).grow (.setField s id name value)
  method hc hf := (h.method hc hf).grow (.setField s id name value)

/-! ## Methods -/

/-- A method that is found is one of the class itself, or it is found in the superclass. -/
theorem findMethod_rec {name : String} {f : FunctionObject} {P : ClassId → Prop}
    (own : ∀ id c, s.class? id = some c → c.methods.get? name = some f → P id)
    (inherited : ∀ id c superclass, s.class? id = some c → c.methods.get? name = none →
      c.superclass = some superclass → P superclass → P id)
    {id : ClassId} (h : s.findMethod id name = some f) : P id := by
  induction id using findMethod.induct s name with
  | case1 id hc =>
    rw [findMethod, hc] at h
    cases h
  | case2 id c hc method hm =>
    rw [findMethod, hc] at h
    simp only [hm] at h
    exact own id c hc (hm.trans h)
  | case3 id c hc hm hs =>
    rw [findMethod, hc] at h
    simp only [hm, hs] at h
    cases h
  | case4 id c hc hm superclass hs hlt ih =>
    rw [findMethod, hc] at h
    simp only [hm, hs, if_pos hlt] at h
    exact inherited id c superclass hc hm hs (ih h)
  | case5 id c hc hm superclass hs hlt =>
    rw [findMethod, hc] at h
    simp only [hm, hs, if_neg hlt] at h
    cases h

/-- A method that is found is a method of some class. -/
theorem exists_method_of_findMethod {id : ClassId} {name : String} {f : FunctionObject}
    (h : s.findMethod id name = some f) :
    ∃ id' c, s.class? id' = some c ∧ c.methods.get? name = some f := by
  refine findMethod_rec (P := fun _ => ∃ id' c, s.class? id' = some c ∧
    c.methods.get? name = some f) (fun id c hc hm => ?_) (fun _ _ _ _ _ _ ih => ih) h
  exact ⟨id, c, hc, hm⟩

/-- Where classes correspond, with the same superclasses, the methods that are found correspond. -/
theorem findMethod_rel {s' : Store} {name : String} {R : ClassObject → ClassObject → Prop}
    {r : FunctionObject → FunctionObject → Prop}
    (hclass : ∀ id, Option.Rel R (s.class? id) (s'.class? id))
    (hR : ∀ {c c'}, R c c' → c'.superclass = c.superclass ∧
      Option.Rel r (c.methods.get? name) (c'.methods.get? name)) (id : ClassId) :
    Option.Rel r (s.findMethod id name) (s'.findMethod id name) := by
  induction id using (measure ClassId.index).wf.induction with
  | h id ih =>
    have hc := hclass id
    rw [findMethod, findMethod]
    generalize s.class? id = c?, s'.class? id = c'? at hc ⊢
    cases hc with
    | none => exact .none
    | @some c c' hcc =>
      obtain ⟨hsuper, hm⟩ := hR hcc
      simp only [hsuper]
      generalize c.methods.get? name = m?, c'.methods.get? name = m'? at hm ⊢
      cases hm with
      | some hmm => exact .some hmm
      | none =>
        dsimp only
        split
        · exact .none
        · split
          · next hlt => exact ih _ hlt
          · exact .none

theorem rel_iff_eq_map {α : Type} {f : α → α} {o o' : Option α} :
    Option.Rel (fun a b => b = f a) o o' ↔ o' = o.map f := by
  constructor
  · intro h
    cases h with
    | none => rfl
    | some hb => exact congrArg some hb
  · rintro rfl
    cases o with
    | none => exact .none
    | some a => exact .some rfl

/-- Where each class is the image of one, so is each method that is found. -/
theorem findMethod_eq_map {s' : Store} {name : String} {C : ClassObject → ClassObject}
    {F : FunctionObject → FunctionObject} (hclass : ∀ id, s'.class? id = (s.class? id).map C)
    (hC : ∀ c, (C c).superclass = c.superclass ∧
      (C c).methods.get? name = (c.methods.get? name).map F) (id : ClassId) :
    s'.findMethod id name = (s.findMethod id name).map F := by
  refine rel_iff_eq_map.mp (findMethod_rel (R := fun c c' => c' = C c)
    (fun id => rel_iff_eq_map.mpr (hclass id)) ?_ id)
  rintro c _ rfl
  exact ⟨(hC c).1, rel_iff_eq_map.mpr (hC c).2⟩

/-- The methods that are found depend on the classes only. -/
theorem findMethod_of_class?_eq {s' : Store} (h : ∀ id, s'.class? id = s.class? id) (id : ClassId)
    (name : String) : s'.findMethod id name = s.findMethod id name := by
  have hclass (c : ClassId) : s'.class? c = (s.class? c).map fun o => o :=
    (h c).trans Option.map_id'.symm
  exact (findMethod_eq_map hclass (fun _ => ⟨rfl, Option.map_id'.symm⟩) id).trans Option.map_id'

/-- A method that is found is in scope. -/
theorem WellScoped.inScope_findMethod (h : s.WellScoped vs) {id : ClassId} {name : String}
    {f : FunctionObject} (hf : s.findMethod id name = some f) : f.MethodInScope vs s := by
  obtain ⟨id', c, hc, hm⟩ := exists_method_of_findMethod hf
  exact h.method hc hm

/-- A frame that binds one name is that of a scope in which this name alone may be read. -/
theorem isSome_get?_insert_of_readable (name : String) (value : Value) (other : String)
    (h : ((∅ : Scope).insert name true).get? other = some true) :
    (((∅ : Bindings Value).insert name value).get? other).isSome := by
  rw [Bindings.get?_insert] at h ⊢
  split at h
  · next hn => simp [hn]
  · cases h

/-- A method of an instance runs in a frame that binds `this`. -/
theorem inScope_bindMethod {f : FunctionObject} (hf : f.MethodInScope vs s)
    (receiver : InstanceId) :
    (s.bindMethod f receiver).1.InScope vs (s.bindMethod f receiver).2 := by
  obtain ⟨hg, scopes, hc, hv⟩ := hf
  have hb := isSome_get?_insert_of_readable "this" (.instance receiver)
  refine ⟨hg, ⟨_, hc.addFrame hb, hv⟩, fun _ => ?_⟩
  exact (hc.addFrame hb).1 "this" (Bindings.get?_insert_self _ _ _)

/-- The methods of a class, as they are declared in a frame. -/
theorem inScope_methodTable {closure : FrameId} {scopes : Scopes} (hc : s.Chain closure scopes)
    {methods : List (FunDecl NodeId)} (hg : FunDecl.GroundedAll methods)
    (hv : FunDecl.visitsAll ((∅ : Scope).insert "this" true :: scopes) methods ⊆ vs)
    {name : String} {f : FunctionObject} (hf : (methodTable closure methods).get? name = some f) :
    f.MethodInScope vs s := by
  obtain ⟨d, hd, he⟩ := List.mem_map.mp (Bindings.mem_of_get?_ofList hf)
  obtain ⟨-, rfl⟩ := Prod.mk.inj he
  clear hf he
  induction methods with
  | nil => cases hd
  | cons g methods ih =>
    rw [FunDecl.GroundedAll] at hg
    rw [FunDecl.visitsAll, List.append_subset] at hv
    rcases List.mem_cons.mp hd with rfl | hd
    · exact ⟨hg.1, scopes, hc, hv.1⟩
    · exact ih hg.2 hv.2 hd

end Store

/-! ## Steps of the evaluator -/

/-- What every piece of a run keeps: the store stays well-scoped and only grows, and the run is in
the same frame and at the same depth of calls again. -/
structure Machine.Keeps (vs : List Visit) (m m' : Machine) : Prop where
  wellScoped : m'.store.WellScoped vs
  grows : m.store.Grows m'.store
  environment : m'.environment = m.environment
  depth : m'.depth = m.depth

namespace Machine.Keeps

variable {m m' m'' : Machine}

theorem refl (h : m.store.WellScoped vs) : Keeps vs m m := ⟨h, .refl _, rfl, rfl⟩

theorem trans (h : Keeps vs m m') (h' : Keeps vs m' m'') : Keeps vs m m'' :=
  ⟨h'.wellScoped, h.grows.trans h'.grows, h'.environment.trans h.environment,
    h'.depth.trans h.depth⟩

/-- The frames of the current scopes stay so. -/
theorem chain (h : Keeps vs m m') {scopes : Scopes} (hc : m.store.Chain m.environment scopes) :
    m'.store.Chain m'.environment scopes :=
  h.environment ▸ hc.grow h.grows

theorem define (h : m.store.WellScoped vs) (name : String) (value : Value) :
    Keeps vs m (m.define name value) :=
  ⟨h.define _ _ _, .define _ _ _ _, rfl, rfl⟩

/-- After a name is bound in the current frame, it is bound there. -/
theorem own?_define_self {scopes : Scopes} (h : m.store.WellScoped vs)
    (hc : m.store.Chain m.environment scopes) (name : String) (value : Value) :
    ((m.define name value).store.own? (m.define name value).environment name).isSome := by
  have hf := hc.frame?_isSome h
  show ((m.store.define m.environment name value).own? m.environment name).isSome
  rw [Store.own?_define, if_pos ⟨rfl, rfl⟩]
  simpa using hf

theorem bound (h : m.store.WellScoped vs) {method : FunctionObject}
    (hm : method.MethodInScope vs m.store) (receiver : InstanceId) :
    ∃ value m', Lox.bound method receiver m = .done value m' ∧ Keeps vs m m' := by
  have hb := Store.inScope_bindMethod hm receiver
  refine ⟨_, _, rfl, (h.addFrame _).addFunction hb, ?_, rfl, rfl⟩
  exact (Store.Grows.addFrame _ _).trans (.addFunction _ _)

/-- A function is declared in the frames of the scopes in which its body was visited: by then its
own name is bound. -/
theorem declareFunction {scopes : Scopes} (h : m.store.WellScoped vs)
    (hc : m.store.Chain m.environment scopes) {declaration : FunDecl NodeId}
    (hg : declaration.Grounded)
    (hv : declaration.visits (scopes.bind declaration.name.text) ⊆ vs) :
    Keeps vs m (Lox.declareFunction declaration m) := by
  let id : FunctionId := ⟨m.store.functions.size⟩
  let f : FunctionObject := ⟨declaration, m.environment, false⟩
  let m₁ := m.define declaration.name.text (.function id)
  have hd := define h declaration.name.text (.function id)
  have hown := own?_define_self h hc declaration.name.text (.function id)
  have hf : f.InScope vs m₁.store :=
    ⟨hg, ⟨_, (hd.chain hc).bind hown, hv⟩, fun hi => by cases hi⟩
  -- binding the name and adding the function commute
  have hcomm : Lox.declareFunction declaration m =
      { m₁ with store := (m₁.store.addFunction f).2 } := rfl
  rw [hcomm]
  exact hd.trans ⟨hd.wellScoped.addFunction hf, .addFunction _ _, rfl, rfl⟩

/-- The methods of a class are declared in the frames of the scopes in which they were visited,
apart from the one that binds `this`. -/
theorem declareClass {scopes : Scopes} (h : m.store.WellScoped vs)
    (hc : m.store.Chain m.environment scopes) {name : Name} {superclass : Option ClassId}
    {methods : List (FunDecl NodeId)} (hg : FunDecl.GroundedAll methods)
    (hv : FunDecl.visitsAll (methodScopes (scopes.bind name.text) superclass.isSome) methods ⊆ vs) :
    Keeps vs m (Lox.declareClass name superclass methods m) := by
  have hd := define h name.text .nil
  have hc₁ := (hd.chain hc).bind (own?_define_self h hc name.text .nil)
  refine hd.trans ?_
  cases superclass with
  | none =>
    have hw := hd.wellScoped.addClass (c := ⟨name.text, none, methodTable _ methods⟩)
      fun _ _ hf => Store.inScope_methodTable hc₁ hg hv hf
    exact ⟨hw.define _ _ _, (Store.Grows.addClass _ _).trans (.define _ _ _ _), rfl, rfl⟩
  | some c =>
    have hc₂ := hc₁.addFrame (Store.isSome_get?_insert_of_readable "super" (.class c))
    have hw := (hd.wellScoped.addFrame _).addClass (c := ⟨name.text, some c, methodTable _ methods⟩)
      fun _ _ hf => Store.inScope_methodTable hc₂ hg hv hf
    refine ⟨hw.define _ _ _, ?_, rfl, rfl⟩
    exact ((Store.Grows.addFrame _ _).trans (.addClass _ _)).trans (.define _ _ _ _)

/-- The name of a class is bound once the class is declared. -/
theorem own?_declareClass {scopes : Scopes} (h : m.store.WellScoped vs)
    (hc : m.store.Chain m.environment scopes) (name : Name) (superclass : Option ClassId)
    (methods : List (FunDecl NodeId)) :
    ((Lox.declareClass name superclass methods m).store.own? m.environment name.text).isSome := by
  have hd := define h name.text .nil
  have hown := own?_define_self h hc name.text .nil
  cases superclass with
  | none => exact (Store.Grows.define _ _ _ _).own ((Store.Grows.addClass _ _).own hown)
  | some c =>
    refine (Store.Grows.define _ _ _ _).own ((Store.Grows.addClass _ _).own ?_)
    exact (Store.Grows.addFrame _ _).own hown

theorem own?_declareFunction {scopes : Scopes} (h : m.store.WellScoped vs)
    (hc : m.store.Chain m.environment scopes) (declaration : FunDecl NodeId) :
    ((Lox.declareFunction declaration m).store.own? m.environment
      declaration.name.text).isSome := by
  have hown := own?_define_self h hc declaration.name.text (.function ⟨m.store.functions.size⟩)
  exact (Store.Grows.addFunction _ ⟨declaration, m.environment, false⟩).own hown

end Machine.Keeps

end

end Lox
