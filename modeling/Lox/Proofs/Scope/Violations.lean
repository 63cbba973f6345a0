import Lox.Proofs.Scope.Addresses

/-!
# The static rules

Which rules a program breaks can be said without the walk. A `Spot` is a construct
with all that the tree puts around it, from the inside out: scopes with the names
declared before, functions and methods, classes, and initializers of variables. It
breaks a rule or it does not (`Spot.violation?`), and that depends on the innermost
scope, the innermost function and the innermost class alone. `Stmt.spots` reads the
spots off the tree, in the order of the walk.

* `Reflects`: what the walk remembers at a place is what is around it there;
* `Stmt.errors_resolve`: so the walk reports the spots that break a rule;
* `resolver_reports_violations`: the errors of a source are these, each at the name or keyword of
  its spot.
-/

namespace Lox

/-! ## Spots -/

/-- A construct that a rule is about. -/
inductive Construct where
  | declaration (name : Name)
  | «variable» (name : Name)
  | «return» (keyword : Name) (hasValue : Bool)
  | this (keyword : Name)
  | super (keyword : Name)
  | superclass (name superclass : Name)

/-- What a tree puts around a construct: a scope with the names that it has declared before, the
initializer of a variable, the body of a function or of a method, or a class. -/
inductive Surrounding where
  | scope (declared : List String)
  | initializer (name : String)
  | function
  | method (name : String)
  | «class» (hasSuperclass : Bool)
  deriving DecidableEq

namespace Surrounding

/-- The names of a scope. -/
def declared? : Surrounding → Option (List String)
  | .scope declared => some declared
  | _ => none

/-- Whether this is the body of a function or of a method. -/
def isBody : Surrounding → Bool
  | .function | .method _ => true
  | _ => false

/-- Whether this is a class, and if so, whether it has a superclass. -/
def hasSuperclass? : Surrounding → Option Bool
  | .class hasSuperclass => some hasSuperclass
  | _ => none

/-- The surroundings inside of the innermost scope. -/
def inScope (around : List Surrounding) : List Surrounding :=
  around.takeWhile fun x => x.declared? = none

end Surrounding

/-- A construct and its surroundings. -/
structure Spot where
  construct : Construct
  /-- What the tree puts around the construct, the innermost first. -/
  around : List Surrounding
  /-- The names that the tree declares before the construct, in the scope in which the tree stands. -/
  own : List String

namespace Spot

/-- The names declared before in the innermost scope. The global scope is free. -/
def declared (t : Spot) : List String := (t.around.filterMap Surrounding.declared?).headD []

/-- The innermost function or method. -/
def body? (t : Spot) : Option Surrounding := t.around.find? Surrounding.isBody

/-- Whether the innermost class has a superclass, if there is a class. -/
def hasSuperclass? (t : Spot) : Option Bool := t.around.findSome? Surrounding.hasSuperclass?

/-- The rule that the construct breaks where it stands. -/
def violation? (t : Spot) : Option ScopeError :=
  match t.construct with
  | .declaration name => if name.text ∈ t.declared then some ⟨.alreadyDeclared, name⟩ else none
  | .variable name =>
    if .initializer name.text ∈ Surrounding.inScope t.around then some ⟨.readInOwnInitializer, name⟩ else none
  | .return keyword hasValue =>
    match t.body? with
    | none => some ⟨.returnOutsideFunction, keyword⟩
    | some body =>
      if hasValue ∧ body = .method initializerName then some ⟨.valueFromInitializer, keyword⟩
      else none
  | .this keyword =>
    match t.hasSuperclass? with
    | none => some ⟨.thisOutsideClass, keyword⟩
    | some _ => none
  | .super keyword =>
    match t.hasSuperclass? with
    | none => some ⟨.superOutsideClass, keyword⟩
    | some false => some ⟨.superWithoutSuperclass, keyword⟩
    | some true => none
  | .superclass name superclass =>
    if superclass.text = name.text then some ⟨.inheritsFromItself, superclass⟩ else none

/-! ### Building spots -/

/-- A construct with nothing around it. -/
def bare (c : Construct) : Spot := ⟨c, [], []⟩

/-- The spot in a tree that puts a scope around it. The scope begins with these names. -/
def enclose (names : List String) (t : Spot) : Spot :=
  ⟨t.construct, t.around ++ [.scope (names ++ t.own)], []⟩

/-- The spot after a declaration of these names. -/
def after (names : List String) (t : Spot) : Spot := ⟨t.construct, t.around, names ++ t.own⟩

/-- The spot inside of something that is no scope. -/
def inside (x : Surrounding) (t : Spot) : Spot := ⟨t.construct, t.around ++ [x], t.own⟩

/-- The spot of a method in its class: in the scope that holds `this`, around which a subclass
has a scope that holds `super`. -/
def inMethods (hasSuperclass : Bool) (t : Spot) : Spot :=
  if hasSuperclass then (t.enclose ["this"]).enclose ["super"] else t.enclose ["this"]

/-- The declarations of parameters in turn. -/
def params : List Name → List Spot
  | [] => []
  | p :: ps => bare (.declaration p) :: (params ps).map (after [p.text])

end Spot

mutual

/-- The constructs of an expression. The value of an assignment comes before its target, and the
value of a property before its object. -/
def Expr.constructs : Expr NodeId → List Construct
  | .literal _ => []
  | .group inner => inner.constructs
  | .unary _ right => right.constructs
  | .binary left _ right => left.constructs ++ right.constructs
  | .logical left _ right => left.constructs ++ right.constructs
  | .variable _ name => [.variable name]
  | .assign _ _ value => value.constructs
  | .call callee _ arguments => callee.constructs ++ Expr.constructsAll arguments
  | .get object _ => object.constructs
  | .set object _ value => value.constructs ++ object.constructs
  | .this _ keyword => [.this keyword]
  | .super _ keyword _ => [.super keyword]

/-- The constructs of several expressions. -/
def Expr.constructsAll : List (Expr NodeId) → List Construct
  | [] => []
  | e :: es => e.constructs ++ Expr.constructsAll es

end

/-- The constructs of an expression, if there is one. -/
def Expr.constructs? : Option (Expr NodeId) → List Construct
  | none => []
  | some e => e.constructs

/-- The constructs of a superclass: it is named, and it is read. -/
def Expr.heritage (name : Name) : Option (Expr NodeId) → List Construct
  | none => []
  | some (.variable _ superclass) => [.superclass name superclass, .variable superclass]
  | some e => e.constructs

mutual

/-- The spots of a statement. -/
def Stmt.spots : Stmt NodeId → List Spot
  | .expression e => e.constructs.map Spot.bare
  | .print e => e.constructs.map Spot.bare
  | .var name initializer =>
    Spot.bare (.declaration name) ::
      (((Expr.constructs? initializer).map Spot.bare).map
        (Spot.inside (.initializer name.text))).map (Spot.after [name.text])
  | .block body => (Stmt.spotsAll body).map (Spot.enclose [])
  | .ifElse condition thenBranch elseBranch =>
    condition.constructs.map Spot.bare ++ thenBranch.spots ++ Stmt.spots? elseBranch
  | .while condition body => condition.constructs.map Spot.bare ++ body.spots
  | .function declaration =>
    Spot.bare (.declaration declaration.name) ::
      (declaration.spots.map (Spot.inside .function)).map (Spot.after [declaration.name.text])
  | .return keyword value =>
    Spot.bare (.return keyword value.isSome) :: (Expr.constructs? value).map Spot.bare
  | .class name superclass methods =>
    Spot.bare (.declaration name) ::
      (((Expr.heritage name superclass).map Spot.bare ++
        (FunDecl.methodSpots methods).map (Spot.inMethods superclass.isSome)).map
          (Spot.inside (.class superclass.isSome))).map (Spot.after [name.text])

/-- The spots of a statement, if there is one. -/
def Stmt.spots? : Option (Stmt NodeId) → List Spot
  | none => []
  | some s => s.spots

/-- The spots of several statements in one scope. -/
def Stmt.spotsAll : List (Stmt NodeId) → List Spot
  | [] => []
  | s :: ss => s.spots ++ (Stmt.spotsAll ss).map (Spot.after s.declares)

/-- The spots of a function. Its parameters and its body share one scope. -/
def FunDecl.spots : FunDecl NodeId → List Spot
  | .mk _ params body =>
    (Spot.params params ++
      (Stmt.spotsAll body).map (Spot.after (params.map Name.text))).map (Spot.enclose [])

/-- The spots of the methods of a class. -/
def FunDecl.methodSpots : List (FunDecl NodeId) → List Spot
  | [] => []
  | f :: fs => f.spots.map (Spot.inside (.method f.name.text)) ++ FunDecl.methodSpots fs

end

/-! ## Surroundings from the outside in -/

namespace Surrounding

/-- Surroundings with more names declared in the innermost scope. -/
def addNames : List Surrounding → List String → List Surrounding
  | [], _ => []
  | .scope declared :: outer, names => .scope (declared ++ names) :: outer
  | x :: outer, names => x :: addNames outer names

@[simp] theorem addNames_nil (around : List Surrounding) : addNames around [] = around := by
  induction around with
  | nil => rfl
  | cons x outer ih => cases x <;> simp [addNames, ih]

theorem addNames_append (around : List Surrounding) (names names' : List String) :
    addNames around (names ++ names') = addNames (addNames around names) names' := by
  induction around with
  | nil => rfl
  | cons x outer ih => cases x <;> simp [addNames, ih]

theorem addNames_cons {x : Surrounding} (hx : x.declared? = none) (outer : List Surrounding)
    (names : List String) : addNames (x :: outer) names = x :: addNames outer names := by
  cases x <;> first | rfl | cases hx

/-- More names in a scope change nothing else. -/
theorem findSome?_addNames {α : Type} {f : Surrounding → Option α}
    (hf : ∀ names, f (.scope names) = none) (around : List Surrounding) (names : List String) :
    (addNames around names).findSome? f = around.findSome? f := by
  induction around with
  | nil => rfl
  | cons x outer ih => cases x <;> simp [addNames, List.findSome?_cons, hf, ih]

theorem find?_addNames {p : Surrounding → Bool} (hp : ∀ names, p (.scope names) = false)
    (around : List Surrounding) (names : List String) :
    (addNames around names).find? p = around.find? p := by
  induction around with
  | nil => rfl
  | cons x outer ih => cases x <;> simp [addNames, List.find?_cons, hp, ih]

theorem inScope_addNames (around : List Surrounding) (names : List String) :
    inScope (addNames around names) = inScope around := by
  induction around with
  | nil => rfl
  | cons x outer ih =>
    cases x with
    | scope => rfl
    | _ => exact congrArg (List.cons _) ih

theorem filterMap_addNames (around : List Surrounding) (names : List String) :
    (addNames around names).filterMap declared? =
      Lox.addNames (around.filterMap declared?) names := by
  induction around with
  | nil => rfl
  | cons x outer ih =>
    cases x with
    | scope => rfl
    | _ => exact ih

/-- What is around the methods of a class, inside of the class. -/
def inMethods (hasSuperclass : Bool) (around : List Surrounding) : List Surrounding :=
  .scope ["this"] :: if hasSuperclass then .scope ["super"] :: around else around

/-- Being inside of a body or a class does not put an initializer into a scope. -/
theorem mem_inScope_cons {x : Surrounding} (hx : x.declared? = none)
    (hn : ∀ name, x ≠ .initializer name) {around : List Surrounding} {name : String} :
    .initializer name ∈ inScope (x :: around) ↔ .initializer name ∈ inScope around := by
  have hcons : inScope (x :: around) = x :: inScope around :=
    List.takeWhile_cons_of_pos (decide_eq_true hx)
  rw [hcons, List.mem_cons]
  exact or_iff_right (hn name).symm

end Surrounding

/-- The rule that a construct breaks in these surroundings, if it breaks one. -/
def Construct.violations (around : List Surrounding) (c : Construct) : List ScopeError :=
  (Spot.violation? ⟨c, around, []⟩).toList

namespace Spot

/-- The spot of a tree that stands in these surroundings. -/
def within (around : List Surrounding) (t : Spot) : Spot :=
  ⟨t.construct, t.around ++ Surrounding.addNames around t.own, []⟩

theorem within_bare (around : List Surrounding) (c : Construct) :
    (bare c).within around = ⟨c, around, []⟩ := by
  simp [within, bare]

theorem within_after (around : List Surrounding) (names : List String) (t : Spot) :
    (t.after names).within around = t.within (Surrounding.addNames around names) := by
  rw [within, within, after, Surrounding.addNames_append]

theorem within_enclose (around : List Surrounding) (names : List String) (t : Spot) :
    (t.enclose names).within around = t.within (.scope names :: around) := by
  simp [within, enclose, Surrounding.addNames]

theorem within_inside {x : Surrounding} (hx : x.declared? = none) (around : List Surrounding)
    (t : Spot) : (t.inside x).within around = t.within (x :: around) := by
  simp [within, inside, Surrounding.addNames_cons hx]

/-- The rules that spots break when their tree stands in these surroundings. -/
def violations (around : List Surrounding) (ts : List Spot) : List ScopeError :=
  ts.filterMap fun t => (t.within around).violation?

section

variable (around : List Surrounding)

@[simp] theorem violations_nil : violations around [] = [] := rfl

@[simp] theorem violations_append (ts us : List Spot) :
    violations around (ts ++ us) = violations around ts ++ violations around us :=
  List.filterMap_append

@[simp] theorem violations_cons_bare (c : Construct) (ts : List Spot) :
    violations around (bare c :: ts) = c.violations around ++ violations around ts := by
  rw [violations, List.filterMap_cons, within_bare, Construct.violations]
  cases violation? ⟨c, around, []⟩ <;> rfl

@[simp] theorem violations_after (names : List String) (ts : List Spot) :
    violations around (ts.map (after names)) =
      violations (Surrounding.addNames around names) ts := by
  simp [violations, List.filterMap_map, within_after]

@[simp] theorem violations_enclose (names : List String) (ts : List Spot) :
    violations around (ts.map (enclose names)) = violations (.scope names :: around) ts := by
  simp [violations, List.filterMap_map, within_enclose]

theorem violations_inMethods (hasSuperclass : Bool) (ts : List Spot) :
    violations around (ts.map (inMethods hasSuperclass)) =
      violations (Surrounding.inMethods hasSuperclass around) ts := by
  cases hasSuperclass <;>
    simp [violations, List.filterMap_map, inMethods, Surrounding.inMethods, within_enclose]

theorem violations_inside {x : Surrounding} (hx : x.declared? = none) (ts : List Spot) :
    violations around (ts.map (inside x)) = violations (x :: around) ts := by
  simp [violations, List.filterMap_map, within_inside hx]

end

end Spot

/-! ## The walk and the surroundings -/

/-- The kind of the innermost function. -/
def FunctionContext.ofBody? : Option Surrounding → FunctionContext
  | .none => .none
  | .some (.method name) => if name = initializerName then .initializer else .method
  | .some _ => .function

/-- The kind of the innermost class. -/
def ClassContext.ofSuperclass? : Option Bool → ClassContext
  | .none => .none
  | .some false => .class
  | .some true => .subclass

/-- What the walk remembers at a place is what the tree puts around it. -/
structure Reflects (context : Context) (scopes : Scopes) (around : List Surrounding) : Prop where
  declares : scopes.Declare (around.filterMap Surrounding.declared?)
  initializing (name : String) : inOwnInitializer context scopes name = true ↔
    .initializer name ∈ Surrounding.inScope around
  inFunction : context.inFunction = .ofBody? (around.find? Surrounding.isBody)
  inClass : context.inClass = .ofSuperclass? (around.findSome? Surrounding.hasSuperclass?)

/-- The same at a place that is not inside of an initializer, as all statements are. -/
structure Stands (context : Context) (scopes : Scopes) (around : List Surrounding) : Prop
    extends Reflects context scopes around where
  quiet (name : String) : inOwnInitializer context scopes name = false

namespace Stands

variable {context : Context} {scopes : Scopes} {around : List Surrounding}

theorem top : Stands .top [] [] where
  declares := .nil
  initializing name := by simp [inOwnInitializer, Context.top, Surrounding.inScope]
  inFunction := rfl
  inClass := rfl
  quiet _ := rfl

/-- A new scope, in which names are declared already. -/
theorem push (h : Stands context scopes around) {inner : Scope} {names : List String}
    (hd : Scopes.Declare (inner :: scopes) (names :: around.filterMap Surrounding.declared?))
    (hq : ∀ name, inner.get? name ≠ some false) :
    Stands context (inner :: scopes) (.scope names :: around) where
  declares := hd
  initializing name := by simp [inOwnInitializer, hq, Surrounding.inScope, Surrounding.declared?]
  inFunction := h.inFunction
  inClass := h.inClass
  quiet name := by simp [inOwnInitializer, hq]

theorem block (h : Stands context scopes around) :
    Stands context (∅ :: scopes) (.scope [] :: around) :=
  h.push h.declares.push fun _ h => by cases h

theorem bindNew (h : Stands context scopes around) (name : String) :
    Stands context ((∅ : Scope).insert name true :: scopes) (.scope [name] :: around) := by
  refine h.push (h.declares.bindNew name) fun other => ?_
  rw [Bindings.get?_insert]
  split <;> simp

theorem inMethods (h : Stands context scopes around) (hasSuperclass : Bool) :
    Stands context (methodScopes scopes hasSuperclass)
      (Surrounding.inMethods hasSuperclass around) := by
  cases hasSuperclass with
  | false => exact h.bindNew "this"
  | true => exact (h.bindNew "super").bindNew "this"

theorem bind (h : Stands context scopes around) (name : String) :
    Stands context (scopes.bind name) (Surrounding.addNames around [name]) := by
  have hq (other : String) : inOwnInitializer context (scopes.bind name) other = false := by
    cases scopes with
    | nil => exact h.quiet other
    | cons inner outer =>
      have hinner := h.quiet other
      simp only [inOwnInitializer, decide_eq_false_iff_not] at hinner
      simp only [Scopes.bind, Scopes.declare, Scopes.define, inOwnInitializer, Bindings.get?_insert]
      split <;> simp [hinner]
  refine ⟨⟨?_, fun other => ?_, ?_, ?_⟩, hq⟩
  · rw [Surrounding.filterMap_addNames]
    exact h.declares.bind name
  · rw [Surrounding.inScope_addNames, ← h.initializing, hq, h.quiet]
  · rw [Surrounding.find?_addNames fun _ => rfl]
    exact h.inFunction
  · rw [Surrounding.findSome?_addNames fun _ => rfl]
    exact h.inClass

theorem bindAll (h : Stands context scopes around) (names : List String) :
    Stands context (scopes.bindAll names) (Surrounding.addNames around names) := by
  induction names generalizing scopes around with
  | nil => simpa using h
  | cons name names ih =>
    rw [Scopes.bindAll_cons, ← List.singleton_append, Surrounding.addNames_append]
    exact ih (h.bind name)

/-- Inside of a function or method. -/
theorem body (h : Stands context scopes around) {x : Surrounding} (hx : x.isBody = true) :
    Stands { context with inFunction := .ofBody? (some x) } scopes (x :: around) := by
  cases x with
  | function | method =>
    exact ⟨⟨h.declares, fun name => (h.initializing name).trans
      (Surrounding.mem_inScope_cons rfl (by simp)).symm, rfl, h.inClass⟩, h.quiet⟩
  | _ => cases hx

/-- Inside of a class. -/
theorem «class» (h : Stands context scopes around) (hasSuperclass : Bool) :
    Stands { context with inClass := if hasSuperclass then .subclass else .class } scopes
      (.class hasSuperclass :: around) := by
  refine ⟨⟨h.declares, fun name => (h.initializing name).trans
    (Surrounding.mem_inScope_cons rfl (by simp)).symm, h.inFunction, ?_⟩, h.quiet⟩
  cases hasSuperclass <;> rfl

/-- Inside of the initializer of a variable. -/
theorem initializer (h : Stands context scopes around) (name : String) :
    Reflects
      (if scopes.isEmpty then { context with initializing := some name } else context)
      (scopes.declare name)
      (.initializer name :: Surrounding.addNames around [name]) := by
  have hfree (other : String) : .initializer other ∉ Surrounding.inScope around := by
    rw [← h.initializing, h.quiet]
    exact Bool.false_ne_true
  refine ⟨?_, fun other => ?_, ?_, ?_⟩
  · have hscopes := h.declares.declare name
    rwa [← Surrounding.filterMap_addNames] at hscopes
  · have hmem : .initializer other ∈
        Surrounding.inScope (.initializer name :: Surrounding.addNames around [name]) ↔
          name = other := by
      have hcons : Surrounding.inScope (.initializer name :: Surrounding.addNames around [name]) =
          .initializer name :: Surrounding.inScope around :=
        congrArg _ (Surrounding.inScope_addNames _ _)
      rw [hcons, List.mem_cons, or_iff_left (hfree other)]
      exact ⟨fun h => (Surrounding.initializer.inj h).symm, fun h => h ▸ rfl⟩
    rw [hmem]
    cases scopes with
    | nil => simp [inOwnInitializer, Scopes.declare]
    | cons inner outer =>
      have hinner := h.quiet other
      simp only [inOwnInitializer, decide_eq_false_iff_not] at hinner
      simp only [Scopes.declare, inOwnInitializer, Bindings.get?_insert]
      split <;> simp [*]
  · have hf : (Surrounding.addNames around [name]).find? Surrounding.isBody =
        around.find? Surrounding.isBody := Surrounding.find?_addNames (fun _ => rfl) _ _
    rw [List.find?_cons_of_neg (by simp [Surrounding.isBody]), hf, ← h.inFunction]
    split <;> rfl
  · have hc : (Surrounding.addNames around [name]).findSome? Surrounding.hasSuperclass? =
        around.findSome? Surrounding.hasSuperclass? := Surrounding.findSome?_addNames (fun _ => rfl) _ _
    rw [List.findSome?_cons_of_isNone rfl, hc, ← h.inClass]
    split <;> rfl

end Stands

/-! ## The errors of the walk -/

/-- The error that a finding reports. -/
def Finding.error? : Finding → Option ScopeError
  | .distance _ _ => none
  | .error e => some e

/-- The errors that findings report. -/
def Finding.errors (findings : List Finding) : List ScopeError := findings.filterMap Finding.error?

@[simp] theorem Finding.errors_nil : Finding.errors [] = [] := rfl

@[simp] theorem Finding.errors_append (fs fs' : List Finding) :
    Finding.errors (fs ++ fs') = Finding.errors fs ++ Finding.errors fs' :=
  List.filterMap_append

theorem Resolution.errors_ofFindings (findings : List Finding) :
    (Resolution.ofFindings findings).errors = Finding.errors findings := by
  unfold Resolution.ofFindings Finding.errors
  congr 1

@[simp] theorem errors_distanceFindings (scopes : Scopes) (id : NodeId) (name : Name) :
    Finding.errors (distanceFindings scopes id name) = [] := by
  unfold distanceFindings
  split <;> rfl

section

variable {context : Context} {scopes : Scopes} {around : List Surrounding}

theorem Reflects.errors_declaration (h : Reflects context scopes around) (name : Name) :
    Finding.errors (declarationFindings scopes name) =
      (Construct.declaration name).violations around := by
  have hd := h.declares
  rw [Construct.violations, Spot.violation?, Spot.declared]
  unfold declarationFindings
  generalize around.filterMap Surrounding.declared? = layers at hd
  cases scopes with
  | nil =>
    cases layers with
    | nil => rfl
    | cons => cases hd
  | cons inner outer =>
    cases layers with
    | nil => cases hd
    | cons names rest =>
      have hnames : inner.contains name.text = names.contains name.text :=
        congrFun (List.cons.inj hd).1 name.text
      by_cases hn : name.text ∈ names <;>
        simp [hnames, hn, Finding.errors, Finding.error?]

theorem Reflects.errors_variable (h : Reflects context scopes around) (name : Name) :
    Finding.errors (if inOwnInitializer context scopes name.text then
      [.error ⟨.readInOwnInitializer, name⟩] else []) =
        (Construct.variable name).violations around := by
  rw [Construct.violations, Spot.violation?]
  simp only [h.initializing]
  split <;> rfl

theorem Reflects.errors_return (h : Reflects context scopes around) (keyword : Name)
    (hasValue : Bool) :
    Finding.errors (returnFindings context keyword hasValue) =
      (Construct.return keyword hasValue).violations around := by
  rw [Construct.violations, Spot.violation?, returnFindings, h.inFunction, Spot.body?]
  cases around.find? Surrounding.isBody with
  | none => cases hasValue <;> rfl
  | some body =>
    cases body with
    | method name =>
      by_cases hn : name = initializerName <;> cases hasValue <;>
        simp [FunctionContext.ofBody?, hn, Finding.errors, Finding.error?]
    | _ => cases hasValue <;> rfl

theorem Reflects.errors_this (h : Reflects context scopes around) (id : NodeId) (keyword : Name) :
    Finding.errors (Expr.resolve context scopes (.this id keyword)) =
      (Construct.this keyword).violations around := by
  rw [Construct.violations, Spot.violation?, Spot.hasSuperclass?, Expr.resolve, h.inClass]
  rcases around.findSome? Surrounding.hasSuperclass? with _ | _ | _
  · rfl
  · exact errors_distanceFindings scopes id keyword
  · exact errors_distanceFindings scopes id keyword

theorem Reflects.errors_super (h : Reflects context scopes around) (id : NodeId)
    (keyword method : Name) :
    Finding.errors (Expr.resolve context scopes (.super id keyword method)) =
      (Construct.super keyword).violations around := by
  rw [Construct.violations, Spot.violation?, Spot.hasSuperclass?, Expr.resolve, h.inClass,
    Finding.errors_append, errors_distanceFindings, List.append_nil]
  rcases around.findSome? Surrounding.hasSuperclass? with _ | _ | _ <;> rfl

theorem errors_superclassFindings (around : List Surrounding) (id : NodeId)
    (name superclass : Name) :
    Finding.errors (superclassFindings name (.variable id superclass)) =
      (Construct.superclass name superclass).violations around := by
  rw [Construct.violations, Spot.violation?, superclassFindings]
  by_cases hs : superclass.text = name.text <;> simp [hs, Finding.errors, Finding.error?]

mutual

/-- The walk reports of an expression the constructs that break a rule. -/
theorem Expr.errors_resolve (h : Reflects context scopes around) : (e : Expr NodeId) →
    Finding.errors (e.resolve context scopes) =
      Spot.violations around (e.constructs.map Spot.bare)
  | .literal _ => rfl
  | .group inner => by
    simpa only [Expr.resolve, Expr.constructs] using inner.errors_resolve h
  | .unary _ right => by
    simpa only [Expr.resolve, Expr.constructs] using right.errors_resolve h
  | .binary left _ right | .logical left _ right => by
    simp [Expr.resolve, Expr.constructs, left.errors_resolve h, right.errors_resolve h]
  | .variable id name => by
    simp [Expr.resolve, Expr.constructs, h.errors_variable]
  | .assign id name value => by
    simp [Expr.resolve, Expr.constructs, value.errors_resolve h]
  | .call callee _ arguments => by
    simp [Expr.resolve, Expr.constructs, callee.errors_resolve h, Expr.errors_resolveAll h arguments]
  | .get object _ => by
    simpa only [Expr.resolve, Expr.constructs] using object.errors_resolve h
  | .set object _ value => by
    simp [Expr.resolve, Expr.constructs, object.errors_resolve h, value.errors_resolve h]
  | .this id keyword => by
    simp [Expr.constructs, h.errors_this]
  | .super id keyword method => by
    simp [Expr.constructs, h.errors_super]

theorem Expr.errors_resolveAll (h : Reflects context scopes around) : (es : List (Expr NodeId)) →
    Finding.errors (Expr.resolveAll context scopes es) =
      Spot.violations around ((Expr.constructsAll es).map Spot.bare)
  | [] => rfl
  | e :: es => by
    simp [Expr.resolveAll, Expr.constructsAll, e.errors_resolve h, Expr.errors_resolveAll h es]

end

theorem Expr.errors_resolve? (h : Reflects context scopes around) : (o : Option (Expr NodeId)) →
    Finding.errors (Expr.resolve? context scopes o) =
      Spot.violations around ((Expr.constructs? o).map Spot.bare)
  | none => rfl
  | some e => e.errors_resolve h

/-- A superclass is checked and then read. -/
theorem Expr.errors_heritage (h : Reflects context scopes around) (name : Name) (e : Expr NodeId) :
    Finding.errors (superclassFindings name e ++ e.resolve context scopes) =
      Spot.violations around ((Expr.heritage name (some e)).map Spot.bare) := by
  rw [Finding.errors_append, e.errors_resolve h]
  cases e with
  | «variable» id superclass =>
    rw [errors_superclassFindings around]
    exact (Spot.violations_cons_bare around _ _).symm
  | _ => rfl

theorem errors_resolveParams (h : Stands context scopes around) (ps : List Name) :
    Finding.errors (resolveParams scopes ps).2 = Spot.violations around (Spot.params ps) := by
  induction ps generalizing scopes around with
  | nil => rfl
  | cons p ps ih =>
    rw [resolveParams_cons, Finding.errors_append, ih (h.bind p.text), h.errors_declaration,
      Spot.params, Spot.violations_cons_bare, Spot.violations_after]

end

mutual

/-- The walk reports of a statement the spots that break a rule. -/
theorem Stmt.errors_resolve {context : Context} {scopes : Scopes} {around : List Surrounding}
    (h : Stands context scopes around) : {s : Stmt NodeId} → s.WellFormed →
      Finding.errors (s.resolve context scopes).2 = Spot.violations around s.spots
  | .expression e, _ => by
    rw [Stmt.resolve, Stmt.spots, e.errors_resolve h.toReflects]
  | .print e, _ => by
    rw [Stmt.resolve, Stmt.spots, e.errors_resolve h.toReflects]
  | .var name initializer, _ => by
    simp only [Stmt.resolve, Stmt.spots, Finding.errors_append, h.errors_declaration,
      Expr.errors_resolve? (h.initializer name.text)]
    rw [Spot.violations_cons_bare, Spot.violations_after, Spot.violations_inside _ rfl]
  | .block body, hw => by
    simp only [Stmt.resolve, Stmt.spots, Stmt.errors_resolveAll h.block hw,
      Spot.violations_enclose]
  | .ifElse condition thenBranch elseBranch, ⟨_, ⟨hd, ht⟩, he⟩ => by
    simp only [Stmt.resolve_ifElse, Stmt.spots, Finding.errors_append, Spot.violations_append,
      condition.errors_resolve h.toReflects, Stmt.errors_resolve h ht, Stmt.fst_resolve ht, hd,
      Scopes.bindAll_nil, Stmt.errors_resolve? h he]
  | .while condition body, ⟨_, _, hb⟩ => by
    simp only [Stmt.resolve_while, Stmt.spots, Finding.errors_append, Spot.violations_append,
      condition.errors_resolve h.toReflects, Stmt.errors_resolve h hb]
  | .function declaration, hw => by
    have hbody := (h.bind declaration.name.text).body (x := .function) rfl
    simp only [Stmt.resolve, Stmt.spots, Finding.errors_append, h.errors_declaration]
    rw [Spot.violations_cons_bare, Spot.violations_after, Spot.violations_inside _ rfl]
    exact congrArg _ (FunDecl.errors_resolve hbody hw)
  | .return keyword value, _ => by
    simp only [Stmt.resolve, Stmt.spots, Finding.errors_append, h.errors_return,
      Expr.errors_resolve? h.toReflects]
    rw [Spot.violations_cons_bare]
  | .class name superclass methods, ⟨_, _, hm⟩ => by
    have hclass := (h.bind name.text).class superclass.isSome
    have hmethods := FunDecl.errors_resolveMethods (hclass.inMethods superclass.isSome) hm
    simp only [Stmt.resolve, Stmt.spots, Finding.errors_append, h.errors_declaration]
    rw [Spot.violations_cons_bare, Spot.violations_after, Spot.violations_inside _ rfl,
      Spot.violations_append, Spot.violations_inMethods, List.append_assoc]
    refine congrArg _ (congrArg₂ _ ?_ hmethods)
    cases superclass with
    | none => rfl
    | some e => exact Expr.errors_heritage hclass.toReflects name e

theorem Stmt.errors_resolve? {context : Context} {scopes : Scopes} {around : List Surrounding}
    (h : Stands context scopes around) : {o : Option (Stmt NodeId)} → Stmt.WellFormed? o →
      Finding.errors (Stmt.resolve? context scopes o).2 = Spot.violations around (Stmt.spots? o)
  | none, _ => by simp only [Stmt.resolve?, Stmt.spots?]; rfl
  | some _, hw => by simp only [Stmt.resolve?, Stmt.spots?, Stmt.errors_resolve h hw.2]

theorem Stmt.errors_resolveAll {context : Context} {scopes : Scopes} {around : List Surrounding}
    (h : Stands context scopes around) : {ss : List (Stmt NodeId)} → Stmt.WellFormedAll ss →
      Finding.errors (Stmt.resolveAll context scopes ss).2 =
        Spot.violations around (Stmt.spotsAll ss)
  | [], _ => by simp only [Stmt.resolveAll, Stmt.spotsAll]; rfl
  | s :: _, ⟨hs, hss⟩ => by
    simp only [Stmt.resolveAll_cons, Stmt.spotsAll, Finding.errors_append, Spot.violations_append,
      Stmt.errors_resolve h hs, Stmt.fst_resolve hs, Stmt.errors_resolveAll (h.bindAll s.declares) hss,
      Spot.violations_after]

theorem FunDecl.errors_resolve {context : Context} {scopes : Scopes} {around : List Surrounding}
    (h : Stands context scopes around) : {f : FunDecl NodeId} → f.WellFormed →
      Finding.errors (f.resolve context scopes) = Spot.violations around f.spots
  | .mk _ params _, ⟨_, _, hb⟩ => by
    have hbody := h.block.bindAll (params.map Name.text)
    simp only [FunDecl.resolve_mk, FunDecl.spots, Finding.errors_append, fst_resolveParams,
      errors_resolveParams h.block, Stmt.errors_resolveAll hbody hb, Spot.violations_enclose,
      Spot.violations_append, Spot.violations_after]

theorem FunDecl.errors_resolveMethods {context : Context} {scopes : Scopes}
    {around : List Surrounding} (h : Stands context scopes around) :
    {fs : List (FunDecl NodeId)} → FunDecl.WellFormedAll fs →
      Finding.errors (FunDecl.resolveMethods context scopes fs) =
        Spot.violations around (FunDecl.methodSpots fs)
  | [], _ => by simp only [FunDecl.resolveMethods, FunDecl.methodSpots]; rfl
  | f :: _, ⟨hf, hfs⟩ => by
    have hbody := h.body (x := .method f.name.text) rfl
    have hcontext : methodContext context f =
        { context with inFunction := .ofBody? (some (.method f.name.text)) } := by
      simp [methodContext, FunctionContext.ofBody?, FunDecl.isInitializer]
    rw [FunDecl.resolveMethods, FunDecl.methodSpots, Finding.errors_append, Spot.violations_append,
      Spot.violations_inside _ rfl, hcontext, FunDecl.errors_resolve hbody hf,
      FunDecl.errors_resolveMethods h hfs]

end

/-- The resolver reports exactly the spots of a program that break a rule, in its order. -/
theorem errors_resolve_eq_violations {program : List (Stmt NodeId)}
    (hw : Stmt.WellFormedAll program) :
    (resolve program).errors = (Stmt.spotsAll program).filterMap Spot.violation? := by
  rw [resolve, Resolution.errors_ofFindings, Stmt.errors_resolveAll .top hw, Spot.violations]
  refine List.filterMap_congr fun t _ => ?_
  rw [Spot.within, Surrounding.addNames, List.append_nil]
  rfl

/-- The resolver reports exactly the static violations of a source, which is the parsed program with
numbers: for each spot that breaks a rule, in the order of the walk, the rule with the name or keyword
of the spot, whose line and text make the diagnostic, and nothing else. -/
theorem resolver_reports_violations (nextId : NodeId) (mode : CommentMode) (source : String) :
    let items := scan mode source
    let a := Analysis.ofParsed nextId (errorsOf items) (parse (tokensOf items))
    let violations := (Stmt.spotsAll a.program).filterMap Spot.violation?
    Labeling (parse (tokensOf items)).statements nextId a.nextId a.program ∧
      a.resolution.errors = violations ∧
      a.scopeDiagnostics = violations.map fun e =>
        .scoping e.found.line (.lexeme e.found.text) e.fault.message := by
  intro items a violations
  have hw : Stmt.WellFormedAll a.program := Analysis.wellFormedAll_ofParsed nextId mode source
  have he : a.resolution.errors = violations := errors_resolve_eq_violations hw
  exact ⟨labeling_numberAll _ nextId, he, congrArg (List.map ScopeError.toDiagnostic) he⟩

end Lox
