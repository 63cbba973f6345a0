import Lox.Proofs.Session.Analysis
import Lox.Proofs.Syntax.Labeling

/-!
# Lexical addresses

A `Site` is a node that names a binding, as it lies in a tree: the scopes that
the tree opens around it, each with the names that it has declared before the
node is reached. `Stmt.sites` reads the sites off the tree, from the inside out
and without a walk: a block, a function and a class put a scope around the sites
of their parts (`Site.enclose`), and a declaration comes before the sites that
follow it in its scope (`Site.after`).

* `Stmt.visitedIn`: for each site there is a visit of the walk whose scopes
  declare the names that the site lists;
* `distance_eq_address`: the distance recorded for a node is its lexical
  address, the index of the innermost scope that has declared its name.
-/

namespace Lox

/-! ## Sites -/

/-- A node that names a binding, and the names declared around it. -/
structure Site where
  reference : Reference
  /-- The names of each scope that the tree opens around the node, the innermost scope first. -/
  opened : List (List String)
  /-- The names that the tree declares before the node, in the scope in which the tree stands. -/
  own : List String

namespace Site

/-- The site in a tree that puts a scope around it. The scope begins with these names. -/
def enclose (names : List String) (t : Site) : Site :=
  ⟨t.reference, t.opened ++ [names ++ t.own], []⟩

/-- The site after a declaration of these names. -/
def after (names : List String) (t : Site) : Site := ⟨t.reference, t.opened, names ++ t.own⟩

/-- The index of the innermost scope that has declared the name. The global scope does not count. -/
def address? (t : Site) : Option Nat :=
  t.opened.findIdx? fun names => names.contains t.reference.name.text

/-- The sites of references around which nothing is declared. -/
def bare (rs : List Reference) : List Site := rs.map fun r => ⟨r, [], []⟩

/-- The site of a method in its class: in the scope that holds `this`, around which a subclass
has a scope that holds `super`. -/
def inMethods (hasSuperclass : Bool) (t : Site) : Site :=
  if hasSuperclass then (t.enclose ["this"]).enclose ["super"] else t.enclose ["this"]

end Site

mutual

/-- The sites of a statement. -/
def Stmt.sites : Stmt NodeId → List Site
  | .expression e => Site.bare e.references
  | .print e => Site.bare e.references
  | .var name initializer =>
    (Site.bare (Expr.references? initializer)).map (Site.after [name.text])
  | .block body => (Stmt.sitesAll body).map (Site.enclose [])
  | .ifElse condition thenBranch elseBranch =>
    Site.bare condition.references ++ thenBranch.sites ++ Stmt.sites? elseBranch
  | .while condition body => Site.bare condition.references ++ body.sites
  | .function declaration => declaration.sites.map (Site.after [declaration.name.text])
  | .return _ value => Site.bare (Expr.references? value)
  | .class name superclass methods =>
    (Site.bare (Expr.references? superclass) ++
      (FunDecl.sitesAll methods).map (Site.inMethods superclass.isSome)).map
      (Site.after [name.text])

/-- The sites of a statement, if there is one. -/
def Stmt.sites? : Option (Stmt NodeId) → List Site
  | none => []
  | some s => s.sites

/-- The sites of several statements in one scope. -/
def Stmt.sitesAll : List (Stmt NodeId) → List Site
  | [] => []
  | s :: ss => s.sites ++ (Stmt.sitesAll ss).map (Site.after s.declares)

/-- The sites of a function. Its parameters and its body share one scope. -/
def FunDecl.sites : FunDecl NodeId → List Site
  | .mk _ params body => (Stmt.sitesAll body).map (Site.enclose (params.map Name.text))

/-- The sites of several functions. -/
def FunDecl.sitesAll : List (FunDecl NodeId) → List Site
  | [] => []
  | f :: fs => f.sites ++ FunDecl.sitesAll fs

end

/-! ## Every reference has its site -/

@[simp] theorem Site.reference_enclose (names : List String) :
    Site.reference ∘ Site.enclose names = Site.reference := rfl

@[simp] theorem Site.reference_after (names : List String) :
    Site.reference ∘ Site.after names = Site.reference := rfl

@[simp] theorem Site.reference_inMethods (hasSuperclass : Bool) :
    Site.reference ∘ Site.inMethods hasSuperclass = Site.reference := by
  cases hasSuperclass <;> rfl

@[simp] theorem Site.map_reference_bare (rs : List Reference) :
    (Site.bare rs).map Site.reference = rs := by
  simp [Site.bare, Function.comp_def]

mutual

theorem Stmt.map_reference_sites : (s : Stmt NodeId) → s.sites.map Site.reference = s.references
  | .expression _ => by simp [Stmt.sites, Stmt.references]
  | .print _ => by simp [Stmt.sites, Stmt.references]
  | .var _ _ => by simp [Stmt.sites, Stmt.references]
  | .block body => by simp [Stmt.sites, Stmt.references, Stmt.map_reference_sitesAll body]
  | .ifElse _ thenBranch elseBranch => by
    simp [Stmt.sites, Stmt.references, thenBranch.map_reference_sites,
      Stmt.map_reference_sites? elseBranch]
  | .while _ body => by simp [Stmt.sites, Stmt.references, body.map_reference_sites]
  | .function declaration => by
    simp [Stmt.sites, Stmt.references, declaration.map_reference_sites]
  | .return _ _ => by simp [Stmt.sites, Stmt.references]
  | .class _ _ methods => by
    simp [Stmt.sites, Stmt.references, ← Function.comp_assoc,
      FunDecl.map_reference_sitesAll methods]

theorem Stmt.map_reference_sites? : (o : Option (Stmt NodeId)) →
    (Stmt.sites? o).map Site.reference = Stmt.references? o
  | none => by simp [Stmt.sites?, Stmt.references?]
  | some s => by simp [Stmt.sites?, Stmt.references?, s.map_reference_sites]

theorem Stmt.map_reference_sitesAll : (ss : List (Stmt NodeId)) →
    (Stmt.sitesAll ss).map Site.reference = Stmt.referencesAll ss
  | [] => by simp [Stmt.sitesAll, Stmt.referencesAll]
  | s :: ss => by
    simp [Stmt.sitesAll, Stmt.referencesAll, s.map_reference_sites, Stmt.map_reference_sitesAll ss]

theorem FunDecl.map_reference_sites : (f : FunDecl NodeId) →
    f.sites.map Site.reference = f.references
  | .mk _ _ body => by
    simp [FunDecl.sites, FunDecl.references, Stmt.map_reference_sitesAll body]

theorem FunDecl.map_reference_sitesAll : (fs : List (FunDecl NodeId)) →
    (FunDecl.sitesAll fs).map Site.reference = FunDecl.referencesAll fs
  | [] => by simp [FunDecl.sitesAll, FunDecl.referencesAll]
  | f :: fs => by
    simp [FunDecl.sitesAll, FunDecl.referencesAll, f.map_reference_sites,
      FunDecl.map_reference_sitesAll fs]

end

/-! ## Layers of names and scopes -/

/-- The names of the scopes around a place, with more names in the innermost one. -/
def addNames (layers : List (List String)) (names : List String) : List (List String) :=
  match layers with
  | [] => []
  | inner :: outer => (inner ++ names) :: outer

@[simp] theorem addNames_nil (layers : List (List String)) : addNames layers [] = layers := by
  cases layers <;> simp [addNames]

theorem addNames_append (layers : List (List String)) (names names' : List String) :
    addNames layers (names ++ names') = addNames (addNames layers names) names' := by
  cases layers <;> simp [addNames]

/-- The names around a site whose tree stands in these scopes. -/
def Site.layers (t : Site) (around : List (List String)) : List (List String) :=
  t.opened ++ addNames around t.own

theorem Site.layers_after (t : Site) (names : List String) (around : List (List String)) :
    (t.after names).layers around = t.layers (addNames around names) := by
  rw [layers, layers, after, addNames_append]

theorem Site.layers_enclose (t : Site) (names : List String) (around : List (List String)) :
    (t.enclose names).layers around = t.layers (names :: around) := by
  rw [layers, layers, enclose, addNames_nil, List.append_assoc]
  rfl

/-- The scopes declare the names of the layers. -/
def Scopes.Declare (scopes : Scopes) (layers : List (List String)) : Prop :=
  (scopes.map fun scope name => scope.contains name) =
    layers.map fun names name => names.contains name

namespace Scopes.Declare

variable {scopes : Scopes} {layers : List (List String)}

theorem nil : Declare [] [] := rfl

theorem push (h : scopes.Declare layers) : Declare (∅ :: scopes) ([] :: layers) := by
  unfold Declare at h ⊢
  rw [List.map_cons, List.map_cons, h]
  congr 1

theorem bindNew (h : scopes.Declare layers) (name : String) :
    Declare ((∅ : Scope).insert name true :: scopes) ([name] :: layers) := by
  unfold Declare at h ⊢
  rw [List.map_cons, List.map_cons, h]
  congr 1
  funext other
  rw [Bindings.contains_insert, Bindings.contains_empty]
  simp [eq_comm]

/-- Binding a name in the innermost scope, in whichever state, adds it to the innermost layer. -/
theorem insert {inner : Scope} {outer : Scopes} {names : List String}
    {rest : List (List String)} (h : Declare (inner :: outer) (names :: rest)) (name : String)
    (readable : Bool) :
    Declare (inner.insert name readable :: outer) ((names ++ [name]) :: rest) := by
  unfold Declare at h ⊢
  rw [List.map_cons, List.map_cons] at h ⊢
  injection h with hi ho
  rw [ho]
  congr 1
  funext other
  have : inner.contains other = names.contains other := congrFun hi other
  rw [Bindings.contains_insert, this]
  simp [List.contains_eq_mem, eq_comm, Bool.or_comm]

theorem declare (h : scopes.Declare layers) (name : String) :
    (scopes.declare name).Declare (addNames layers [name]) := by
  cases scopes with
  | nil =>
    cases layers with
    | nil => exact h
    | cons => cases h
  | cons inner outer =>
    cases layers with
    | nil => cases h
    | cons names rest => exact insert h name false

theorem contains_twice (b : Scope) (name other : String) :
    ((b.insert name false).insert name true).contains other =
      (b.insert name false).contains other := by
  simp only [Bindings.contains_insert]
  cases decide (name = other) <;> rfl

theorem bind (h : scopes.Declare layers) (name : String) :
    (scopes.bind name).Declare (addNames layers [name]) := by
  have hd := h.declare name
  cases scopes with
  | nil => exact hd
  | cons inner outer =>
    refine Eq.trans ?_ hd
    show (_ :: _) = (_ :: _)
    congr 1
    funext other
    exact contains_twice inner name other

theorem bindAll (h : scopes.Declare layers) (names : List String) :
    (scopes.bindAll names).Declare (addNames layers names) := by
  induction names generalizing scopes layers with
  | nil => simpa using h
  | cons name names ih =>
    rw [bindAll_cons, ← List.singleton_append, addNames_append]
    exact ih (h.bind name)

theorem distance?_eq (h : scopes.Declare layers) (name : String) :
    scopes.distance? name = layers.findIdx? fun names => names.contains name := by
  have e := congrArg (List.findIdx? fun p : String → Bool => p name) h
  rwa [List.findIdx?_map, List.findIdx?_map] at e

end Scopes.Declare

/-! ## Sites and visits -/

/-- The walk visits the site, and the scopes there declare the names around it. -/
def Site.VisitedIn (t : Site) (layers : List (List String)) (vs : List Visit) : Prop :=
  ∃ v ∈ vs, v.reference = t.reference ∧ v.scopes.Declare (t.layers layers)

theorem Site.VisitedIn.mono {t : Site} {layers : List (List String)} {vs ws : List Visit}
    (h : t.VisitedIn layers vs) (hs : vs ⊆ ws) : t.VisitedIn layers ws :=
  h.imp fun _ hv => ⟨hs hv.1, hv.2⟩

theorem Site.VisitedIn.after {t : Site} {layers : List (List String)} {vs : List Visit}
    {names : List String} (h : t.VisitedIn (addNames layers names) vs) :
    (t.after names).VisitedIn layers vs := by
  obtain ⟨v, hv, hr, hd⟩ := h
  exact ⟨v, hv, hr, by rwa [Site.layers_after]⟩

theorem Site.VisitedIn.enclose {t : Site} {layers : List (List String)} {vs : List Visit}
    {names : List String} (h : t.VisitedIn (names :: layers) vs) :
    (t.enclose names).VisitedIn layers vs := by
  obtain ⟨v, hv, hr, hd⟩ := h
  exact ⟨v, hv, hr, by rwa [Site.layers_enclose]⟩

/-- A reference of an expression is visited in the scopes around the expression. -/
theorem Site.visitedIn_bare {scopes : Scopes} {layers : List (List String)}
    (hd : scopes.Declare layers) {e : Expr NodeId} {t : Site} (ht : t ∈ Site.bare e.references) :
    t.VisitedIn layers (e.visits scopes) := by
  obtain ⟨r, hr, rfl⟩ := List.mem_map.mp ht
  refine ⟨⟨r, scopes⟩, Expr.mem_visits_iff.mpr ⟨hr, rfl⟩, rfl, ?_⟩
  rwa [Site.layers, addNames_nil]

theorem Site.visitedIn_bare? {scopes : Scopes} {layers : List (List String)}
    (hd : scopes.Declare layers) {o : Option (Expr NodeId)} {t : Site}
    (ht : t ∈ Site.bare (Expr.references? o)) : t.VisitedIn layers (Expr.visits? scopes o) := by
  cases o with
  | none => cases ht
  | some e => exact visitedIn_bare hd ht

/-- The scopes of the methods of a class hold `this` and, around it, `super`. -/
theorem Site.VisitedIn.inMethods {scopes : Scopes} {layers : List (List String)} {t : Site}
    {hasSuperclass : Bool} {methods : List (FunDecl NodeId)} (hd : scopes.Declare layers)
    (h : ∀ {σ : Scopes} {L : List (List String)}, σ.Declare L →
      t.VisitedIn L (FunDecl.visitsAll σ methods)) :
    (t.inMethods hasSuperclass).VisitedIn layers
      (FunDecl.visitsAll (methodScopes scopes hasSuperclass) methods) := by
  cases hasSuperclass with
  | false => exact (h (hd.bindNew "this")).enclose
  | true => exact (h ((hd.bindNew "super").bindNew "this")).enclose.enclose

mutual

/-- The walk visits every site, and there the scopes declare the names around it. -/
theorem Stmt.visitedIn {scopes : Scopes} {layers : List (List String)}
    (hd : scopes.Declare layers) {t : Site} :
    {s : Stmt NodeId} → s.WellFormed → t ∈ s.sites → t.VisitedIn layers (s.visits scopes)
  | .expression _, _, ht => by
    rw [Stmt.sites] at ht
    rw [Stmt.visits]
    exact Site.visitedIn_bare hd ht
  | .print _, _, ht => by
    rw [Stmt.sites] at ht
    rw [Stmt.visits]
    exact Site.visitedIn_bare hd ht
  | .var name _, _, ht => by
    rw [Stmt.sites] at ht
    rw [Stmt.visits]
    obtain ⟨u, hu, rfl⟩ := List.mem_map.mp ht
    exact (Site.visitedIn_bare? (hd.declare name.text) hu).after
  | .block _, h, ht => by
    rw [Stmt.sites] at ht
    rw [Stmt.visits]
    obtain ⟨u, hu, rfl⟩ := List.mem_map.mp ht
    exact (Stmt.visitedIn_all hd.push h hu).enclose
  | .ifElse _ _ _, ⟨_, ⟨_, hthen⟩, helse⟩, ht => by
    rw [Stmt.sites] at ht
    rw [Stmt.visits]
    rcases List.mem_append.mp ht with ht | ht
    · refine Site.VisitedIn.mono ?_ (List.subset_append_left _ _)
      rcases List.mem_append.mp ht with ht | ht
      · exact (Site.visitedIn_bare hd ht).mono (List.subset_append_left _ _)
      · exact (Stmt.visitedIn hd hthen ht).mono (List.subset_append_right _ _)
    · exact (Stmt.visitedIn? hd helse ht).mono (List.subset_append_right _ _)
  | .while _ _, ⟨_, _, hb⟩, ht => by
    rw [Stmt.sites] at ht
    rw [Stmt.visits]
    rcases List.mem_append.mp ht with ht | ht
    · exact (Site.visitedIn_bare hd ht).mono (List.subset_append_left _ _)
    · exact (Stmt.visitedIn hd hb ht).mono (List.subset_append_right _ _)
  | .function declaration, h, ht => by
    rw [Stmt.sites] at ht
    rw [Stmt.visits]
    obtain ⟨u, hu, rfl⟩ := List.mem_map.mp ht
    exact (FunDecl.visitedIn (hd.bind declaration.name.text) h hu).after
  | .return _ _, _, ht => by
    rw [Stmt.sites] at ht
    rw [Stmt.visits]
    exact Site.visitedIn_bare? hd ht
  | .class name superclass methods, ⟨_, _, hm⟩, ht => by
    rw [Stmt.sites] at ht
    rw [Stmt.visits]
    obtain ⟨u, hu, rfl⟩ := List.mem_map.mp ht
    refine Site.VisitedIn.after ?_
    have hd' := hd.bind name.text
    rcases List.mem_append.mp hu with hu | hu
    · exact (Site.visitedIn_bare? hd' hu).mono (List.subset_append_left _ _)
    · obtain ⟨w, hw, rfl⟩ := List.mem_map.mp hu
      exact (Site.VisitedIn.inMethods hd' fun h => FunDecl.visitedIn_all h hm hw).mono
        (List.subset_append_right _ _)

theorem Stmt.visitedIn? {scopes : Scopes} {layers : List (List String)}
    (hd : scopes.Declare layers) {t : Site} :
    {o : Option (Stmt NodeId)} → Stmt.WellFormed? o → t ∈ Stmt.sites? o →
      t.VisitedIn layers (Stmt.visits? scopes o)
  | none, _, ht => by simp [Stmt.sites?] at ht
  | some _, h, ht => by
    rw [Stmt.sites?] at ht
    rw [Stmt.visits?]
    exact Stmt.visitedIn hd h.2 ht

theorem Stmt.visitedIn_all {scopes : Scopes} {layers : List (List String)}
    (hd : scopes.Declare layers) {t : Site} :
    {ss : List (Stmt NodeId)} → Stmt.WellFormedAll ss → t ∈ Stmt.sitesAll ss →
      t.VisitedIn layers (Stmt.visitsAll scopes ss)
  | [], _, ht => by simp [Stmt.sitesAll] at ht
  | s :: _, ⟨hs, hss⟩, ht => by
    rw [Stmt.sitesAll] at ht
    rw [Stmt.visitsAll]
    rcases List.mem_append.mp ht with ht | ht
    · exact (Stmt.visitedIn hd hs ht).mono (List.subset_append_left _ _)
    · obtain ⟨u, hu, rfl⟩ := List.mem_map.mp ht
      exact (Stmt.visitedIn_all (hd.bindAll s.declares) hss hu).after.mono
        (List.subset_append_right _ _)

theorem FunDecl.visitedIn {scopes : Scopes} {layers : List (List String)}
    (hd : scopes.Declare layers) {t : Site} :
    {f : FunDecl NodeId} → f.WellFormed → t ∈ f.sites → t.VisitedIn layers (f.visits scopes)
  | .mk _ params _, ⟨_, _, hb⟩, ht => by
    rw [FunDecl.sites] at ht
    rw [FunDecl.visits]
    obtain ⟨u, hu, rfl⟩ := List.mem_map.mp ht
    exact (Stmt.visitedIn_all (hd.push.bindAll (params.map Name.text)) hb hu).enclose

theorem FunDecl.visitedIn_all {scopes : Scopes} {layers : List (List String)}
    (hd : scopes.Declare layers) {t : Site} :
    {fs : List (FunDecl NodeId)} → FunDecl.WellFormedAll fs → t ∈ FunDecl.sitesAll fs →
      t.VisitedIn layers (FunDecl.visitsAll scopes fs)
  | [], _, ht => by simp [FunDecl.sitesAll] at ht
  | _ :: _, ⟨hf, hfs⟩, ht => by
    rw [FunDecl.sitesAll] at ht
    rw [FunDecl.visitsAll]
    rcases List.mem_append.mp ht with ht | ht
    · exact (FunDecl.visitedIn hd hf ht).mono (List.subset_append_left _ _)
    · exact (FunDecl.visitedIn_all hd hfs ht).mono (List.subset_append_right _ _)

end

/-! ## Programs -/

/-- The distance recorded for a node of a numbered program is its lexical address. -/
theorem get?_distances_eq_address? {program : List (Stmt NodeId)}
    (hw : Stmt.WellFormedAll program)
    (hn : (Reference.ids (Stmt.referencesAll program)).Nodup) {t : Site}
    (ht : t ∈ Stmt.sitesAll program) :
    (DistanceTable.empty.merge (resolve program).distances).get? t.reference.id = t.address? := by
  have hnil : Scopes.Declare [] [] := .nil
  obtain ⟨v, hv, hr, hd⟩ := Stmt.visitedIn_all hnil hw ht
  have hids : (Visit.ids (Stmt.visitsAll [] program)).Nodup :=
    (ids_visitsAll_perm [] program).nodup_iff.mpr hn
  rw [distances_resolve hw, ← hr,
    DistanceTable.get?_merge_of_mem hids hv (DistanceTable.get?_empty_eq_none _), Visit.distance?,
    hd.distance?_eq, hr]
  simp [Site.layers, Site.address?, addNames]

/-- The walk of a source records for every node that names a binding its lexical address: the
index of the innermost scope around the node that has declared its name, and nothing if there is
none. What is walked is the parsed program with a number for every such node: each node has its
site, and no two have the same number. -/
theorem distance_eq_address (nextId : NodeId) (mode : CommentMode) (source : String) :
    let items := scan mode source
    let a := Analysis.ofParsed nextId (errorsOf items) (parse (tokensOf items))
    let table := DistanceTable.empty.merge a.resolution.distances
    Labeling (parse (tokensOf items)).statements nextId a.nextId a.program ∧
      (Stmt.sitesAll a.program).map Site.reference = Stmt.referencesAll a.program ∧
      ((Stmt.referencesAll a.program).map Reference.id).Nodup ∧
      ∀ t ∈ Stmt.sitesAll a.program, table.get? t.reference.id = t.address? := by
  intro items a table
  have hl : Labeling (parse (tokensOf items)).statements nextId a.nextId a.program :=
    labeling_numberAll _ nextId
  have hw : Stmt.WellFormedAll a.program := Analysis.wellFormedAll_ofParsed nextId mode source
  exact ⟨hl, Stmt.map_reference_sitesAll _, hl.nodup,
    fun t ht => get?_distances_eq_address? hw hl.nodup ht⟩

end Lox
