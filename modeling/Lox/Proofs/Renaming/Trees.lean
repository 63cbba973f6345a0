import Lox.Proofs.Renaming.Programs
import Lox.Proofs.Syntax.Labeling

/-!
# Respelled trees

In a renamed program some names are spelled in the new way, and all else is the
same: `Stmt.RespellsAll` says so of two trees, and forgets which names these are.
This is all that is needed to find the source of a renamed program.

* `Stmt.RespellsAll.references`: a respelled program has the same references;
* `Stmt.RenamesAll.respellsAll`: a renamed program is a respelled one;
* `Stmt.RespellsAll.recodeAll`: respelled trees stay so with other labels and
  lines;
* `Stmt.exists_numberAll`: a respelled numbered tree is a respelled tree,
  numbered.
-/

namespace Lox

/-- A name, or its new spelling if it is the old name. -/
inductive Name.Respells (ρ : Renaming) : Name → Name → Prop
  | same (n : Name) : Respells ρ n n
  | renamed {n : Name} (h : n.text = ρ.old) : Respells ρ n ⟨ρ.new, n.line⟩

section

variable (ρ : Renaming) {ι : Type}

mutual

/-- The second expression is the first one with some names in their new spelling. -/
inductive Expr.Respells : Expr ι → Expr ι → Prop
  | literal (value : Literal) : Expr.Respells (.literal value) (.literal value)
  | group {inner inner' : Expr ι} (h : Expr.Respells inner inner') :
    Expr.Respells (.group inner) (.group inner')
  | unary (operator : Token) {right right' : Expr ι} (h : Expr.Respells right right') :
    Expr.Respells (.unary operator right) (.unary operator right')
  | binary (operator : Token) {left left' right right' : Expr ι} (hl : Expr.Respells left left')
    (hr : Expr.Respells right right') :
    Expr.Respells (.binary left operator right) (.binary left' operator right')
  | logical (operator : Token) {left left' right right' : Expr ι} (hl : Expr.Respells left left')
    (hr : Expr.Respells right right') :
    Expr.Respells (.logical left operator right) (.logical left' operator right')
  | variable (label : ι) {name name' : Name} (hn : name.Respells ρ name') :
    Expr.Respells (.variable label name) (.variable label name')
  | assign (label : ι) {name name' : Name} {value value' : Expr ι} (hn : name.Respells ρ name')
    (hv : Expr.Respells value value') :
    Expr.Respells (.assign label name value) (.assign label name' value')
  | call (line : Nat) {callee callee' : Expr ι} {arguments arguments' : List (Expr ι)}
    (hc : Expr.Respells callee callee') (ha : Expr.RespellsAll arguments arguments') :
    Expr.Respells (.call callee line arguments) (.call callee' line arguments')
  | get (name : Name) {object object' : Expr ι} (ho : Expr.Respells object object') :
    Expr.Respells (.get object name) (.get object' name)
  | set (name : Name) {object object' value value' : Expr ι} (ho : Expr.Respells object object')
    (hv : Expr.Respells value value') :
    Expr.Respells (.set object name value) (.set object' name value')
  | this (label : ι) (keyword : Name) :
    Expr.Respells (.this label keyword) (.this label keyword)
  | super (label : ι) (keyword method : Name) :
    Expr.Respells (.super label keyword method) (.super label keyword method)

/-- The same for several expressions. -/
inductive Expr.RespellsAll : List (Expr ι) → List (Expr ι) → Prop
  | nil : Expr.RespellsAll [] []
  | cons {e e' : Expr ι} {es es' : List (Expr ι)} (he : Expr.Respells e e')
    (hes : Expr.RespellsAll es es') : Expr.RespellsAll (e :: es) (e' :: es')

end

mutual

/-- The second statement is the first one with some names in their new spelling. -/
inductive Stmt.Respells : Stmt ι → Stmt ι → Prop
  | expression {e e' : Expr ι} (he : e.Respells ρ e') :
    Stmt.Respells (.expression e) (.expression e')
  | print {e e' : Expr ι} (he : e.Respells ρ e') : Stmt.Respells (.print e) (.print e')
  | var {name name' : Name} {initializer initializer' : Option (Expr ι)}
    (hn : name.Respells ρ name') (hi : Option.Rel (Expr.Respells ρ) initializer initializer') :
    Stmt.Respells (.var name initializer) (.var name' initializer')
  | block {body body' : List (Stmt ι)} (hb : Stmt.RespellsAll body body') :
    Stmt.Respells (.block body) (.block body')
  | ifThen {condition condition' : Expr ι} {branch branch' : Stmt ι}
    (hc : condition.Respells ρ condition') (hb : Stmt.Respells branch branch') :
    Stmt.Respells (.ifElse condition branch none) (.ifElse condition' branch' none)
  | ifElse {condition condition' : Expr ι} {branch branch' elseBranch elseBranch' : Stmt ι}
    (hc : condition.Respells ρ condition') (hb : Stmt.Respells branch branch')
    (he : Stmt.Respells elseBranch elseBranch') :
    Stmt.Respells (.ifElse condition branch (some elseBranch))
      (.ifElse condition' branch' (some elseBranch'))
  | «while» {condition condition' : Expr ι} {body body' : Stmt ι}
    (hc : condition.Respells ρ condition') (hb : Stmt.Respells body body') :
    Stmt.Respells (.while condition body) (.while condition' body')
  | function {f f' : FunDecl ι} (hf : FunDecl.Respells f f') :
    Stmt.Respells (.function f) (.function f')
  | «return» (keyword : Name) {value value' : Option (Expr ι)}
    (hv : Option.Rel (Expr.Respells ρ) value value') :
    Stmt.Respells (.return keyword value) (.return keyword value')
  | «class» (name : Name) {superclass superclass' : Option (Expr ι)}
    {methods methods' : List (FunDecl ι)}
    (hs : Option.Rel (Expr.Respells ρ) superclass superclass')
    (hm : FunDecl.RespellsAll methods methods') :
    Stmt.Respells (.class name superclass methods) (.class name superclass' methods')

/-- The same for several statements. -/
inductive Stmt.RespellsAll : List (Stmt ι) → List (Stmt ι) → Prop
  | nil : Stmt.RespellsAll [] []
  | cons {s s' : Stmt ι} {ss ss' : List (Stmt ι)} (hs : Stmt.Respells s s')
    (hss : Stmt.RespellsAll ss ss') : Stmt.RespellsAll (s :: ss) (s' :: ss')

/-- The same for a function. -/
inductive FunDecl.Respells : FunDecl ι → FunDecl ι → Prop
  | mk (name : Name) {params params' : List Name} {body body' : List (Stmt ι)}
    (hp : List.Forall₂ (Name.Respells ρ) params params') (hb : Stmt.RespellsAll body body') :
    FunDecl.Respells (.mk name params body) (.mk name params' body')

/-- The same for several functions. -/
inductive FunDecl.RespellsAll : List (FunDecl ι) → List (FunDecl ι) → Prop
  | nil : FunDecl.RespellsAll [] []
  | cons {f f' : FunDecl ι} {fs fs' : List (FunDecl ι)} (hf : FunDecl.Respells f f')
    (hfs : FunDecl.RespellsAll fs fs') : FunDecl.RespellsAll (f :: fs) (f' :: fs')

end

end

/-! ## References -/

/-- A reference, with its name in the same or in the new spelling. -/
structure Reference.Respells (ρ : Renaming) (r r' : Reference) : Prop where
  kind : r'.kind = r.kind
  id : r'.id = r.id
  name : r.name.Respells ρ r'.name

section

variable {ρ : Renaming}

theorem Reference.Respells.refl (r : Reference) : r.Respells ρ r := ⟨rfl, rfl, .same _⟩

mutual

/-- A respelled expression has the same references, but for the spelling of their names. -/
theorem Expr.Respells.references {e e' : Expr NodeId} :
    e.Respells ρ e' → List.Forall₂ (Reference.Respells ρ) e.references e'.references
  | .literal _ => by
    rw [Expr.references]
    exact .nil
  | .group h => by
    rw [Expr.references, Expr.references]
    exact h.references
  | .unary _ h => by
    rw [Expr.references, Expr.references]
    exact h.references
  | .binary _ hl hr => by
    rw [Expr.references, Expr.references]
    exact List.rel_append hl.references hr.references
  | .logical _ hl hr => by
    rw [Expr.references, Expr.references]
    exact List.rel_append hl.references hr.references
  | .variable _ hn => by
    rw [Expr.references, Expr.references]
    exact .cons ⟨rfl, rfl, hn⟩ .nil
  | .assign _ hn hv => by
    rw [Expr.references, Expr.references]
    exact .cons ⟨rfl, rfl, hn⟩ hv.references
  | .call _ hc ha => by
    rw [Expr.references, Expr.references]
    exact List.rel_append hc.references ha.references
  | .get _ ho => by
    rw [Expr.references, Expr.references]
    exact ho.references
  | .set _ ho hv => by
    rw [Expr.references, Expr.references]
    exact List.rel_append ho.references hv.references
  | .this _ _ => by
    rw [Expr.references]
    exact .cons (.refl _) .nil
  | .super _ _ _ => by
    rw [Expr.references]
    exact .cons (.refl _) .nil

theorem Expr.RespellsAll.references {es es' : List (Expr NodeId)} :
    Expr.RespellsAll ρ es es' →
      List.Forall₂ (Reference.Respells ρ) (Expr.referencesAll es) (Expr.referencesAll es')
  | .nil => by
    rw [Expr.referencesAll]
    exact .nil
  | .cons he hes => by
    rw [Expr.referencesAll, Expr.referencesAll]
    exact List.rel_append he.references hes.references

end

theorem Expr.references?_of_respells {o o' : Option (Expr NodeId)}
    (h : Option.Rel (Expr.Respells ρ) o o') :
    List.Forall₂ (Reference.Respells ρ) (Expr.references? o) (Expr.references? o') := by
  cases h with
  | none => exact .nil
  | some h => exact h.references

mutual

/-- A respelled statement has the same references, but for the spelling of their names. -/
theorem Stmt.Respells.references {s s' : Stmt NodeId} :
    s.Respells ρ s' → List.Forall₂ (Reference.Respells ρ) s.references s'.references
  | .expression he => by
    rw [Stmt.references, Stmt.references]
    exact he.references
  | .print he => by
    rw [Stmt.references, Stmt.references]
    exact he.references
  | .var _ hi => by
    rw [Stmt.references, Stmt.references]
    exact Expr.references?_of_respells hi
  | .block hb => by
    rw [Stmt.references, Stmt.references]
    exact hb.references
  | .ifThen hc hb => by
    rw [Stmt.references, Stmt.references, Stmt.references?]
    exact List.rel_append (List.rel_append hc.references hb.references) .nil
  | .ifElse hc hb he => by
    rw [Stmt.references, Stmt.references, Stmt.references?, Stmt.references?]
    exact List.rel_append (List.rel_append hc.references hb.references) he.references
  | .while hc hb => by
    rw [Stmt.references, Stmt.references]
    exact List.rel_append hc.references hb.references
  | .function hf => by
    rw [Stmt.references, Stmt.references]
    exact hf.references
  | .return _ hv => by
    rw [Stmt.references, Stmt.references]
    exact Expr.references?_of_respells hv
  | .class _ hs hm => by
    rw [Stmt.references, Stmt.references]
    exact List.rel_append (Expr.references?_of_respells hs) hm.references

theorem Stmt.RespellsAll.references {ss ss' : List (Stmt NodeId)} :
    Stmt.RespellsAll ρ ss ss' →
      List.Forall₂ (Reference.Respells ρ) (Stmt.referencesAll ss) (Stmt.referencesAll ss')
  | .nil => by
    rw [Stmt.referencesAll]
    exact .nil
  | .cons hs hss => by
    rw [Stmt.referencesAll, Stmt.referencesAll]
    exact List.rel_append hs.references hss.references

theorem FunDecl.Respells.references {f f' : FunDecl NodeId} :
    f.Respells ρ f' → List.Forall₂ (Reference.Respells ρ) f.references f'.references
  | .mk _ _ hb => by
    rw [FunDecl.references, FunDecl.references]
    exact hb.references

theorem FunDecl.RespellsAll.references {fs fs' : List (FunDecl NodeId)} :
    FunDecl.RespellsAll ρ fs fs' →
      List.Forall₂ (Reference.Respells ρ) (FunDecl.referencesAll fs) (FunDecl.referencesAll fs')
  | .nil => by
    rw [FunDecl.referencesAll]
    exact .nil
  | .cons hf hfs => by
    rw [FunDecl.referencesAll, FunDecl.referencesAll]
    exact List.rel_append hf.references hfs.references

end

end

/-! ## Renamed programs -/

section

variable {ρ : Renaming} {distance? : NodeId → Option Nat}

theorem Name.respells (renamed : Bool) {n : Name} (hn : n.text ≠ ρ.new) :
    n.Respells ρ (ρ.name renamed n) := by
  rcases ρ.swap_eq_or renamed hn with h | ⟨ho, h⟩
  · rw [ρ.name_eq_self h]
    exact .same n
  · rw [Renaming.name, h]
    exact .renamed ho

theorem Name.respells_params (renamed : Bool) {params : List Name}
    (hn : ρ.new ∉ params.map Name.text) :
    List.Forall₂ (Name.Respells ρ) params (params.map (ρ.name renamed)) := by
  rw [List.forall₂_map_right_iff, List.forall₂_same]
  intro p hp
  exact p.respells renamed fun he => hn (List.mem_map.mpr ⟨p, hp, he⟩)

mutual

theorem Expr.respells_rename (flags : List Bool) : {e : Expr NodeId} →
    (∀ r ∈ e.references, r.name.text ≠ ρ.new) → e.Respells ρ (e.rename ρ distance? flags)
  | .literal value, _ => by
    rw [Expr.rename]
    exact .literal value
  | .group inner, h => by
    rw [Expr.rename]
    exact .group (Expr.respells_rename flags h)
  | .unary operator _, h => by
    rw [Expr.rename]
    exact .unary operator (Expr.respells_rename flags h)
  | .binary left operator right, h => by
    rw [Expr.references, List.forall_mem_append] at h
    rw [Expr.rename]
    exact .binary operator (Expr.respells_rename flags h.1) (Expr.respells_rename flags h.2)
  | .logical left operator right, h => by
    rw [Expr.references, List.forall_mem_append] at h
    rw [Expr.rename]
    exact .logical operator (Expr.respells_rename flags h.1) (Expr.respells_rename flags h.2)
  | .variable id name, h => by
    rw [Expr.references, List.forall_mem_singleton] at h
    rw [Expr.rename]
    exact .variable id (Name.respells _ h)
  | .assign id name value, h => by
    rw [Expr.references, List.forall_mem_cons] at h
    rw [Expr.rename]
    exact .assign id (Name.respells _ h.1) (Expr.respells_rename flags h.2)
  | .call callee line arguments, h => by
    rw [Expr.references, List.forall_mem_append] at h
    rw [Expr.rename]
    exact .call line (Expr.respells_rename flags h.1) (Expr.respellsAll_rename flags h.2)
  | .get object name, h => by
    rw [Expr.rename]
    exact .get name (Expr.respells_rename flags h)
  | .set object name value, h => by
    rw [Expr.references, List.forall_mem_append] at h
    rw [Expr.rename]
    exact .set name (Expr.respells_rename flags h.1) (Expr.respells_rename flags h.2)
  | .this id keyword, _ => by
    rw [Expr.rename]
    exact .this id keyword
  | .super id keyword method, _ => by
    rw [Expr.rename]
    exact .super id keyword method

theorem Expr.respellsAll_rename (flags : List Bool) : {es : List (Expr NodeId)} →
    (∀ r ∈ Expr.referencesAll es, r.name.text ≠ ρ.new) →
      Expr.RespellsAll ρ es (Expr.renameAll ρ distance? flags es)
  | [], _ => by
    rw [Expr.renameAll]
    exact .nil
  | e :: es, h => by
    rw [Expr.referencesAll, List.forall_mem_append] at h
    rw [Expr.renameAll]
    exact .cons (Expr.respells_rename flags h.1) (Expr.respellsAll_rename flags h.2)

end

theorem Expr.ne_of_notMem_names {e : Expr NodeId} (h : ρ.new ∉ e.names) :
    ∀ r ∈ e.references, r.name.text ≠ ρ.new := by
  intro r hr he
  exact h (List.mem_map.mpr ⟨r, hr, he⟩)

theorem Expr.respells_rename? (flags : List Bool) {o : Option (Expr NodeId)}
    (h : ρ.new ∉ Expr.names? o) :
    Option.Rel (Expr.Respells ρ) o (o.map (Expr.rename ρ distance? flags)) := by
  cases o with
  | none => exact .none
  | some e => exact .some (Expr.respells_rename flags (Expr.ne_of_notMem_names h))

mutual

/-- A renamed statement is a respelled one, if the new name does not occur in it. -/
theorem Stmt.Renames.respells {flags : List Bool} {s s' : Stmt NodeId} :
    s.Renames ρ distance? flags s' → ρ.new ∉ s.names → s.Respells ρ s'
  | .expression e, hn => by
    rw [Stmt.names] at hn
    exact .expression (Expr.respells_rename flags (Expr.ne_of_notMem_names hn))
  | .print e, hn => by
    rw [Stmt.names] at hn
    exact .print (Expr.respells_rename flags (Expr.ne_of_notMem_names hn))
  | .var name initializer, hn => by
    rw [Stmt.names, List.mem_cons, not_or] at hn
    exact .var (name.respells _ (Ne.symm hn.1)) (Expr.respells_rename? flags hn.2)
  | .block renamed hb, hn => by
    rw [Stmt.names] at hn
    exact .block (hb.respellsAll hn)
  | .ifThen condition hb, hn => by
    rw [Stmt.names, List.mem_append, List.mem_append, not_or, not_or] at hn
    exact .ifThen (Expr.respells_rename flags (Expr.ne_of_notMem_names hn.1.1))
      (hb.respells hn.1.2)
  | .ifElse condition hb he, hn => by
    rw [Stmt.names, List.mem_append, List.mem_append, not_or, not_or, Stmt.names?] at hn
    exact .ifElse (Expr.respells_rename flags (Expr.ne_of_notMem_names hn.1.1))
      (hb.respells hn.1.2) (he.respells hn.2)
  | .while condition hb, hn => by
    rw [Stmt.names, List.mem_append, not_or] at hn
    exact .while (Expr.respells_rename flags (Expr.ne_of_notMem_names hn.1)) (hb.respells hn.2)
  | .function _ hf, hn => by
    rw [Stmt.names] at hn
    exact .function (hf.respells hn)
  | .return keyword value, hn => by
    rw [Stmt.names] at hn
    exact .return keyword (Expr.respells_rename? flags hn)
  | .class name superclass _ hm, hn => by
    rw [Stmt.names, List.mem_cons, List.mem_append, not_or, not_or] at hn
    exact .class name (Expr.respells_rename? flags hn.2.1) (hm.respellsAll hn.2.2)

theorem Stmt.RenamesAll.respellsAll {flags : List Bool} {ss ss' : List (Stmt NodeId)} :
    Stmt.RenamesAll ρ distance? flags ss ss' → ρ.new ∉ Stmt.namesAll ss →
      Stmt.RespellsAll ρ ss ss'
  | .nil, _ => .nil
  | .cons hs hss, hn => by
    rw [Stmt.namesAll, List.mem_append, not_or] at hn
    exact .cons (hs.respells hn.1) (hss.respellsAll hn.2)

theorem FunDecl.Renames.respells {flags : List Bool} {f f' : FunDecl NodeId} :
    f.Renames ρ distance? flags f' → ρ.new ∉ f.names → f.Respells ρ f'
  | .mk renamed name params hb, hn => by
    rw [FunDecl.names, List.mem_cons, List.mem_append, not_or, not_or] at hn
    exact .mk name (Name.respells_params renamed hn.2.1) (hb.respellsAll hn.2.2)

theorem FunDecl.RenamesAll.respellsAll {flags : List Bool} {fs fs' : List (FunDecl NodeId)} :
    FunDecl.RenamesAll ρ distance? flags fs fs' → ρ.new ∉ FunDecl.namesAll fs →
      FunDecl.RespellsAll ρ fs fs'
  | .nil, _ => .nil
  | .cons hf hfs, hn => by
    rw [FunDecl.namesAll, List.mem_append, not_or] at hn
    exact .cons (hf.respells hn.1) (hfs.respellsAll hn.2)

end

end

/-! ## Numbered trees -/

section

variable {ρ : Renaming} {ι κ : Type} (σ : Recoding ι κ)

theorem Name.Respells.relocate {n n' : Name} (ℓ : Nat → Nat) :
    n.Respells ρ n' → (n.relocate ℓ).Respells ρ (n'.relocate ℓ)
  | .same _ => .same _
  | .renamed h => .renamed h

theorem Name.respells_relocate {ns ns' : List Name} (ℓ : Nat → Nat)
    (h : List.Forall₂ (Name.Respells ρ) ns ns') :
    List.Forall₂ (Name.Respells ρ) (ns.map (Name.relocate ℓ)) (ns'.map (Name.relocate ℓ)) := by
  rw [List.forall₂_map_left_iff, List.forall₂_map_right_iff]
  exact h.imp fun _ _ hn => hn.relocate ℓ

mutual

/-- Respelled trees stay so with other labels and lines. -/
theorem Expr.Respells.recode {e e' : Expr ι} :
    e.Respells ρ e' → (e.recode σ).Respells ρ (e'.recode σ)
  | .literal value => .literal value
  | .group h => .group h.recode
  | .unary _ h => .unary _ h.recode
  | .binary _ hl hr => .binary _ hl.recode hr.recode
  | .logical _ hl hr => .logical _ hl.recode hr.recode
  | .variable _ hn => .variable _ (hn.relocate σ.line)
  | .assign _ hn hv => .assign _ (hn.relocate σ.line) hv.recode
  | .call _ hc ha => .call _ hc.recode ha.recodeAll
  | .get _ ho => .get _ ho.recode
  | .set _ ho hv => .set _ ho.recode hv.recode
  | .this _ _ => .this _ _
  | .super _ _ _ => .super _ _ _

theorem Expr.RespellsAll.recodeAll {es es' : List (Expr ι)} :
    Expr.RespellsAll ρ es es' → Expr.RespellsAll ρ (Expr.recodeAll σ es) (Expr.recodeAll σ es')
  | .nil => .nil
  | .cons he hes => .cons he.recode hes.recodeAll

end

theorem Expr.respells_map_recode {o o' : Option (Expr ι)} (h : Option.Rel (Expr.Respells ρ) o o') :
    Option.Rel (Expr.Respells ρ) (o.map (Expr.recode σ)) (o'.map (Expr.recode σ)) := by
  cases h with
  | none => exact .none
  | some h => exact .some (h.recode σ)

mutual

theorem Stmt.Respells.recode {s s' : Stmt ι} :
    s.Respells ρ s' → (s.recode σ).Respells ρ (s'.recode σ)
  | .expression he => .expression (he.recode σ)
  | .print he => .print (he.recode σ)
  | .var hn hi => .var (hn.relocate σ.line) (Expr.respells_map_recode σ hi)
  | .block hb => .block hb.recodeAll
  | .ifThen hc hb => .ifThen (hc.recode σ) hb.recode
  | .ifElse hc hb he => .ifElse (hc.recode σ) hb.recode he.recode
  | .while hc hb => .while (hc.recode σ) hb.recode
  | .function hf => .function hf.recode
  | .return _ hv => .return _ (Expr.respells_map_recode σ hv)
  | .class _ hs hm => .class _ (Expr.respells_map_recode σ hs) hm.recodeAll

theorem Stmt.RespellsAll.recodeAll {ss ss' : List (Stmt ι)} :
    Stmt.RespellsAll ρ ss ss' → Stmt.RespellsAll ρ (Stmt.recodeAll σ ss) (Stmt.recodeAll σ ss')
  | .nil => .nil
  | .cons hs hss => .cons hs.recode hss.recodeAll

theorem FunDecl.Respells.recode {f f' : FunDecl ι} :
    f.Respells ρ f' → (f.recode σ).Respells ρ (f'.recode σ)
  | .mk _ hp hb => .mk _ (Name.respells_relocate σ.line hp) hb.recodeAll

theorem FunDecl.RespellsAll.recodeAll {fs fs' : List (FunDecl ι)} :
    FunDecl.RespellsAll ρ fs fs' →
      FunDecl.RespellsAll ρ (FunDecl.recodeAll σ fs) (FunDecl.recodeAll σ fs')
  | .nil => .nil
  | .cons hf hfs => .cons hf.recode hfs.recodeAll

end

/-- A numbered program that is respelled is a respelled program, numbered: that is the program
without its numbers. -/
theorem Stmt.exists_numberAll {statements : List (Stmt Unit)} (first : NodeId)
    {program : List (Stmt NodeId)}
    (h : Stmt.RespellsAll ρ ((Stmt.numberAll statements).run first).1 program) :
    ∃ statements', Stmt.RespellsAll ρ statements statements' ∧
      ((Stmt.numberAll statements').run first).1 = program := by
  refine ⟨Stmt.recodeAll .forget program, ?_, numberAll_forget ?_⟩
  · have hforget := h.recodeAll .forget
    rwa [Stmt.forget_numberAll] at hforget
  · have hids : Reference.ids (Stmt.referencesAll ((Stmt.numberAll statements).run first).1) =
        Reference.ids (Stmt.referencesAll program) := by
      rw [Reference.ids, Reference.ids, ← List.forall₂_eq_eq_eq, List.forall₂_map_left_iff,
        List.forall₂_map_right_iff]
      exact h.references.imp fun _ _ hr => hr.id.symm
    rw [← hids, (ids_numberAll statements first).2, List.length_range']

end

end Lox
