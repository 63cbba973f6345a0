import Lox.Proofs.Renaming.Programs
import Lox.Proofs.Scope.Bodies
import Mathlib.Data.List.Pairwise

/-!
# Renaming one local

`Stmt.renameAll ρ distance? flags chosen program` renames those bodies of a program
whose numbers in `Stmt.bodiesAll program` are chosen: their variables and parameters
with the old name, and what refers to them by its distance. With one number chosen,
one local is renamed (`Body.locals`), since a body declares a name once.

* `Stmt.renamesAll_renameAll`: that is a renamed program, if no function or class
  of a chosen body has the old name;
* `Body.frees_of_nodup`: it has not, if a local of the body has it.
-/

namespace Lox

/-! ## Locals -/

/-- The name of the variable that a statement declares. -/
def Stmt.variable? : Stmt NodeId → Option Name
  | .var name _ => some name
  | _ => none

/-- The parameters and variables that a body declares in its own scope. -/
def Body.locals (b : Body) : List String :=
  (b.params ++ b.statements.filterMap Stmt.variable?).map Name.text

/-- No function and no class of this name is declared. -/
def Stmt.Frees (name : String) (s : Stmt NodeId) : Prop := s.variable? = none → name ∉ s.declares

/-- No function and no class of this name is declared in the scope of the body. -/
def Body.Frees (name : String) (b : Body) : Prop := ∀ s ∈ b.statements, s.Frees name

theorem Stmt.frees_of_declares_eq_nil {s : Stmt NodeId} (h : s.declares = []) (name : String) :
    s.Frees name := by
  intro _
  rw [h]
  exact List.not_mem_nil

/-- A body with a local of this name has no function or class of the name, if it declares each name
once. -/
theorem Body.frees_of_nodup {b : Body} (h : b.declared.Nodup) {name : String}
    (hl : name ∈ b.locals) : b.Frees name := by
  obtain ⟨-, hs, hd⟩ := List.nodup_append.mp h
  intro s hs' hv hm
  have hmem : name ∈ b.statements.flatMap Stmt.declares := List.mem_flatMap.mpr ⟨s, hs', hm⟩
  rw [Body.locals, List.map_append, List.mem_append] at hl
  rcases hl with hp | hl
  · exact hd name hp name hmem rfl
  · obtain ⟨n, hn, rfl⟩ := List.mem_map.mp hl
    obtain ⟨t, ht, htn⟩ := List.mem_filterMap.mp hn
    have hne : s ≠ t := by
      rintro rfl
      rw [hv] at htn
      cases htn
    have htm : n.text ∈ t.declares := by
      cases t <;> cases htn
      exact List.mem_singleton_self _
    obtain ⟨-, hp⟩ := List.nodup_flatMap.mp hs
    have hsymm : Std.Symm (Function.onFun List.Disjoint (@Stmt.declares NodeId)) :=
      ⟨fun _ _ hd _ hs ht => hd ht hs⟩
    exact hp.forall hs' ht hne hm htm

/-! ## Chosen bodies -/

section

variable (ρ : Renaming) (distance? : NodeId → Option Nat)

mutual

/-- Renames the chosen bodies of a statement that stands in scopes with these flags. -/
def Stmt.rename (flags : List Bool) (chosen : Nat → Bool) : Stmt NodeId → Stmt NodeId
  | .expression e => .expression (e.rename ρ distance? flags)
  | .print e => .print (e.rename ρ distance? flags)
  | .var name initializer =>
    .var (ρ.name (flagAt flags (some 0)) name) (initializer.map (Expr.rename ρ distance? flags))
  | .block body =>
    .block (Stmt.renameAll (chosen 0 :: flags) (fun k => chosen (k + 1)) body)
  | .ifElse condition thenBranch elseBranch =>
    .ifElse (condition.rename ρ distance? flags) (thenBranch.rename flags chosen)
      (Stmt.rename? flags (fun k => chosen (k + thenBranch.bodies.length)) elseBranch)
  | .while condition body =>
    .while (condition.rename ρ distance? flags) (body.rename flags chosen)
  | .function declaration => .function (declaration.rename flags chosen)
  | .return keyword value => .return keyword (value.map (Expr.rename ρ distance? flags))
  | .class name superclass methods =>
    .class name (superclass.map (Expr.rename ρ distance? flags))
      (FunDecl.renameAll (methodFlags flags superclass.isSome) chosen methods)

/-- Renames the chosen bodies of a statement, if there is one. -/
def Stmt.rename? (flags : List Bool) (chosen : Nat → Bool) :
    Option (Stmt NodeId) → Option (Stmt NodeId)
  | none => none
  | some s => some (s.rename flags chosen)

/-- Renames the chosen bodies of several statements. -/
def Stmt.renameAll (flags : List Bool) (chosen : Nat → Bool) :
    List (Stmt NodeId) → List (Stmt NodeId)
  | [] => []
  | s :: ss =>
    s.rename flags chosen :: Stmt.renameAll flags (fun k => chosen (k + s.bodies.length)) ss

/-- Renames the chosen bodies of a function. -/
def FunDecl.rename (flags : List Bool) (chosen : Nat → Bool) : FunDecl NodeId → FunDecl NodeId
  | .mk name params body =>
    .mk name (params.map (ρ.name (chosen 0)))
      (Stmt.renameAll (chosen 0 :: flags) (fun k => chosen (k + 1)) body)

/-- Renames the chosen bodies of several functions. -/
def FunDecl.renameAll (flags : List Bool) (chosen : Nat → Bool) :
    List (FunDecl NodeId) → List (FunDecl NodeId)
  | [] => []
  | f :: fs =>
    f.rename flags chosen :: FunDecl.renameAll flags (fun k => chosen (k + f.bodies.length)) fs

end

end

/-- No chosen body has a function or class of this name. -/
def ChosenFree (name : String) (chosen : Nat → Bool) (bs : List Body) : Prop :=
  ∀ k b, bs[k]? = some b → chosen k = true → b.Frees name

section

variable {name : String} {chosen : Nat → Bool}

theorem ChosenFree.head {b : Body} {bs : List Body} (h : ChosenFree name chosen (b :: bs)) :
    chosen 0 = true → b.Frees name := h 0 b rfl

theorem ChosenFree.tail {b : Body} {bs : List Body} (h : ChosenFree name chosen (b :: bs)) :
    ChosenFree name (fun k => chosen (k + 1)) bs := fun k => h (k + 1)

theorem ChosenFree.left {bs cs : List Body} (h : ChosenFree name chosen (bs ++ cs)) :
    ChosenFree name chosen bs := by
  intro k b hb
  have hk := (List.getElem?_eq_some_iff.mp hb).1
  exact h k b ((List.getElem?_append_left hk).trans hb)

theorem ChosenFree.right {bs cs : List Body} (h : ChosenFree name chosen (bs ++ cs)) :
    ChosenFree name (fun k => chosen (k + bs.length)) cs := by
  intro k b hb
  refine h (k + bs.length) b ?_
  rw [List.getElem?_append_right (Nat.le_add_left _ k), Nat.add_sub_cancel_right, hb]

end

section

variable {ρ : Renaming} {distance? : NodeId → Option Nat}

/-- The name of a function or class is kept. -/
theorem Renaming.swap_eq_self_of_frees {flags : List Bool} {name : String} (hn : ρ.new ≠ name)
    (hf : flagAt flags (some 0) = true → ρ.old ≠ name) :
    ρ.swap (flagAt flags (some 0)) name = name := by
  cases hb : flagAt flags (some 0) with
  | false => rfl
  | true => exact ρ.swap_of_ne true (hf hb).symm hn.symm

mutual

theorem Stmt.renames_rename {flags : List Bool} {chosen : Nat → Bool} :
    {s : Stmt NodeId} → s.WellFormed → ρ.new ∉ s.names →
      (flagAt flags (some 0) = true → s.Frees ρ.old) → ChosenFree ρ.old chosen s.bodies →
        s.Renames ρ distance? flags (s.rename ρ distance? flags chosen)
  | .expression e, _, _, _, _ => by
    rw [Stmt.rename]
    exact .expression e
  | .print e, _, _, _, _ => by
    rw [Stmt.rename]
    exact .print e
  | .var name initializer, _, _, _, _ => by
    rw [Stmt.rename]
    exact .var name initializer
  | .return keyword value, _, _, _, _ => by
    rw [Stmt.rename]
    exact .return keyword value
  | .block body, hw, hn, _, hc => by
    rw [Stmt.names] at hn
    rw [Stmt.bodies] at hc
    rw [Stmt.rename]
    exact .block (chosen 0) (Stmt.renamesAll_renameAll hw hn hc.head hc.tail)
  | .ifElse condition thenBranch none, ⟨_, ⟨hd, hthen⟩, _⟩, hn, _, hc => by
    simp only [Stmt.names, List.mem_append, not_or] at hn
    rw [Stmt.bodies] at hc
    rw [Stmt.rename, Stmt.rename?]
    exact .ifThen condition (Stmt.renames_rename hthen hn.1.2
      (fun _ => Stmt.frees_of_declares_eq_nil hd _) hc.left)
  | .ifElse condition thenBranch (some elseBranch), ⟨_, ⟨hd, hthen⟩, hde, helse⟩, hn, _, hc => by
    simp only [Stmt.names, Stmt.names?, List.mem_append, not_or] at hn
    rw [Stmt.bodies, Stmt.bodies?] at hc
    rw [Stmt.rename, Stmt.rename?]
    refine .ifElse condition ?_ ?_
    · exact Stmt.renames_rename hthen hn.1.2
        (fun _ => Stmt.frees_of_declares_eq_nil hd _) hc.left
    · exact Stmt.renames_rename helse hn.2
        (fun _ => Stmt.frees_of_declares_eq_nil hde _) hc.right
  | .while condition body, ⟨_, hd, hb⟩, hn, _, hc => by
    simp only [Stmt.names, List.mem_append, not_or] at hn
    rw [Stmt.bodies] at hc
    rw [Stmt.rename]
    exact .while condition (Stmt.renames_rename hb hn.2
      (fun _ => Stmt.frees_of_declares_eq_nil hd _) hc)
  | .function (.mk name params body), hw, hn, hf, hc => by
    rw [Stmt.names] at hn
    rw [Stmt.bodies] at hc
    rw [Stmt.rename]
    refine .function ?_ (FunDecl.renames_rename hw hn hc)
    rw [FunDecl.names, List.mem_cons, not_or] at hn
    exact Renaming.swap_eq_self_of_frees hn.1
      fun hb ho => hf hb rfl (List.mem_singleton.mpr ho)
  | .class name superclass methods, ⟨_, _, hm⟩, hn, hf, hc => by
    simp only [Stmt.names, List.mem_cons, List.mem_append, not_or] at hn
    rw [Stmt.bodies] at hc
    rw [Stmt.rename]
    refine .class name superclass ?_ (FunDecl.renamesAll_renameAll hm hn.2.2 hc)
    exact Renaming.swap_eq_self_of_frees hn.1
      fun hb ho => hf hb rfl (List.mem_singleton.mpr ho)

/-- A program with chosen bodies renamed is a renamed program. -/
theorem Stmt.renamesAll_renameAll {flags : List Bool} {chosen : Nat → Bool} :
    {ss : List (Stmt NodeId)} → Stmt.WellFormedAll ss → ρ.new ∉ Stmt.namesAll ss →
      (flagAt flags (some 0) = true → ∀ s ∈ ss, s.Frees ρ.old) →
        ChosenFree ρ.old chosen (Stmt.bodiesAll ss) →
          Stmt.RenamesAll ρ distance? flags ss (Stmt.renameAll ρ distance? flags chosen ss)
  | [], _, _, _, _ => by
    rw [Stmt.renameAll]
    exact .nil
  | s :: ss, ⟨hs, hss⟩, hn, hf, hc => by
    rw [Stmt.namesAll, List.mem_append, not_or] at hn
    rw [Stmt.bodiesAll] at hc
    rw [Stmt.renameAll]
    refine .cons ?_ ?_
    · exact Stmt.renames_rename hs hn.1 (fun hb => hf hb s List.mem_cons_self) hc.left
    · exact Stmt.renamesAll_renameAll hss hn.2
        (fun hb t ht => hf hb t (List.mem_cons_of_mem s ht)) hc.right

theorem FunDecl.renames_rename {flags : List Bool} {chosen : Nat → Bool} :
    {f : FunDecl NodeId} → f.WellFormed → ρ.new ∉ f.names → ChosenFree ρ.old chosen f.bodies →
      f.Renames ρ distance? flags (f.rename ρ distance? flags chosen)
  | .mk name params body, ⟨_, _, hb⟩, hn, hc => by
    simp only [FunDecl.names, List.mem_cons, List.mem_append, not_or] at hn
    rw [FunDecl.bodies] at hc
    rw [FunDecl.rename]
    exact .mk (chosen 0) name params (Stmt.renamesAll_renameAll hb hn.2.2 hc.head hc.tail)

theorem FunDecl.renamesAll_renameAll {flags : List Bool} {chosen : Nat → Bool} :
    {fs : List (FunDecl NodeId)} → FunDecl.WellFormedAll fs → ρ.new ∉ FunDecl.namesAll fs →
      ChosenFree ρ.old chosen (FunDecl.bodiesAll fs) →
        FunDecl.RenamesAll ρ distance? flags fs (FunDecl.renameAll ρ distance? flags chosen fs)
  | [], _, _, _ => by
    rw [FunDecl.renameAll]
    exact .nil
  | f :: fs, ⟨hf, hfs⟩, hn, hc => by
    rw [FunDecl.namesAll, List.mem_append, not_or] at hn
    rw [FunDecl.bodiesAll] at hc
    rw [FunDecl.renameAll]
    exact .cons (FunDecl.renames_rename hf hn.1 hc.left)
      (FunDecl.renamesAll_renameAll hfs hn.2 hc.right)

end

end

end Lox
