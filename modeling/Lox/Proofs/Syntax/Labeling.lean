import Lox.Proofs.Syntax.Numbering
import Lox.Proofs.Syntax.Recoding
import Mathlib.Data.List.Nodup

/-!
# Labelings

A labeling of a program numbers the nodes that name a binding: with numbers of an interval, and no
two nodes with the same one. It does not matter which node has which number.

* `labeling_numberAll`: numbering a program gives a labeling;
* `numberAll_forget`: a program with consecutive numbers is the numbering of itself without them;
* `Labeling.recodeAll`: on other lines a labeling is a labeling of the program on these lines;
* `Labeling.exists_recodeAll`: any labeling of a program is its numbering from zero with other
  numbers, different ones for different nodes.
-/

namespace Lox

/-- The references have numbers from `first` on and below `next`, each used at most once. -/
structure Reference.Within (first next : NodeId) (rs : List Reference) : Prop where
  le : first ≤ next
  nodup : (ids rs).Nodup
  bounds : ∀ id ∈ ids rs, first ≤ id ∧ id < next

namespace Reference.Within

variable {i j k i' k' : NodeId} {rs rs' : List Reference}

theorem nil (k : NodeId) : Within k k [] := ⟨Nat.le_refl k, .nil, nofun⟩

theorem append (h : Within i j rs) (h' : Within j k rs') : Within i k (rs ++ rs') := by
  refine ⟨Nat.le_trans h.le h'.le, ?_, fun id hid => ?_⟩
  · rw [ids_append]
    refine h.nodup.append h'.nodup fun id hid hid' => ?_
    exact absurd (h.bounds id hid).2 (Nat.not_lt_of_le (h'.bounds id hid').1)
  · rw [ids_append] at hid
    rcases List.mem_append.mp hid with hid | hid
    · exact (h.bounds id hid).imp_right fun hlt => Nat.lt_of_lt_of_le hlt h'.le
    · exact (h'.bounds id hid).imp_left (Nat.le_trans h.le)

theorem perm (h : Within i j rs) (hp : rs.Perm rs') : Within i j rs' :=
  have hids := hp.map id
  ⟨h.le, hids.nodup_iff.mp h.nodup, fun id hid => h.bounds id (hids.mem_iff.mpr hid)⟩

theorem append_swap (h : Within i j rs) (h' : Within j k rs') : Within i k (rs' ++ rs) :=
  (h.append h').perm List.perm_append_comm

theorem mono (h : Within i k rs) (hi : i' ≤ i) (hk : k ≤ k') : Within i' k' rs :=
  ⟨Nat.le_trans (Nat.le_trans hi h.le) hk, h.nodup, fun id hid =>
    (h.bounds id hid).imp (Nat.le_trans hi) fun hlt => Nat.lt_of_lt_of_le hlt hk⟩

theorem fresh (kind : ReferenceKind) (k : NodeId) (name : Name) :
    Within k (k + 1) [⟨kind, k, name⟩] := by
  refine ⟨Nat.le_succ k, List.nodup_singleton k, fun id hid => ?_⟩
  obtain rfl : id = k := List.mem_singleton.mp hid
  exact ⟨Nat.le_refl id, Nat.lt_succ_self id⟩

end Reference.Within

/-- `program` is `statements` with numbers from `first` on and below `next`, each used at most
once. -/
structure Labeling (statements : List (Stmt Unit)) (first next : NodeId)
    (program : List (Stmt NodeId)) : Prop
    extends Reference.Within first next (Stmt.referencesAll program) where
  forget : Stmt.recodeAll .forget program = statements

theorem Name.map_relocate_id (ns : List Name) : ns.map (relocate id) = ns := List.map_id ns

theorem Reference.ids_recode (ρ : Recoding NodeId NodeId) (rs : List Reference) :
    ids (rs.map (recode ρ)) = (ids rs).map ρ.label := by
  simp only [ids, List.map_map]
  rfl

/-! ## Numbering -/

mutual

theorem Expr.forget_number : (e : Expr Unit) → (k : NodeId) → (e.number.run k).1.recode .forget = e
  | .literal _, _ | .variable _ _, _ | .this _ _, _ | .super _ _ _, _ => rfl
  | .group inner, k => congrArg Expr.group (inner.forget_number k)
  | .unary _ right, k => congrArg (Expr.unary _) (right.forget_number k)
  | .binary left _ right, k =>
    congrArg₂ (Expr.binary · _ ·) (left.forget_number k) (right.forget_number _)
  | .logical left _ right, k =>
    congrArg₂ (Expr.logical · _ ·) (left.forget_number k) (right.forget_number _)
  | .assign _ _ value, k => congrArg (Expr.assign () _) (value.forget_number (k + 1))
  | .call callee line arguments, k =>
    congrArg₂ (Expr.call · line ·) (callee.forget_number k) (Expr.forget_numberAll arguments _)
  | .get object _, k => congrArg (Expr.get · _) (object.forget_number k)
  | .set object _ value, k =>
    congrArg₂ (Expr.set · _ ·) (object.forget_number k) (value.forget_number _)

theorem Expr.forget_numberAll : (es : List (Expr Unit)) → (k : NodeId) →
    Expr.recodeAll .forget ((Expr.numberAll es).run k).1 = es
  | [], _ => rfl
  | e :: es, k => congrArg₂ List.cons (e.forget_number k) (Expr.forget_numberAll es _)

end

theorem Expr.forget_number? (o : Option (Expr Unit)) (k : NodeId) :
    ((Expr.number? o).run k).1.map (Expr.recode .forget) = o := by
  cases o with
  | none => rfl
  | some e => exact congrArg some (e.forget_number k)

mutual

theorem Stmt.forget_number : (s : Stmt Unit) → (k : NodeId) → (s.number.run k).1.recode .forget = s
  | .expression e, k => congrArg Stmt.expression (e.forget_number k)
  | .print e, k => congrArg Stmt.print (e.forget_number k)
  | .var _ initializer, k => congrArg (Stmt.var _) (Expr.forget_number? initializer k)
  | .block body, k => congrArg Stmt.block (Stmt.forget_numberAll body k)
  | .ifElse condition thenBranch elseBranch, k => by
    have hc := condition.forget_number k
    have ht := thenBranch.forget_number (condition.number.run k).2
    have he := Stmt.forget_number? elseBranch (thenBranch.number.run (condition.number.run k).2).2
    exact congr (congrArg₂ Stmt.ifElse hc ht) he
  | .while condition body, k =>
    congrArg₂ Stmt.while (condition.forget_number k) (body.forget_number _)
  | .function declaration, k => congrArg Stmt.function (declaration.forget_number k)
  | .return _ value, k => congrArg (Stmt.return _) (Expr.forget_number? value k)
  | .class _ superclass methods, k =>
    congrArg₂ (Stmt.class _) (Expr.forget_number? superclass k) (FunDecl.forget_numberAll methods _)

theorem Stmt.forget_number? : (o : Option (Stmt Unit)) → (k : NodeId) →
    Stmt.recode? .forget ((Stmt.number? o).run k).1 = o
  | none, _ => rfl
  | some s, k => congrArg some (s.forget_number k)

theorem Stmt.forget_numberAll : (ss : List (Stmt Unit)) → (k : NodeId) →
    Stmt.recodeAll .forget ((Stmt.numberAll ss).run k).1 = ss
  | [], _ => rfl
  | s :: ss, k => congrArg₂ List.cons (s.forget_number k) (Stmt.forget_numberAll ss _)

theorem FunDecl.forget_number : (f : FunDecl Unit) → (k : NodeId) →
    (f.number.run k).1.recode .forget = f
  | .mk _ params body, k =>
    congrArg₂ (FunDecl.mk _) (Name.map_relocate_id params) (Stmt.forget_numberAll body k)

theorem FunDecl.forget_numberAll : (fs : List (FunDecl Unit)) → (k : NodeId) →
    FunDecl.recodeAll .forget ((FunDecl.numberAll fs).run k).1 = fs
  | [], _ => rfl
  | f :: fs, k => congrArg₂ List.cons (f.forget_number k) (FunDecl.forget_numberAll fs _)

end

theorem labeling_numberAll (statements : List (Stmt Unit)) (first : NodeId) :
    Labeling statements first ((Stmt.numberAll statements).run first).2
      ((Stmt.numberAll statements).run first).1 := by
  obtain ⟨hle, hids⟩ := ids_numberAll statements first
  refine ⟨⟨hle, ?_, fun id hid => ?_⟩, Stmt.forget_numberAll statements first⟩
  · rw [hids]
    exact List.nodup_range'
  · rw [hids, List.mem_range'_1, Nat.add_sub_cancel' hle] at hid
    exact hid

/-! ## Trees that differ in their labels -/

/-- If the numbers of the second references come first in a list that starts with the numbers that
`φ` gives the first ones, then `P`, and what follows them is the same. -/
def Pins (φ : NodeId → NodeId) (rs rs' : List Reference) (P : Prop) : Prop :=
  ∀ ⦃xs ys⦄, (Reference.ids rs).map φ ++ xs = Reference.ids rs' ++ ys → P ∧ xs = ys

section

variable {φ : NodeId → NodeId} {rs rs' ts ts' : List Reference} {P Q : Prop}

theorem pins_nil : Pins φ [] [] True := fun _ _ h => ⟨trivial, h⟩

theorem Pins.cons (h : Pins φ rs rs' P) (r r' : Reference) :
    Pins φ (r :: rs) (r' :: rs') (φ r.id = r'.id ∧ P) := by
  intro xs ys he
  obtain ⟨hr, he⟩ := List.cons.inj he
  obtain ⟨hp, he⟩ := h he
  exact ⟨⟨hr, hp⟩, he⟩

theorem Pins.append (h : Pins φ rs rs' P) (h' : Pins φ ts ts' Q) :
    Pins φ (rs ++ ts) (rs' ++ ts') (P ∧ Q) := by
  intro xs ys he
  simp only [Reference.ids_append, List.map_append, List.append_assoc] at he
  obtain ⟨hp, he⟩ := h he
  obtain ⟨hq, he⟩ := h' he
  exact ⟨⟨hp, hq⟩, he⟩

theorem Pins.imp (h : Pins φ rs rs' P) (hpq : P → Q) : Pins φ rs rs' Q :=
  fun _ _ he => (h he).imp_left hpq

end

section

variable (φ : NodeId → NodeId)

mutual

/-- If two expressions differ only in their numbers, and `φ` gives those of the second, then `φ`
makes the second expression of the first. -/
theorem Expr.pins : (e e' : Expr NodeId) → e.recode .forget = e'.recode .forget →
    Pins φ e.references e'.references (e.recode ⟨φ, id⟩ = e')
  | .literal value, e', h => by
    cases e' with
    | literal => exact pins_nil.imp fun _ => congrArg Expr.literal (Expr.literal.inj h)
    | _ => cases h
  | .group inner, e', h => by
    cases e' with
    | group inner' => exact (inner.pins inner' (Expr.group.inj h)).imp (congrArg Expr.group)
    | _ => cases h
  | .unary operator right, e', h => by
    cases e' with
    | unary _ right' =>
      obtain ⟨ho, hr⟩ := Expr.unary.inj h
      exact (right.pins right' hr).imp (congrArg₂ Expr.unary ho)
    | _ => cases h
  | .binary left operator right, e', h => by
    cases e' with
    | binary left' operator' right' =>
      obtain ⟨hl, ho, hr⟩ := Expr.binary.inj h
      obtain rfl : operator = operator' := ho
      exact ((left.pins left' hl).append (right.pins right' hr)).imp fun ⟨hl, hr⟩ =>
        congrArg₂ (Expr.binary · operator ·) hl hr
    | _ => cases h
  | .logical left operator right, e', h => by
    cases e' with
    | logical left' operator' right' =>
      obtain ⟨hl, ho, hr⟩ := Expr.logical.inj h
      obtain rfl : operator = operator' := ho
      exact ((left.pins left' hl).append (right.pins right' hr)).imp fun ⟨hl, hr⟩ =>
        congrArg₂ (Expr.logical · operator ·) hl hr
    | _ => cases h
  | .variable i name, e', h => by
    cases e' with
    | «variable» =>
      exact (pins_nil.cons _ _).imp fun hi => congrArg₂ Expr.variable hi.1 (Expr.variable.inj h).2
    | _ => cases h
  | .assign i name value, e', h => by
    cases e' with
    | assign _ name' value' =>
      obtain ⟨-, hn, hv⟩ := Expr.assign.inj h
      obtain rfl : name = name' := hn
      exact ((value.pins value' hv).cons _ _).imp fun ⟨hi, hv⟩ =>
        congrArg₂ (Expr.assign · name ·) hi hv
    | _ => cases h
  | .call callee line arguments, e', h => by
    cases e' with
    | call callee' _ arguments' =>
      obtain ⟨hc, hl, ha⟩ := Expr.call.inj h
      exact ((callee.pins callee' hc).append (Expr.pinsAll arguments arguments' ha)).imp
        fun ⟨hc, ha⟩ => congr (congrArg₂ Expr.call hc hl) ha
    | _ => cases h
  | .get object name, e', h => by
    cases e' with
    | get object' =>
      obtain ⟨ho, hn⟩ := Expr.get.inj h
      exact (object.pins object' ho).imp fun ho => congrArg₂ Expr.get ho hn
    | _ => cases h
  | .set object name value, e', h => by
    cases e' with
    | set object' name' value' =>
      obtain ⟨ho, hn, hv⟩ := Expr.set.inj h
      obtain rfl : name = name' := hn
      exact ((object.pins object' ho).append (value.pins value' hv)).imp fun ⟨ho, hv⟩ =>
        congrArg₂ (Expr.set · name ·) ho hv
    | _ => cases h
  | .this i keyword, e', h => by
    cases e' with
    | this =>
      exact (pins_nil.cons _ _).imp fun hi => congrArg₂ Expr.this hi.1 (Expr.this.inj h).2
    | _ => cases h
  | .super i keyword method, e', h => by
    cases e' with
    | super =>
      obtain ⟨-, hk, hm⟩ := Expr.super.inj h
      exact (pins_nil.cons _ _).imp fun hi => congr (congrArg₂ Expr.super hi.1 hk) hm
    | _ => cases h

theorem Expr.pinsAll : (es es' : List (Expr NodeId)) →
    Expr.recodeAll .forget es = Expr.recodeAll .forget es' →
      Pins φ (Expr.referencesAll es) (Expr.referencesAll es') (Expr.recodeAll ⟨φ, id⟩ es = es')
  | [], es', h => by
    cases es' with
    | nil => exact pins_nil.imp fun _ => rfl
    | cons => cases h
  | e :: es, es', h => by
    cases es' with
    | nil => cases h
    | cons e' es' =>
      obtain ⟨he, hes⟩ := List.cons.inj h
      exact ((e.pins e' he).append (Expr.pinsAll es es' hes)).imp fun ⟨he, hes⟩ =>
        congrArg₂ List.cons he hes

end

theorem Expr.pins? (o o' : Option (Expr NodeId))
    (h : o.map (Expr.recode .forget) = o'.map (Expr.recode .forget)) :
    Pins φ (Expr.references? o) (Expr.references? o') (o.map (Expr.recode ⟨φ, id⟩) = o') := by
  cases o with
  | none =>
    cases o' with
    | none => exact pins_nil.imp fun _ => rfl
    | some => cases h
  | some e =>
    cases o' with
    | none => cases h
    | some e' => exact (e.pins φ e' (Option.some.inj h)).imp (congrArg some)

mutual

theorem Stmt.pins : (s s' : Stmt NodeId) → s.recode .forget = s'.recode .forget →
    Pins φ s.references s'.references (s.recode ⟨φ, id⟩ = s')
  | .expression e, s', h => by
    cases s' with
    | expression e' => exact (e.pins φ e' (Stmt.expression.inj h)).imp (congrArg Stmt.expression)
    | _ => cases h
  | .print e, s', h => by
    cases s' with
    | print e' => exact (e.pins φ e' (Stmt.print.inj h)).imp (congrArg Stmt.print)
    | _ => cases h
  | .var name initializer, s', h => by
    cases s' with
    | var _ initializer' =>
      obtain ⟨hn, hi⟩ := Stmt.var.inj h
      exact (Expr.pins? φ initializer initializer' hi).imp (congrArg₂ Stmt.var hn)
    | _ => cases h
  | .block body, s', h => by
    cases s' with
    | block body' => exact (Stmt.pinsAll body body' (Stmt.block.inj h)).imp (congrArg Stmt.block)
    | _ => cases h
  | .ifElse condition thenBranch elseBranch, s', h => by
    cases s' with
    | ifElse condition' thenBranch' elseBranch' =>
      obtain ⟨hc, ht, he⟩ := Stmt.ifElse.inj h
      exact (((condition.pins φ condition' hc).append (thenBranch.pins thenBranch' ht)).append
        (Stmt.pins? elseBranch elseBranch' he)).imp fun ⟨⟨hc, ht⟩, he⟩ =>
          congr (congrArg₂ Stmt.ifElse hc ht) he
    | _ => cases h
  | .while condition body, s', h => by
    cases s' with
    | «while» condition' body' =>
      obtain ⟨hc, hb⟩ := Stmt.while.inj h
      exact ((condition.pins φ condition' hc).append (body.pins body' hb)).imp fun ⟨hc, hb⟩ =>
        congrArg₂ Stmt.while hc hb
    | _ => cases h
  | .function declaration, s', h => by
    cases s' with
    | function declaration' =>
      exact (declaration.pins declaration' (Stmt.function.inj h)).imp (congrArg Stmt.function)
    | _ => cases h
  | .return keyword value, s', h => by
    cases s' with
    | «return» _ value' =>
      obtain ⟨hk, hv⟩ := Stmt.return.inj h
      exact (Expr.pins? φ value value' hv).imp (congrArg₂ Stmt.return hk)
    | _ => cases h
  | .class name superclass methods, s', h => by
    cases s' with
    | «class» _ superclass' methods' =>
      obtain ⟨hn, hc, hm⟩ := Stmt.class.inj h
      exact ((Expr.pins? φ superclass superclass' hc).append
        (FunDecl.pinsAll methods methods' hm)).imp fun ⟨hc, hm⟩ =>
          congr (congrArg₂ Stmt.class hn hc) hm
    | _ => cases h

theorem Stmt.pins? : (o o' : Option (Stmt NodeId)) →
    Stmt.recode? .forget o = Stmt.recode? .forget o' →
      Pins φ (Stmt.references? o) (Stmt.references? o') (Stmt.recode? ⟨φ, id⟩ o = o')
  | none, o', h => by
    cases o' with
    | none => exact pins_nil.imp fun _ => rfl
    | some => cases h
  | some s, o', h => by
    cases o' with
    | none => cases h
    | some s' => exact (s.pins s' (Option.some.inj h)).imp (congrArg some)

theorem Stmt.pinsAll : (ss ss' : List (Stmt NodeId)) →
    Stmt.recodeAll .forget ss = Stmt.recodeAll .forget ss' →
      Pins φ (Stmt.referencesAll ss) (Stmt.referencesAll ss') (Stmt.recodeAll ⟨φ, id⟩ ss = ss')
  | [], ss', h => by
    cases ss' with
    | nil => exact pins_nil.imp fun _ => rfl
    | cons => cases h
  | s :: ss, ss', h => by
    cases ss' with
    | nil => cases h
    | cons s' ss' =>
      obtain ⟨hs, hss⟩ := List.cons.inj h
      exact ((s.pins s' hs).append (Stmt.pinsAll ss ss' hss)).imp fun ⟨hs, hss⟩ =>
        congrArg₂ List.cons hs hss

theorem FunDecl.pins : (f f' : FunDecl NodeId) → f.recode .forget = f'.recode .forget →
    Pins φ f.references f'.references (f.recode ⟨φ, id⟩ = f')
  | .mk name params body, .mk name' params' body', h => by
    obtain ⟨hn, hp, hb⟩ := FunDecl.mk.inj h
    have hparams : params.map (Name.relocate id) = params' :=
      hp.trans (Name.map_relocate_id params')
    exact (Stmt.pinsAll body body' hb).imp (congr (congrArg₂ FunDecl.mk hn hparams))

theorem FunDecl.pinsAll : (fs fs' : List (FunDecl NodeId)) →
    FunDecl.recodeAll .forget fs = FunDecl.recodeAll .forget fs' →
      Pins φ (FunDecl.referencesAll fs) (FunDecl.referencesAll fs')
        (FunDecl.recodeAll ⟨φ, id⟩ fs = fs')
  | [], fs', h => by
    cases fs' with
    | nil => exact pins_nil.imp fun _ => rfl
    | cons => cases h
  | f :: fs, fs', h => by
    cases fs' with
    | nil => cases h
    | cons f' fs' =>
      obtain ⟨hf, hfs⟩ := List.cons.inj h
      exact ((f.pins f' hf).append (FunDecl.pinsAll fs fs' hfs)).imp fun ⟨hf, hfs⟩ =>
        congrArg₂ List.cons hf hfs

end

end

/-! ## Labelings of one program -/

section

variable {statements : List (Stmt Unit)} {first next : NodeId} {program : List (Stmt NodeId)}

/-- Trees that differ only in their labels have as many references. -/
theorem length_ids_of_forget {ss ss' : List (Stmt NodeId)}
    (h : Stmt.recodeAll .forget ss = Stmt.recodeAll .forget ss') :
    (Reference.ids (Stmt.referencesAll ss)).length =
      (Reference.ids (Stmt.referencesAll ss')).length := by
  have hlength (ss : List (Stmt NodeId)) : (Reference.ids (Stmt.referencesAll ss)).length =
      (Stmt.referencesAll (Stmt.recodeAll ⟨fun _ : Unit => 0, id⟩
        (Stmt.recodeAll .forget ss))).length := by
    rw [Stmt.recodeAll_recodeAll, Stmt.referencesAll_recodeAll, Reference.ids, List.length_map,
      List.length_map]
  rw [hlength, h, ← hlength]

/-- Trees that differ only in their labels are the same if their references have the same ones. -/
theorem eq_of_forget {ss ss' : List (Stmt NodeId)}
    (h : Stmt.recodeAll .forget ss = Stmt.recodeAll .forget ss')
    (hids : Reference.ids (Stmt.referencesAll ss) = Reference.ids (Stmt.referencesAll ss')) :
    ss = ss' := by
  have hpinned : Stmt.recodeAll ⟨id, id⟩ ss = ss' :=
    (Stmt.pinsAll id ss ss' h (congrArg (· ++ []) ((List.map_id _).trans hids))).1
  rw [← hpinned, Stmt.recodeAll_id]

/-- A program whose references have consecutive numbers is the numbering of itself without them. -/
theorem numberAll_forget (h : Reference.ids (Stmt.referencesAll program) =
      List.range' first (Reference.ids (Stmt.referencesAll program)).length) :
    ((Stmt.numberAll (Stmt.recodeAll .forget program)).run first).1 = program := by
  have hforget := Stmt.forget_numberAll (Stmt.recodeAll .forget program) first
  have hlength := length_ids_of_forget hforget
  have hids := (ids_numberAll (Stmt.recodeAll .forget program) first).2
  refine eq_of_forget hforget ?_
  rw [hids, List.length_range'] at hlength
  rw [hids, hlength, ← h]

theorem Labeling.recodeAll (h : Labeling statements first next program) (ℓ : Nat → Nat) :
    Labeling (Stmt.recodeAll ⟨id, ℓ⟩ statements) first next (Stmt.recodeAll ⟨id, ℓ⟩ program) := by
  have hids : Reference.ids (Stmt.referencesAll (Stmt.recodeAll ⟨id, ℓ⟩ program)) =
      Reference.ids (Stmt.referencesAll program) := by
    rw [Stmt.referencesAll_recodeAll, Reference.ids_recode]
    exact List.map_id _
  refine ⟨⟨h.le, hids ▸ h.nodup, hids ▸ h.bounds⟩, ?_⟩
  rw [← h.forget, Stmt.recodeAll_recodeAll, Stmt.recodeAll_recodeAll]
  rfl

/-- Any labeling of a program is its numbering from zero with other numbers, all of which differ. -/
theorem Labeling.exists_recodeAll (h : Labeling statements first next program) :
    ∃ φ : NodeId → NodeId, Function.Injective φ ∧ (∀ i, first ≤ φ i) ∧
      Stmt.recodeAll ⟨φ, id⟩ ((Stmt.numberAll statements).run 0).1 = program := by
  let numbered := ((Stmt.numberAll statements).run 0).1
  let ids : List Nat := Reference.ids (Stmt.referencesAll program)
  -- the numbers of the nodes in their order, and then others that no node has
  let φ (i : Nat) : Nat := if hi : i < ids.length then ids[i] else next + i
  have hin (i : Nat) (hi : i < ids.length) : φ i = ids[i] := dif_pos hi
  have hout (i : Nat) (hi : ¬ i < ids.length) : φ i = next + i := dif_neg hi
  have hbounds (i : Nat) (hi : i < ids.length) : first ≤ ids[i] ∧ ids[i] < next :=
    h.bounds _ (List.getElem_mem hi)
  have hle : first ≤ next := h.le
  have hforget : Stmt.recodeAll .forget numbered = Stmt.recodeAll .forget program :=
    (Stmt.forget_numberAll statements 0).trans h.forget.symm
  have hids : (Reference.ids (Stmt.referencesAll numbered)).map φ = ids := by
    have hlength : (Reference.ids (Stmt.referencesAll numbered)).length = ids.length :=
      length_ids_of_forget hforget
    rw [(ids_numberAll statements 0).2, List.length_range'] at hlength
    rw [(ids_numberAll statements 0).2, hlength]
    refine List.ext_getElem (by simp) fun i _ hi => ?_
    simp [hin i hi]
  refine ⟨φ, fun (i j : Nat) (hij : φ i = φ j) => ?_, fun (i : Nat) => ?_, ?_⟩
  · by_cases hi : i < ids.length <;> by_cases hj : j < ids.length
    · rw [hin i hi, hin j hj] at hij
      exact (List.Nodup.getElem_inj_iff h.nodup).mp hij
    · have := hbounds i hi
      rw [hin i hi, hout j hj] at hij
      omega
    · have := hbounds j hj
      rw [hout i hi, hin j hj] at hij
      omega
    · rw [hout i hi, hout j hj] at hij
      exact Nat.add_left_cancel hij
  · by_cases hi : i < ids.length
    · exact hin i hi ▸ (hbounds i hi).1
    · rw [hout i hi]
      exact Nat.le_trans hle (Nat.le_add_right next i)
  · exact (Stmt.pinsAll φ numbered program hforget (congrArg (· ++ []) hids)).1

end

end Lox
