import Lox.Proofs.Syntax.Labeling
import Lox.Proofs.Syntax.Readback
import Lox.Proofs.Syntax.Recovery

/-!
# Printed trees

* `Stmt.text_recode`: labels and lines are not printed;
* `Stmt.ReadableAll.eq_of_texts`: what is readable is known from its texts;
* `printed_tree_determines_program`: so two programs without strings are printed alike only if they
  are the same but for labels and lines.
-/

namespace Lox

/-! ## Labels and lines -/

section

variable {ι κ : Type} (ρ : Recoding ι κ)

mutual

theorem Expr.sexp_recode : (e : Expr ι) → (e.recode ρ).sexp = e.sexp
  | .literal _ | .variable _ _ | .this _ _ | .super _ _ _ => rfl
  | .group inner => by
    rw [Expr.recode, Expr.sexp, Expr.sexp, inner.sexp_recode]
  | .unary _ right => by
    rw [Expr.recode, Expr.sexp, Expr.sexp, right.sexp_recode, Token.lexeme_relocate]
  | .binary left _ right => by
    rw [Expr.recode, Expr.sexp, Expr.sexp, left.sexp_recode, right.sexp_recode,
      Token.lexeme_relocate]
  | .logical left _ right => by
    rw [Expr.recode, Expr.sexp, Expr.sexp, left.sexp_recode, right.sexp_recode,
      Token.lexeme_relocate]
  | .assign _ _ value => by
    rw [Expr.recode, Expr.sexp, Expr.sexp, value.sexp_recode, Name.text_relocate]
  | .call callee _ arguments => by
    rw [Expr.recode, Expr.sexp, Expr.sexp, callee.sexp_recode, Expr.sexpAll_recodeAll arguments]
  | .get object _ => by
    rw [Expr.recode, Expr.sexp, Expr.sexp, object.sexp_recode, Name.text_relocate]
  | .set object _ value => by
    rw [Expr.recode, Expr.sexp, Expr.sexp, object.sexp_recode, value.sexp_recode,
      Name.text_relocate]

theorem Expr.sexpAll_recodeAll :
    (es : List (Expr ι)) → Expr.sexpAll (Expr.recodeAll ρ es) = Expr.sexpAll es
  | [] => rfl
  | e :: es => congrArg₂ List.cons e.sexp_recode (Expr.sexpAll_recodeAll es)

end

theorem Expr.sexp?_map_recode (o : Option (Expr ι)) :
    Expr.sexp? (o.map (Expr.recode ρ)) = Expr.sexp? o := by
  cases o with
  | none => rfl
  | some e => exact congrArg (fun s => [s]) (e.sexp_recode ρ)

theorem Expr.ancestry_map_recode (o : Option (Expr ι)) :
    Expr.ancestry (o.map (Expr.recode ρ)) = Expr.ancestry o := by
  cases o with
  | none => rfl
  | some e => exact congrArg (fun s => [.word "<", s]) (e.sexp_recode ρ)

mutual

theorem Stmt.sexp_recode : (s : Stmt ι) → (s.recode ρ).sexp = s.sexp
  | .expression e => by
    rw [Stmt.recode, Stmt.sexp, Stmt.sexp, e.sexp_recode]
  | .print e => by
    rw [Stmt.recode, Stmt.sexp, Stmt.sexp, e.sexp_recode]
  | .var _ initializer => by
    rw [Stmt.recode, Stmt.sexp, Stmt.sexp, Expr.sexp?_map_recode, Name.text_relocate]
  | .block body => by
    rw [Stmt.recode, Stmt.sexp, Stmt.sexp, Stmt.sexpAll_recodeAll body]
  | .ifElse condition thenBranch elseBranch => by
    rw [Stmt.recode, Stmt.sexp, Stmt.sexp, condition.sexp_recode, thenBranch.sexp_recode,
      Stmt.sexp?_recode? elseBranch]
  | .while condition body => by
    rw [Stmt.recode, Stmt.sexp, Stmt.sexp, condition.sexp_recode, body.sexp_recode]
  | .function declaration => by
    rw [Stmt.recode, Stmt.sexp, Stmt.sexp, declaration.sexps_recode]
  | .return _ value => by
    rw [Stmt.recode, Stmt.sexp, Stmt.sexp, Expr.sexp?_map_recode]
  | .class _ superclass methods => by
    rw [Stmt.recode, Stmt.sexp, Stmt.sexp, Expr.ancestry_map_recode, Name.text_relocate,
      FunDecl.sexpAll_recodeAll methods]

theorem Stmt.sexp?_recode? :
    (o : Option (Stmt ι)) → Stmt.sexp? (Stmt.recode? ρ o) = Stmt.sexp? o
  | none => rfl
  | some s => congrArg (fun s => [s]) s.sexp_recode

theorem Stmt.sexpAll_recodeAll :
    (ss : List (Stmt ι)) → Stmt.sexpAll (Stmt.recodeAll ρ ss) = Stmt.sexpAll ss
  | [] => rfl
  | s :: ss => congrArg₂ List.cons s.sexp_recode (Stmt.sexpAll_recodeAll ss)

theorem FunDecl.sexps_recode : (f : FunDecl ι) → (f.recode ρ).sexps = f.sexps
  | .mk _ params body => by
    rw [FunDecl.recode, FunDecl.sexps, FunDecl.sexps, Stmt.sexpAll_recodeAll body, List.map_map]
    rfl

theorem FunDecl.sexpAll_recodeAll :
    (fs : List (FunDecl ι)) → FunDecl.sexpAll (FunDecl.recodeAll ρ fs) = FunDecl.sexpAll fs
  | [] => rfl
  | f :: fs => by
    rw [FunDecl.recodeAll, FunDecl.sexpAll, FunDecl.sexpAll, f.sexps_recode,
      FunDecl.sexpAll_recodeAll fs]

end

/-- A tree is printed without labels and lines. -/
theorem Stmt.text_recode (s : Stmt ι) : (s.recode ρ).text = s.text := by
  rw [← String.toList_inj, Stmt.toList_text, Stmt.toList_text, s.sexp_recode]

theorem Stmt.map_text_recodeAll (ss : List (Stmt ι)) :
    (Stmt.recodeAll ρ ss).map Stmt.text = ss.map Stmt.text := by
  induction ss with
  | nil => rfl
  | cons s ss ih => exact congrArg₂ List.cons (s.text_recode ρ) ih

end

/-! ## Trees that are printed alike -/

theorem Stmt.Readable.eq_of_text {s s' : Stmt Unit} (h : s.Readable) (h' : s'.Readable)
    (he : s.text = s'.text) : s.recode .bare = s'.recode .bare := by
  have hsexp : s.sexp = s'.sexp := by
    refine h.proper.eq_of_chars h'.proper ?_
    rw [← Stmt.toList_text, ← Stmt.toList_text, he]
  have hread := h.read
  rw [hsexp, h'.read] at hread
  exact (Option.some.inj hread).symm

theorem Stmt.textAll_eq_join {ι : Type} (ss : List (Stmt ι)) :
    Stmt.textAll ss = String.join ((ss.map Stmt.text).map (" " ++ ·)) := by
  induction ss with
  | nil => rfl
  | cons s ss ih => rw [Stmt.textAll, ih, List.map_cons, List.map_cons, String.join_cons]

/-- In a block, several statements are one. -/
theorem Stmt.ReadableAll.eq_of_texts {ss ss' : List (Stmt Unit)} (h : ReadableAll ss)
    (h' : ReadableAll ss') (he : ss.map Stmt.text = ss'.map Stmt.text) :
    Stmt.recodeAll .bare ss = Stmt.recodeAll .bare ss' := by
  have hblock : (Stmt.block ss).text = (Stmt.block ss').text := by
    rw [Stmt.text, Stmt.text, Stmt.textAll_eq_join, Stmt.textAll_eq_join, he]
  exact Stmt.block.inj ((Stmt.Readable.block h).eq_of_text (.block h') hblock)

/-! ## Programs -/

/-- A source that is parsed without errors, in which there are no strings and only finite
numbers. -/
structure IsLegible (mode : CommentMode) (source : String) : Prop where
  parsed : (parse (tokensOf (scan mode source))).errors = []
  literals : ∀ t ∈ tokensOf (scan mode source), t.kind.IsLegible

/-- The tokens that are parsed are those up to the end marker that are no comments. -/
theorem IsLegible.legible {mode : CommentMode} {source : String} (h : IsLegible mode source) :
    ∀ t ∈ (TokenSequence.ofTokens (tokensOf (scan mode source))).tokens, t.Legible := by
  intro t ht
  rw [TokenSequence.tokens_ofTokens] at ht
  obtain ⟨hmem, hcomment⟩ := List.mem_filter.mp ((List.takeWhile_subset _) ht)
  have heof := List.mem_takeWhile_imp ht
  have hne {k : Kind} (hk : k.IsPlain) (hs : (!t.kind.sameAs k) = true) : t.kind ≠ k := by
    intro he
    rw [(Kind.sameAs_iff_eq hk).mpr he] at hs
    cases hs
  have hl := (lexeme_of_mem_scan hmem).resolve_left (hne (k := .eof) trivial heof)
  exact ⟨hl, h.literals t hmem, hne (k := .comment) trivial hcomment⟩

/-- The statements of a legible source can be read back from their texts. -/
theorem IsLegible.readable {mode : CommentMode} {source : String} (h : IsLegible mode source) :
    Stmt.ReadableAll (parse (tokensOf (scan mode source))).statements :=
  (declarations_of_parse h.parsed).readable h.legible

theorem Labeling.recodeAll_bare {statements : List (Stmt Unit)} {first next : NodeId}
    {program : List (Stmt NodeId)} (h : Labeling statements first next program) :
    Stmt.recodeAll .bare program = Stmt.recodeAll .bare statements := by
  rw [← h.forget, Stmt.recodeAll_recodeAll]
  rfl

theorem Labeling.map_text {statements : List (Stmt Unit)} {first next : NodeId}
    {program : List (Stmt NodeId)} (h : Labeling statements first next program) :
    program.map Stmt.text = statements.map Stmt.text := by
  rw [← h.forget, Stmt.map_text_recodeAll]

/-- The printed tree determines the program. Take two sources that are parsed without errors, in
which there are no strings and only finite numbers, and let the nodes of their trees have any
numbers. Then the statements of both are printed as the same texts if and only if both programs are
the same but for lines and the numbers of nodes. -/
theorem printed_tree_determines_program {mode mode' : CommentMode} {source source' : String}
    (h : IsLegible mode source) (h' : IsLegible mode' source')
    {first next first' next' : NodeId} {program program' : List (Stmt NodeId)}
    (hp : Labeling (parse (tokensOf (scan mode source))).statements first next program)
    (hp' : Labeling (parse (tokensOf (scan mode' source'))).statements first' next' program') :
    program.map Stmt.text = program'.map Stmt.text ↔
      Stmt.recodeAll .bare program = Stmt.recodeAll .bare program' := by
  constructor
  · intro he
    rw [hp.map_text, hp'.map_text] at he
    rw [hp.recodeAll_bare, hp'.recodeAll_bare]
    exact h.readable.eq_of_texts h'.readable he
  · intro he
    rw [← Stmt.map_text_recodeAll .bare program, he, Stmt.map_text_recodeAll]

/-- A loop that is written in two ways, over several lines and with other digits. -/
theorem printed_tree_determines_program_of_loops :
    let source := "for (; a;) print 1.50;"
    let source' := "// the same\nwhile (a)\n  print 1.5;"
    let read (mode : CommentMode) (source : String) (first : NodeId) : List (Stmt NodeId) :=
      ((Stmt.numberAll (parse (tokensOf (scan mode source))).statements).run first).1
    (read .skip source 0).map Stmt.text = ["(while a (print 1.5))"] ∧
      Stmt.recodeAll .bare (read .skip source 0) =
        Stmt.recodeAll .bare (read .keep source' 7) := by
  intro source source' read
  have h : IsLegible .skip source := ⟨by decide +kernel, by decide +kernel⟩
  have h' : IsLegible .keep source' := ⟨by decide +kernel, by decide +kernel⟩
  have ht : (read .skip source 0).map Stmt.text = ["(while a (print 1.5))"] := by decide +kernel
  have ht' : (read .keep source' 7).map Stmt.text = ["(while a (print 1.5))"] := by decide +kernel
  exact ⟨ht, (printed_tree_determines_program h h' (labeling_numberAll _ 0)
    (labeling_numberAll _ 7)).mp (ht.trans ht'.symm)⟩

end Lox
