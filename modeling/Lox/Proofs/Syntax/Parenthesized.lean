import Lox.Proofs.Token.Lexemes
import Lox.Syntax.Printer

/-!
# Texts in parentheses

A tree is printed as words and lists: a `Sexp`. A word is put down as it is, and a list between
parentheses, with one blank between its items.

* `Sexp.Proper.eq_of_chars`: words without blanks and parentheses can be told apart, so the text of
  such words and lists determines them;
* `Expr.toList_text`, `Stmt.toList_text`: trees are printed in this form.
-/

namespace Lox

/-- A word, or a list of such. -/
inductive Sexp where
  | word (text : String)
  | list (items : List Sexp)

/-! ## Text -/

namespace Sexp

mutual

/-- The text of a word or a list. -/
def chars : Sexp → List Char
  | .word text => text.toList
  | .list [] => ['(', ')']
  | .list (s :: ss) => '(' :: (s.chars ++ (spaced ss ++ [')']))

/-- The texts of the items of a list but the first, each after a blank. -/
def spaced : List Sexp → List Char
  | [] => []
  | s :: ss => ' ' :: (s.chars ++ spaced ss)

end

/-- A list of which the text is known where it is continued. -/
theorem chars_list {items : List Sexp} {text : List Char} (h : ' ' :: text = spaced items) :
    (list items).chars = '(' :: (text ++ [')']) := by
  cases items with
  | nil => cases h
  | cons s ss =>
    rw [chars, (List.cons.inj h).2, List.append_assoc]

/-- The characters of words. -/
def isPart (c : Char) : Bool := c != ' ' && c != '(' && c != ')'

/-- Whether a text can stand as a word. -/
def IsPlain (text : List Char) : Prop := text ≠ [] ∧ text.all isPart

instance (text : List Char) : Decidable (IsPlain text) := inferInstanceAs (Decidable (_ ∧ _))

mutual

/-- Whether all words can stand as such. -/
def Proper : Sexp → Prop
  | .word text => IsPlain text.toList
  | .list items => ProperAll items

/-- Whether all words of several items can stand as such. -/
def ProperAll : List Sexp → Prop
  | [] => True
  | s :: ss => s.Proper ∧ ProperAll ss

end

/-! ## The text determines the items -/

/-- A word ends where its text ends. -/
theorem IsPlain.eq_of_append {text text' rest rest' : List Char} (h : IsPlain text)
    (h' : IsPlain text') (hr : NotNext isPart rest) (hr' : NotNext isPart rest')
    (he : text ++ rest = text' ++ rest') : text = text' ∧ rest = rest' := by
  have ht := congrArg (List.takeWhile isPart) he
  rw [takeWhile_append_of_notNext (List.all_eq_true.mp h.2) hr,
    takeWhile_append_of_notNext (List.all_eq_true.mp h'.2) hr'] at ht
  subst ht
  exact ⟨rfl, List.append_cancel_left he⟩

theorem notNext_spaced (ss : List Sexp) (rest : List Char) :
    NotNext isPart (spaced ss ++ ')' :: rest) := by
  intro c hc
  cases ss with
  | nil =>
    cases hc
    rfl
  | cons s ss =>
    cases hc
    rfl

/-- A text begins with a part of a word or with a parenthesis. -/
theorem Proper.chars_ne {s : Sexp} (h : s.Proper) (rest rest' : List Char) :
    s.chars ++ rest ≠ ')' :: rest' := by
  cases s with
  | word text =>
    obtain ⟨hne, hp⟩ := h
    obtain ⟨c, cs, ht⟩ := List.exists_cons_of_ne_nil hne
    intro he
    rw [chars, ht, List.cons_append] at he
    have hc := List.all_eq_true.mp hp c (by simp [ht])
    rw [(List.cons.inj he).1] at hc
    cases hc
  | list items =>
    intro he
    cases items <;> cases he

theorem IsPlain.ne_list {text : List Char} (h : IsPlain text) (items : List Sexp)
    (rest rest' : List Char) : text ++ rest ≠ (Sexp.list items).chars ++ rest' := by
  obtain ⟨hne, hp⟩ := h
  obtain ⟨c, cs, rfl⟩ := List.exists_cons_of_ne_nil hne
  intro he
  have hc : c = '(' := by
    cases items with
    | nil => exact (List.cons.inj he).1
    | cons s ss => exact (List.cons.inj he).1
  have hpart := List.all_eq_true.mp hp c List.mem_cons_self
  rw [hc] at hpart
  cases hpart

mutual

/-- Where the text of an item ends is known from what follows: a blank, a parenthesis or
nothing. -/
theorem Proper.eq_of_append : (s s' : Sexp) → s.Proper → s'.Proper → (rest rest' : List Char) →
    NotNext isPart rest → NotNext isPart rest' → s.chars ++ rest = s'.chars ++ rest' →
    s = s' ∧ rest = rest'
  | .word text, .word text', h, h', rest, rest', hr, hr', he => by
    obtain ⟨ht, hrest⟩ := IsPlain.eq_of_append h h' hr hr' he
    exact ⟨congrArg Sexp.word (String.toList_inj.mp ht), hrest⟩
  | .word _, .list items, h, _, rest, rest', _, _, he => absurd he (h.ne_list items rest rest')
  | .list items, .word _, _, h', rest, rest', _, _, he =>
    absurd he.symm (h'.ne_list items rest' rest)
  | .list [], .list [], _, _, _, _, _, _, he => by
    simp only [chars, List.cons_append, List.nil_append] at he
    exact ⟨rfl, (List.cons.inj (List.cons.inj he).2).2⟩
  | .list [], .list (s :: ss), _, h', rest, rest', _, _, he => by
    simp only [chars, List.cons_append, List.append_assoc] at he
    exact absurd (List.cons.inj he).2.symm (h'.1.chars_ne _ _)
  | .list (s :: ss), .list [], h, _, rest, rest', _, _, he => by
    simp only [chars, List.cons_append, List.append_assoc] at he
    exact absurd (List.cons.inj he).2 (h.1.chars_ne _ _)
  | .list (s :: ss), .list (s' :: ss'), h, h', rest, rest', _, _, he => by
    simp only [chars, List.cons_append, List.append_assoc, List.nil_append] at he
    obtain ⟨rfl, hs⟩ := Proper.eq_of_append s s' h.1 h'.1 _ _ (notNext_spaced ss rest)
      (notNext_spaced ss' rest') (List.cons.inj he).2
    obtain ⟨rfl, hrest⟩ := ProperAll.eq_of_append ss ss' h.2 h'.2 rest rest' hs
    exact ⟨rfl, hrest⟩

theorem ProperAll.eq_of_append : (ss ss' : List Sexp) → ProperAll ss → ProperAll ss' →
    (rest rest' : List Char) → spaced ss ++ ')' :: rest = spaced ss' ++ ')' :: rest' →
    ss = ss' ∧ rest = rest'
  | [], [], _, _, _, _, he => ⟨rfl, (List.cons.inj he).2⟩
  | [], s :: ss, _, _, _, _, he => by
    simp only [spaced, List.nil_append, List.cons_append] at he
    exact absurd (List.cons.inj he).1 (by decide)
  | s :: ss, [], _, _, _, _, he => by
    simp only [spaced, List.nil_append, List.cons_append] at he
    exact absurd (List.cons.inj he).1 (by decide)
  | s :: ss, s' :: ss', h, h', rest, rest', he => by
    simp only [spaced, List.cons_append, List.append_assoc] at he
    obtain ⟨rfl, hs⟩ := Proper.eq_of_append s s' h.1 h'.1 _ _ (notNext_spaced ss rest)
      (notNext_spaced ss' rest') (List.cons.inj he).2
    obtain ⟨rfl, hrest⟩ := ProperAll.eq_of_append ss ss' h.2 h'.2 rest rest' hs
    exact ⟨rfl, hrest⟩

end

theorem Proper.eq_of_chars {s s' : Sexp} (h : s.Proper) (h' : s'.Proper)
    (he : s.chars = s'.chars) : s = s' := by
  refine (Proper.eq_of_append s s' h h' [] [] ?_ ?_ (by rw [he])).1
  · exact fun _ hc => by cases hc
  · exact fun _ hc => by cases hc

end Sexp

/-! ## Trees -/

section

variable {ι : Type}

mutual

/-- An expression as words and lists. -/
def Expr.sexp : Expr ι → Sexp
  | .literal value => .word value.text
  | .group inner => .list [.word "group", inner.sexp]
  | .unary operator right => .list [.word operator.lexeme, right.sexp]
  | .binary left operator right => .list [.word operator.lexeme, left.sexp, right.sexp]
  | .logical left operator right => .list [.word operator.lexeme, left.sexp, right.sexp]
  | .variable _ name => .word name.text
  | .assign _ name value => .list [.word "=", .word name.text, value.sexp]
  | .call callee _ arguments => .list (.word "call" :: callee.sexp :: Expr.sexpAll arguments)
  | .get object name => .list [.word ".", object.sexp, .word name.text]
  | .set object name value =>
    .list [.word "=", .list [.word ".", object.sexp, .word name.text], value.sexp]
  | .this _ _ => .word "this"
  | .super _ _ method => .list [.word "super", .word method.text]

/-- Several expressions as words and lists. -/
def Expr.sexpAll : List (Expr ι) → List Sexp
  | [] => []
  | e :: es => e.sexp :: Expr.sexpAll es

end

/-- An expression as a word or a list, if there is one. -/
def Expr.sexp? : Option (Expr ι) → List Sexp
  | none => []
  | some e => [e.sexp]

/-- The superclass of a class, after a word that announces it. -/
def Expr.ancestry : Option (Expr ι) → List Sexp
  | none => []
  | some e => [.word "<", e.sexp]

mutual

/-- A statement as words and lists. -/
def Stmt.sexp : Stmt ι → Sexp
  | .expression e => .list [.word ";", e.sexp]
  | .print e => .list [.word "print", e.sexp]
  | .var name initializer => .list (.word "var" :: .word name.text :: Expr.sexp? initializer)
  | .block body => .list (.word "block" :: Stmt.sexpAll body)
  | .ifElse condition thenBranch elseBranch =>
    .list (.word "if" :: condition.sexp :: thenBranch.sexp :: Stmt.sexp? elseBranch)
  | .while condition body => .list [.word "while", condition.sexp, body.sexp]
  | .function declaration => .list (.word "fun" :: declaration.sexps)
  | .return _ value => .list (.word "return" :: Expr.sexp? value)
  | .class name superclass methods =>
    .list (.word "class" :: .word name.text ::
      (Expr.ancestry superclass ++ FunDecl.sexpAll methods))

/-- A statement as a word or a list, if there is one. -/
def Stmt.sexp? : Option (Stmt ι) → List Sexp
  | none => []
  | some s => [s.sexp]

/-- Several statements as words and lists. -/
def Stmt.sexpAll : List (Stmt ι) → List Sexp
  | [] => []
  | s :: ss => s.sexp :: Stmt.sexpAll ss

/-- The items of a function: its name, the list of its parameters, and its body. -/
def FunDecl.sexps : FunDecl ι → List Sexp
  | .mk name params body =>
    .word name.text :: .list (params.map fun p => .word p.text) :: Stmt.sexpAll body

/-- Several functions as lists. -/
def FunDecl.sexpAll : List (FunDecl ι) → List Sexp
  | [] => []
  | f :: fs => .list f.sexps :: FunDecl.sexpAll fs

end

mutual

/-- Expressions are printed as words and lists. -/
theorem Expr.toList_text : (e : Expr ι) → e.text.toList = e.sexp.chars
  | .literal _ => rfl
  | .group inner => by
    simp [Expr.text, Expr.sexp, Sexp.chars, Sexp.spaced, inner.toList_text]
  | .unary operator right => by
    simp [Expr.text, Expr.sexp, Sexp.chars, Sexp.spaced, right.toList_text]
  | .binary left operator right => by
    simp [Expr.text, Expr.sexp, Sexp.chars, Sexp.spaced, left.toList_text, right.toList_text]
  | .logical left operator right => by
    simp [Expr.text, Expr.sexp, Sexp.chars, Sexp.spaced, left.toList_text, right.toList_text]
  | .variable _ _ => rfl
  | .assign _ name value => by
    simp [Expr.text, Expr.sexp, Sexp.chars, Sexp.spaced, value.toList_text]
  | .call callee _ arguments => by
    simp [Expr.text, Expr.sexp, Sexp.chars, Sexp.spaced, callee.toList_text,
      Expr.toList_textAll arguments]
  | .get object name => by
    simp [Expr.text, Expr.sexp, Sexp.chars, Sexp.spaced, object.toList_text]
  | .set object name value => by
    simp [Expr.text, Expr.sexp, Sexp.chars, Sexp.spaced, object.toList_text, value.toList_text]
  | .this _ _ => rfl
  | .super _ _ method => by
    simp [Expr.text, Expr.sexp, Sexp.chars, Sexp.spaced]

theorem Expr.toList_textAll : (es : List (Expr ι)) →
    (Expr.textAll es).toList = Sexp.spaced (Expr.sexpAll es)
  | [] => rfl
  | e :: es => by
    simp [Expr.textAll, Expr.sexpAll, Sexp.spaced, e.toList_text, Expr.toList_textAll es]

end

theorem Expr.toList_text? (o : Option (Expr ι)) :
    (Expr.text? o).toList = Sexp.spaced (Expr.sexp? o) := by
  cases o with
  | none => rfl
  | some e => simp [Expr.text?, Expr.sexp?, Sexp.spaced, e.toList_text]

/-- Parameters are printed as a list. -/
theorem chars_params (params : List Name) :
    (Sexp.list (params.map fun p => .word p.text)).chars =
      '(' :: ((" ".intercalate (params.map Name.text)).toList ++ [')']) := by
  have hcons (p : Name) (params : List Name) :
      (" ".intercalate ((p :: params).map Name.text)).toList =
        p.text.toList ++ Sexp.spaced (params.map fun p => .word p.text) := by
    induction params generalizing p with
    | nil => simp [Sexp.spaced]
    | cons q params ih =>
      rw [List.map_cons, List.map_cons, String.intercalate_cons_cons, ← List.map_cons,
        String.toList_append, ih q]
      simp [Sexp.spaced, Sexp.chars]
  cases params with
  | nil => rfl
  | cons p params =>
    rw [hcons p params, List.map_cons, Sexp.chars, Sexp.chars, List.append_assoc]

mutual

/-- Statements are printed as words and lists. -/
theorem Stmt.toList_text : (s : Stmt ι) → s.text.toList = s.sexp.chars
  | .expression e => by
    simp [Stmt.text, Stmt.sexp, Sexp.chars, Sexp.spaced, e.toList_text]
  | .print e => by
    simp [Stmt.text, Stmt.sexp, Sexp.chars, Sexp.spaced, e.toList_text]
  | .var name initializer => by
    simp [Stmt.text, Stmt.sexp, Sexp.chars, Sexp.spaced, Expr.toList_text? initializer]
  | .block body => by
    simp [Stmt.text, Stmt.sexp, Sexp.chars, Stmt.toList_textAll body]
  | .ifElse condition thenBranch elseBranch => by
    simp [Stmt.text, Stmt.sexp, Sexp.chars, Sexp.spaced, condition.toList_text,
      thenBranch.toList_text, Stmt.toList_text? elseBranch]
  | .while condition body => by
    simp [Stmt.text, Stmt.sexp, Sexp.chars, Sexp.spaced, condition.toList_text, body.toList_text]
  | .function declaration => by
    simp [Stmt.text, Stmt.sexp, Sexp.chars, ← declaration.toList_text]
  | .return _ value => by
    simp [Stmt.text, Stmt.sexp, Sexp.chars, Expr.toList_text? value]
  | .class name superclass methods => by
    cases superclass with
    | none =>
      simp [Stmt.text, Stmt.sexp, Expr.ancestry, Sexp.chars, Sexp.spaced,
        FunDecl.toList_textAll methods]
    | some e =>
      simp [Stmt.text, Stmt.sexp, Expr.ancestry, Sexp.chars, Sexp.spaced, e.toList_text,
        FunDecl.toList_textAll methods]

theorem Stmt.toList_text? : (o : Option (Stmt ι)) →
    (Stmt.text? o).toList = Sexp.spaced (Stmt.sexp? o)
  | none => rfl
  | some s => by simp [Stmt.text?, Stmt.sexp?, Sexp.spaced, s.toList_text]

theorem Stmt.toList_textAll : (ss : List (Stmt ι)) →
    (Stmt.textAll ss).toList = Sexp.spaced (Stmt.sexpAll ss)
  | [] => rfl
  | s :: ss => by
    simp [Stmt.textAll, Stmt.sexpAll, Sexp.spaced, s.toList_text, Stmt.toList_textAll ss]

theorem FunDecl.toList_text : (f : FunDecl ι) → ' ' :: f.text.toList = Sexp.spaced f.sexps
  | .mk name params body => by
    simp [FunDecl.text, FunDecl.sexps, Sexp.spaced, chars_params, Sexp.chars,
      Stmt.toList_textAll body]

theorem FunDecl.toList_textAll : (fs : List (FunDecl ι)) →
    (FunDecl.textAll fs).toList = Sexp.spaced (FunDecl.sexpAll fs)
  | [] => rfl
  | f :: fs => by
    simp [FunDecl.textAll, FunDecl.sexpAll, Sexp.spaced, Sexp.chars_list f.toList_text,
      FunDecl.toList_textAll fs]

end

end

end Lox
