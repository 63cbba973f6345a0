import Lox.Proofs.Syntax.Parenthesized
import Lox.Proofs.Syntax.Recoding
import Lox.Proofs.Syntax.Recognition
import Lox.Proofs.Token.Numerals

/-!
# Reading printed trees

`Sexp.expr?` and `Sexp.stmt?` read the words and lists that a tree is printed as. They give the tree
without labels and lines, which are not printed (`Recoding.bare`). A tree is `Readable` if they do,
and if its words can be told apart.

* `Expr.Readable.group`, …: a tree of readable parts is readable, form by form;
* `Grammar.Expression.readable`, …, `Grammar.Declarations.readable`: every sentence of legible
  tokens has a readable tree.
-/

namespace Lox

/-! ## Words -/

/-- The kinds of words: neither parentheses nor what may contain a blank. -/
def Kind.IsWord : Kind → Prop
  | .symbol .leftParen | .symbol .rightParen | .string _ | .comment => False
  | _ => True

theorem isPart_of_isWordPart {c : Char} (h : isWordPart c) : Sexp.isPart c := by
  have hne (d : Char) (hd : isWordPart d = false) : c ≠ d := by
    rintro rfl
    rw [hd] at h
    cases h
  simp [Sexp.isPart, hne ' ' (by decide), hne '(' (by decide), hne ')' (by decide)]

theorem isPart_of_isDigit {c : Char} (h : c.isDigit) : Sexp.isPart c := by
  refine isPart_of_isWordPart ?_
  simp [isWordPart, Char.isAlphanum, h]

theorem IsWord.isPlain {text : List Char} (h : IsWord text) : Sexp.IsPlain text := by
  obtain ⟨c, cs, rfl, hc, hs⟩ := h.exists_cons
  refine ⟨List.cons_ne_nil c cs, List.all_eq_true.mpr fun d hd => ?_⟩
  rcases List.mem_cons.mp hd with rfl | hd
  · exact isPart_of_isWordPart (isWordPart_of_isWordStart hc)
  · exact isPart_of_isWordPart (hs d hd)

theorem Lexeme.isPlain {kind : Kind} {text : List Char} (h : Lexeme kind text)
    (hk : kind.IsWord) : Sexp.IsPlain text := by
  cases h with
  | symbol s => cases s <;> first | exact hk.elim | decide
  | keyword k => exact k.isWord_text.isPlain
  | identifier h => exact h.isPlain
  | whole h => exact ⟨h.1, List.all_eq_true.mpr fun c hc => isPart_of_isDigit (h.2 c hc)⟩
  | @fraction whole digits h hd =>
    refine ⟨List.append_ne_nil_of_left_ne_nil h.1 _, List.all_eq_true.mpr fun c hc => ?_⟩
    rcases List.mem_append.mp hc with hc | hc
    · exact isPart_of_isDigit (h.2 c hc)
    rcases List.mem_cons.mp hc with rfl | hc
    · rfl
    · exact isPart_of_isDigit (hd.2 c hc)
  | string => exact hk.elim
  | comment => exact hk.elim

/-- The token that a word is, on no line. -/
def Token.ofText (text : String) : Token :=
  match tokensOf (scan .skip text) with
  | t :: _ => ⟨t.kind, text, 0⟩
  | [] => ⟨.eof, text, 0⟩

theorem Token.ofText_of_lexeme {kind : Kind} {text : String} (h : Lexeme kind text.toList)
    (hk : kind.IsWord) : ofText text = ⟨kind, text, 0⟩ := by
  have hcomment : kind ≠ .comment := by
    rintro rfl
    exact hk
  unfold ofText
  rw [scan_lexeme h hcomment]
  rfl

/-- Strings are printed without quotes, and numbers that are not finite have no literal. -/
def Kind.IsLegible : Kind → Prop
  | .string _ => False
  | .number value => value.isFinite
  | _ => True

instance : DecidablePred Kind.IsLegible
  | .string _ => .isFalse id
  | .number value => inferInstanceAs (Decidable (value.isFinite = true))
  | .symbol _ | .identifier | .keyword _ | .comment | .eof => .isTrue trivial

/-- A token of which the text tells what it means. -/
structure Token.Legible (t : Token) : Prop where
  lexeme : Lexeme t.kind t.lexeme.toList
  literal : t.kind.IsLegible
  comment : t.kind ≠ .comment

theorem Token.Legible.string {t : Token} (h : t.Legible) (value : String) :
    t.kind ≠ .string value := by
  intro hk
  have hl := h.literal
  rwa [hk] at hl

theorem Token.Legible.number {t : Token} (h : t.Legible) {value : Float}
    (hk : t.kind = .number value) : value.isFinite := by
  have hl := h.literal
  rwa [hk] at hl

theorem Lexeme.eq_of_symbol {s : Symbol} {text : List Char} (h : Lexeme (.symbol s) text) :
    text = s.text.toList := by
  cases h
  rfl

theorem Lexeme.eq_of_keyword {k : Keyword} {text : List Char} (h : Lexeme (.keyword k) text) :
    text = k.text.toList := by
  cases h
  rfl

theorem Token.Legible.lexeme_of_symbol {t : Token} (h : t.Legible) {s : Symbol}
    (hk : t.kind = .symbol s) : t.lexeme = s.text := by
  have hl := h.lexeme
  rw [hk] at hl
  exact String.toList_inj.mp hl.eq_of_symbol

theorem Token.Legible.lexeme_of_keyword {t : Token} (h : t.Legible) {k : Keyword}
    (hk : t.kind = .keyword k) : t.lexeme = k.text := by
  have hl := h.lexeme
  rw [hk] at hl
  exact String.toList_inj.mp hl.eq_of_keyword

/-! ## Expressions -/

/-- Leaves out labels and lines. -/
def Recoding.bare {ι : Type} : Recoding ι Unit := ⟨fun _ => (), fun _ => 0⟩

/-- The expression that a single word is. -/
def Expr.ofWord? (t : Token) : Option (Expr Unit) :=
  match t.kind with
  | .keyword .nil => some (.literal .nil)
  | .keyword .true => some (.literal (.bool true))
  | .keyword .false => some (.literal (.bool false))
  | .keyword .this => some (.this () t.toName)
  | .number value => some (.literal (.number value))
  | .identifier => some (.variable () t.toName)
  | _ => none

/-- The expression of a list, by its first word and the expressions behind it. As in a source, it is
known from the target what an assignment assigns to. -/
def Expr.ofParts? (head : String) (parts : List (Expr Unit)) : Option (Expr Unit) :=
  match head, parts with
  | "group", [inner] => some (.group inner)
  | "call", callee :: arguments => some (.call callee 0 arguments)
  | "super", [.variable _ method] => some (.super () ⟨"super", 0⟩ method)
  | ".", [object, .variable _ name] => some (.get object name)
  | "=", [.variable _ name, value] => some (.assign () name value)
  | "=", [.get object name, value] => some (.set object name value)
  | operator, [right] => some (.unary (Token.ofText operator) right)
  | operator, [left, right] =>
    (Level.all.find? fun level => level.operators.any (Token.ofText operator).kind.sameAs).map
      fun level => level.node left (Token.ofText operator) right
  | _, _ => none

/-- The words that begin lists, but for operators. -/
def Expr.heads : List String := ["group", "call", "super", ".", "="]

theorem Expr.ofParts?_one {head : String} (h : head ∉ heads) (right : Expr Unit) :
    ofParts? head [right] = some (.unary (Token.ofText head) right) := by
  simp only [heads, List.mem_cons, not_or] at h
  simp [ofParts?, h]

theorem Expr.ofParts?_two {head : String} (h : head ∉ heads) (left right : Expr Unit) :
    ofParts? head [left, right] =
      (Level.all.find? fun level => level.operators.any (Token.ofText head).kind.sameAs).map
        fun level => level.node left (Token.ofText head) right := by
  simp only [heads, List.mem_cons, not_or] at h
  simp [ofParts?, h]

theorem isWord_prefixOperators : ∀ k ∈ prefixOperators, k.IsWord := by
  simp [prefixOperators, Kind.IsWord]

theorem Level.isWord_operators (level : Level) : ∀ k ∈ level.operators, k.IsWord := by
  cases level <;> simp [operators, Kind.IsWord]

/-- The level of an operator is found. -/
theorem Level.find?_operators {level : Level} {k : Kind} (hk : k ∈ level.operators) :
    (Level.all.find? fun level => level.operators.any k.sameAs) = some level := by
  cases hf : Level.all.find? fun level => level.operators.any k.sameAs with
  | none =>
    have hn := List.find?_eq_none.mp hf level (by cases level <;> decide)
    exact absurd ((Kind.any_sameAs_iff_mem level.isPlain_operators).mpr hk) hn
  | some found =>
    have hany := List.find?_some (p := fun level : Level => level.operators.any k.sameAs) hf
    have hfound := (Kind.any_sameAs_iff_mem found.isPlain_operators).mp hany
    rw [Level.eq_of_mem_operators k hfound hk]

theorem Token.Legible.notMem_heads {t : Token} (h : t.Legible)
    (hk : t.kind ∈ prefixOperators ∨ ∃ level : Level, t.kind ∈ level.operators) :
    t.lexeme ∉ Expr.heads := by
  have hsymbol {s : Symbol} (hs : t.kind = .symbol s) (hn : s.text ∉ Expr.heads) :
      t.lexeme ∉ Expr.heads := by
    rwa [h.lexeme_of_symbol hs]
  have hkeyword {k : Keyword} (hs : t.kind = .keyword k) (hn : k.text ∉ Expr.heads) :
      t.lexeme ∉ Expr.heads := by
    rwa [h.lexeme_of_keyword hs]
  rcases hk with hk | ⟨level, hk⟩
  · simp only [prefixOperators, List.mem_cons, List.not_mem_nil, or_false] at hk
    rcases hk with hk | hk
    · exact hsymbol hk (by decide)
    · exact hsymbol hk (by decide)
  · cases level with
    | or => exact hkeyword (List.mem_singleton.mp hk) (by decide)
    | and => exact hkeyword (List.mem_singleton.mp hk) (by decide)
    | comparison =>
      simp only [Level.operators, List.mem_cons, List.not_mem_nil, or_false] at hk
      rcases hk with hk | hk | hk | hk <;> exact hsymbol hk (by decide)
    | _ =>
      simp only [Level.operators, List.mem_cons, List.not_mem_nil, or_false] at hk
      rcases hk with hk | hk <;> exact hsymbol hk (by decide)

namespace Sexp

mutual

/-- Reads an expression. -/
def expr? : Sexp → Option (Expr Unit)
  | .word text => Expr.ofWord? (Token.ofText text)
  | .list (.word head :: items) => do Expr.ofParts? head (← exprs? items)
  | .list _ => none

/-- Reads several expressions. -/
def exprs? : List Sexp → Option (List (Expr Unit))
  | [] => some []
  | s :: ss => do return (← s.expr?) :: (← exprs? ss)

end

variable {s s' : Sexp} {ss : List Sexp} {e e' : Expr Unit} {es : List (Expr Unit)}

theorem exprs?_cons (h : s.expr? = some e) (hs : exprs? ss = some es) :
    exprs? (s :: ss) = some (e :: es) := by
  rw [exprs?, h, hs]
  rfl

theorem exprs?_pair (h : s.expr? = some e) (h' : s'.expr? = some e') :
    exprs? [s, s'] = some [e, e'] := exprs?_cons h (exprs?_cons h' rfl)

theorem expr?_list {head : String} (hs : exprs? ss = some es) :
    (list (.word head :: ss)).expr? = Expr.ofParts? head es := by
  rw [expr?, hs]
  rfl

end Sexp

/-- An expression that is known from its text, but for lines. -/
structure Expr.Readable (e : Expr Unit) : Prop where
  proper : e.sexp.Proper
  read : e.sexp.expr? = some (e.recode .bare)

/-- Several expressions that are known from their texts. -/
structure Expr.ReadableAll (es : List (Expr Unit)) : Prop where
  proper : Sexp.ProperAll (Expr.sexpAll es)
  read : Sexp.exprs? (Expr.sexpAll es) = some (Expr.recodeAll .bare es)

namespace Expr.ReadableAll

theorem nil : ReadableAll [] := ⟨trivial, rfl⟩

theorem cons {e : Expr Unit} {es : List (Expr Unit)} (h : e.Readable) (hs : ReadableAll es) :
    ReadableAll (e :: es) := ⟨⟨h.proper, hs.proper⟩, Sexp.exprs?_cons h.read hs.read⟩

end Expr.ReadableAll

/-- A name is read as a variable. -/
theorem Token.Legible.read_name {t : Token} (h : t.Legible) (hk : t.kind = .identifier) :
    (Sexp.word t.lexeme).Proper ∧
      (Sexp.word t.lexeme).expr? = some (.variable () ⟨t.lexeme, 0⟩) := by
  have hl := h.lexeme
  rw [hk] at hl
  refine ⟨hl.isPlain trivial, ?_⟩
  rw [Sexp.expr?, Token.ofText_of_lexeme hl trivial]
  rfl

namespace Expr.Readable

variable {left right inner callee object value : Expr Unit} {t operator : Token}

theorem word {e : Expr Unit} {kind : Kind} {text : String} (hs : e.sexp = .word text)
    (hl : Lexeme kind text.toList) (hk : kind.IsWord)
    (he : Expr.ofWord? ⟨kind, text, 0⟩ = some (e.recode .bare)) : e.Readable := by
  refine ⟨?_, ?_⟩
  · rw [hs]
    exact hl.isPlain hk
  · rw [hs, Sexp.expr?, Token.ofText_of_lexeme hl hk, he]

theorem list {e : Expr Unit} {head : String} {items : List Sexp} {parts : List (Expr Unit)}
    (hs : e.sexp = .list (.word head :: items)) (hh : Sexp.IsPlain head.toList)
    (hp : Sexp.ProperAll items) (hr : Sexp.exprs? items = some parts)
    (he : Expr.ofParts? head parts = some (e.recode .bare)) : e.Readable := by
  refine ⟨?_, ?_⟩
  · rw [hs]
    exact ⟨hh, hp⟩
  · rw [hs, Sexp.expr?_list hr, he]

theorem name (h : t.Legible) (hk : t.kind = .identifier) :
    (Expr.variable () t.toName).Readable := by
  obtain ⟨hp, hr⟩ := h.read_name hk
  exact ⟨hp, hr⟩

theorem number {x : Float} (h : t.Legible) (hk : t.kind = .number x) :
    (Expr.literal (.number x) : Expr Unit).Readable := by
  have hl := h.lexeme
  rw [hk] at hl
  exact word rfl (hl.write rfl (h.number hk)) trivial rfl

theorem keyword {e : Expr Unit} {k : Keyword} (hs : e.sexp = .word k.text)
    (he : Expr.ofWord? ⟨.keyword k, k.text, 0⟩ = some (e.recode .bare)) : e.Readable :=
  word hs (.keyword k) trivial he

theorem this (h : t.Legible) (hk : t.kind = .keyword .this) :
    (Expr.this () t.toName : Expr Unit).Readable := by
  have htext : t.toName.text = "this" := h.lexeme_of_keyword hk
  refine keyword (k := .this) rfl ?_
  rw [Expr.recode, Name.relocate, htext]
  rfl

theorem group (h : inner.Readable) : (Expr.group inner).Readable :=
  list rfl (by decide) ⟨h.proper, trivial⟩ (Sexp.exprs?_cons h.read rfl) rfl

theorem call {arguments : List (Expr Unit)} (h : callee.Readable)
    (hs : Expr.ReadableAll arguments) (line : Nat) : (Expr.call callee line arguments).Readable :=
  list rfl (by decide) ⟨h.proper, hs.proper⟩ (Sexp.exprs?_cons h.read hs.read) rfl

theorem get (h : object.Readable) (ht : t.Legible) (hk : t.kind = .identifier) :
    (Expr.get object t.toName).Readable := by
  obtain ⟨hp, hr⟩ := ht.read_name hk
  exact list rfl (by decide) ⟨h.proper, hp, trivial⟩ (Sexp.exprs?_pair h.read hr) rfl

/-- The target of the assignment is read first, as the access to a property that it looks like. -/
theorem set (h : object.Readable) (ht : t.Legible) (hk : t.kind = .identifier)
    (hv : value.Readable) : (Expr.set object t.toName value).Readable := by
  have hget := h.get ht hk
  exact list rfl (by decide) ⟨hget.proper, hv.proper, trivial⟩ (Sexp.exprs?_pair hget.read hv.read)
    rfl

theorem assign (ht : t.Legible) (hk : t.kind = .identifier) (hv : value.Readable) :
    (Expr.assign () t.toName value).Readable := by
  obtain ⟨hp, hr⟩ := ht.read_name hk
  exact list rfl (by decide) ⟨hp, hv.proper, trivial⟩ (Sexp.exprs?_pair hr hv.read) rfl

theorem super {keyword : Token} (hs : keyword.Legible) (hsk : keyword.kind = .keyword .super)
    (ht : t.Legible) (hk : t.kind = .identifier) :
    (Expr.super () keyword.toName t.toName).Readable := by
  obtain ⟨hp, hr⟩ := ht.read_name hk
  refine list rfl (by decide) ⟨hp, trivial⟩ (Sexp.exprs?_cons hr rfl) ?_
  have htext : keyword.toName.text = "super" := hs.lexeme_of_keyword hsk
  rw [Expr.recode, Name.relocate, htext]
  rfl

theorem unary (ho : operator.Legible) (hk : operator.kind ∈ prefixOperators)
    (h : right.Readable) : (Expr.unary operator right).Readable := by
  have hword := isWord_prefixOperators _ hk
  refine list rfl (ho.lexeme.isPlain hword) ⟨h.proper, trivial⟩ (Sexp.exprs?_cons h.read rfl) ?_
  rw [Expr.ofParts?_one (ho.notMem_heads (.inl hk)), Token.ofText_of_lexeme ho.lexeme hword]
  rfl

theorem node {level : Level} (hl : left.Readable) (ho : operator.Legible)
    (hk : operator.kind ∈ level.operators) (hr : right.Readable) :
    (level.node left operator right).Readable := by
  have hword := level.isWord_operators _ hk
  have hs : (level.node left operator right).sexp =
      .list [.word operator.lexeme, left.sexp, right.sexp] := by
    cases level <;> rfl
  have he : (level.node left operator right).recode .bare =
      level.node (left.recode .bare) ⟨operator.kind, operator.lexeme, 0⟩ (right.recode .bare) := by
    cases level <;> rfl
  refine list hs (ho.lexeme.isPlain hword) ⟨hl.proper, hr.proper, trivial⟩
    (Sexp.exprs?_pair hl.read hr.read) ?_
  rw [Expr.ofParts?_two (ho.notMem_heads (.inr ⟨level, hk⟩)),
    Token.ofText_of_lexeme ho.lexeme hword, Level.find?_operators hk, he]
  rfl

end Expr.Readable

namespace Grammar

mutual

theorem Expression.readable {ts : List Token} {e : Expr Unit} :
    Expression ts e → (∀ t ∈ ts, t.Legible) → e.Readable
  | .assign hx _ hv, h => by
    simp only [List.forall_mem_cons] at h
    exact .assign h.1 hx (hv.readable h.2.2)
  | .set ho _ hx _ hv, h => by
    simp only [List.forall_mem_append, List.forall_mem_cons] at h
    exact .set (ho.readable h.1) h.2.2.1 hx (hv.readable h.2.2.2.2)
  | .binary hb, h => hb.readable h

theorem Binary.readable {levels : List Level} {ts : List Token} {e : Expr Unit} :
    Binary levels ts e → (∀ t ∈ ts, t.Legible) → e.Readable
  | .unary hu, h => hu.readable h
  | .level hl ho, h => by
    rw [List.forall_mem_append] at h
    exact ho.readable (hl.readable h.1) h.2

/-- What stands to the left is part of the tree. -/
theorem Operands.readable {level : Level} {levels : List Level} {left e : Expr Unit}
    {ts : List Token} : Operands level levels left ts e → left.Readable →
      (∀ t ∈ ts, t.Legible) → e.Readable
  | .nil, hl, _ => hl
  | .cons hk hr ho, hl, h => by
    simp only [List.forall_mem_append, List.forall_mem_cons] at h
    exact ho.readable (.node hl h.1 hk (hr.readable h.2.1)) h.2.2

theorem Unary.readable {ts : List Token} {e : Expr Unit} :
    Unary ts e → (∀ t ∈ ts, t.Legible) → e.Readable
  | .operator hk hr, h => by
    rw [List.forall_mem_cons] at h
    exact .unary h.1 hk (hr.readable h.2)
  | .call hc, h => hc.readable h

theorem Call.readable {ts : List Token} {e : Expr Unit} :
    Call ts e → (∀ t ∈ ts, t.Legible) → e.Readable
  | .mk hc hs, h => by
    rw [List.forall_mem_append] at h
    exact hs.readable (hc.readable h.1) h.2

theorem Calls.readable {callee e : Expr Unit} {ts : List Token} :
    Calls callee ts e → callee.Readable → (∀ t ∈ ts, t.Legible) → e.Readable
  | .nil, hc, _ => hc
  | .invoke _ _ hs, hc, h => by
    simp only [List.forall_mem_cons] at h
    exact hs.readable (.call hc .nil _) h.2.2
  | .invokeWith _ ha _ _ hs, hc, h => by
    simp only [List.forall_mem_append, List.forall_mem_cons] at h
    exact hs.readable (.call hc (ha.readable h.2.1) _) h.2.2.2
  | .property _ hx hs, hc, h => by
    simp only [List.forall_mem_cons] at h
    exact hs.readable (.get hc h.2.1 hx) h.2.2

theorem Arguments.readable {ts : List Token} {es : List (Expr Unit)} :
    Arguments ts es → (∀ t ∈ ts, t.Legible) → Expr.ReadableAll es
  | .one he, h => .cons (he.readable h) .nil
  | .cons he _ hs, h => by
    simp only [List.forall_mem_append, List.forall_mem_cons] at h
    exact .cons (he.readable h.1) (hs.readable h.2.2)

theorem Primary.readable {ts : List Token} {e : Expr Unit} :
    Primary ts e → (∀ t ∈ ts, t.Legible) → e.Readable
  | .false _, _ => .keyword (k := .false) rfl rfl
  | .true _, _ => .keyword (k := .true) rfl rfl
  | .nil _, _ => .keyword (k := .nil) rfl rfl
  | .number hk, h => .number (h _ List.mem_cons_self) hk
  | .string hk, h => absurd hk ((h _ List.mem_cons_self).string _)
  | .this hk, h => .this (h _ List.mem_cons_self) hk
  | .variable hk, h => .name (h _ List.mem_cons_self) hk
  | .group _ hi _, h => by
    simp only [List.forall_mem_append, List.forall_mem_cons] at h
    exact .group (hi.readable h.2.1)
  | .super ht _ hx, h => by
    simp only [List.forall_mem_cons] at h
    exact .super h.1 ht h.2.2.1 hx

end

end Grammar

/-! ## Statements -/

namespace Sexp

/-- Reads a name. -/
def name? : Sexp → Option Name
  | .word text => some ⟨text, 0⟩
  | .list _ => none

mutual

/-- Reads a statement. -/
def stmt? : Sexp → Option (Stmt Unit)
  | .list [.word ";", e] => do return .expression (← e.expr?)
  | .list [.word "print", e] => do return .print (← e.expr?)
  | .list [.word "var", .word name] => some (.var ⟨name, 0⟩ none)
  | .list [.word "var", .word name, e] => do return .var ⟨name, 0⟩ (some (← e.expr?))
  | .list (.word "block" :: body) => do return .block (← stmts? body)
  | .list [.word "if", condition, thenBranch] => do
    return .ifElse (← condition.expr?) (← thenBranch.stmt?) none
  | .list [.word "if", condition, thenBranch, elseBranch] => do
    return .ifElse (← condition.expr?) (← thenBranch.stmt?) (some (← elseBranch.stmt?))
  | .list [.word "while", condition, body] => do
    return .while (← condition.expr?) (← body.stmt?)
  | .list (.word "fun" :: declaration) => do return .function (← function? declaration)
  | .list [.word "return"] => some (.return ⟨"return", 0⟩ none)
  | .list [.word "return", e] => do return .return ⟨"return", 0⟩ (some (← e.expr?))
  | .list (.word "class" :: .word name :: .word "<" :: e :: methods) => do
    return .class ⟨name, 0⟩ (some (← e.expr?)) (← methods? methods)
  | .list (.word "class" :: .word name :: methods) => do
    return .class ⟨name, 0⟩ none (← methods? methods)
  | _ => none

/-- Reads several statements. -/
def stmts? : List Sexp → Option (List (Stmt Unit))
  | [] => some []
  | s :: ss => do return (← s.stmt?) :: (← stmts? ss)

/-- Reads the items of a function. -/
def function? : List Sexp → Option (FunDecl Unit)
  | .word name :: .list params :: body => do
    return .mk ⟨name, 0⟩ (← params.mapM name?) (← stmts? body)
  | _ => none

/-- Reads several methods. -/
def methods? : List Sexp → Option (List (FunDecl Unit))
  | [] => some []
  | .list items :: ss => do return (← function? items) :: (← methods? ss)
  | .word _ :: _ => none

end

end Sexp

/-- A statement that is known from its text, but for lines. -/
structure Stmt.Readable (s : Stmt Unit) : Prop where
  proper : s.sexp.Proper
  read : s.sexp.stmt? = some (s.recode .bare)

/-- Several statements that are known from their texts. -/
structure Stmt.ReadableAll (ss : List (Stmt Unit)) : Prop where
  proper : Sexp.ProperAll (Stmt.sexpAll ss)
  read : Sexp.stmts? (Stmt.sexpAll ss) = some (Stmt.recodeAll .bare ss)

/-- A function that is known from its text: its name, its parameters and its body. -/
structure FunDecl.Readable (f : FunDecl Unit) : Prop where
  proper : Sexp.ProperAll f.sexps
  read : Sexp.function? f.sexps = some (f.recode .bare)

/-- Several functions that are known from their texts. -/
structure FunDecl.ReadableAll (fs : List (FunDecl Unit)) : Prop where
  proper : Sexp.ProperAll (FunDecl.sexpAll fs)
  read : Sexp.methods? (FunDecl.sexpAll fs) = some (FunDecl.recodeAll .bare fs)

namespace Stmt.ReadableAll

theorem nil : ReadableAll [] := ⟨trivial, rfl⟩

theorem cons {s : Stmt Unit} {ss : List (Stmt Unit)} (h : s.Readable) (hs : ReadableAll ss) :
    ReadableAll (s :: ss) := by
  refine ⟨⟨h.proper, hs.proper⟩, ?_⟩
  rw [Stmt.sexpAll, Sexp.stmts?, h.read, hs.read]
  rfl

end Stmt.ReadableAll

namespace FunDecl.ReadableAll

theorem nil : ReadableAll [] := ⟨trivial, rfl⟩

theorem cons {f : FunDecl Unit} {fs : List (FunDecl Unit)} (h : f.Readable)
    (hs : ReadableAll fs) : ReadableAll (f :: fs) := by
  refine ⟨⟨h.proper, hs.proper⟩, ?_⟩
  rw [FunDecl.sexpAll, Sexp.methods?, h.read, hs.read]
  rfl

end FunDecl.ReadableAll

/-- The words of a list of names, and what is read from them. -/
theorem Sexp.read_names {params : List Name}
    (h : ∀ p ∈ params, Sexp.IsPlain p.text.toList) :
    Sexp.ProperAll (params.map fun p => .word p.text) ∧
      (params.map fun p => .word p.text).mapM Sexp.name? =
        some (params.map (Name.relocate fun _ => 0)) := by
  induction params with
  | nil => exact ⟨trivial, rfl⟩
  | cons p params ih =>
    rw [List.forall_mem_cons] at h
    obtain ⟨hp, hr⟩ := ih h.2
    refine ⟨⟨h.1, hp⟩, ?_⟩
    rw [List.map_cons, List.mapM_cons, hr]
    rfl

theorem Token.Legible.isPlain_name {t : Token} (h : t.Legible) (hk : t.kind = .identifier) :
    Sexp.IsPlain t.lexeme.toList := (h.read_name hk).1

theorem FunDecl.Readable.of_parts {t : Token} {params : List Name} {body : List (Stmt Unit)}
    (ht : t.Legible) (hk : t.kind = .identifier)
    (hp : ∀ p ∈ params, Sexp.IsPlain p.text.toList) (hb : Stmt.ReadableAll body) :
    (FunDecl.mk t.toName params body).Readable := by
  obtain ⟨hproper, hread⟩ := Sexp.read_names hp
  refine ⟨⟨ht.isPlain_name hk, hproper, hb.proper⟩, ?_⟩
  rw [FunDecl.sexps, Sexp.function?, hread, hb.read]
  rfl

namespace Stmt.Readable

variable {e condition : Expr Unit} {s body thenBranch elseBranch : Stmt Unit} {t : Token}

theorem list {head : String} {items : List Sexp} (hs : s.sexp = .list (.word head :: items))
    (hh : Sexp.IsPlain head.toList) (hp : Sexp.ProperAll items)
    (hr : (Sexp.list (.word head :: items)).stmt? = some (s.recode .bare)) : s.Readable := by
  rw [← hs] at hr
  refine ⟨?_, hr⟩
  rw [hs]
  exact ⟨hh, hp⟩

theorem expression (h : e.Readable) : (Stmt.expression e).Readable := by
  have hread : (Sexp.list [.word ";", e.sexp]).stmt? = do
      return .expression (← e.sexp.expr?) := rfl
  refine list rfl (by decide) ⟨h.proper, trivial⟩ (hread.trans ?_)
  rw [h.read]
  rfl

theorem print (h : e.Readable) : (Stmt.print e).Readable := by
  have hread : (Sexp.list [.word "print", e.sexp]).stmt? = do
      return .print (← e.sexp.expr?) := rfl
  refine list rfl (by decide) ⟨h.proper, trivial⟩ (hread.trans ?_)
  rw [h.read]
  rfl

theorem var (ht : t.Legible) (hk : t.kind = .identifier) {initializer : Option (Expr Unit)}
    (h : ∀ e ∈ initializer, e.Readable) : (Stmt.var t.toName initializer).Readable := by
  have hp := ht.isPlain_name hk
  cases initializer with
  | none => exact list rfl (by decide) ⟨hp, trivial⟩ rfl
  | some e =>
    have he := h e rfl
    have hread : (Sexp.list [.word "var", .word t.lexeme, e.sexp]).stmt? = do
        return .var ⟨t.lexeme, 0⟩ (some (← e.sexp.expr?)) := rfl
    refine list rfl (by decide) ⟨hp, he.proper, trivial⟩ (hread.trans ?_)
    rw [he.read]
    rfl

theorem block {body : List (Stmt Unit)} (h : Stmt.ReadableAll body) :
    (Stmt.block body).Readable := by
  have hread : (Sexp.list (.word "block" :: Stmt.sexpAll body)).stmt? = do
      return .block (← Sexp.stmts? (Stmt.sexpAll body)) := rfl
  refine list rfl (by decide) h.proper (hread.trans ?_)
  rw [h.read]
  rfl

theorem ifThen (hc : condition.Readable) (ht : thenBranch.Readable) :
    (Stmt.ifElse condition thenBranch none).Readable := by
  have hread : (Sexp.list [.word "if", condition.sexp, thenBranch.sexp]).stmt? = do
      return .ifElse (← condition.sexp.expr?) (← thenBranch.sexp.stmt?) none := rfl
  refine list rfl (by decide) ⟨hc.proper, ht.proper, trivial⟩ (hread.trans ?_)
  rw [hc.read, ht.read]
  rfl

theorem ifElse (hc : condition.Readable) (ht : thenBranch.Readable) (he : elseBranch.Readable) :
    (Stmt.ifElse condition thenBranch (some elseBranch)).Readable := by
  have hread : (Sexp.list [.word "if", condition.sexp, thenBranch.sexp, elseBranch.sexp]).stmt? = do
      return .ifElse (← condition.sexp.expr?) (← thenBranch.sexp.stmt?)
        (some (← elseBranch.sexp.stmt?)) := rfl
  refine list rfl (by decide) ⟨hc.proper, ht.proper, he.proper, trivial⟩ (hread.trans ?_)
  rw [hc.read, ht.read, he.read]
  rfl

theorem whileLoop (hc : condition.Readable) (hb : body.Readable) :
    (Stmt.while condition body).Readable := by
  have hread : (Sexp.list [.word "while", condition.sexp, body.sexp]).stmt? = do
      return .while (← condition.sexp.expr?) (← body.sexp.stmt?) := rfl
  refine list rfl (by decide) ⟨hc.proper, hb.proper, trivial⟩ (hread.trans ?_)
  rw [hc.read, hb.read]
  rfl

/-- What a `for` loop is expressed by. -/
theorem forLoop {initializer : Option (Stmt Unit)} {test increment : Option (Expr Unit)}
    (hi : ∀ s ∈ initializer, s.Readable) (hc : ∀ e ∈ test, e.Readable)
    (hn : ∀ e ∈ increment, e.Readable) (hb : body.Readable) :
    (Stmt.forLoop initializer test increment body).Readable := by
  have htest : (test.getD (.literal (.bool true))).Readable := by
    cases test with
    | none => exact .keyword (k := .true) rfl rfl
    | some e => exact hc e rfl
  have hturn {e : Expr Unit} (he : e.Readable) : (Stmt.block [body, .expression e]).Readable :=
    block (.cons hb (.cons (expression he) .nil))
  cases increment <;> cases initializer
  · exact whileLoop htest hb
  · exact block (.cons (hi _ rfl) (.cons (whileLoop htest hb) .nil))
  · exact whileLoop htest (hturn (hn _ rfl))
  · exact block (.cons (hi _ rfl) (.cons (whileLoop htest (hturn (hn _ rfl))) .nil))

theorem function {f : FunDecl Unit} (h : f.Readable) : (Stmt.function f).Readable := by
  have hread : (Sexp.list (.word "fun" :: f.sexps)).stmt? = do
      return .function (← Sexp.function? f.sexps) := rfl
  refine list rfl (by decide) h.proper (hread.trans ?_)
  rw [h.read]
  rfl

theorem returnValue (ht : t.Legible) (hk : t.kind = .keyword .return)
    {value : Option (Expr Unit)} (h : ∀ e ∈ value, e.Readable) :
    (Stmt.return t.toName value).Readable := by
  have htext : t.toName.relocate (fun _ => 0) = ⟨"return", 0⟩ := by
    have hl : t.toName.text = "return" := ht.lexeme_of_keyword hk
    rw [Name.relocate, hl]
  have hrecode : (Stmt.return t.toName value).recode .bare =
      .return ⟨"return", 0⟩ (value.map (Expr.recode .bare)) := by
    rw [Stmt.recode, ← htext]
    rfl
  cases value with
  | none =>
    refine list rfl (by decide) trivial ?_
    rw [hrecode]
    rfl
  | some e =>
    have he := h e rfl
    have hread : (Sexp.list [.word "return", e.sexp]).stmt? = do
        return .return ⟨"return", 0⟩ (some (← e.sexp.expr?)) := rfl
    refine list rfl (by decide) ⟨he.proper, trivial⟩ (hread.trans ?_)
    rw [hrecode, he.read]
    rfl

/-- A superclass stands behind a word, methods are lists: a class without superclass is not taken
for one with a superclass. -/
theorem classDecl (ht : t.Legible) (hk : t.kind = .identifier) {superclass : Option (Expr Unit)}
    {methods : List (FunDecl Unit)} (h : ∀ e ∈ superclass, e.Readable)
    (hm : FunDecl.ReadableAll methods) : (Stmt.class t.toName superclass methods).Readable := by
  have hp := ht.isPlain_name hk
  cases superclass with
  | none =>
    have hread : (Sexp.list (.word "class" :: .word t.lexeme :: FunDecl.sexpAll methods)).stmt? =
        do return .class ⟨t.lexeme, 0⟩ none (← Sexp.methods? (FunDecl.sexpAll methods)) := by
      cases methods <;> rfl
    refine list rfl (by decide) ⟨hp, hm.proper⟩ (hread.trans ?_)
    rw [hm.read]
    rfl
  | some e =>
    have he := h e rfl
    have hless : Sexp.IsPlain "<".toList := by decide
    have hread : (Sexp.list (.word "class" :: .word t.lexeme :: .word "<" :: e.sexp ::
        FunDecl.sexpAll methods)).stmt? = do
        return .class ⟨t.lexeme, 0⟩ (some (← e.sexp.expr?))
          (← Sexp.methods? (FunDecl.sexpAll methods)) := rfl
    refine list rfl (by decide) ⟨hp, hless, he.proper, hm.proper⟩ (hread.trans ?_)
    rw [he.read, hm.read]
    rfl

end Stmt.Readable

namespace Grammar

/-- What may be left out is readable where it stands. -/
theorem Optional.readable {p : List Token → Expr Unit → Prop} {ts : List Token}
    {o : Option (Expr Unit)}
    (hp : ∀ {ts : List Token} {e : Expr Unit}, p ts e → (∀ t ∈ ts, t.Legible) → e.Readable) :
    Optional p ts o → (∀ t ∈ ts, t.Legible) → ∀ e ∈ o, e.Readable
  | .none, _ => nofun
  | .some h, hl => by
    rintro e ⟨⟩
    exact hp h hl

theorem ExpressionStatement.readable {ts : List Token} {s : Stmt Unit} :
    ExpressionStatement ts s → (∀ t ∈ ts, t.Legible) → s.Readable
  | .mk he _, h => by
    rw [List.forall_mem_append] at h
    exact .expression (he.readable h.1)

theorem Initializer.readable {ts : List Token} {e : Expr Unit} :
    Initializer ts e → (∀ t ∈ ts, t.Legible) → e.Readable
  | .mk _ he, h => by
    rw [List.forall_mem_cons] at h
    exact he.readable h.2

theorem Variable.readable {ts : List Token} {s : Stmt Unit} :
    Variable ts s → (∀ t ∈ ts, t.Legible) → s.Readable
  | .mk hx hi _, h => by
    simp only [List.forall_mem_append, List.forall_mem_cons] at h
    exact .var h.1 hx (hi.readable Initializer.readable h.2.1)

theorem ForInitializer.readable {ts : List Token} {o : Option (Stmt Unit)} :
    ForInitializer ts o → (∀ t ∈ ts, t.Legible) → ∀ s ∈ o, s.Readable
  | .none _, _ => nofun
  | .var _ hs, h => by
    rw [List.forall_mem_cons] at h
    rintro s ⟨⟩
    exact hs.readable h.2
  | .expression hs, h => by
    rintro s ⟨⟩
    exact hs.readable h

theorem Parameters.isPlain {ts : List Token} {params : List Name} :
    Parameters ts params → (∀ t ∈ ts, t.Legible) →
      ∀ p ∈ params, Sexp.IsPlain p.text.toList
  | .one hx, h => by
    rw [List.forall_mem_singleton] at h ⊢
    exact h.isPlain_name hx
  | .cons hx _ hs, h => by
    simp only [List.forall_mem_cons] at h ⊢
    exact ⟨h.1.isPlain_name hx, hs.isPlain h.2.2⟩

theorem ParameterList.isPlain {ts : List Token} {params : List Name} :
    ParameterList ts params → (∀ t ∈ ts, t.Legible) →
      ∀ p ∈ params, Sexp.IsPlain p.text.toList
  | .nil, _ => nofun
  | .some hp _, h => hp.isPlain h

theorem Superclass.readable {ts : List Token} {e : Expr Unit} :
    Superclass ts e → (∀ t ∈ ts, t.Legible) → e.Readable
  | .mk _ hx, h => by
    simp only [List.forall_mem_cons] at h
    exact .name h.2.1 hx

mutual

theorem Declarations.readable {rule : ElseRule} {ts : List Token} {ss : List (Stmt Unit)} :
    Declarations rule ts ss → (∀ t ∈ ts, t.Legible) → Stmt.ReadableAll ss
  | .nil, _ => .nil
  | .cons hs hss, h => by
    rw [List.forall_mem_append] at h
    exact .cons (hs.readable h.1) (hss.readable h.2)

theorem Declaration.readable {rule : ElseRule} {ts : List Token} {s : Stmt Unit} :
    Declaration rule ts s → (∀ t ∈ ts, t.Legible) → s.Readable
  | .class _ hx hs _ hm _, h => by
    simp only [List.forall_mem_append, List.forall_mem_cons] at h
    exact .classDecl h.2.1 hx (hs.readable Superclass.readable h.2.2.1)
      (hm.readable h.2.2.2.2.1)
  | .function _ hf, h => by
    rw [List.forall_mem_cons] at h
    exact .function (hf.readable h.2)
  | .var _ hs, h => by
    rw [List.forall_mem_cons] at h
    exact hs.readable h.2
  | .statement hs, h => hs.readable h

theorem Function.readable {rule : ElseRule} {ts : List Token} {f : FunDecl Unit} :
    Function rule ts f → (∀ t ∈ ts, t.Legible) → f.Readable
  | .mk hx _ hp _ hb, h => by
    simp only [List.forall_mem_append, List.forall_mem_cons] at h
    exact .of_parts h.1 hx (hp.isPlain h.2.2.1) (hb.readable h.2.2.2.2)

theorem Methods.readable {rule : ElseRule} {ts : List Token} {fs : List (FunDecl Unit)} :
    Methods rule ts fs → (∀ t ∈ ts, t.Legible) → FunDecl.ReadableAll fs
  | .nil, _ => .nil
  | .cons hf hfs, h => by
    rw [List.forall_mem_append] at h
    exact .cons (hf.readable h.1) (hfs.readable h.2)

theorem Block.readable {rule : ElseRule} {ts : List Token} {body : List (Stmt Unit)} :
    Block rule ts body → (∀ t ∈ ts, t.Legible) → Stmt.ReadableAll body
  | .mk _ hb _, h => by
    simp only [List.forall_mem_append, List.forall_mem_cons] at h
    exact hb.readable h.2.1

theorem Statement.readable {rule : ElseRule} {isOpen : Bool} {ts : List Token} {s : Stmt Unit} :
    Statement rule isOpen ts s → (∀ t ∈ ts, t.Legible) → s.Readable
  | .expression hs, h => hs.readable h
  | .print _ he _, h => by
    simp only [List.forall_mem_append, List.forall_mem_cons] at h
    exact .print (he.readable h.2.1)
  | .return ht hv _, h => by
    simp only [List.forall_mem_append, List.forall_mem_cons] at h
    exact .returnValue h.1 ht (hv.readable Expression.readable h.2.1)
  | .block hb, h => .block (hb.readable h)
  | .while _ _ hc _ hb, h => by
    simp only [List.forall_mem_append, List.forall_mem_cons] at h
    exact .whileLoop (hc.readable h.2.2.1) (hb.readable h.2.2.2.2)
  | .for _ _ hi hc _ hn _ hb, h => by
    simp only [List.forall_mem_append, List.forall_mem_cons] at h
    exact .forLoop (hi.readable h.2.2.1) (hc.readable Expression.readable h.2.2.2.1)
      (hn.readable Expression.readable h.2.2.2.2.2.1) (hb.readable h.2.2.2.2.2.2.2)
  | .ifThen _ _ hc _ hb, h => by
    simp only [List.forall_mem_append, List.forall_mem_cons] at h
    exact .ifThen (hc.readable h.2.2.1) (hb.readable h.2.2.2.2)
  | .ifElse _ _ hc _ hb _ _ hd, h => by
    simp only [List.forall_mem_append, List.forall_mem_cons] at h
    exact .ifElse (hc.readable h.2.2.1) (hb.readable h.2.2.2.2.1) (hd.readable h.2.2.2.2.2.2)

end

end Grammar

end Lox
