import Lox.Syntax.Parser

/-!
# The grammar

The sentences of the language with their trees: one relation between token
lists and trees for each nonterminal. Nothing here refers to a parser.

A repetition `( … )*` is a relation of its own, whose rules carry the tree of
what stands to the left. So `operand ( operator operand )*` builds trees that
lean to the left.

* Expressions (`Expression`, …, `Primary`) need no statements.
* Statements (`Statement`, …, `Declarations`) are derived under an `ElseRule`:
  as the grammar stands (`any`), where an `else` may belong to each `if` that
  precedes it, or with every `else` at the nearest `if` (`nearest`).
* `Binary.call_of_isTarget`, `Call.eq_of_variable`, `Call.eq_of_get`: an
  expression to which something can be assigned is a name, or a call, a dot and
  a name.
-/

namespace Lox

/-- Kinds that are compared whole: those that carry no literal. -/
def Kind.IsPlain : Kind → Prop
  | .string _ | .number _ => False
  | _ => True

@[simp] theorem Kind.isPlain_symbol (s : Symbol) : (Kind.symbol s).IsPlain := trivial

@[simp] theorem Kind.isPlain_keyword (k : Keyword) : (Kind.keyword k).IsPlain := trivial

theorem Kind.sameAs_iff_eq {a b : Kind} (hb : b.IsPlain) : a.sameAs b = true ↔ a = b := by
  cases b <;> first | exact hb.elim | (cases a <;> simp [Kind.sameAs])

theorem Kind.any_sameAs_iff_mem {kinds : List Kind} (h : ∀ b ∈ kinds, b.IsPlain) {a : Kind} :
    kinds.any a.sameAs = true ↔ a ∈ kinds := by
  rw [List.any_eq_true]
  constructor
  · rintro ⟨b, hb, hs⟩
    rwa [(Kind.sameAs_iff_eq (h b hb)).mp hs]
  · intro ha
    exact ⟨a, ha, (Kind.sameAs_iff_eq (h a ha)).mpr rfl⟩

theorem Level.isPlain_operators (level : Level) : ∀ b ∈ level.operators, b.IsPlain := by
  cases level <;> simp [Level.operators, Kind.IsPlain]

theorem isPlain_prefixOperators : ∀ b ∈ prefixOperators, b.IsPlain := by
  simp [prefixOperators, Kind.IsPlain]

namespace Grammar

/-! ## Expressions -/

mutual

/-- `( call "." )? name "=" expression | or` -/
inductive Expression : List Token → Expr Unit → Prop
  | assign {x equals : Token} {ts : List Token} {value : Expr Unit}
    (hx : x.kind = .identifier) (he : equals.kind = .symbol .equal) (hv : Expression ts value) :
    Expression (x :: equals :: ts) (.assign () x.toName value)
  | set {ts us : List Token} {dot x equals : Token} {object value : Expr Unit}
    (ho : Call ts object) (hd : dot.kind = .symbol .dot) (hx : x.kind = .identifier)
    (he : equals.kind = .symbol .equal) (hv : Expression us value) :
    Expression (ts ++ dot :: x :: equals :: us) (.set object x.toName value)
  | binary {ts : List Token} {e : Expr Unit} (h : Binary Level.all ts e) : Expression ts e

/-- `operand ( operator operand )*` with the operators of the first level, where the operands have
operators of the other levels. -/
inductive Binary : List Level → List Token → Expr Unit → Prop
  | unary {ts : List Token} {e : Expr Unit} (h : Unary ts e) : Binary [] ts e
  | level {level : Level} {levels : List Level} {ts us : List Token} {left e : Expr Unit}
    (hl : Binary levels ts left) (ho : Operands level levels left us e) :
    Binary (level :: levels) (ts ++ us) e

/-- `( operator operand )*` after a left operand. -/
inductive Operands : Level → List Level → Expr Unit → List Token → Expr Unit → Prop
  | nil {level : Level} {levels : List Level} {left : Expr Unit} :
    Operands level levels left [] left
  | cons {level : Level} {levels : List Level} {operator : Token} {ts us : List Token}
    {left right e : Expr Unit} (hk : operator.kind ∈ level.operators)
    (hr : Binary levels ts right)
    (ho : Operands level levels (level.node left operator right) us e) :
    Operands level levels left (operator :: (ts ++ us)) e

/-- `( "!" | "-" ) unary | call` -/
inductive Unary : List Token → Expr Unit → Prop
  | operator {operator : Token} {ts : List Token} {right : Expr Unit}
    (hk : operator.kind ∈ prefixOperators) (hr : Unary ts right) :
    Unary (operator :: ts) (.unary operator right)
  | call {ts : List Token} {e : Expr Unit} (h : Call ts e) : Unary ts e

/-- `primary ( "(" arguments? ")" | "." name )*` -/
inductive Call : List Token → Expr Unit → Prop
  | mk {ts us : List Token} {callee e : Expr Unit} (hc : Primary ts callee)
    (hs : Calls callee us e) : Call (ts ++ us) e

/-- `( "(" arguments? ")" | "." name )*` after a callee. -/
inductive Calls : Expr Unit → List Token → Expr Unit → Prop
  | nil {callee : Expr Unit} : Calls callee [] callee
  | invoke {callee e : Expr Unit} {left right : Token} {us : List Token}
    (hl : left.kind = .symbol .leftParen) (hr : right.kind = .symbol .rightParen)
    (hs : Calls (.call callee right.line []) us e) :
    Calls callee (left :: right :: us) e
  | invokeWith {callee e : Expr Unit} {left right : Token} {ts us : List Token}
    {arguments : List (Expr Unit)} (hl : left.kind = .symbol .leftParen)
    (ha : Arguments ts arguments) (hm : arguments.length ≤ maxArity)
    (hr : right.kind = .symbol .rightParen)
    (hs : Calls (.call callee right.line arguments) us e) :
    Calls callee (left :: (ts ++ right :: us)) e
  | property {callee e : Expr Unit} {dot x : Token} {us : List Token}
    (hd : dot.kind = .symbol .dot) (hx : x.kind = .identifier)
    (hs : Calls (.get callee x.toName) us e) :
    Calls callee (dot :: x :: us) e

/-- `expression ( "," expression )*` -/
inductive Arguments : List Token → List (Expr Unit) → Prop
  | one {ts : List Token} {e : Expr Unit} (he : Expression ts e) : Arguments ts [e]
  | cons {ts us : List Token} {comma : Token} {e : Expr Unit} {es : List (Expr Unit)}
    (he : Expression ts e) (hc : comma.kind = .symbol .comma) (hs : Arguments us es) :
    Arguments (ts ++ comma :: us) (e :: es)

/-- A constant, `this`, a name, `"(" expression ")"`, or `"super" "." name`. -/
inductive Primary : List Token → Expr Unit → Prop
  | false {t : Token} (h : t.kind = .keyword .false) : Primary [t] (.literal (.bool false))
  | true {t : Token} (h : t.kind = .keyword .true) : Primary [t] (.literal (.bool true))
  | nil {t : Token} (h : t.kind = .keyword .nil) : Primary [t] (.literal .nil)
  | number {t : Token} {value : Float} (h : t.kind = .number value) :
    Primary [t] (.literal (.number value))
  | string {t : Token} {value : String} (h : t.kind = .string value) :
    Primary [t] (.literal (.string value))
  | this {t : Token} (h : t.kind = .keyword .this) : Primary [t] (.this () t.toName)
  | variable {t : Token} (h : t.kind = .identifier) : Primary [t] (.variable () t.toName)
  | group {left right : Token} {ts : List Token} {inner : Expr Unit}
    (hl : left.kind = .symbol .leftParen) (hi : Expression ts inner)
    (hr : right.kind = .symbol .rightParen) : Primary (left :: (ts ++ [right])) (.group inner)
  | super {t dot x : Token} (ht : t.kind = .keyword .super) (hd : dot.kind = .symbol .dot)
    (hx : x.kind = .identifier) : Primary [t, dot, x] (.super () t.toName x.toName)

end

/-- A phrase that may be left out. -/
inductive Optional {α : Type} (p : List Token → α → Prop) : List Token → Option α → Prop
  | none : Optional p [] none
  | some {ts : List Token} {a : α} (h : p ts a) : Optional p ts (some a)

/-! ## The left side of an assignment -/

/-- Expressions to which something can be assigned. -/
def IsTarget : Expr Unit → Prop
  | .variable _ _ | .get _ _ => True
  | _ => False

theorem Operands.eq_left {level : Level} {levels : List Level} {left e : Expr Unit}
    {ts : List Token} : Operands level levels left ts e → IsTarget e → ts = [] ∧ e = left
  | .nil, _ => ⟨rfl, rfl⟩
  | .cons _ _ ho, he => by
    -- the tree of the rest is an operation, so it is no target
    have hn := (ho.eq_left he).2
    rw [hn] at he
    cases level <;> exact he.elim

theorem Unary.call_of_isTarget {ts : List Token} {e : Expr Unit} (h : Unary ts e)
    (he : IsTarget e) : Call ts e := by
  cases h with
  | operator _ _ => exact he.elim
  | call h => exact h

theorem Binary.call_of_isTarget {levels : List Level} {ts : List Token} {e : Expr Unit} :
    Binary levels ts e → IsTarget e → Call ts e
  | .unary h, he => h.call_of_isTarget he
  | .level hl ho, he => by
    obtain ⟨rfl, rfl⟩ := ho.eq_left he
    have hc := hl.call_of_isTarget he
    rwa [List.append_nil]

theorem Calls.eq_of_variable {callee e : Expr Unit} {x : Name} {ts : List Token}
    (he : e = .variable () x) : Calls callee ts e → ts = [] ∧ callee = .variable () x
  | .nil => ⟨rfl, he⟩
  | .invoke _ _ hs => nomatch (hs.eq_of_variable he).2
  | .invokeWith _ _ _ _ hs => nomatch (hs.eq_of_variable he).2
  | .property _ _ hs => nomatch (hs.eq_of_variable he).2

/-- A variable is a single name. -/
theorem Call.eq_of_variable {x : Name} {ts : List Token} (h : Call ts (.variable () x)) :
    ∃ t, t.kind = .identifier ∧ t.toName = x ∧ ts = [t] := by
  cases h with
  | mk hc hs =>
    obtain ⟨rfl, rfl⟩ := hs.eq_of_variable rfl
    cases hc with
    | «variable» ht => exact ⟨_, ht, rfl, rfl⟩

theorem Calls.eq_of_get {callee e object : Expr Unit} {name : Name} {ts : List Token}
    (he : e = .get object name) : Calls callee ts e → (ts = [] ∧ callee = .get object name) ∨
      ∃ us dot x, dot.kind = .symbol .dot ∧ x.kind = .identifier ∧ x.toName = name ∧
        ts = us ++ [dot, x] ∧ Calls callee us object
  | .nil => .inl ⟨rfl, he⟩
  | .invoke hl hr hs => by
    rcases hs.eq_of_get he with ⟨-, hc⟩ | ⟨us, dot, x, hd, hx, hn, rfl, hs'⟩
    · cases hc
    · exact .inr ⟨_ :: _ :: us, dot, x, hd, hx, hn, rfl, .invoke hl hr hs'⟩
  | .invokeWith hl ha hm hr hs => by
    rcases hs.eq_of_get he with ⟨-, hc⟩ | ⟨us, dot, x, hd, hx, hn, rfl, hs'⟩
    · cases hc
    · refine .inr ⟨_, dot, x, hd, hx, hn, ?_, .invokeWith hl ha hm hr hs'⟩
      simp only [List.cons_append, List.append_assoc]
  | .property hd hx hs => by
    rcases hs.eq_of_get he with ⟨rfl, hc⟩ | ⟨us, dot, x, hd', hx', hn, rfl, hs'⟩
    · cases hc
      exact .inr ⟨[], _, _, hd, hx, rfl, rfl, .nil⟩
    · exact .inr ⟨_ :: _ :: us, dot, x, hd', hx', hn, rfl, .property hd hx hs'⟩

/-- A property access is a call, a dot and a name. -/
theorem Call.eq_of_get {object : Expr Unit} {name : Name} {ts : List Token}
    (h : Call ts (.get object name)) :
    ∃ us dot x, dot.kind = .symbol .dot ∧ x.kind = .identifier ∧ x.toName = name ∧
      ts = us ++ [dot, x] ∧ Call us object := by
  cases h with
  | mk hc hs =>
    rcases hs.eq_of_get rfl with ⟨-, rfl⟩ | ⟨us, dot, x, hd, hx, hn, rfl, hs'⟩
    · cases hc
    · exact ⟨_, dot, x, hd, hx, hn, (List.append_assoc _ _ _).symm, .mk hc hs'⟩

/-! ## Statements -/

/-- `expression ";"` -/
inductive ExpressionStatement : List Token → Stmt Unit → Prop
  | mk {ts : List Token} {semicolon : Token} {e : Expr Unit} (he : Expression ts e)
    (hs : semicolon.kind = .symbol .semicolon) :
    ExpressionStatement (ts ++ [semicolon]) (.expression e)

/-- `"=" expression` -/
inductive Initializer : List Token → Expr Unit → Prop
  | mk {equals : Token} {ts : List Token} {e : Expr Unit} (hq : equals.kind = .symbol .equal)
    (he : Expression ts e) : Initializer (equals :: ts) e

/-- `name ( "=" expression )? ";"` -/
inductive Variable : List Token → Stmt Unit → Prop
  | mk {x semicolon : Token} {ts : List Token} {initializer : Option (Expr Unit)}
    (hx : x.kind = .identifier) (hi : Optional Initializer ts initializer)
    (hs : semicolon.kind = .symbol .semicolon) :
    Variable (x :: (ts ++ [semicolon])) (.var x.toName initializer)

/-- `"var" variable | expression ";" | ";"` -/
inductive ForInitializer : List Token → Option (Stmt Unit) → Prop
  | none {semicolon : Token} (hs : semicolon.kind = .symbol .semicolon) :
    ForInitializer [semicolon] none
  | var {t : Token} {ts : List Token} {s : Stmt Unit} (ht : t.kind = .keyword .var)
    (hs : Variable ts s) : ForInitializer (t :: ts) (some s)
  | expression {ts : List Token} {s : Stmt Unit} (hs : ExpressionStatement ts s) :
    ForInitializer ts (some s)

/-- `name ( "," name )*` -/
inductive Parameters : List Token → List Name → Prop
  | one {x : Token} (hx : x.kind = .identifier) : Parameters [x] [x.toName]
  | cons {x comma : Token} {ts : List Token} {params : List Name} (hx : x.kind = .identifier)
    (hc : comma.kind = .symbol .comma) (hs : Parameters ts params) :
    Parameters (x :: comma :: ts) (x.toName :: params)

/-- `parameters?`, not too many of them. -/
inductive ParameterList : List Token → List Name → Prop
  | nil : ParameterList [] []
  | some {ts : List Token} {params : List Name} (hp : Parameters ts params)
    (hm : params.length ≤ maxArity) : ParameterList ts params

/-- `"<" name` -/
inductive Superclass : List Token → Expr Unit → Prop
  | mk {less x : Token} (hl : less.kind = .symbol .less) (hx : x.kind = .identifier) :
    Superclass [less, x] (.variable () x.toName)

/-- To which `if` an `else` may belong. -/
inductive ElseRule where
  | any
  | nearest
  deriving DecidableEq, Repr

mutual

/-- `declaration*` -/
inductive Declarations (rule : ElseRule) : List Token → List (Stmt Unit) → Prop
  | nil : Declarations rule [] []
  | cons {ts us : List Token} {s : Stmt Unit} {ss : List (Stmt Unit)}
    (hs : Declaration rule ts s) (hss : Declarations rule us ss) :
    Declarations rule (ts ++ us) (s :: ss)

/-- `class | "fun" function | "var" variable | statement`, where a class is
`"class" name ( "<" name )? "{" function* "}"`. -/
inductive Declaration (rule : ElseRule) : List Token → Stmt Unit → Prop
  | «class» {t x left right : Token} {ts us : List Token} {superclass : Option (Expr Unit)}
    {methods : List (FunDecl Unit)} (ht : t.kind = .keyword .class) (hx : x.kind = .identifier)
    (hs : Optional Superclass ts superclass) (hl : left.kind = .symbol .leftBrace)
    (hm : Methods rule us methods) (hr : right.kind = .symbol .rightBrace) :
    Declaration rule (t :: x :: (ts ++ left :: (us ++ [right])))
      (.class x.toName superclass methods)
  | function {t : Token} {ts : List Token} {f : FunDecl Unit} (ht : t.kind = .keyword .fun)
    (hf : Function rule ts f) : Declaration rule (t :: ts) (.function f)
  | var {t : Token} {ts : List Token} {s : Stmt Unit} (ht : t.kind = .keyword .var)
    (hs : Variable ts s) : Declaration rule (t :: ts) s
  | statement {isOpen : Bool} {ts : List Token} {s : Stmt Unit}
    (hs : Statement rule isOpen ts s) : Declaration rule ts s

/-- `name "(" parameters? ")" block` -/
inductive Function (rule : ElseRule) : List Token → FunDecl Unit → Prop
  | mk {x left right : Token} {ts us : List Token} {params : List Name} {body : List (Stmt Unit)}
    (hx : x.kind = .identifier) (hl : left.kind = .symbol .leftParen)
    (hp : ParameterList ts params) (hr : right.kind = .symbol .rightParen)
    (hb : Block rule us body) :
    Function rule (x :: left :: (ts ++ right :: us)) (.mk x.toName params body)

/-- `function*` -/
inductive Methods (rule : ElseRule) : List Token → List (FunDecl Unit) → Prop
  | nil : Methods rule [] []
  | cons {ts us : List Token} {f : FunDecl Unit} {fs : List (FunDecl Unit)}
    (hf : Function rule ts f) (hfs : Methods rule us fs) :
    Methods rule (ts ++ us) (f :: fs)

/-- `"{" declaration* "}"` -/
inductive Block (rule : ElseRule) : List Token → List (Stmt Unit) → Prop
  | mk {left right : Token} {ts : List Token} {body : List (Stmt Unit)}
    (hl : left.kind = .symbol .leftBrace) (hb : Declarations rule ts body)
    (hr : right.kind = .symbol .rightBrace) : Block rule (left :: (ts ++ [right])) body

/-- A statement; whether it is open, that is, ends in an `if` without `else`. Under `nearest`, no
open statement stands before an `else`. -/
inductive Statement (rule : ElseRule) : Bool → List Token → Stmt Unit → Prop
  | expression {ts : List Token} {s : Stmt Unit} (hs : ExpressionStatement ts s) :
    Statement rule false ts s
  | print {t semicolon : Token} {ts : List Token} {e : Expr Unit} (ht : t.kind = .keyword .print)
    (he : Expression ts e) (hs : semicolon.kind = .symbol .semicolon) :
    Statement rule false (t :: (ts ++ [semicolon])) (.print e)
  | «return» {t semicolon : Token} {ts : List Token} {value : Option (Expr Unit)}
    (ht : t.kind = .keyword .return) (hv : Optional Expression ts value)
    (hs : semicolon.kind = .symbol .semicolon) :
    Statement rule false (t :: (ts ++ [semicolon])) (.return t.toName value)
  | block {ts : List Token} {body : List (Stmt Unit)} (hb : Block rule ts body) :
    Statement rule false ts (.block body)
  | «while» {isOpen : Bool} {t left right : Token} {ts us : List Token} {condition : Expr Unit}
    {body : Stmt Unit} (ht : t.kind = .keyword .while) (hl : left.kind = .symbol .leftParen)
    (hc : Expression ts condition) (hr : right.kind = .symbol .rightParen)
    (hb : Statement rule isOpen us body) :
    Statement rule isOpen (t :: left :: (ts ++ right :: us)) (.while condition body)
  | «for» {isOpen : Bool} {t left semicolon right : Token} {ts us vs ws : List Token}
    {initializer : Option (Stmt Unit)} {condition increment : Option (Expr Unit)}
    {body : Stmt Unit} (ht : t.kind = .keyword .for) (hl : left.kind = .symbol .leftParen)
    (hi : ForInitializer ts initializer) (hc : Optional Expression us condition)
    (hs : semicolon.kind = .symbol .semicolon) (hn : Optional Expression vs increment)
    (hr : right.kind = .symbol .rightParen) (hb : Statement rule isOpen ws body) :
    Statement rule isOpen (t :: left :: (ts ++ (us ++ semicolon :: (vs ++ right :: ws))))
      (Stmt.forLoop initializer condition increment body)
  | ifThen {isOpen : Bool} {t left right : Token} {ts us : List Token} {condition : Expr Unit}
    {thenBranch : Stmt Unit} (ht : t.kind = .keyword .if) (hl : left.kind = .symbol .leftParen)
    (hc : Expression ts condition) (hr : right.kind = .symbol .rightParen)
    (hb : Statement rule isOpen us thenBranch) :
    Statement rule true (t :: left :: (ts ++ right :: us)) (.ifElse condition thenBranch none)
  | ifElse {thenOpen isOpen : Bool} {t left right otherwise : Token} {ts us vs : List Token}
    {condition : Expr Unit} {thenBranch elseBranch : Stmt Unit} (ht : t.kind = .keyword .if)
    (hl : left.kind = .symbol .leftParen) (hc : Expression ts condition)
    (hr : right.kind = .symbol .rightParen) (hb : Statement rule thenOpen us thenBranch)
    (ho : rule = .nearest → thenOpen = false) (hw : otherwise.kind = .keyword .else)
    (hd : Statement rule isOpen vs elseBranch) :
    Statement rule isOpen (t :: left :: (ts ++ right :: (us ++ otherwise :: vs)))
      (.ifElse condition thenBranch (some elseBranch))

end

/-- The sentences of the language are those that derive from `declaration*`. -/
def IsProgram (ts : List Token) : Prop := ∃ ss, Declarations .any ts ss

end Grammar

end Lox
