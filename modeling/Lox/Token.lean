/-!
# Tokens

- `Symbol` and `Keyword` are the fixed spellings; `Kind` adds the kinds with a spelling of their own.
- `Kind.sameAs` compares two kinds without the literals that they carry.
- `Token` is a kind with the text and the line of its lexeme.
-/

namespace Lox

/-- Punctuation and operators. -/
inductive Symbol where
  | leftParen
  | rightParen
  | leftBrace
  | rightBrace
  | comma
  | dot
  | semicolon
  | minus
  | plus
  | slash
  | star
  | bang
  | bangEqual
  | equal
  | equalEqual
  | greater
  | greaterEqual
  | less
  | lessEqual
  deriving DecidableEq, Repr

/-- Reserved words. -/
inductive Keyword where
  | and
  | «class»
  | «else»
  | «false»
  | «for»
  | «fun»
  | «if»
  | nil
  | or
  | print
  | «return»
  | super
  | this
  | «true»
  | var
  | «while»
  deriving DecidableEq, Repr

/-- What a token is. A string carries its text without the quotes, a number its value. -/
inductive Kind where
  | symbol (s : Symbol)
  | keyword (k : Keyword)
  | identifier
  | string (value : String)
  | number (value : Float)
  | comment
  | eof

/-- The text and line of a lexeme. -/
structure Name where
  text : String
  line : Nat
  deriving DecidableEq, Repr

/-- A lexeme with its kind and the line on which it ends. -/
structure Token where
  kind : Kind
  lexeme : String
  line : Nat

/-- The character of a symbol of one character. -/
def Symbol.ofChar? : Char → Option Symbol
  | '(' => some .leftParen
  | ')' => some .rightParen
  | '\x7b' => some .leftBrace
  | '\x7d' => some .rightBrace
  | ',' => some .comma
  | '.' => some .dot
  | ';' => some .semicolon
  | '-' => some .minus
  | '+' => some .plus
  | '/' => some .slash
  | '*' => some .star
  | '!' => some .bang
  | '=' => some .equal
  | '>' => some .greater
  | '<' => some .less
  | _ => none

/-- The symbol that a following `=` makes of this one. -/
def Symbol.withEqual? : Symbol → Option Symbol
  | .bang => some .bangEqual
  | .equal => some .equalEqual
  | .greater => some .greaterEqual
  | .less => some .lessEqual
  | _ => none

/-- The spelling of a symbol. -/
def Symbol.text : Symbol → String
  | .leftParen => "("
  | .rightParen => ")"
  | .leftBrace => "\x7b"
  | .rightBrace => "\x7d"
  | .comma => ","
  | .dot => "."
  | .semicolon => ";"
  | .minus => "-"
  | .plus => "+"
  | .slash => "/"
  | .star => "*"
  | .bang => "!"
  | .bangEqual => "!="
  | .equal => "="
  | .equalEqual => "=="
  | .greater => ">"
  | .greaterEqual => ">="
  | .less => "<"
  | .lessEqual => "<="

/-- The spelling of a reserved word. -/
def Keyword.text : Keyword → String
  | .and => "and"
  | .class => "class"
  | .else => "else"
  | .false => "false"
  | .for => "for"
  | .fun => "fun"
  | .if => "if"
  | .nil => "nil"
  | .or => "or"
  | .print => "print"
  | .return => "return"
  | .super => "super"
  | .this => "this"
  | .true => "true"
  | .var => "var"
  | .while => "while"

/-- All reserved words. -/
def Keyword.all : List Keyword :=
  [.and, .class, .else, .false, .for, .fun, .if, .nil, .or, .print, .return, .super, .this, .true,
    .var, .while]

theorem Keyword.mem_all (k : Keyword) : k ∈ Keyword.all := by
  cases k <;> decide

/-- The reserved word with this spelling. -/
def Keyword.ofText? (text : String) : Option Keyword :=
  Keyword.all.find? fun k => k.text == text

/-- The kind of a word: a reserved word or an identifier. -/
def Kind.ofWord (text : String) : Kind :=
  match Keyword.ofText? text with
  | some k => .keyword k
  | none => .identifier

/-- The name of a symbol in a token listing. -/
def Symbol.name : Symbol → String
  | .leftParen => "LEFT_PAREN"
  | .rightParen => "RIGHT_PAREN"
  | .leftBrace => "LEFT_BRACE"
  | .rightBrace => "RIGHT_BRACE"
  | .comma => "COMMA"
  | .dot => "DOT"
  | .semicolon => "SEMICOLON"
  | .minus => "MINUS"
  | .plus => "PLUS"
  | .slash => "SLASH"
  | .star => "STAR"
  | .bang => "BANG"
  | .bangEqual => "BANG_EQUAL"
  | .equal => "EQUAL"
  | .equalEqual => "EQUAL_EQUAL"
  | .greater => "GREATER"
  | .greaterEqual => "GREATER_EQUAL"
  | .less => "LESS"
  | .lessEqual => "LESS_EQUAL"

/-- All symbols. -/
def Symbol.all : List Symbol :=
  [.leftParen, .rightParen, .leftBrace, .rightBrace, .comma, .dot, .semicolon, .minus, .plus,
    .slash, .star, .bang, .bangEqual, .equal, .equalEqual, .greater, .greaterEqual, .less,
    .lessEqual]

/-- The name of a reserved word in a token listing: its spelling in capitals. -/
def Keyword.name (k : Keyword) : String := k.text.toUpper

/-- The name of a kind in a token listing. -/
def Kind.name : Kind → String
  | .symbol s => s.name
  | .keyword k => k.name
  | .identifier => "IDENTIFIER"
  | .string _ => "STRING"
  | .number _ => "NUMBER"
  | .comment => "COMMENT"
  | .eof => "EOF"

/-- The kinds that carry no literal. -/
def Kind.plain : List Kind :=
  Symbol.all.map .symbol ++ Keyword.all.map .keyword ++ [.identifier, .comment, .eof]

/-- The kind with this name, for a kind that carries no literal. -/
def Kind.ofName? (name : String) : Option Kind :=
  Kind.plain.find? fun k => k.name == name

/-- Whether two kinds are the same up to the literals that they carry. -/
def Kind.sameAs : Kind → Kind → Bool
  | .symbol a, .symbol b => a = b
  | .keyword a, .keyword b => a = b
  | .identifier, .identifier => true
  | .string _, .string _ => true
  | .number _, .number _ => true
  | .comment, .comment => true
  | .eof, .eof => true
  | _, _ => false

/-- Whether two tokens are the same up to the literals that they carry. -/
def Token.sameAs (a b : Token) : Bool :=
  a.kind.sameAs b.kind && a.lexeme == b.lexeme && a.line == b.line

/-- The text and line of a token. -/
def Token.toName (t : Token) : Name := ⟨t.lexeme, t.line⟩

/-- Whether a token is a comment. -/
def Token.isComment (t : Token) : Bool := t.kind.sameAs .comment

/-- Whether a token marks the end of the source. -/
def Token.isEof (t : Token) : Bool := t.kind.sameAs .eof

end Lox
