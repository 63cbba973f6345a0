import Lox.Decimal.Numeral
import Lox.Diagnostic

/-!
# From source to tokens

- `pieces` cuts a source into consecutive pieces: blanks, comments, lexemes and faults. Their
  texts, joined, are the source (`flatMap_text_pieces`).
- `itemsFrom` counts lines along the pieces and keeps what a reader of tokens sees: tokens, faults
  in the place of the lexeme that failed, and one end marker.
- `scan` does both. Whether comments are kept is decided only in the second step.

Each piece is the longest that can begin where it begins. Letters and digits are
the ASCII ones; any other character outside a string or a comment is a fault.
-/

namespace Lox

/-- What can be wrong with a lexeme. -/
inductive LexicalFault where
  | unexpectedCharacter (c : Char)
  | unterminatedString
  deriving DecidableEq, Repr

/-- The wording of a fault. -/
def LexicalFault.message : LexicalFault → String
  | .unexpectedCharacter c => "Unexpected character: " ++ String.singleton c
  | .unterminatedString => "Unterminated string."

/-- A fault and the line on which it ends. -/
structure LexicalError where
  fault : LexicalFault
  line : Nat
  deriving DecidableEq, Repr

/-- A lexical error as a diagnostic. -/
def LexicalError.toDiagnostic (e : LexicalError) : Diagnostic :=
  .lexical e.line e.fault.message

/-- A token, or the fault in the place of one. -/
inductive Item where
  | token (t : Token)
  | error (e : LexicalError)

/-- What becomes of comments. -/
inductive CommentMode where
  | skip
  | keep
  deriving DecidableEq, Repr

/-! ## Pieces -/

/-- A span of the source. -/
inductive Piece where
  | blank (c : Char)
  /-- Two slashes and the rest of the line. -/
  | comment (body : List Char)
  | symbol (s : Symbol)
  | word (text : List Char)
  /-- Digits, and perhaps a point and further digits. -/
  | number (whole fraction : List Char)
  | string (body : List Char)
  /-- A character that begins no lexeme. -/
  | stray (c : Char)
  /-- A quote that is not closed, and all that follows it. -/
  | unclosed (body : List Char)
  deriving DecidableEq, Repr

/-- The span as it stands in the source. -/
def Piece.text : Piece → List Char
  | .blank c => [c]
  | .comment body => '/' :: '/' :: body
  | .symbol s => s.text.toList
  | .word text => text
  | .number whole [] => whole
  | .number whole fraction => whole ++ '.' :: fraction
  | .string body => '"' :: body ++ ['"']
  | .stray c => [c]
  | .unclosed body => '"' :: body

/-- Blanks separate lexemes and are no lexemes themselves. -/
def isBlank (c : Char) : Bool := c == ' ' || c == '\r' || c == '\t' || c == '\n'

/-- A letter or an underscore. -/
def isWordStart (c : Char) : Bool := c.isAlpha || c == '_'

/-- A letter, a digit or an underscore. -/
def isWordPart (c : Char) : Bool := c.isAlphanum || c == '_'

/-- The symbol that begins with `s`, the longer one if an equals sign follows. -/
def cutSymbol (s : Symbol) (rest : List Char) : Piece × List Char :=
  match rest with
  | '=' :: rest' =>
    match s.withEqual? with
    | some long => (.symbol long, rest')
    | none => (.symbol s, rest)
  | _ => (.symbol s, rest)

/-- The number whose digits before the point are `whole`. A point belongs to it only if a digit
follows. -/
def cutFraction (whole rest : List Char) : Piece × List Char :=
  match rest with
  | '.' :: d :: rest' =>
    if d.isDigit then
      (.number whole (d :: rest'.takeWhile Char.isDigit), rest'.dropWhile Char.isDigit)
    else (.number whole [], rest)
  | _ => (.number whole [], rest)

/-- The string that begins after a quote. -/
def cutString (rest : List Char) : Piece × List Char :=
  match rest.dropWhile (· != '"') with
  | [] => (.unclosed rest, [])
  | _ :: rest' => (.string (rest.takeWhile (· != '"')), rest')

/-- The first piece of `c :: rest`, and what follows it. -/
def cut (c : Char) (rest : List Char) : Piece × List Char :=
  if isBlank c then (.blank c, rest)
  else if c == '/' && rest.head? == some '/' then
    (.comment (rest.tail.takeWhile (· != '\n')), rest.tail.dropWhile (· != '\n'))
  else if c == '"' then cutString rest
  else if c.isDigit then
    cutFraction (c :: rest.takeWhile Char.isDigit) (rest.dropWhile Char.isDigit)
  else if isWordStart c then
    (.word (c :: rest.takeWhile isWordPart), rest.dropWhile isWordPart)
  else match Symbol.ofChar? c with
    | some s => cutSymbol s rest
    | none => (.stray c, rest)

/-! ## Nothing is lost -/

theorem Symbol.text_of_ofChar? {c : Char} {s : Symbol} (h : Symbol.ofChar? c = some s) :
    s.text.toList = [c] := by
  unfold Symbol.ofChar? at h
  split at h <;> first | (cases h; rfl) | cases h

theorem Symbol.text_of_withEqual? {s long : Symbol} (h : s.withEqual? = some long) :
    long.text.toList = s.text.toList ++ ['='] := by
  cases s <;> simp only [Symbol.withEqual?, Option.some.injEq, reduceCtorEq] at h <;> subst h <;> rfl

theorem text_cutSymbol (s : Symbol) (rest : List Char) :
    (cutSymbol s rest).1.text ++ (cutSymbol s rest).2 = s.text.toList ++ rest := by
  unfold cutSymbol
  split
  · split
    · next h => simp [Piece.text, Symbol.text_of_withEqual? h]
    · rfl
  · rfl

theorem text_cutFraction (whole rest : List Char) :
    (cutFraction whole rest).1.text ++ (cutFraction whole rest).2 = whole ++ rest := by
  unfold cutFraction
  split
  · split
    · simp [Piece.text]
    · rfl
  · rfl

theorem text_cutString (rest : List Char) :
    (cutString rest).1.text ++ (cutString rest).2 = '"' :: rest := by
  unfold cutString
  split
  · simp [Piece.text]
  · next c rest' h =>
    have hc : c = '"' := by
      have := List.head?_dropWhile_not (· != '"') rest
      simpa [h] using this
    have := List.takeWhile_append_dropWhile (p := (· != '"')) (l := rest)
    rw [h, hc] at this
    simp [Piece.text, this]

theorem text_cut (c : Char) (rest : List Char) :
    (cut c rest).1.text ++ (cut c rest).2 = c :: rest := by
  unfold cut
  split
  · rfl
  split
  · next h =>
    obtain ⟨rfl, h⟩ : c = '/' ∧ rest.head? = some '/' := by simpa using h
    cases rest with
    | nil => cases h
    | cons d r =>
      obtain rfl : d = '/' := by simpa using h
      simp [Piece.text]
  split
  · next h => rw [text_cutString, eq_of_beq h]
  split
  · rw [text_cutFraction]; simp
  split
  · simp [Piece.text]
  split
  · next h => rw [text_cutSymbol, Symbol.text_of_ofChar? h]; rfl
  · rfl

theorem Piece.text_cut_ne_nil (c : Char) (rest : List Char) : (cut c rest).1.text ≠ [] := by
  have hs : ∀ s : Symbol, s.text.toList ≠ [] := fun s => by cases s <;> decide
  unfold cut cutString cutFraction cutSymbol
  repeat' split
  all_goals simp [Piece.text, hs]

/-- What follows a piece is shorter than the source. -/
theorem length_cut_lt (c : Char) (rest : List Char) : (cut c rest).2.length < (c :: rest).length := by
  have h := congrArg List.length (text_cut c rest)
  have := List.length_pos_iff.mpr (Piece.text_cut_ne_nil c rest)
  rw [List.length_append] at h
  omega

/-- Cuts a source into its pieces. -/
def pieces : List Char → List Piece
  | [] => []
  | c :: rest => (cut c rest).1 :: pieces (cut c rest).2
termination_by source => source.length
decreasing_by exact length_cut_lt c rest

theorem flatMap_text_pieces (source : List Char) : (pieces source).flatMap Piece.text = source := by
  fun_induction pieces source with
  | case1 => rfl
  | case2 c rest ih => rw [List.flatMap_cons, ih, text_cut]

/-! ## Items -/

/-- The number of line breaks in a piece. -/
def Piece.lineBreaks (p : Piece) : Nat := p.text.count '\n'

/-- What a piece contributes, given the line on which it ends. -/
def Piece.item? (mode : CommentMode) (line : Nat) (p : Piece) : Option Item :=
  let token (kind : Kind) : Option Item := some (.token ⟨kind, String.ofList p.text, line⟩)
  match p with
  | .blank _ => none
  | .comment _ => if mode = .keep then token .comment else none
  | .symbol s => token (.symbol s)
  | .word text => token (Kind.ofWord (String.ofList text))
  | .number whole fraction => token (.number (Decimal.ofDigits whole fraction))
  | .string body => token (.string (String.ofList body))
  | .stray c => some (.error ⟨.unexpectedCharacter c, line⟩)
  | .unclosed _ => some (.error ⟨.unterminatedString, line⟩)

/-- The items of the pieces that follow line `line`, and the end marker. -/
def itemsFrom (mode : CommentMode) (line : Nat) : List Piece → List Item
  | [] => [.token ⟨.eof, "", line⟩]
  | p :: ps =>
    let line' := line + p.lineBreaks
    match p.item? mode line' with
    | some item => item :: itemsFrom mode line' ps
    | none => itemsFrom mode line' ps

/-- The items of a source. Its first line has number one. -/
def scan (mode : CommentMode) (source : String) : List Item :=
  itemsFrom mode 1 (pieces source.toList)

/-- The tokens among the items. -/
def tokensOf (items : List Item) : List Token :=
  items.filterMap fun
    | .token t => some t
    | .error _ => none

/-- The faults among the items. -/
def errorsOf (items : List Item) : List LexicalError :=
  items.filterMap fun
    | .token _ => none
    | .error e => some e

end Lox
