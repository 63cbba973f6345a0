import Lox.Proofs.Syntax.Comments
import Lox.Proofs.Syntax.Recognition
import Lox.Proofs.Token.LineBreaks

/-!
# One program after another

After a program without errors, what comes next is read as if it stood alone, unless it begins with
an `else` that the last statement takes.

* `scan_append_line`: a line break keeps the lexemes of two sources apart;
* `parse_append_of_errors_eq_nil`: so do declarations that were read to their end, of which nothing is
  remembered;
* `concatenation_of_programs`: so two sources with a line break between them are read one after the
  other, the second further down.
-/

namespace Lox

/-! ## Tokens -/

theorem ne_unclosed_of_errorsOf {mode : CommentMode} {line : Nat} {ps : List Piece}
    (h : errorsOf (itemsFrom mode line ps) = []) (body : List Char) : .unclosed body ∉ ps := by
  induction ps generalizing line with
  | nil => exact List.not_mem_nil
  | cons p ps ih =>
    intro hm
    rcases List.mem_cons.mp hm with rfl | hm
    · cases h
    · rw [itemsFrom] at h
      cases hi : p.item? mode (line + p.lineBreaks) with
      | none =>
        simp only [hi] at h
        exact ih h hm
      | some item =>
        simp only [hi] at h
        cases item with
        | token t => exact ih h hm
        | error e => cases h

/-- After a source without faults, and a line break, the items are those of the second source. -/
theorem scan_append_line {mode : CommentMode} {s₁ : String} (h : errorsOf (scan mode s₁) = [])
    (s₂ : String) :
    ∃ ts : List Token, (∀ t ∈ ts, t.isEof = false) ∧
      scan mode s₁ = ts.map .token ++ [.token ⟨.eof, "", 1 + s₁.toList.count '\n'⟩] ∧
      scan mode (s₁ ++ "\n" ++ s₂) =
        ts.map .token ++ (scan mode s₂).map (Item.relocate (· + (s₁.toList.count '\n' + 1))) := by
  let before := Span.items mode 1 ((pieces s₁.toList).map Piece.span)
  have hscan : scan mode s₁ = before ++ [.token ⟨.eof, "", 1 + s₁.toList.count '\n'⟩] :=
    scan_eq_items mode s₁
  have hclean : errorsOf before = [] := by
    rw [hscan, errorsOf_append] at h
    exact (List.append_eq_nil_iff.mp h).1
  have hjoined : scan mode (s₁ ++ "\n" ++ s₂) =
      before ++ (scan mode s₂).map (Item.relocate (· + (s₁.toList.count '\n' + 1))) := by
    have hchars : (s₁ ++ "\n" ++ s₂).toList = s₁.toList ++ '\n' :: s₂.toList := by simp
    have hbreak (line : Nat) : itemsFrom mode line (.blank '\n' :: pieces s₂.toList) =
        itemsFrom mode (line + 1) (pieces s₂.toList) := rfl
    rw [scan, hchars, pieces_append_line (ne_unclosed_of_errorsOf h), itemsFrom_append, hbreak,
      flatMap_text_pieces, Nat.add_assoc, itemsFrom_relocate, scan]
  refine ⟨tokensOf before, fun t ht => ?_, ?_, ?_⟩
  · have hall := List.all_eq_true.mp (all_not_isEof_items mode 1 (pieces s₁.toList)) t ht
    simpa using hall
  · rw [map_token_tokensOf hclean, hscan]
  · rw [map_token_tokensOf hclean, hjoined]

/-! ## Programs -/

namespace TokenSequence

variable {ts us rest : List Token}

/-- Tokens in front of the end marker come before those that are parsed behind them. -/
theorem ofTokens_append (hu : ∀ t ∈ us, t.isEof = false) (hrest : ∃ t ∈ rest, t.isEof = true) :
    ofTokens (us ++ rest) = ⟨(us.filter fun t => !t.isComment) ++ (ofTokens rest).tokens,
      (ofTokens rest).endLine⟩ := by
  obtain ⟨before, t, extra, rfl, ht, hb⟩ := exists_split_of_isEof hrest
  have hub : ∀ x ∈ us ++ before, x.isEof = false := List.forall_mem_append.mpr ⟨hu, hb⟩
  rw [← List.append_assoc, ofTokens_append_cons ht hub, ofTokens_append_cons ht hb,
    List.filter_append]

theorem endLine_ofTokens_map_relocate (ℓ : Nat → Nat) (h : ∃ t ∈ ts, t.isEof = true) :
    (ofTokens (ts.map (Token.relocate ℓ))).endLine = ℓ (ofTokens ts).endLine := by
  obtain ⟨before, t, extra, rfl, ht, hb⟩ := exists_split_of_isEof h
  have hb' : ∀ x ∈ before.map (Token.relocate ℓ), x.isEof = false := List.forall_mem_map.mpr hb
  have ht' : (t.relocate ℓ).isEof = true := ht
  rw [List.map_append, List.map_cons, ofTokens_append_cons ht' hb', ofTokens_append_cons ht hb]
  rfl

end TokenSequence

/-- After a program without errors, tokens that do not begin with `else` are parsed as if they stood
alone. -/
theorem parse_append_of_errors_eq_nil {us rest : List Token} {last : Token}
    (hu : ∀ t ∈ us, t.isEof = false) (hlast : last.isEof = true)
    (hp : (parse (us ++ [last])).errors = [])
    (he : Stops [.keyword .else] (TokenSequence.ofTokens rest).tokens)
    (hrest : ∃ t ∈ rest, t.isEof = true) :
    parse (us ++ rest) = ⟨(parse (us ++ [last])).statements ++ (parse rest).statements,
      (parse rest).errors, (parse rest).endLine⟩ := by
  obtain ⟨ss, hss⟩ := (declarations_of_parse hp).nearest
  obtain ⟨-, rfl⟩ := parse_of_declarations hss
  rw [TokenSequence.ofTokens_append_cons hlast hu] at hss
  have hread := (hss.program_append he (program_replies_parse rest) _).resolve_left
    (Rule.program_ne_exhausted _)
  simp only [parse.eq_def (us ++ rest), TokenSequence.ofTokens_append hu hrest, hread,
    endLine_parse rest]

namespace Stops

variable {kinds : List Kind} {ts : List Token}

theorem takeWhile (h : Stops kinds ts) (p : Token → Bool) : Stops kinds (ts.takeWhile p) := by
  cases ts with
  | nil => exact h
  | cons t ts =>
    rw [List.takeWhile_cons]
    split
    · exact h
    · exact stops_nil kinds

theorem map_relocate (h : Stops kinds ts) (ℓ : Nat → Nat) :
    Stops kinds (ts.map (Token.relocate ℓ)) := by
  cases ts with
  | nil => exact h
  | cons t ts =>
    have hk : t.kind ∉ kinds := stops_cons.mp h
    exact stops_cons.mpr hk

/-- The first token that is parsed is the first one that is no comment, unless that is an end
marker. -/
theorem tokens_of_scan {source : String} (h : Stops kinds (tokensOf (scan .skip source)))
    (mode : CommentMode) :
    Stops kinds (TokenSequence.ofTokens (tokensOf (scan mode source))).tokens := by
  have hskip : (tokensOf (scan .skip source)).filter (fun t => !t.isComment) =
      tokensOf (scan .skip source) := by
    rw [scan_skip, tokensOf_withoutComments, List.filter_filter]
    simp
  rw [ofTokens_scan, TokenSequence.ofTokens, hskip]
  exact h.takeWhile _

end Stops

/-- With a line break between them, two sources are read one after the other, the second further down,
if the first has no error. The tokens are those of the first and the items of the second; the
statements are those of the first and those of the second, and the errors are those of the second. Only
an `else` at the beginning of the second source would belong to the first. -/
theorem concatenation_of_programs (mode : CommentMode) (s₁ s₂ : String)
    (hscan : errorsOf (scan mode s₁) = []) (hparse : (parse (tokensOf (scan mode s₁))).errors = [])
    (helse : ∀ t ∈ (tokensOf (scan .skip s₂)).head?, t.kind ≠ .keyword .else) :
    let down (line : Nat) := line + (s₁.toList.count '\n' + 1)
    let first := parse (tokensOf (scan mode s₁))
    let second := parse (tokensOf (scan mode s₂))
    let both := parse (tokensOf (scan mode (s₁ ++ "\n" ++ s₂)))
    (∃ ts : List Token, (∀ t ∈ ts, t.isEof = false) ∧
      scan mode s₁ = ts.map .token ++ [.token ⟨.eof, "", 1 + s₁.toList.count '\n'⟩] ∧
      scan mode (s₁ ++ "\n" ++ s₂) = ts.map .token ++ (scan mode s₂).map (Item.relocate down)) ∧
    both.statements = first.statements ++ Stmt.recodeAll ⟨id, down⟩ second.statements ∧
    both.errors = second.errors.map (SyntaxError.relocate down) ∧
    both.endLine = down second.endLine := by
  intro down first second both
  obtain ⟨ts, hts, h₁, h₂⟩ := scan_append_line hscan s₂
  refine ⟨⟨ts, hts, h₁, h₂⟩, ?_⟩
  have hfirst : tokensOf (scan mode s₁) = ts ++ [⟨.eof, "", 1 + s₁.toList.count '\n'⟩] := by
    rw [h₁, tokensOf_append, tokensOf_map_token]
    rfl
  have hboth : tokensOf (scan mode (s₁ ++ "\n" ++ s₂)) =
      ts ++ (tokensOf (scan mode s₂)).map (Token.relocate down) := by
    rw [h₂, tokensOf_append, tokensOf_map_token, tokensOf_map_relocate]
  have hstops : Stops [.keyword .else] (tokensOf (scan .skip s₂)) := fun t ht hm =>
    helse t ht (List.mem_singleton.mp hm)
  have hrest := (hstops.tokens_of_scan mode).map_relocate down
  rw [← TokenSequence.tokens_ofTokens_map_relocate] at hrest
  have heof : ∃ t ∈ tokensOf (scan mode s₂), t.isEof = true := by
    rw [scan_eq_items, tokensOf_append]
    exact ⟨_, List.mem_append_right _ (List.mem_singleton_self _), rfl⟩
  have heof' : ∃ t ∈ (tokensOf (scan mode s₂)).map (Token.relocate down), t.isEof = true := by
    obtain ⟨t, ht, he⟩ := heof
    exact ⟨t.relocate down, List.mem_map_of_mem ht, he⟩
  rw [hfirst] at hparse
  have hread := parse_append_of_errors_eq_nil hts rfl hparse hrest heof'
  obtain ⟨hs, he⟩ := parse_map_relocate down (tokensOf (scan mode s₂))
  have hend : (parse ((tokensOf (scan mode s₂)).map (Token.relocate down))).endLine =
      down second.endLine := by
    rw [endLine_parse, TokenSequence.endLine_ofTokens_map_relocate down heof, ← endLine_parse]
  rw [← hfirst, ← hboth, hs, he, hend] at hread
  exact ⟨congrArg Parsed.statements hread, congrArg Parsed.errors hread,
    congrArg Parsed.endLine hread⟩

/-- The first source ends in an `if` that could take an `else`, and in a comment without a line break;
the second one has a fault and an error. -/
theorem errors_after_open_if :
    let s₁ := "if (a) print 1; // or not"
    let s₂ := "print @;\nprint 2;"
    (errorsOf (scan .skip s₁) = [] ∧ (parse (tokensOf (scan .skip s₁))).errors = [] ∧
      ∀ t ∈ (tokensOf (scan .skip s₂)).head?, t.kind ≠ .keyword .else) ∧
    errorsOf (scan .skip (s₁ ++ "\n" ++ s₂)) = [⟨.unexpectedCharacter '@', 2⟩] ∧
    (parse (tokensOf (scan .skip (s₁ ++ "\n" ++ s₂)))).errors =
      [⟨.missingExpression, some ⟨";", 2⟩⟩] := by
  intro s₁ s₂
  have hscan : errorsOf (scan .skip s₁) = [] := by decide +kernel
  have hparse : (parse (tokensOf (scan .skip s₁))).errors = [] := by decide +kernel
  have helse : ∀ t ∈ (tokensOf (scan .skip s₂)).head?, t.kind ≠ .keyword .else := by
    have hfirst : (tokensOf (scan .skip s₂)).head?.all
        (fun t => !t.kind.sameAs (.keyword .else)) = true := by decide +kernel
    intro t ht hk
    rw [Option.mem_def.mp ht, Option.all_some, hk] at hfirst
    cases hfirst
  obtain ⟨-, -, he, -⟩ := concatenation_of_programs .skip s₁ s₂ hscan hparse helse
  have hsecond : (parse (tokensOf (scan .skip s₂))).errors =
      [⟨.missingExpression, some ⟨";", 1⟩⟩] := by decide +kernel
  refine ⟨⟨hscan, hparse, helse⟩, by decide +kernel, ?_⟩
  rw [he, hsecond]
  decide +kernel

end Lox
