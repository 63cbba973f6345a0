import Lox.Proofs.Syntax.Concatenation
import Lox.Proofs.Syntax.Passing
import Lox.Proofs.Syntax.Settled

/-!
# What a broken declaration costs

A declaration that fails gives no statement. The token at which it failed is skipped, and then the
tokens up to the next one that begins a statement, or up to and with a semicolon.

* `parse_append_of_program`: after a program without errors it is read as if it stood alone;
* `parse_append_of_lost`: and if it is lost, what is left behind it is read as if it stood alone;
* `broken_declaration_is_contained`: between two programs, a broken declaration that ends in a
  semicolon costs the errors that it has itself, and nothing else.
-/

namespace Lox

/-! ## Tokens -/

/-- The tokens that are no comments. -/
def withoutCommentTokens (ts : List Token) : List Token := ts.filter fun t => !t.isComment

theorem withoutCommentTokens_append (ts us : List Token) :
    withoutCommentTokens (ts ++ us) = withoutCommentTokens ts ++ withoutCommentTokens us :=
  List.filter_append ts us

theorem withoutCommentTokens_subset (ts : List Token) : withoutCommentTokens ts ⊆ ts :=
  List.filter_subset_self ts

theorem Token.isEof_semicolon {t : Token} (h : t.kind = .symbol .semicolon) : t.isEof = false := by
  simp [Token.isEof, h, Kind.sameAs]

namespace TokenSequence

theorem tokens_ofTokens (ts : List Token) :
    (ofTokens ts).tokens = (withoutCommentTokens ts).takeWhile fun t => !t.isEof := rfl

/-- Tokens without an end marker come before those that are parsed behind them. -/
theorem tokens_ofTokens_append {us : List Token} (hu : ∀ t ∈ us, t.isEof = false) (rest : List Token) :
    (ofTokens (us ++ rest)).tokens = withoutCommentTokens us ++ (ofTokens rest).tokens := by
  rw [tokens_ofTokens, withoutCommentTokens_append, List.takeWhile_append_of_pos fun t ht => ?_]
  · rfl
  · simp [hu t (withoutCommentTokens_subset us ht)]

/-- Tokens that end in a semicolon come before those that are parsed behind it. -/
theorem tokens_ofTokens_append_semicolon {us : List Token} {semicolon : Token}
    (hu : ∀ t ∈ us, t.isEof = false) (hs : semicolon.kind = .symbol .semicolon) (rest : List Token) :
    (ofTokens (us ++ semicolon :: rest)).tokens =
      withoutCommentTokens us ++ [semicolon] ++ (ofTokens rest).tokens := by
  have hcomment : semicolon.isComment = false := by simp [Token.isComment, hs, Kind.sameAs]
  have hfront : ∀ t ∈ us ++ [semicolon], t.isEof = false :=
    List.forall_mem_append.mpr ⟨hu, List.forall_mem_singleton.mpr (Token.isEof_semicolon hs)⟩
  rw [List.append_cons, tokens_ofTokens_append hfront, withoutCommentTokens_append]
  simp [withoutCommentTokens, hcomment]

/-- What stands in front does not change where the tokens end, if something is left to parse. -/
theorem endLine_ofTokens_append {us : List Token} (hu : ∀ t ∈ us, t.isEof = false) {rest : List Token}
    (hr : withoutCommentTokens rest ≠ []) : (ofTokens (us ++ rest)).endLine = (ofTokens rest).endLine := by
  have hfind : (withoutCommentTokens us).find? Token.isEof = none :=
    List.find?_eq_none.mpr fun t ht => by simp [hu t (withoutCommentTokens_subset us ht)]
  have hlast := List.getLast?_append_of_ne_nil (withoutCommentTokens us) hr
  simp only [withoutCommentTokens] at hfind hlast
  simp only [ofTokens, List.filter_append, List.find?_append, hfind, Option.none_or, hlast]

/-- Tokens that are parsed already are parsed as they are. -/
theorem tokens_ofTokens_of_suffix {ts us : List Token} (h : us <:+ (ofTokens ts).tokens) :
    (ofTokens us).tokens = us := by
  have hmem : ∀ t ∈ us, t.isComment = false ∧ t.isEof = false := by
    intro t ht
    have ht := h.subset ht
    refine ⟨?_, ?_⟩
    · have := List.takeWhile_subset _ ht
      simpa using (List.mem_filter.mp this).2
    · simpa using List.mem_takeWhile_imp ht
  have hfilter : withoutCommentTokens us = us :=
    List.filter_eq_self.mpr fun t ht => by simp [(hmem t ht).1]
  rw [tokens_ofTokens, hfilter]
  exact List.takeWhile_eq_self_iff.mpr fun t ht => by simp [(hmem t ht).2]

end TokenSequence

/-! ## Skipping -/

theorem tail_suffix_tail {α : Type} {us vs : List α} (h : us <:+ vs) : us.tail <:+ vs.tail := by
  obtain ⟨_ | ⟨v, front⟩, rfl⟩ := h
  · exact List.suffix_refl _
  · exact (List.tail_suffix us).trans (List.suffix_append front us)

namespace Parse

/-- The skipping ends behind the first semicolon, if nothing before it begins a statement. -/
theorem synchronize_append_cons {us rest : List Token} {semicolon : Token}
    (hs : semicolon.kind = .symbol .semicolon) (hu : ∀ t ∈ us, t.kind ≠ .symbol .semicolon)
    (hk : ∀ t ∈ us.tail, beginsStatement t = false) :
    synchronize (us ++ semicolon :: rest) = rest := by
  have hsemi (t : Token) : t.kind.sameAs (.symbol .semicolon) = true ↔ t.kind = .symbol .semicolon :=
    Kind.sameAs_iff_eq trivial
  induction us with
  | nil => simp [synchronize, (hsemi semicolon).mpr hs]
  | cons t us ih =>
    have hnot : t.kind.sameAs (.symbol .semicolon) = false :=
      Bool.eq_false_iff.mpr fun h => hu t List.mem_cons_self ((hsemi t).mp h)
    have hnext : (us ++ semicolon :: rest).head?.any beginsStatement = false := by
      cases us with
      | nil => simp [beginsStatement, hs]
      | cons u us => simpa using hk u (by simp)
    rw [List.cons_append, synchronize, hnot, hnext]
    exact ih (fun u hu' => hu u (List.mem_cons_of_mem t hu')) fun u hu' =>
      hk u (List.mem_of_mem_tail hu')

end Parse

/-- A program without errors, and behind it tokens that are read in this way. -/
theorem parse_append_of_program {before rest : List Token} {ss : List (Stmt Unit)}
    {noted : List SyntaxError} (hbefore : ∀ t ∈ before, t.isEof = false)
    (hp : (parse before).errors = [])
    (he : Stops [.keyword .else] (TokenSequence.ofTokens rest).tokens)
    (hr : Rule.program.Replies (TokenSequence.ofTokens rest).tokens (.ok ss [] noted)) :
    (parse (before ++ rest)).statements = (parse before).statements ++ ss ∧
      (parse (before ++ rest)).errors = noted := by
  obtain ⟨ss', hss⟩ := (declarations_of_parse hp).nearest
  obtain ⟨-, rfl⟩ := parse_of_declarations hss
  have hall : (TokenSequence.ofTokens before).tokens = withoutCommentTokens before := by
    have := TokenSequence.tokens_ofTokens_append hbefore []
    simpa [TokenSequence.ofTokens] using this
  rw [hall] at hss
  have hread := @program_of_depth_le (before ++ rest) _ (Nat.le_refl _)
  rw [TokenSequence.tokens_ofTokens_append hbefore rest] at hread
  rcases hss.program_append he hr _ with hx | hok
  · rw [hx] at hread
    cases hread
  · rw [hok] at hread
    injection hread with hs _ hn
    exact ⟨hs.symm, hn.symm⟩

/-- A program without errors, a declaration that is lost, and what is left behind it. -/
theorem parse_append_of_lost {before rest left : List Token} {noted : List SyntaxError}
    (hbefore : ∀ t ∈ before, t.isEof = false) (hp : (parse before).errors = [])
    (hr : (TokenSequence.ofTokens rest).tokens ≠ [])
    (he : Stops [.keyword .else] (TokenSequence.ofTokens rest).tokens)
    (hd : Rule.declaration.Replies (TokenSequence.ofTokens rest).tokens
      (.ok none (TokenSequence.ofTokens left).tokens noted)) :
    (parse (before ++ rest)).statements = (parse before).statements ++ (parse left).statements ∧
      (parse (before ++ rest)).errors = noted ++ (parse left).errors :=
  parse_append_of_program hbefore hp he
    (Rule.program_of_declaration hr hd (program_replies_parse left))

/-- The errors of tokens that stand at the end are located as if they stood alone. -/
theorem diagnostics_append {us rest : List Token} {noted : List SyntaxError}
    (hu : ∀ t ∈ us, t.isEof = false)
    (he : (parse (us ++ rest)).errors = noted ++ (parse rest).errors) :
    (parse (us ++ rest)).diagnostics =
      noted.map (SyntaxError.toDiagnostic (parse (us ++ rest)).endLine) ++
        (parse rest).diagnostics := by
  have hrest : (parse rest).errors.map (SyntaxError.toDiagnostic (parse (us ++ rest)).endLine) =
      (parse rest).diagnostics := by
    rw [Parsed.diagnostics, endLine_parse, endLine_parse]
    by_cases hr : withoutCommentTokens rest = []
    · have hnone : (parse rest).errors = [] := by
        rw [(commented_filter rest).parse_eq.trans (congrArg parse hr)]
        rfl
      rw [hnone]
      rfl
    · rw [TokenSequence.endLine_ofTokens_append hu hr]
  rw [← hrest, Parsed.diagnostics, he, List.map_append]

/-! ## Broken declarations -/

/-- What a declaration without braces notes and fails at. -/
theorem Parse.calm_firstDeclaration {ts : List Token}
    (h : ∀ t ∈ ts, t.kind ≠ .symbol .leftBrace) :
    (firstDeclaration ts).Calm (· ∈ ts) ts fun _ => True := by
  have hplain : (Kind.symbol .leftBrace).IsPlain := trivial
  have hK : ∀ t ∈ ts, t.kind.sameAs (.symbol .leftBrace) = false := fun t ht =>
    Bool.eq_false_iff.mpr fun hb => h t ht ((Kind.sameAs_iff_eq hplain).mp hb)
  exact Script.calm_run (fun r hr _ hus => calm_rule hK _ hr hus) _ Script.calm_declaration
    fun _ ht => ht

/-- Such a declaration fails before its tokens end: what it notes is no failure, and all its errors are
at its tokens. -/
theorem Parse.errors_of_firstDeclaration {ts rest : List Token} {error : SyntaxError}
    {noted : List SyntaxError} (h : ∀ t ∈ ts, t.kind ≠ .symbol .leftBrace)
    (hfail : firstDeclaration ts = .fail error rest noted) (hrest : rest ≠ []) :
    rest <:+ ts ∧ (error.fault.stops = true ∧ ∀ e ∈ noted, e.fault.stops = false) ∧
      ∀ e ∈ noted ++ [error], ∃ t ∈ ts, e.found = some t.toName := by
  have hcalm := calm_firstDeclaration h
  rw [hfail] at hcalm
  obtain ⟨hsuffix, hnoted, hstops, hfound⟩ := hcalm
  refine ⟨hsuffix, ⟨hstops, fun e he => (hnoted e he).1⟩, ?_⟩
  refine List.forall_mem_append.mpr ⟨fun e he => (hnoted e he).2 hrest, ?_⟩
  obtain ⟨t, us, rfl⟩ := List.exists_cons_of_ne_nil hrest
  exact List.forall_mem_singleton.mpr ⟨t, hsuffix.subset List.mem_cons_self, hfound⟩

/-- The declaration that begins with `broken` and ends in a semicolon fails, at a token of `broken` or
at the semicolon. Wherever it stands, what comes behind the semicolon is read as if it stood alone:
between two programs, of which the first has no errors, the statements are those of the two, and the
errors are those of the declaration and those of the second program.

The tokens of `broken` are no braces that open and no semicolons, and after the first they begin no
statement; the first is not an `else`, which the program before might take. Comments may stand anywhere
and do not count.

Of the errors of the declaration the last is the one at which it failed, and the only one of a kind at
which a parser fails; each is at a token of the declaration. -/
theorem broken_declaration_is_contained {before broken rest : List Token} {semicolon : Token}
    {error : SyntaxError} {noted : List SyntaxError} (hbefore : ∀ t ∈ before, t.isEof = false)
    (hp : (parse before).errors = []) (hs : semicolon.kind = .symbol .semicolon)
    (hbroken : ∀ t ∈ broken, t.isEof = false ∧ t.kind ≠ .symbol .semicolon ∧
      t.kind ≠ .symbol .leftBrace)
    (hkeywords : ∀ t ∈ (withoutCommentTokens broken).tail, Parse.beginsStatement t = false)
    (helse : ∀ t ∈ (withoutCommentTokens broken).head?, t.kind ≠ .keyword .else)
    (hfail : Parse.firstDeclaration (withoutCommentTokens broken ++ [semicolon]) =
      .fail error rest noted)
    (hrest : rest ≠ []) (after : List Token) :
    let whole := parse (before ++ (broken ++ semicolon :: after))
    whole.statements = (parse before).statements ++ (parse after).statements ∧
    whole.errors = noted ++ error :: (parse after).errors ∧
    whole.diagnostics = (noted ++ [error]).map (SyntaxError.toDiagnostic whole.endLine) ++
      (parse after).diagnostics ∧
    (error.fault.stops = true ∧ ∀ e ∈ noted, e.fault.stops = false) ∧
    ∀ e ∈ noted ++ [error], ∃ t ∈ broken ++ [semicolon], e.found = some t.toName := by
  intro whole
  have hkept : ∀ t ∈ withoutCommentTokens broken ++ [semicolon], t ∈ broken ++ [semicolon] :=
    fun t ht => (List.mem_append.mp ht).elim
      (fun ht => List.mem_append_left _ (withoutCommentTokens_subset broken ht))
      (fun ht => List.mem_append_right _ ht)
  have hbrace : ∀ t ∈ withoutCommentTokens broken ++ [semicolon], t.kind ≠ .symbol .leftBrace := by
    refine List.forall_mem_append.mpr ⟨fun t ht => ?_, List.forall_mem_singleton.mpr (by simp [hs])⟩
    exact (hbroken t (withoutCommentTokens_subset broken ht)).2.2
  obtain ⟨hsuffix, hstops, hplaces⟩ := Parse.errors_of_firstDeclaration hbrace hfail hrest
  -- the failure is in front of the semicolon or at it, and the skipping ends behind it
  obtain ⟨us, rfl, hus⟩ := (List.suffix_concat_iff.mp hsuffix).resolve_left hrest
  have hsync : Parse.synchronize (us ++ [semicolon] ++ (TokenSequence.ofTokens after).tokens) =
      (TokenSequence.ofTokens after).tokens := by
    rw [List.append_assoc]
    refine Parse.synchronize_append_cons hs (fun t ht => ?_) fun t ht => ?_
    · exact (hbroken t (withoutCommentTokens_subset broken (hus.subset ht))).2.1
    · exact hkeywords t (tail_suffix_tail hus |>.subset ht)
  have htokens := TokenSequence.tokens_ofTokens_append_semicolon (fun t ht => (hbroken t ht).1) hs after
  have hlost : Rule.declaration.Replies (TokenSequence.ofTokens (broken ++ semicolon :: after)).tokens
      (.ok none (TokenSequence.ofTokens after).tokens (noted ++ [error])) := by
    have hd := Rule.declaration_of_fail (Script.declaration_append hfail hrest
      (TokenSequence.ofTokens after).tokens)
    rwa [hsync, ← htokens] at hd
  have hfirst : Stops [.keyword .else] (TokenSequence.ofTokens (broken ++ semicolon :: after)).tokens := by
    rw [htokens]
    cases hb : withoutCommentTokens broken with
    | nil => exact stops_cons.mpr (by simp [hs])
    | cons t ts =>
      rw [hb] at helse
      exact stops_cons.mpr fun hm => helse t rfl (List.mem_singleton.mp hm)
  obtain ⟨hstatements, herrors⟩ := parse_append_of_lost hbefore hp (by simp [htokens]) hfirst hlost
  have hfront : ∀ t ∈ before ++ broken ++ [semicolon], t.isEof = false :=
    List.forall_mem_append.mpr ⟨List.forall_mem_append.mpr ⟨hbefore, fun t ht => (hbroken t ht).1⟩,
      List.forall_mem_singleton.mpr (Token.isEof_semicolon hs)⟩
  have hassoc : before ++ (broken ++ semicolon :: after) =
      before ++ broken ++ [semicolon] ++ after := by simp
  refine ⟨hstatements, by simpa using herrors, ?_, hstops, fun e he => ?_⟩
  · simp only [whole]
    rw [hassoc] at herrors ⊢
    exact diagnostics_append hfront herrors
  · obtain ⟨t, ht, he⟩ := hplaces e he
    exact ⟨t, hkept t ht, he⟩

/-- An assignment to a sum is noted, and the declaration fails at the token after it. What comes behind
the semicolon has an error of its own. -/
theorem errors_of_broken_print :
    let tokens (source : String) := (tokensOf (scan .skip source)).filter fun t => !t.isEof
    let broken := tokens "print (a + 1 = 2) b"
    let semicolon : Token := ⟨.symbol .semicolon, ";", 1⟩
    let whole := parse (tokens "print 1;" ++ (broken ++ semicolon :: tokens "print; print 2;"))
    (∃ error rest noted, Parse.firstDeclaration (withoutCommentTokens broken ++ [semicolon]) =
      .fail error rest noted ∧ rest ≠ []) ∧
    whole.errors = [⟨.invalidAssignmentTarget, some ⟨"=", 1⟩⟩,
      ⟨.missingSymbol .semicolon .afterValue, some ⟨"b", 1⟩⟩, ⟨.missingExpression, some ⟨";", 1⟩⟩] ∧
    whole.statements = (parse (tokens "print 1;")).statements ++
      (parse (tokens "print; print 2;")).statements := by
  intro tokens broken semicolon whole
  have hbefore : ∀ t ∈ tokens "print 1;", t.isEof = false := by decide +kernel
  have hkinds : ∀ t ∈ broken, t.isEof = false ∧ t.kind.sameAs (.symbol .semicolon) = false ∧
      t.kind.sameAs (.symbol .leftBrace) = false ∧ t.kind.sameAs (.keyword .else) = false := by
    decide +kernel
  have hplain {t : Token} {kind : Kind} (hk : kind.IsPlain) (h : t.kind.sameAs kind = false) :
      t.kind ≠ kind := fun he => Bool.eq_false_iff.mp h ((Kind.sameAs_iff_eq hk).mpr he)
  have hbroken : ∀ t ∈ broken, t.isEof = false ∧ t.kind ≠ .symbol .semicolon ∧
      t.kind ≠ .symbol .leftBrace := fun t ht =>
    ⟨(hkinds t ht).1, hplain trivial (hkinds t ht).2.1, hplain trivial (hkinds t ht).2.2.1⟩
  have hkeywords : ∀ t ∈ (withoutCommentTokens broken).tail, Parse.beginsStatement t = false := by
    decide +kernel
  have helse : ∀ t ∈ (withoutCommentTokens broken).head?, t.kind ≠ .keyword .else := fun t ht =>
    hplain trivial (hkinds t (withoutCommentTokens_subset broken (List.mem_of_mem_head? ht))).2.2.2
  have hanswer : (match Parse.firstDeclaration (withoutCommentTokens broken ++ [semicolon]) with
      | .fail error rest noted => decide (error = ⟨.missingSymbol .semicolon .afterValue, some ⟨"b", 1⟩⟩ ∧
          noted = [⟨.invalidAssignmentTarget, some ⟨"=", 1⟩⟩]) && !rest.isEmpty
      | _ => false) = true := by decide +kernel
  cases hfail : Parse.firstDeclaration (withoutCommentTokens broken ++ [semicolon]) with
  | ok value rest noted => simp [hfail] at hanswer
  | exhausted => simp [hfail] at hanswer
  | fail error rest noted =>
    obtain ⟨⟨rfl, rfl⟩, hrest⟩ : (_ ∧ _) ∧ rest ≠ [] := by simpa [hfail] using hanswer
    obtain ⟨hs, he, -⟩ := broken_declaration_is_contained hbefore (by decide +kernel) rfl hbroken
      hkeywords helse hfail hrest (tokens "print; print 2;")
    refine ⟨⟨_, _, _, rfl, hrest⟩, ?_, hs⟩
    have hafter : (parse (tokens "print; print 2;")).errors =
        [⟨.missingExpression, some ⟨";", 1⟩⟩] := by decide +kernel
    rw [he, hafter]
    rfl

end Lox
