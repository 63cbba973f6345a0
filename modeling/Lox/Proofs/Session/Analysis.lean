import Lox.Proofs.Scope.Accepted
import Lox.Proofs.Syntax.ParsedTrees
import Lox.Session

/-!
# The analysis of a source

* `Analysis.wellFormedAll_program`: the tree of a source is well-formed, whether
  or not the source has errors;
* `Analysis.ids_program`: its nodes have the numbers from the first one to the
  next free one, each once;
* `Analysis.errors_eq_nil`: a source that is not rejected has no scoping errors.
-/

namespace Lox

namespace Analysis

section

variable (nextId : NodeId) (lexical : List LexicalError) (parsed : Parsed)

theorem ids_ofParsed :
    nextId ≤ (ofParsed nextId lexical parsed).nextId ∧
      Reference.ids (Stmt.referencesAll (ofParsed nextId lexical parsed).program) =
        List.range' nextId ((ofParsed nextId lexical parsed).nextId - nextId) :=
  ids_numberAll parsed.statements nextId

theorem nodup_ids_ofParsed :
    (Reference.ids (Stmt.referencesAll (ofParsed nextId lexical parsed).program)).Nodup := by
  rw [(ids_ofParsed nextId lexical parsed).2]
  exact List.nodup_range'

end

/-- The tree of a source is well-formed, in either mode of its comments. -/
theorem wellFormedAll_ofParsed (nextId : NodeId) (mode : CommentMode) (source : String) :
    Stmt.WellFormedAll (ofParsed nextId (errorsOf (scan mode source))
      (parse (tokensOf (scan mode source)))).program :=
  wellFormedAll_numberAll (wellFormed_parse fun _ ht => spelled_of_mem_scan ht) nextId

section

variable (nextId : NodeId) (source : String)

theorem wellFormedAll_program : Stmt.WellFormedAll (ofSource nextId source).program :=
  wellFormedAll_ofParsed nextId .skip source

theorem ids_program :
    nextId ≤ (ofSource nextId source).nextId ∧
      Reference.ids (Stmt.referencesAll (ofSource nextId source).program) =
        List.range' nextId ((ofSource nextId source).nextId - nextId) :=
  ids_ofParsed nextId _ _

variable {nextId source}

/-- A source that is not rejected has no scoping errors. -/
theorem errors_eq_nil (h : (ofSource nextId source).rejections = []) :
    (resolve (ofSource nextId source).program).errors = [] := by
  have hs : (ofSource nextId source).scopeDiagnostics = [] := by
    unfold rejections at h
    split at h
    · exact h
    · next he => exact absurd (h ▸ rfl) he
  exact List.map_eq_nil_iff.mp hs

end

end Analysis

end Lox
