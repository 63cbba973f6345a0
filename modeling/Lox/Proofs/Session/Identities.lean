import Lox.Proofs.Session.Rejections
import Lox.Proofs.Syntax.Drawn

/-!
# Numbers from one counter

The nodes of all sources can be numbered as they are built, by one counter that is never set back
(`Analysis.drawn`). A session looks numbers up in its table only, where the distances of all
programs stand together, so it needs no more of them than that no two nodes have the same one.

* `Reference.Within.readEach`: nodes that were drawn with one counter have numbers of their own;
* `Session.Retaining.load`, `Session.Retaining.runAs`: the table of a session goes on holding the
  distances of each program that it ran;
* `Session.Corresponds.runAllAs`: sessions run sources in the same way, whatever numbers the nodes
  have.
-/

namespace Lox

/-! ## Programs read in turn -/

theorem parsed_readEach (sources : List (List Token)) (first : NodeId) :
    ((readEach sources).run first).1.map Drawing.parsed = sources.map parse := by
  induction sources generalizing first with
  | nil => rfl
  | cons ts rest ih => exact congrArg₂ List.cons (parsed_readDrawing ts first) (ih _)

/-- With one counter, all nodes of all programs have numbers of their own. -/
theorem Reference.Within.readEach (sources : List (List Token)) (first : NodeId) :
    Within first ((Lox.readEach sources).run first).2
      ((((Lox.readEach sources).run first).1.map Drawing.program).flatMap Stmt.referencesAll) := by
  induction sources generalizing first with
  | nil => exact .nil first
  | cons ts rest ih => exact (labeling_readDrawing ts first).toWithin.append (ih _)

/-- So they have if each program is numbered afterwards. -/
theorem Reference.Within.numberEach (ps : List (List (Stmt Unit))) (first : NodeId) :
    ∃ next, Within first next ((Stmt.numberEach first ps).flatMap Stmt.referencesAll) := by
  induction ps generalizing first with
  | nil => exact ⟨first, .nil first⟩
  | cons p ps ih =>
    obtain ⟨next, h⟩ := ih ((Stmt.numberAll p).run first).2
    exact ⟨next, (labeling_numberAll p first).toWithin.append h⟩

/-- Then the walk finds one distance at most for a node. -/
theorem nodup_distances_of_nodup {programs : List (List (Stmt NodeId))}
    (h : (Reference.ids (programs.flatMap Stmt.referencesAll)).Nodup) :
    ∀ p ∈ programs, ((resolve p).distances.map Prod.fst).Nodup := by
  rw [Reference.ids, List.map_flatMap, List.nodup_flatMap] at h
  exact fun p hp => nodup_distances_resolve (h.1 p hp)

/-! ## Sources -/

namespace Analysis

/-- Analyses a source whose nodes are numbered as they are built. -/
def drawn (first : NodeId) (source : String) : Analysis :=
  let items := scan .skip source
  let (drawing, nextId) := (readDrawing (tokensOf items)).run first
  { lexical := errorsOf items, parsed := drawing.parsed, program := drawing.program,
    resolution := resolve drawing.program, nextId }

/-- A way to analyse sources that numbers the nodes of a source as it likes, from some number on. -/
structure Numbers (analyze : NodeId → String → Analysis) : Prop where
  labels (first : NodeId) (source : String) : (analyze first source).Labels first
  lexical (first : NodeId) (source : String) :
    (analyze first source).lexical = errorsOf (scan .skip source)
  parsed (first : NodeId) (source : String) :
    (analyze first source).parsed = parse (tokensOf (scan .skip source))

theorem numbers_ofSource : Numbers ofSource :=
  ⟨labels_ofSource, fun _ _ => rfl, fun _ _ => rfl⟩

theorem numbers_drawn : Numbers drawn := by
  refine ⟨fun first source => ⟨?_, rfl⟩, fun _ _ => rfl, fun first source => ?_⟩
  · have hparsed : (drawn first source).parsed = parse (tokensOf (scan .skip source)) :=
      parsed_readDrawing _ first
    rw [hparsed]
    exact labeling_readDrawing _ first
  · exact parsed_readDrawing _ first

end Analysis

namespace Session

variable {analyze analyze' : NodeId → String → Analysis} {maxDepth : Nat} {sink : Sink}
  {first : NodeId} {a : Analysis} {batches : List Analysis} {s s' : Session}

/-! ## Tables -/

/-- The sessions to which a fresh one comes by running sources, with their analyses. The numbers
come from one counter, which starts anywhere and may also be used elsewhere in between; and in between
the output may be sent elsewhere. -/
inductive History (analyze : NodeId → String → Analysis) (maxDepth : Nat) (sink : Sink)
    (first : NodeId) : List Analysis → Session → Prop where
  | start :
    History analyze maxDepth sink first [] { Session.start maxDepth sink with nextId := first }
  | skip {batches : List Analysis} {s : Session} (count : Nat)
    (hs : History analyze maxDepth sink first batches s) :
    History analyze maxDepth sink first batches { s with nextId := s.nextId + count }
  | run {batches : List Analysis} {s s' : Session} {fuel : Nat} {source : String}
    {report : RunReport} (hs : History analyze maxDepth sink first batches s)
    (hr : s.runAs fuel (analyze s.nextId source) = some (report, s')) :
    History analyze maxDepth sink first (batches ++ [analyze s.nextId source]) s'
  | redirect {batches : List Analysis} {s : Session} (other : Sink)
    (hs : History analyze maxDepth sink first batches s) :
    History analyze maxDepth sink first batches { s with sink := other }

/-- Each accepted program has its distances in the table. -/
def Retains (batches : List Analysis) (table : DistanceTable) : Prop :=
  ∀ a ∈ batches, a.rejections = [] → ∀ id ∈ Stmt.idsAll a.program,
    table.get? id = a.resolution.table.get? id

/-- The numbers of all programs are taken, and the table retains their distances. -/
structure Retaining (batches : List Analysis) (s : Session) : Prop extends s.Numbered where
  used : ∀ a ∈ batches, ∀ id ∈ Stmt.idsAll a.program, id < s.nextId
  retains : Retains batches s.table

/-- While a program runs, the table has its distances, and goes on to retain those of the others. -/
theorem Retaining.load (h : s.Retaining batches) (ha : a.Labels s.nextId) :
    Retains (batches ++ [a]) (s.load a.nextId a.program).table := by
  intro b hb hb_accepted id hid
  rcases List.mem_append.mp hb with hb | hb
  · rw [get?_table_load ha.labeling (.inl (h.used b hb id hid))]
    exact h.retains b hb hb_accepted id hid
  · obtain rfl := List.mem_singleton.mp hb
    rw [Session.load, DistanceTable.get?_merge, h.free (ha.labeling.bounds id hid).1,
      Option.or_none, ha.resolution]

theorem Retaining.runAs (h : s.Retaining batches) (ha : a.Labels s.nextId) {fuel : Nat}
    {report : RunReport} (hr : s.runAs fuel a = some (report, s')) :
    s'.Retaining (batches ++ [a]) := by
  obtain ⟨hnumbered, hnext, htable⟩ := h.toNumbered.runAs ha hr
  refine ⟨hnumbered, fun b hb id hid => ?_, ?_⟩
  · rw [hnext]
    rcases List.mem_append.mp hb with hb | hb
    · exact Nat.lt_of_lt_of_le (h.used b hb id hid) ha.labeling.le
    · obtain rfl := List.mem_singleton.mp hb
      exact (ha.labeling.bounds id hid).2
  · rw [htable]
    split
    · exact h.load ha
    · rename_i hrejected
      intro b hb hb_accepted
      rcases List.mem_append.mp hb with hb | hb
      · exact h.retains b hb hb_accepted
      · obtain rfl := List.mem_singleton.mp hb
        exact absurd hb_accepted hrejected

theorem History.retaining (ha : Analysis.Numbers analyze)
    (h : History analyze maxDepth sink first batches s) : s.Retaining batches := by
  induction h with
  | start => exact ⟨.start maxDepth sink first, nofun, nofun⟩
  | skip count hs ih =>
    exact ⟨ih.toNumbered.advance (Nat.le_add_right _ count),
      fun a ha id hid => Nat.lt_add_right count (ih.used a ha id hid), ih.retains⟩
  | run hs hr ih => exact ih.runAs (ha.labels _ _) hr
  | redirect other hs ih => exact ⟨ih.toNumbered.redirect other, ih.used, ih.retains⟩

/-! ## Sources in turn -/

/-- Runs sources one after another, each with the numbers that it has by `analyze`. -/
def runAllAs (analyze : NodeId → String → Analysis) :
    List Input → Session → Option (List RunReport × Session)
  | [], s => some ([], s)
  | input :: rest, s =>
    ({ s with sink := input.sink }.runAs input.fuel (analyze s.nextId input.source)).bind fun (report, s) =>
      (runAllAs analyze rest s).map fun (reports, s) => (report :: reports, s)

theorem runAll_eq_runAllAs (inputs : List Input) (s : Session) :
    s.runAll inputs = s.runAllAs Analysis.ofSource inputs := by
  induction inputs generalizing s with
  | nil => rfl
  | cons input rest ih =>
    rw [runAll, runAllAs, run_eq_runAs]
    simp only [ih]

/-- Sessions that correspond run sources in the same way, whatever numbers the nodes have. -/
theorem Corresponds.runAllAs (ha : Analysis.Numbers analyze) (ha' : Analysis.Numbers analyze')
    (inputs : List Input) (h : s.Corresponds id s') :
    (s'.runAllAs analyze' inputs).map Prod.fst = (s.runAllAs analyze inputs).map Prod.fst := by
  induction inputs generalizing s s' with
  | nil => rfl
  | cons input rest ih =>
    have hlexical := (ha'.lexical s'.nextId input.source).trans (ha.lexical s.nextId _).symm
    have hparsed := (ha'.parsed s'.nextId input.source).trans (ha.parsed s.nextId _).symm
    have hr := (h.redirect input.sink).runAs (ha.labels s.nextId input.source)
      (ha'.labels s'.nextId input.source) hlexical hparsed input.fuel
    rw [Session.runAllAs, Session.runAllAs]
    generalize Session.runAs input.fuel _ { s with sink := input.sink } = o at hr
    generalize Session.runAs input.fuel _ { s' with sink := input.sink } = o' at hr
    cases hr with
    | none => rfl
    | @some r r' hr =>
      obtain ⟨report, s₁⟩ := r
      obtain ⟨report', s₁'⟩ := r'
      obtain ⟨rfl, hafter⟩ : report' = report ∧ s₁.Corresponds id s₁' := hr
      have hrest := congrArg (Option.map (report' :: ·)) (ih hafter)
      simp only [Option.map_map] at hrest
      simp only [Option.bind_some, Option.map_map]
      exact hrest

end Session

/-! ## The property -/

/-- Node identities never collide. With one counter, wherever it starts, all nodes of all programs
that are read one after another have numbers of their own, and what is read is what the parser
reads; the walk finds a distance once at most for a node. In every session that numbers the nodes of
its sources with such a counter, as they are built or afterwards, the table holds for the nodes of
each program that was accepted the distances that were found for it, between two runs and also while
a program runs. And the sources of a session give the same reports in both ways, wherever the
counter starts. -/
theorem node_identities_never_collide (first : NodeId) :
    (∀ sources : List (List Token),
      let drawings := ((readEach sources).run first).1
      let drawn := drawings.map Drawing.program
      let numbered := Stmt.numberEach first (sources.map fun ts => (parse ts).statements)
      drawings.map Drawing.parsed = sources.map parse ∧
      ∀ programs ∈ [drawn, numbered],
        (Reference.ids (programs.flatMap Stmt.referencesAll)).Nodup ∧
        ∀ p ∈ programs, ((resolve p).distances.map Prod.fst).Nodup) ∧
    (∀ analyze ∈ [Analysis.drawn, Analysis.ofSource], ∀ maxDepth sink batches s,
      Session.History analyze maxDepth sink first batches s →
        Session.Retains batches s.table ∧
        ∀ source, let a := analyze s.nextId source
          Session.Retains (batches ++ [a]) (s.load a.nextId a.program).table) ∧
    ∀ maxDepth sink (inputs : List Session.Input) (first' : NodeId),
      (Session.runAllAs Analysis.drawn inputs
          { Session.start maxDepth sink with nextId := first }).map Prod.fst =
        (Session.runAll inputs
          { Session.start maxDepth sink with nextId := first' }).map Prod.fst := by
  have hnumbers : ∀ analyze ∈ [Analysis.drawn, Analysis.ofSource], Analysis.Numbers analyze := by
    simp [Analysis.numbers_drawn, Analysis.numbers_ofSource]
  refine ⟨fun sources => ⟨parsed_readEach sources first, fun programs hprograms => ?_⟩,
    fun analyze ha maxDepth sink batches s h => ?_, fun maxDepth sink inputs first' => ?_⟩
  · have hnodup : (Reference.ids (programs.flatMap Stmt.referencesAll)).Nodup := by
      rcases List.mem_pair.mp hprograms with rfl | rfl
      · exact (Reference.Within.readEach sources first).nodup
      · obtain ⟨next, h⟩ := Reference.Within.numberEach
          (sources.map fun ts => (parse ts).statements) first
        exact h.nodup
    exact ⟨hnodup, nodup_distances_of_nodup hnodup⟩
  · have hretaining := h.retaining (hnumbers analyze ha)
    exact ⟨hretaining.retains, fun source =>
      hretaining.load ((hnumbers analyze ha).labels s.nextId source)⟩
  · rw [Session.runAll_eq_runAllAs]
    exact Session.Corresponds.runAllAs Analysis.numbers_ofSource Analysis.numbers_drawn inputs
      (.start id maxDepth sink first' first)

/-- The target of an assignment, a value without a target and a declaration that fails leave gaps,
and an assignment has a later number than its value. -/
theorem node_identities_never_collide_around_gaps :
    let sources := ["a=b;", "for(;i;i=a)b;", "nil=c;d=;e;"].map fun source =>
      tokensOf (scan .skip source)
    let drawn := ((readEach sources).run 0).1.map Drawing.program
    drawn.map Stmt.idsAll = [[2, 1], [3, 7, 6, 5], [10]] ∧
      (Reference.ids (drawn.flatMap Stmt.referencesAll)).Nodup := by
  intro sources drawn
  have h := (node_identities_never_collide 0).1 sources
  exact ⟨by decide +kernel, (h.2 drawn (.head _)).1⟩

end Lox
