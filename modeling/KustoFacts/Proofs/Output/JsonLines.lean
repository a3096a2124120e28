import KustoFacts.Output.Yaml
import KustoFacts.Proofs.Facts.Documents

/-!
    Output in JSON. Each line is the text of one value and a line feed, and no line feed stands in
    the value, so that the output is cut into its lines at the line feeds; what is read from the
    lines is what was written, however YAML documents are written. What is written depends on the
    members of the facts alone. -/

namespace KustoFacts

/-- The document on a line of JSON. -/
def FactsDocument.ofLine? (line : Bytes) : Option FactsDocument :=
  (Json.read? line).bind FactsDocument.ofJson?

/-- Lines that have no line feeds are cut at those that end them. -/
theorem splitOn_lines (lines : List Bytes) (h : ∀ line ∈ lines, lineFeed ∉ line) :
    List.splitOn lineFeed (lines.flatMap (· ++ [lineFeed])) = lines ++ [[]] := by
  induction lines with
  | nil => rfl
  | cons line lines ih =>
    obtain ⟨hline, hlines⟩ := List.forall_mem_cons.1 h
    rw [List.flatMap_cons, List.append_assoc, List.singleton_append,
      List.splitOn_append_cons_self_of_not_mem hline, ih hlines, List.cons_append]

namespace Facts

/-- Facts as a line of JSON, without the line feed. -/
def line (f : Facts) : Bytes := f.json.render .result

theorem jsonLine_document (f : Facts) : f.document.jsonLine = f.line ++ [lineFeed] := by
  rw [FactsDocument.jsonLine, FactsDocument.json_document, line]

theorem IsText.lineFeed_not_mem {f : Facts} (h : f.IsText) : lineFeed ∉ f.line := fun hmem =>
  absurd (h.textual.inked .result _ hmem) (by decide)

theorem IsText.ofLine?_line {f : Facts} (h : f.IsText) :
    FactsDocument.ofLine? f.line = some f.document := by
  rw [FactsDocument.ofLine?, line, Json.read?_render h.textual]
  exact FactsDocument.ofJson?_json f

end Facts

theorem textOfAll_json (yaml : FactsDocument → Bytes) (begun : Bool) (facts : List Facts) :
    (OutputWriter.textOfAll ⟨yaml, .json, begun⟩ (facts.map Facts.document)).1 =
      (facts.map Facts.line).flatMap (· ++ [lineFeed]) := by
  induction facts generalizing begun with
  | nil => rfl
  | cons f facts ih =>
    rw [List.map_cons, OutputWriter.textOfAll]
    dsimp only
    rw [ih, List.map_cons, List.flatMap_cons, ← f.jsonLine_document]
    rfl

/-- Facts come back from the lines they are written to, one line for each, and the lines do not
    depend on how the facts were put together. -/
theorem jsonLines_canonical :
    (∀ (yaml : FactsDocument → Bytes) (facts : List Facts), (∀ f ∈ facts, f.IsText) →
      let output := ((OutputWriter.withYaml yaml .json).textOfAll (facts.map Facts.document)).1
      ∃ lines, List.splitOn lineFeed output = lines ++ [[]] ∧ lines.length = facts.length ∧
        lines.map FactsDocument.ofLine? = facts.map fun f => some f.document) ∧
    (∀ f g : Facts, f.SameMembers g → f.document.jsonLine = g.document.jsonLine) ∧
    ∀ (id : Bytes) (found found' : List Finding), found.Perm found' →
      (Facts.ofFindings id found).document.jsonLine =
        (Facts.ofFindings id found').document.jsonLine := by
  refine ⟨fun yaml facts hfacts => ?_, fun f g h => by rw [h.eq], fun id found found' h => by
    rw [Facts.ofFindings_perm id h]⟩
  refine ⟨facts.map Facts.line, ?_, List.length_map .., ?_⟩
  · rw [OutputWriter.withYaml, textOfAll_json]
    exact splitOn_lines _ (List.forall_mem_map.2 fun f hf => (hfacts f hf).lineFeed_not_mem)
  · rw [List.map_map]
    exact List.map_congr_left fun f hf => (hfacts f hf).ofLine?_line

theorem jsonLines_canonical_escaped :
    let facts := [Facts.ofFindings (bytes "a\"\n") [.call (bytes "<é"), .join (bytes "union") []]]
    (∀ f ∈ facts, f.IsText) ∧
      ∃ lines, List.splitOn lineFeed
          ((OutputWriter.new .json).textOfAll (facts.map Facts.document)).1 = lines ++ [[]] ∧
        lines.length = facts.length ∧
        lines.map FactsDocument.ofLine? = facts.map fun f => some f.document := by
  have htext : (Facts.ofFindings (bytes "a\"\n")
      [.call (bytes "<é"), .join (bytes "union") []]).IsText := by
    constructor <;> decide +kernel
  have hfacts := List.forall_mem_singleton.2 htext
  exact ⟨hfacts, jsonLines_canonical.1 FactsDocument.yamlText _ hfacts⟩

end KustoFacts
