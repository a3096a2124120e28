import KustoFacts.Proofs.Facts.Outcome
import KustoFacts.Proofs.Query.Sequence

/-!
    The facts of texts one after another. A text that declares nothing for what follows it, then a
    semicolon, then another text: the facts of the whole are the union of the facts of the parts. -/

namespace KustoFacts

open KustoFacts.Node KustoFacts.Parser

variable {options : ExtractOptions} {catalog : TableNames} {normalize : Bool} {id text : Bytes}
variable {p : Parsed}

/-- What the statements of a query show, resolved one after another. -/
def statementFindings (catalog : TableNames) (normalize : Bool) (nodes : List Node) :
    List Finding :=
  (resolveStatements catalog Scopes.top.push (nodes.map (·.inSlot .statement))).2.flatMap
    (findings normalize)

/-- A query shows what its statements show. -/
theorem findings_queryOf {read : Tokens} (nodes : List Node) :
    (((queryOf text read nodes).resolve catalog .top .scalar).inSlot .none).findings normalize =
      statementFindings catalog normalize nodes := by
  rw [queryOf, resolve, inSlot, findings_mk]
  rfl

theorem statementFindings_like {xs ys : List Node} (h : LikeAll xs ys) :
    statementFindings catalog normalize xs = statementFindings catalog normalize ys := by
  have hstatements := (h.inSlot .statement)
  rw [statementFindings, statementFindings, ← findingsAll_outline,
    (outline_resolveStatements _ _).2, hstatements, ← (outline_resolveStatements _ _).2,
    findingsAll_outline]

/-- Statements that declare nothing show what they show, whatever follows them. -/
theorem statementFindings_append {as bs : List Node}
    (h : ∀ c ∈ as.map (·.inSlot .statement), c.Is text .statement ∧ c.form.declares = false) :
    statementFindings catalog normalize (as ++ bs) =
      statementFindings catalog normalize as ++ statementFindings catalog normalize bs := by
  rw [statementFindings, List.map_append, resolveStatements_append h, List.flatMap_append]
  rfl

/-- The facts of a text without faults are what its statements show. -/
theorem outcome_extract {read : Tokens} {nodes : List Node}
    (hparse : parse options.catalog text = .ok p) (hp : p.diagnostics = [])
    (hroot : p.root =
      (queryOf (Parsed.withoutMark text) read nodes).resolve options.catalog .top .scalar) :
    (extract options id text).outcome =
      .ok (.ofFindings id (statementFindings options.catalog options.normalize nodes)) := by
  rw [outcome_parsed hparse hp, hroot, findings_queryOf]

/-- Two texts without faults, of which the first declares nothing for the second and the second has
    no byte order mark, have together the facts of both, once a semicolon stands between them. -/
theorem extract_sequence (options : ExtractOptions) (id a b : Bytes) (pa pb : Parsed)
    (ha : parse options.catalog a = .ok pa) (hpa : pa.diagnostics = [])
    (hb : parse options.catalog b = .ok pb) (hpb : pb.diagnostics = [])
    (hdeclares : ∀ n ∈ pa.root.children, n.form.declares = false)
    (hmark : b.beginsWith Parsed.byteOrderMark = false) :
    ∃ p fa fb, parse options.catalog (a ++ bytes "\n;\n" ++ b) = .ok p ∧ p.diagnostics = [] ∧
      (extract options id a).outcome = .ok fa ∧ (extract options id b).outcome = .ok fb ∧
      (extract options id (a ++ bytes "\n;\n" ++ b)).outcome = .ok (fa.union fb) := by
  obtain ⟨ra, as, hra, hlexa, hA, hroota⟩ := parse_sound ha hpa
  obtain ⟨rb, bs, hrb, hlexb, hB, hrootb⟩ := parse_sound hb hpb
  have hsource : Parsed.withoutMark (a ++ bytes "\n;\n" ++ b) =
      Parsed.withoutMark a ++ lineFeed :: byteOf ';' :: lineFeed :: Parsed.withoutMark b := by
    rw [show bytes "\n;\n" = [lineFeed, byteOf ';', lineFeed] by decide, List.append_assoc,
      withoutMark_eq hmark]
    exact withoutMark_append a _
  obtain ⟨r, cs, hr, hlexed, hC, hlike⟩ := reads_sequence hra hlexa hA hrb hlexb hB
  rw [← hsource] at hr hC
  obtain ⟨p, hparse, hp, hroot⟩ := parse_of_reads options.catalog hr hlexed hC
  have hneutral : ∀ c ∈ as.map (·.inSlot .statement),
      c.Is (Parsed.withoutMark a) .statement ∧ c.form.declares = false := by
    intro c hc
    refine ⟨is_statement_of_reads hra hA c hc, ?_⟩
    have hmem : c.form ∈ pa.root.children.map form := by
      rw [hroota, forms_queryOf]
      exact List.mem_map_of_mem hc
    obtain ⟨n, hn, hform⟩ := List.mem_map.1 hmem
    rw [← hform]
    exact hdeclares n hn
  refine ⟨p, _, _, hparse, hp, outcome_extract ha hpa hroota, outcome_extract hb hpb hrootb, ?_⟩
  rw [outcome_extract hparse hp hroot, ← statementFindings_like hlike,
    statementFindings_append hneutral, Facts.ofFindings_append id id]

/-- A count, then a declaration and its use. -/
theorem extract_sequence_count_let :
    ∃ p fa fb, parse .empty (bytes "T|count" ++ bytes "\n;\n" ++ bytes "let x=1;x") = .ok p ∧
      p.diagnostics = [] ∧
      (extract ⟨.empty, true⟩ (bytes "q") (bytes "T|count")).outcome = .ok fa ∧
      (extract ⟨.empty, true⟩ (bytes "q") (bytes "let x=1;x")).outcome = .ok fb ∧
      (extract ⟨.empty, true⟩ (bytes "q")
        (bytes "T|count" ++ bytes "\n;\n" ++ bytes "let x=1;x")).outcome = .ok (fa.union fb) := by
  have hfirst : (cleanRoot? .empty (bytes "T|count")).map (·.children.map (·.form.declares)) =
      some [false] := by decide +kernel
  have hsecond : (cleanRoot? .empty (bytes "let x=1;x")).map (·.children.length) = some 2 := by
    decide +kernel
  obtain ⟨pa, ha, hpa, hdeclares⟩ := parse_of_clean hfirst
  obtain ⟨pb, hb, hpb, -⟩ := parse_of_clean hsecond
  refine extract_sequence ⟨.empty, true⟩ (bytes "q") _ _ pa pb ha hpa hb hpb (fun n hn => ?_)
    (by decide)
  exact List.mem_singleton.1 (hdeclares ▸ List.mem_map_of_mem hn)

end KustoFacts
