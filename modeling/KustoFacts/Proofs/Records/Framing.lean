import KustoFacts.Proofs.Text.Base64
import KustoFacts.Proofs.Text.Cutting
import KustoFacts.Records.Record

/-!
    Framing of records. A query that is written on a line, its text in base64 and with any spaces
    and tabs around it, is the query of the record on that line. The other way round, a record holds
    a query only if its payload is base64 of that text: the one that is written for it, but for white
    space around it, line breaks and the bits of the last digit that no byte takes. -/

namespace KustoFacts

open Base64 (Alike encode withoutBreaks)

variable {id payload ending : Bytes}

namespace Record

/-- A line of two fields holds a record, with or without a carriage return at its end. -/
theorem ofLine?_fields (number : Int) (hid : byteOf ',' ∉ id) (hcomma : byteOf ',' ∉ payload)
    (hreturn : carriageReturn ∉ payload) (hending : ending = [] ∨ ending = [carriageReturn]) :
    ofLine? number (id ++ byteOf ',' :: payload ++ ending) = some ⟨number, id, payload⟩ := by
  have hline : Bytes.withoutEnding (id ++ byteOf ',' :: payload ++ ending) [carriageReturn] =
      id ++ byteOf ',' :: payload := by
    rcases hending with rfl | rfl
    · rw [List.append_nil]
      refine Bytes.withoutEnding_of_getLast? fun hlast => ?_
      rw [List.getLast?_append_of_ne_nil _ (List.cons_ne_nil _ _)] at hlast
      rcases List.mem_cons.1 (List.mem_of_getLast? hlast) with h | h
      · cases h
      · exact hreturn h
    · exact Bytes.withoutEnding_append _ _
  rw [ofLine?, hline, Bytes.splitOn_pair hid hcomma]

/-- A record holds the queries for which something alike would be written. -/
theorem decode_eq_ok (r : Record) (q : Query) : r.decode = .ok q ↔
    q.id = r.id ∧ Utf8.isValid q.text = true ∧
      Alike (encode q.text) (withoutBreaks (trimBlanks r.payload)) := by
  rw [← Base64.decode_eq_ok_iff_alike, decode, payloadText]
  obtain ⟨id, text⟩ := q
  cases hdecode : Base64.decode (trimBlanks r.payload) with
  | error offset => simp
  | ok decoded =>
    by_cases hvalid : Utf8.isValid decoded = true
    · simp only [if_pos hvalid, Except.ok.injEq, Query.mk.injEq]
      constructor
      · rintro ⟨rfl, rfl⟩
        exact ⟨rfl, hvalid, rfl⟩
      · rintro ⟨rfl, _, rfl⟩
        exact ⟨rfl, rfl⟩
    · simp only [if_neg hvalid, reduceCtorEq, Except.ok.injEq, false_iff]
      rintro ⟨_, htext, rfl⟩
      exact hvalid htext

end Record

/-- Spaces and tabs, as they may stand around a payload. -/
def Spacing (space : Bytes) : Prop := ∀ b ∈ space, b = spaceByte ∨ b = tabByte

theorem Spacing.blank {space : Bytes} (h : Spacing space) : ∀ b ∈ space, BlankByte b := by
  intro b hb
  rcases h b hb with rfl | rfl <;> decide

theorem Spacing.not_mem {space : Bytes} (h : Spacing space) :
    byteOf ',' ∉ space ∧ carriageReturn ∉ space := by
  constructor <;> intro hb <;> rcases h _ hb with h | h <;> cases h

theorem not_mem_encode (text : Bytes) : byteOf ',' ∉ encode text ∧ carriageReturn ∉ encode text :=
  ⟨fun h => (Base64.plain_of_mem_encode h).2.2 rfl,
    fun h => absurd (Base64.plain_of_mem_encode h).2.1 (by decide)⟩

/-- A query that is written on a line is read from it, and a record holds no other queries than
    those its payload is written for, whatever the unused bits of the last digit are. -/
theorem record_roundTrips :
    (∀ (number : Int) (id text before after ending : Bytes),
      byteOf ',' ∉ id → Utf8.isValid text = true → Spacing before → Spacing after →
      ending = [] ∨ ending = [carriageReturn] →
      ∃ r, Record.ofLine? number
          (id ++ [byteOf ','] ++ before ++ encode text ++ after ++ ending) = some r ∧
        r.line = number ∧ r.id = id ∧ r.decode = .ok ⟨id, text⟩) ∧
    ∀ (r : Record) (q : Query), r.decode = .ok q ↔
      q.id = r.id ∧ Utf8.isValid q.text = true ∧
        Alike (encode q.text) (withoutBreaks (trimBlanks r.payload)) := by
  refine ⟨fun number id text before after ending hid htext hbefore hafter hending => ?_,
    Record.decode_eq_ok⟩
  have hcomma : byteOf ',' ∉ before ++ encode text ++ after := by
    simp [hbefore.not_mem.1, (not_mem_encode text).1, hafter.not_mem.1]
  have hreturn : carriageReturn ∉ before ++ encode text ++ after := by
    simp [hbefore.not_mem.2, (not_mem_encode text).2, hafter.not_mem.2]
  have hline := Record.ofLine?_fields number hid hcomma hreturn hending
  have htrim : trimBlanks (before ++ encode text ++ after) = encode text :=
    trimBlanks_around hbefore.blank (fun b hb => (Base64.plain_of_mem_encode hb).1) hafter.blank
  refine ⟨⟨number, id, before ++ encode text ++ after⟩, by simpa using hline, rfl, rfl, ?_⟩
  refine (Record.decode_eq_ok _ _).2 ⟨rfl, htext, ?_⟩
  rw [htrim]
  exact Base64.decode_eq_ok_iff_alike.1 (Base64.decode_encode text)

theorem record_roundTrips_spaced : ∃ r, Record.ofLine? 7 (bytes "q1" ++ [byteOf ','] ++
      [spaceByte, tabByte] ++ encode (bytes "T|é") ++ [tabByte] ++ [carriageReturn]) = some r ∧
    r.line = 7 ∧ r.id = bytes "q1" ∧ r.decode = .ok ⟨bytes "q1", bytes "T|é"⟩ := by
  have hbefore : Spacing [spaceByte, tabByte] := by simp [Spacing]
  have hafter : Spacing [tabByte] := by simp [Spacing]
  exact record_roundTrips.1 7 (bytes "q1") (bytes "T|é") _ _ _ (by decide +kernel)
    (by decide +kernel) hbefore hafter (.inr rfl)

end KustoFacts
