import KustoFacts.Json.Reader
import KustoFacts.Proofs.Text.CodePoints

/-!
    Strings of JSON. A code point is written in one of three ways: with a letter, by its number or
    as it is. Whichever it is, it is read back as the bytes that spell it, so that a text that is
    UTF-8 comes back unchanged; and no control character is ever written, a line break least of
    all. -/

namespace KustoFacts.Json

open Utf8 (Scalar encode)

variable {style : Style} {code : Nat} {text found rest written : Bytes}

/-- A byte that is no control character. -/
def Inked (b : UInt8) : Prop := 0x20 ≤ b

instance (b : UInt8) : Decidable (Inked b) := by unfold Inked; infer_instance

/-! ### Code points -/

/-- What may be written for a code point inside a string. -/
inductive Written (code : Nat) : Bytes → Prop
  | letter {l : UInt8} (hcode : code < 0x80) (hvalue : letterEscape? l = some code.toUInt8)
      (hletter : l ≠ byteOf 'u') (hink : Inked l) : Written code [backslash, l]
  | number {digits : Bytes} (hlength : digits.length = 4)
      (hvalue : fourDigits? digits = some (code, [])) (hink : ∀ b ∈ digits, Inked b) :
      Written code (backslash :: byteOf 'u' :: digits)
  | itself (hplain : ∀ b ∈ encode code, b ≠ doubleQuote ∧ b ≠ backslash)
      (hink : ∀ b ∈ encode code, Inked b) : Written code (encode code)

theorem written_number (h : code < 0x80 ∨ code = 0x2028 ∨ code = 0x2029) :
    Written code (numberEscape code) := by
  have hall : ∀ code ∈ List.range 0x80 ++ [0x2028, 0x2029], (hexPadded 4 code).length = 4 ∧
      fourDigits? (hexPadded 4 code) = some (code, []) ∧
        (hexPadded 4 code).all (fun b => decide (Inked b)) = true := by
    decide +kernel
  obtain ⟨hlength, hvalue, hink⟩ := hall code (by simpa using h)
  have hmark : bytes "\\u" = [backslash, byteOf 'u'] := by decide +kernel
  rw [numberEscape, hmark]
  exact .number hlength hvalue fun b hb => of_decide_eq_true (List.all_eq_true.1 hink b hb)

theorem written_itself (h : Scalar code) (hquote : code ≠ doubleQuote.toNat)
    (hslash : code ≠ backslash.toNat) (hink : 0x20 ≤ code) : Written code (encode code) := by
  have hbytes : ∀ b ∈ encode code, b.toNat = code ∨ 0x80 ≤ b.toNat := by
    intro b hb
    by_cases hcode : code < 0x80
    · rw [Utf8.encode_ascii hcode] at hb
      rw [List.mem_singleton.1 hb, Utf8.toNat_toUInt8 (by omega)]
      exact .inl rfl
    · exact .inr (Utf8.le_of_mem_encode h (by omega) b hb)
  have hlarge : doubleQuote.toNat < 0x80 ∧ backslash.toNat < 0x80 := by decide
  refine .itself (fun b hb => ⟨?_, ?_⟩) fun b hb => ?_
  · rintro rfl
    have := hbytes _ hb
    omega
  · rintro rfl
    have := hbytes _ hb
    omega
  · have := hbytes b hb
    rw [Inked, UInt8.le_iff_toNat_le]
    exact (by omega : 0x20 ≤ b.toNat)

/-- A style writes each code point in one of these ways. -/
theorem written_unit (h : Scalar code) : Written code (style.unit (.char code)) := by
  rw [Style.unit]
  split_ifs with hmark hfeed hreturn htab hback hform hnumber hmarkup
  · simp only [Bool.or_eq_true, decide_eq_true_eq] at hmark
    rcases hmark with rfl | rfl <;> exact .letter (by decide) (by decide) (by decide) (by decide)
  · subst hfeed
    exact .letter (l := byteOf 'n') (by decide) (by decide) (by decide) (by decide)
  · subst hreturn
    exact .letter (l := byteOf 'r') (by decide) (by decide) (by decide) (by decide)
  · subst htab
    exact .letter (l := byteOf 't') (by decide) (by decide) (by decide) (by decide)
  · simp only [Bool.and_eq_true, decide_eq_true_eq] at hback
    rw [hback.2]
    exact .letter (l := byteOf 'b') (by decide) (by decide) (by decide) (by decide)
  · simp only [Bool.and_eq_true, decide_eq_true_eq] at hform
    rw [hform.2]
    exact .letter (l := byteOf 'f') (by decide) (by decide) (by decide) (by decide)
  · simp only [Bool.or_eq_true, decide_eq_true_eq] at hnumber
    exact written_number (by omega)
  · simp only [Bool.and_eq_true, Bool.or_eq_true, decide_eq_true_eq] at hmarkup
    exact written_number (by omega)
  · simp only [Bool.or_eq_true, decide_eq_true_eq, not_or] at hmark hnumber
    exact written_itself h hmark.1 hmark.2 (by omega)

/-! ### Reading them back -/

theorem fourDigits?_append {digits : Bytes} (hlength : digits.length = 4) (rest : Bytes) :
    fourDigits? (digits ++ rest) = (fourDigits? digits).map fun (unit, _) => (unit, rest) := by
  match digits, hlength with
  | [a, b, c, d], _ =>
    simp only [List.cons_append, List.nil_append, fourDigits?]
    cases hexValue? a <;> cases hexValue? b <;> cases hexValue? c <;> cases hexValue? d <;> rfl

theorem readString_skip (front rest : Bytes) (found : Bytes) :
    readString front.length found (front ++ rest) = readString 0 found rest := by
  induction front with
  | nil => rfl
  | cons b front ih => exact ih

/-- Bytes that are neither quotes nor escapes nor control characters are kept. -/
theorem readString_plain (hplain : ∀ b ∈ text, b ≠ doubleQuote ∧ b ≠ backslash)
    (hink : ∀ b ∈ text, Inked b) (found rest : Bytes) :
    readString 0 found (text ++ rest) = readString 0 (text.reverse ++ found) rest := by
  induction text generalizing found with
  | nil => rfl
  | cons b text ih =>
    obtain ⟨hb, htext⟩ := List.forall_mem_cons.1 hplain
    obtain ⟨hbink, htextink⟩ := List.forall_mem_cons.1 hink
    rw [List.cons_append, readString.eq_def]
    dsimp only
    rw [if_neg hb.1, if_neg (UInt8.not_lt.2 hbink), if_neg hb.2, ih htext htextink,
      List.reverse_cons, List.append_assoc]
    rfl

theorem escapedCode_scalar (h : Scalar code) (rest : Bytes) : escapedCode code rest = (code, 0) := by
  unfold Scalar at h
  have hhigh : ¬isHighHalf code = true := by
    simp only [isHighHalf, Bool.and_eq_true, decide_eq_true_eq]
    omega
  have hlow : ¬isLowHalf code = true := by
    simp only [isLowHalf, Bool.and_eq_true, decide_eq_true_eq]
    omega
  rw [escapedCode, if_neg hhigh, if_neg hlow]

/-- Whatever is written for a code point is read as its bytes. -/
theorem Written.readString (hwritten : Written code written) (h : Scalar code)
    (found rest : Bytes) : Json.readString 0 found (written ++ rest) =
      Json.readString 0 ((encode code).reverse ++ found) rest := by
  cases hwritten with
  | letter hcode hvalue hletter =>
    rw [Utf8.encode_ascii hcode, List.cons_append, readString.eq_def]
    dsimp only [List.cons_append]
    rw [if_neg (by decide), if_neg (by decide), if_pos rfl, if_neg hletter, hvalue]
    rfl
  | @number digits hlength hvalue =>
    rw [List.cons_append, List.cons_append, readString.eq_def]
    dsimp only
    rw [if_neg (by decide), if_neg (by decide), if_pos rfl, if_pos rfl,
      fourDigits?_append hlength, hvalue]
    simp only [Option.map_some, escapedCode_scalar h]
    have hskip :=
      readString_skip (byteOf 'u' :: digits) rest ((encode code).reverse ++ found)
    rw [List.length_cons, hlength] at hskip
    exact hskip
  | itself hplain hink => exact readString_plain hplain hink found rest

theorem readString_units {codes : List Nat} (h : ∀ code ∈ codes, Scalar code)
    (found rest : Bytes) :
    readString 0 found ((codes.map .char).flatMap style.unit ++ rest) =
      readString 0 ((codes.flatMap encode).reverse ++ found) rest := by
  induction codes generalizing found with
  | nil => rfl
  | cons code codes ih =>
    obtain ⟨hcode, hcodes⟩ := List.forall_mem_cons.1 h
    rw [List.map_cons, List.flatMap_cons, List.append_assoc, (written_unit hcode).readString hcode,
      ih hcodes, List.flatMap_cons, List.reverse_append, List.append_assoc]

/-- A text that is UTF-8 is read back from the string that is written for it. -/
theorem readString_written (style : Style) (h : Utf8.isValid text = true) (rest : Bytes) :
    readString 0 [] ((Utf8.glyphs text).flatMap style.unit ++ doubleQuote :: rest) =
      some (text, rest) := by
  obtain ⟨codes, hcodes, rfl, hglyphs⟩ := Utf8.exists_glyphs h
  rw [hglyphs, readString_units hcodes, List.append_nil, readString.eq_def]
  simp [h]

example : Style.result.string (bytes "<\n\\") = bytes "\"\\u003c\\n\\\\\"" := by decide +kernel

/-! ### Control characters -/

theorem Written.inked (h : Written code written) : ∀ b ∈ written, Inked b := by
  cases h with
  | letter _ _ _ hink => simp [hink, (by decide : Inked backslash)]
  | number _ _ hink =>
    simpa [(by decide : Inked backslash), (by decide : Inked (byteOf 'u'))] using hink
  | itself _ hink => exact hink

/-- A string that is written for a text has no control characters. -/
theorem inked_string (style : Style) (text : Bytes) : ∀ b ∈ style.string text, Inked b := by
  have hunit : ∀ unit ∈ Utf8.glyphs text, ∀ b ∈ style.unit unit, Inked b := by
    rintro (code | byte) hunit
    · exact (written_unit (Utf8.scalar_of_mem_glyphs hunit)).inked
    · have hescape : ∀ b ∈ numberEscape Utf8.replacement, Inked b := by decide +kernel
      exact hescape
  have hquote : Inked doubleQuote := by decide
  intro b hb
  simp only [Style.string, List.mem_append, List.mem_cons, List.mem_flatMap, List.not_mem_nil,
    or_false] at hb
  rcases hb with (rfl | ⟨unit, hunits, hb⟩) | rfl
  · exact hquote
  · exact hunit unit hunits b hb
  · exact hquote

end KustoFacts.Json
