import KustoFacts.Proofs.Text.CodePoints
import KustoFacts.Text.Lowercase

/-!
    Small letters are small. No run of capitals holds the small letter of a capital, so a text in
    small letters stays as it is when it is put into small letters again. -/

namespace KustoFacts

open Utf8

/-! ### Code points -/

namespace CapitalRun

/-- Whether a run has none of the small letters of another: they lie before or behind it, or
    between its capitals. -/
def clear (run small : CapitalRun) : Bool :=
  (small.small + (small.last - small.first)).blt run.first || run.last.blt small.small ||
    run.stride.beq 2 && (small.stride.beq 2 || small.last.beq small.first) &&
      ((small.small + run.first) % 2).beq 1

variable {run small : CapitalRun} {code : Nat}

theorem has_iff : run.has code = true ↔
    (run.first ≤ code ∧ code ≤ run.last) ∧ (code - run.first) % run.stride = 0 := by
  simp [has]

theorem has_small (h : run.clear small = true) (hcode : small.has code = true) :
    run.has (small.small + (code - small.first)) = false := by
  rw [Bool.eq_false_iff, ne_eq, has_iff]
  rw [has_iff] at hcode
  simp only [clear, Bool.or_eq_true, Bool.and_eq_true, Nat.blt_eq, Nat.beq_eq] at h
  rcases h with (h | h) | ⟨⟨hstride, hsmall⟩, hodd⟩
  · omega
  · omega
  · rw [hstride]
    rcases hsmall with hsmall | hsmall
    · rw [hsmall] at hcode
      omega
    · omega

end CapitalRun

/-- No run of capitals holds a small letter. -/
theorem clear_capitalRuns :
    (capitalRuns.all fun small => capitalRuns.all fun run => run.clear small) = true := by
  decide +kernel

/-- The small letters of a run are code points of text. -/
theorem scalar_capitalRuns : ∀ run ∈ capitalRuns, run.small + (run.last - run.first) < 0xD800 ∨
    0xE000 ≤ run.small ∧ run.small + (run.last - run.first) ≤ 0x10FFFF := by
  decide +kernel

variable {code : Nat} {run : CapitalRun}

/-- A code point of no run is no capital. -/
theorem lowerCode_of_none (h : ∀ run ∈ capitalRuns, run.has code = false) :
    lowerCode code = code := by
  unfold lowerCode
  split
  · -- the capitals of ASCII are the first run
    have hascii := h ⟨0x41, 0x5A, 1, 0x61⟩ List.mem_cons_self
    rw [Bool.eq_false_iff, ne_eq, CapitalRun.has_iff] at hascii
    rw [if_neg]
    simpa [Nat.mod_one] using hascii
  · have hnone : capitalRuns.find? (·.has code) = none := by
      rw [List.find?_eq_none]
      intro run hrun
      simp [h run hrun]
    rw [hnone]

/-- The capital of a run has its small letter at the same distance. -/
theorem lowerCode_cases (code : Nat) : lowerCode code = code ∨
    ∃ run ∈ capitalRuns, run.has code = true ∧
      lowerCode code = run.small + (code - run.first) := by
  unfold lowerCode
  split
  · split
    · rename_i hupper
      simp only [Bool.and_eq_true, decide_eq_true_eq] at hupper
      refine .inr ⟨⟨0x41, 0x5A, 1, 0x61⟩, List.mem_cons_self, ?_, ?_⟩
      · rw [CapitalRun.has_iff]
        exact ⟨hupper, Nat.mod_one _⟩
      · show code + 0x20 = 0x61 + (code - 0x41)
        omega
    · exact .inl rfl
  · cases hfind : capitalRuns.find? (·.has code) with
    | none => exact .inl rfl
    | some run =>
      have hhas : run.has code = true := by simpa using List.find?_some hfind
      exact .inr ⟨run, List.mem_of_find?_eq_some hfind, hhas, rfl⟩

theorem lowerCode_lowerCode (code : Nat) : lowerCode (lowerCode code) = lowerCode code := by
  rcases lowerCode_cases code with h | ⟨small, hsmall, hhas, h⟩
  · rw [h, h]
  · rw [h]
    refine lowerCode_of_none ?_
    intro run hrun
    have hclear := List.all_eq_true.1 (List.all_eq_true.1 clear_capitalRuns small hsmall) run hrun
    exact CapitalRun.has_small hclear hhas

theorem scalar_lowerCode (h : Scalar code) : Scalar (lowerCode code) := by
  rcases lowerCode_cases code with hsame | ⟨run, hrun, hhas, hsmall⟩
  · rwa [hsame]
  · have hbounds := scalar_capitalRuns run hrun
    rw [CapitalRun.has_iff] at hhas
    rw [hsmall]
    unfold Scalar
    omega

/-! ### Texts -/

/-- The small letter of a unit. -/
def Glyph.lowered : Glyph → Nat
  | .char code => lowerCode code
  | .stray _ => replacement

theorem lowercase_eq (text : Bytes) :
    lowercase text = ((glyphs text).map Glyph.lowered).flatMap encode := by
  rw [lowercase, List.flatMap_map]
  refine congrArg (fun f => List.flatMap f (glyphs text)) (funext ?_)
  rintro (code | byte) <;> rfl

theorem scalar_lowered {text : Bytes} {unit : Glyph} (h : unit ∈ glyphs text) :
    Scalar unit.lowered := by
  cases unit with
  | char code => exact scalar_lowerCode (scalar_of_mem_glyphs h)
  | stray byte => exact (by decide : Scalar replacement)

theorem lowered_lowered (unit : Glyph) : (Glyph.char unit.lowered).lowered = unit.lowered := by
  cases unit with
  | char code => exact lowerCode_lowerCode code
  | stray byte => exact (by decide +kernel : lowerCode replacement = replacement)

/-- A text in small letters has no other letters. -/
theorem lowercase_lowercase (text : Bytes) : lowercase (lowercase text) = lowercase text := by
  have hscalar : ∀ code ∈ (glyphs text).map Glyph.lowered, Scalar code := by
    intro code hcode
    obtain ⟨unit, hunit, rfl⟩ := List.mem_map.1 hcode
    exact scalar_lowered hunit
  rw [lowercase_eq (lowercase text), lowercase_eq text, glyphs_flatMap_encode hscalar,
    List.map_map, List.map_map]
  refine congrArg (List.flatMap encode) (List.map_congr_left ?_)
  intro unit _
  exact lowered_lowered unit

end KustoFacts
