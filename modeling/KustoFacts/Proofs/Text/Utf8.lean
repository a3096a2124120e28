import KustoFacts.Text.Utf8
import Mathlib.Tactic.Common

/-!
    Where UTF-8 can be cut. The recogniser owes nothing before and after a byte below 0x80, so a
    text that is UTF-8 falls into two such texts at every place that has such a byte on one of its
    sides, and bytes below 0x80 can be left out and exchanged. -/

namespace KustoFacts.Utf8

variable {owed : Owed} {b : UInt8} {text front back : Bytes} {n : Nat}

namespace Owed

/-- The recogniser after a text; `none` when the text is refused. -/
def after (owed : Owed) (text : Bytes) : Option Owed := text.foldlM step owed

theorem after_cons (owed : Owed) (b : UInt8) (text : Bytes) :
    owed.after (b :: text) = (owed.step b).bind (·.after text) := List.foldlM_cons

theorem run_cons_iff : owed.run (b :: text) = true ↔
    ∃ next, owed.step b = some next ∧ next.run text = true := by
  rw [run]
  cases owed.step b <;> simp

theorem run_append (owed : Owed) (front back : Bytes) :
    owed.run (front ++ back) = ((owed.after front).map (·.run back)).getD false := by
  induction front generalizing owed with
  | nil => rfl
  | cons b front ih =>
    rw [List.cons_append, run, after_cons]
    cases owed.step b with
    | none => rfl
    | some next => exact ih next

theorem run_iff_after : owed.run text = true ↔ owed.after text = some .nothing := by
  have h := run_append owed text []
  rw [List.append_nil] at h
  rw [h]
  cases owed.after text with
  | none => simp
  | some next => simp [run]

/-- What the recogniser can owe: no byte below 0x80. -/
def Proper : Owed → Prop
  | .nothing => True
  | .tails low _ _ => 0x80 ≤ low

theorem Proper.step (h : owed.Proper) {next : Owed} (hstep : owed.step b = some next) :
    next.Proper := by
  cases owed with
  | nothing =>
    simp only [Owed.step] at hstep
    split_ifs at hstep <;> cases hstep <;> simp [Proper]
  | tails low high more =>
    simp only [Owed.step] at hstep
    split_ifs at hstep
    cases more <;> cases hstep
    · trivial
    · exact UInt8.le_refl _

theorem Proper.after (h : owed.Proper) {next : Owed} (hafter : owed.after text = some next) :
    next.Proper := by
  induction text generalizing owed with
  | nil =>
    cases hafter
    exact h
  | cons b text ih =>
    rw [after_cons] at hafter
    obtain ⟨mid, hstep, hmid⟩ := Option.bind_eq_some_iff.1 hafter
    exact ih (h.step hstep) hmid

/-- A byte below 0x80 stands only where nothing is owed. -/
theorem Proper.step_ascii (h : owed.Proper) (hb : b < 0x80) {next : Owed}
    (hstep : owed.step b = some next) : owed = .nothing ∧ next = .nothing := by
  cases owed with
  | nothing =>
    rw [Owed.step, if_pos hb] at hstep
    exact ⟨rfl, (Option.some.inj hstep).symm⟩
  | tails low high more =>
    have hlow : ¬low ≤ b := by
      have h : 0x80 ≤ low := h
      simp only [UInt8.lt_iff_toNat_lt, UInt8.le_iff_toNat_le] at hb h ⊢
      omega
    simp [Owed.step, hlow] at hstep

theorem step_nothing (hb : b < 0x80) : nothing.step b = some nothing := by
  rw [step, if_pos hb]

end Owed

/-! ### Cutting -/

theorem isValid_append (hfront : isValid front = true) (hback : isValid back = true) :
    isValid (front ++ back) = true := by
  rw [isValid, Owed.run_append, Owed.run_iff_after.1 hfront]
  exact hback

theorem isValid_cons (hb : b < 0x80) : isValid (b :: text) = isValid text := by
  rw [isValid, Owed.run, Owed.step_nothing hb]
  rfl

/-- A place in a text with the end of the text or a byte below 0x80 on one of its sides. -/
def Seam (text : Bytes) (n : Nat) : Prop :=
  (∃ m c, n = m + 1 ∧ text[m]? = some c ∧ c < 0x80) ∨ ∀ c ∈ text[n]?, c < 0x80

theorem Seam.cons (h : Seam text n) (b : UInt8) : Seam (b :: text) (n + 1) := by
  rcases h with ⟨m, c, rfl, hc, hlt⟩ | h
  · exact .inl ⟨m + 1, c, rfl, by rwa [List.getElem?_cons_succ], hlt⟩
  · exact .inr (by rwa [List.getElem?_cons_succ])

/-- After a byte below 0x80. -/
theorem seam_after (hb : b < 0x80) (text : Bytes) : Seam (b :: text) 1 := .inl ⟨0, b, rfl, rfl, hb⟩

/-- At the end of a text, or before a byte below 0x80. -/
theorem seam_before (h : ∀ c ∈ text.head?, c < 0x80) : Seam text 0 :=
  .inr (by rwa [← List.head?_eq_getElem?])

theorem seam_nil : Seam [] 0 := seam_before nofun

/-- A seam behind the beginning of a text. -/
theorem Seam.of_drop {k : Nat} (h : Seam (text.drop k) n) : Seam text (k + n) := by
  rcases h with ⟨m, c, rfl, hc, hlt⟩ | h
  · exact .inl ⟨k + m, c, (Nat.add_assoc ..).symm, by rwa [← List.getElem?_drop], hlt⟩
  · exact .inr (by rwa [← List.getElem?_drop])

/-- A text that is UTF-8 is so on both sides of a seam. -/
theorem Seam.isValid (h : Seam text n) (hvalid : isValid text = true) :
    isValid (text.take n) = true ∧ isValid (text.drop n) = true := by
  have hsplit := hvalid
  rw [← List.take_append_drop n text, Utf8.isValid, Owed.run_append] at hsplit
  rcases hafter : Owed.nothing.after (text.take n) with _ | next <;> rw [hafter] at hsplit
  · cases hsplit
  have hproper : next.Proper := Owed.Proper.after (show Owed.nothing.Proper from trivial) hafter
  replace hsplit : next.run (text.drop n) = true := hsplit
  -- nothing is owed at the seam
  have hnext : next = .nothing := by
    rcases h with ⟨m, c, rfl, hc, hlt⟩ | h
    · rw [List.take_add_one, hc, Owed.after, List.foldlM_append] at hafter
      obtain ⟨mid, hmid, hstep⟩ := Option.bind_eq_some_iff.1 hafter
      obtain ⟨_, hstep, ⟨⟩⟩ := Option.bind_eq_some_iff.1 hstep
      exact ((Owed.Proper.after (show Owed.nothing.Proper from trivial) hmid).step_ascii hlt hstep).2
    · rcases hback : text.drop n with _ | ⟨c, back⟩ <;> rw [hback] at hsplit
      · simpa [Owed.run] using hsplit
      · have hc : c ∈ text[n]? := by rw [← List.head?_drop, hback]; rfl
        rw [Owed.run] at hsplit
        split at hsplit
        next hstep => exact (hproper.step_ascii (h c hc) hstep).1
        next => cases hsplit
  subst hnext
  exact ⟨Owed.run_iff_after.2 hafter, hsplit⟩

end KustoFacts.Utf8
