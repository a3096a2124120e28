import KustoFacts.Text.Bytes
import Mathlib.Data.List.Basic

/-!
    Cutting texts. A text that begins or ends with another is what the cut leaves, put together
    again; the pieces of a text between separators are the pieces of a list. -/

namespace KustoFacts.Bytes

theorem eq_append_of_after? {beginning text rest : Bytes}
    (h : Bytes.after? beginning text = some rest) : text = beginning ++ rest := by
  induction beginning generalizing text with
  | nil => exact Option.some.inj h
  | cons b beginning ih =>
    rcases text with _ | ⟨c, text⟩
    · cases h
    · rw [Bytes.after?] at h
      split at h
      next hb => rw [hb, ih h, List.cons_append]
      next => cases h

theorem after?_append (beginning rest : Bytes) :
    Bytes.after? beginning (beginning ++ rest) = some rest := by
  induction beginning with
  | nil => rfl
  | cons b beginning ih => rw [List.cons_append, Bytes.after?, if_pos rfl, ih]

theorem withoutEnding_append (text ending : Bytes) :
    Bytes.withoutEnding (text ++ ending) ending = text := by
  rw [Bytes.withoutEnding, List.reverse_append, after?_append]
  exact List.reverse_reverse text

/-- An ending is taken off where it stands, and else nothing is. -/
theorem withoutEnding_cases (text ending : Bytes) :
    text = Bytes.withoutEnding text ending ++ ending ∨ Bytes.withoutEnding text ending = text := by
  rw [Bytes.withoutEnding]
  split
  next front hfront =>
    have hreverse := congrArg List.reverse (eq_append_of_after? hfront)
    rw [List.reverse_reverse, List.reverse_append, List.reverse_reverse] at hreverse
    exact .inl hreverse
  next => exact .inr rfl

/-- A text that does not end with a byte is not cut by it. -/
theorem withoutEnding_of_getLast? {text : Bytes} {b : UInt8} (h : text.getLast? ≠ some b) :
    Bytes.withoutEnding text [b] = text := by
  rcases withoutEnding_cases text [b] with hcut | hsame
  · exact absurd (by rw [hcut, List.getLast?_concat]) h
  · exact hsame

theorem splitOn_go (sep : UInt8) (done : List Bytes) (piece text : Bytes) :
    Bytes.splitOn.go sep done piece text =
      done.reverse ++ List.splitOnPPrepend (· == sep) text piece := by
  induction text generalizing done piece with
  | nil => rw [Bytes.splitOn.go, List.reverse_cons]; rfl
  | cons b text ih =>
    rw [Bytes.splitOn.go, List.splitOnPPrepend]
    by_cases hb : b = sep
    · rw [if_pos hb, if_pos (beq_iff_eq.2 hb), ih, List.reverse_cons, List.append_assoc]
      rfl
    · rw [if_neg hb, if_neg (by rwa [beq_iff_eq]), ih]

theorem splitOn_eq (sep : UInt8) (text : Bytes) : Bytes.splitOn sep text = List.splitOn sep text :=
  splitOn_go sep [] [] text

/-- A text with one separator has two pieces. -/
theorem splitOn_pair {sep : UInt8} {front back : Bytes} (hfront : sep ∉ front)
    (hback : sep ∉ back) : Bytes.splitOn sep (front ++ sep :: back) = [front, back] := by
  rw [splitOn_eq, List.splitOn_append_cons_self_of_not_mem hfront, List.splitOn_eq_singleton hback]

end KustoFacts.Bytes
