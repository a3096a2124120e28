import KustoFacts.Proofs.Text.CodePoints
import KustoFacts.Text.Blank

/-!
    Trimming. White space is told by code points, but a byte below 0x80 is a code point by itself,
    and of those that matter here each is either white space or ink. White space around ink is
    trimmed and no ink is lost. -/

namespace KustoFacts

/-- A byte below 0x80 that is white space. -/
def BlankByte (b : UInt8) : Prop := b < 0x80 ∧ isBlankCode b.toNat = true

/-- A byte below 0x80 that is not. -/
def InkByte (b : UInt8) : Prop := b < 0x80 ∧ isBlankCode b.toNat = false

instance (b : UInt8) : Decidable (BlankByte b) := by unfold BlankByte; infer_instance

instance (b : UInt8) : Decidable (InkByte b) := by unfold InkByte; infer_instance

variable {b : UInt8} {before text after : Bytes}

theorem first_ascii (h : b < 0x80) (rest : Bytes) : Utf8.first b rest = (.char b.toNat, 0) :=
  (Utf8.Spelling.one h rfl).first rest

theorem dropBlanks_blank (h : BlankByte b) (rest : Bytes) :
    dropBlanks 0 (b :: rest) = dropBlanks 0 rest := by
  rw [dropBlanks, first_ascii h.1]
  exact if_pos h.2

theorem dropBlanks_ink (h : InkByte b) (rest : Bytes) : dropBlanks 0 (b :: rest) = b :: rest := by
  rw [dropBlanks, first_ascii h.1]
  exact if_neg (ne_true_of_eq_false h.2)

theorem inkEnd_blank (h : BlankByte b) (pos found : Nat) (rest : Bytes) :
    inkEnd 0 pos found (b :: rest) = inkEnd 0 (pos + 1) found rest := by
  rw [inkEnd, first_ascii h.1]
  exact congrArg (inkEnd 0 (pos + 1) · rest) (if_pos h.2)

theorem inkEnd_ink (h : InkByte b) (pos found : Nat) (rest : Bytes) :
    inkEnd 0 pos found (b :: rest) = inkEnd 0 (pos + 1) (pos + 1) rest := by
  rw [inkEnd, first_ascii h.1]
  exact congrArg (inkEnd 0 (pos + 1) · rest) (if_neg (ne_true_of_eq_false h.2))

theorem dropBlanks_blanks (h : ∀ b ∈ before, BlankByte b) (rest : Bytes) :
    dropBlanks 0 (before ++ rest) = dropBlanks 0 rest := by
  induction before with
  | nil => rfl
  | cons b before ih =>
    obtain ⟨hb, hbefore⟩ := List.forall_mem_cons.1 h
    rw [List.cons_append, dropBlanks_blank hb, ih hbefore]

theorem inkEnd_blanks (h : ∀ b ∈ after, BlankByte b) (pos found : Nat) :
    inkEnd 0 pos found after = found := by
  induction after generalizing pos with
  | nil => rfl
  | cons b after ih =>
    obtain ⟨hb, hafter⟩ := List.forall_mem_cons.1 h
    rw [inkEnd_blank hb, ih hafter]

theorem inkEnd_inks (h : ∀ b ∈ text, InkByte b) (pos : Nat) (rest : Bytes) :
    inkEnd 0 pos pos (text ++ rest) = inkEnd 0 (pos + text.length) (pos + text.length) rest := by
  induction text generalizing pos with
  | nil => rfl
  | cons b text ih =>
    obtain ⟨hb, htext⟩ := List.forall_mem_cons.1 h
    rw [List.cons_append, inkEnd_ink hb, ih htext, List.length_cons, Nat.add_assoc,
      Nat.add_comm 1]

/-- What is left of ink with white space around it is the ink. -/
theorem trimBlanks_around (hbefore : ∀ b ∈ before, BlankByte b) (htext : ∀ b ∈ text, InkByte b)
    (hafter : ∀ b ∈ after, BlankByte b) : trimBlanks (before ++ text ++ after) = text := by
  rw [trimBlanks, List.append_assoc, dropBlanks_blanks hbefore]
  rcases text with _ | ⟨b, text⟩
  · have hnil : dropBlanks 0 after = [] := by
      rw [← List.append_nil after, dropBlanks_blanks hafter]
      rfl
    rw [List.nil_append, hnil]
    rfl
  · have hdrop : dropBlanks 0 (b :: text ++ after) = b :: text ++ after :=
      dropBlanks_ink (htext b List.mem_cons_self) (text ++ after)
    rw [hdrop, inkEnd_inks htext, inkEnd_blanks hafter, Nat.zero_add, List.take_left]

end KustoFacts
