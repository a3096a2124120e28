import KustoFacts.Proofs.Query.OwnText
import KustoFacts.Proofs.Query.SourceOrder
import KustoFacts.Proofs.Text.Cutting
import KustoFacts.Proofs.Text.Utf8
import KustoFacts.Query.Unquoted

/-!
    Tokens and code points. No token is cut off inside a code point, although tokens are read byte
    by byte: a lexeme ends after a byte below 0x80, or before one, or with the text. So in a text
    that is UTF-8 the tokens and the gaps between them are, and so are the values of its strings. -/

namespace KustoFacts

open KustoFacts.Lexeme KustoFacts.Utf8

namespace Lexeme

variable {b quote : UInt8} {test : UInt8 → Bool} {text rest : Bytes}

/-! ### Where lexemes end -/

theorem lt_of_not_letter (h : isLetterByte b = false) : b < 0x80 := by
  simp only [isLetterByte, Bool.or_eq_false_iff, decide_eq_false_iff_not, UInt8.not_le] at h
  exact h.2

theorem lt_of_not_word (h : isWordByte b = false) : b < 0x80 := by
  simp only [isWordByte, Bool.or_eq_false_iff] at h
  exact lt_of_not_letter h.1.1

theorem lt_of_quote (h : isQuote b = true) : b < 0x80 := by
  simp only [isQuote, Bool.or_eq_true, decide_eq_true_eq] at h
  rcases h with rfl | rfl <;> decide

/-- Bytes that pass a test end before one below 0x80 if all others are below it. -/
theorem seam_count (htest : ∀ c, test c = false → c < 0x80) (text : Bytes) :
    Seam text (count test text) := by
  induction text with
  | nil => exact seam_nil
  | cons c text ih =>
    by_cases hc : test c = true
    · rw [count, List.takeWhile_cons_of_pos hc]
      exact ih.cons c
    · rw [count, List.takeWhile_cons_of_neg hc]
      exact seam_before (by rintro d ⟨⟩; exact htest c (Bool.eq_false_iff.2 hc))

theorem seam_quoted (hquote : isQuote quote = true) (read : Nat) (text : Bytes) :
    ∃ n, (quoted quote read text).1 = read + n ∧ Seam text n := by
  fun_induction quoted quote read text with
  | case1 read => exact ⟨0, rfl, seam_nil⟩
  | case2 read rest => exact ⟨0, rfl, seam_before (by rintro c ⟨⟩; decide)⟩
  | case3 read => exact ⟨1, rfl, seam_after (by decide) _⟩
  | case4 read rest => exact ⟨1, rfl, seam_after (by decide) _⟩
  | case5 read c rest _ _ ih =>
    obtain ⟨n, hn, hseam⟩ := ih
    exact ⟨n + 2, by rw [hn]; omega, (hseam.cons _).cons _⟩
  | case6 read rest => exact ⟨1, rfl, seam_after (lt_of_quote hquote) _⟩
  | case7 read c rest _ _ _ ih =>
    obtain ⟨n, hn, hseam⟩ := ih
    exact ⟨n + 1, by rw [hn]; omega, hseam.cons _⟩

theorem seam_verbatim (hquote : isQuote quote = true) (read : Nat) (text : Bytes) :
    ∃ n, (verbatim quote read text).1 = read + n ∧ Seam text n := by
  fun_induction verbatim quote read text with
  | case1 read => exact ⟨0, rfl, seam_nil⟩
  | case2 read rest => exact ⟨0, rfl, seam_before (by rintro c ⟨⟩; decide)⟩
  | case3 read rest _ ih =>
    obtain ⟨n, hn, hseam⟩ := ih
    exact ⟨n + 2, by rw [hn]; omega, (hseam.cons _).cons _⟩
  | case4 | case5 => exact ⟨1, rfl, seam_after (lt_of_quote hquote) _⟩
  | case6 read c rest _ _ ih =>
    obtain ⟨n, hn, hseam⟩ := ih
    exact ⟨n + 1, by rw [hn]; omega, hseam.cons _⟩

theorem eq_of_startsFence (h : startsFence text = true) :
    ∃ rest, text = 0x60 :: 0x60 :: 0x60 :: rest := by
  obtain ⟨rest, hrest⟩ := Option.isSome_iff_exists.1 h
  exact ⟨rest, Bytes.eq_append_of_after? hrest⟩

theorem seam_fenced (read : Nat) (text : Bytes) :
    ∃ n, (fenced read text).1 = read + n ∧ Seam text n := by
  fun_induction fenced read text with
  | case1 read => exact ⟨0, rfl, seam_nil⟩
  | case2 read b rest hfence =>
    obtain ⟨rest, hrest⟩ := eq_of_startsFence hfence
    rw [hrest]
    exact ⟨3, rfl, ((seam_after (by decide) _).cons _).cons _⟩
  | case3 read b rest hfence ih =>
    obtain ⟨n, hn, hseam⟩ := ih
    exact ⟨n + 1, by rw [hn]; omega, hseam.cons _⟩

theorem seam_typedBody (state : BodyState) (depth read : Nat) (text : Bytes) :
    ∃ n, (typedBody state depth read text).more = read + n ∧ Seam text n := by
  fun_induction typedBody state depth read text with
  | case1 | case2 | case3 => exact ⟨0, rfl, seam_nil⟩
  | case5 => exact ⟨1, rfl, seam_after (by decide) _⟩
  | _ =>
    rename_i ih
    obtain ⟨n, hn, hseam⟩ := ih
    exact ⟨n + 1, by rw [hn]; omega, hseam.cons _⟩

theorem seam_string? {read : Nat} {lexeme : Lexeme} (h : string? read text = some lexeme) :
    ∃ n, lexeme.more = read + n ∧ Seam text n := by
  rcases text with _ | ⟨c, text⟩
  · cases h
  simp only [string?] at h
  split at h
  next hquote =>
    cases h
    obtain ⟨n, hn, hseam⟩ := seam_quoted hquote (read + 1) text
    exact ⟨n + 1, by rw [more_ofString, hn]; omega, hseam.cons c⟩
  next =>
    split at h
    · rcases text with _ | ⟨q, text⟩
      · cases h
      dsimp only at h
      split at h
      next hquote =>
        cases h
        obtain ⟨n, hn, hseam⟩ := seam_verbatim hquote (read + 2) text
        exact ⟨n + 2, by rw [more_ofString, hn]; omega, (hseam.cons q).cons c⟩
      next => cases h
    · cases h

/-- What is read after a name ends at a seam, since the name goes on as long as it can. -/
theorem seam_ofWord {name after : Bytes} (hname : name ≠ [])
    (hafter : ∀ c ∈ after.head?, isWordByte c = false) :
    ∃ n, (ofWord name after).more + 1 = name.length + n ∧ Seam after n := by
  have hpos := List.length_pos_iff.2 hname
  rw [ofWord_eq]
  split
  next long hlong =>
    rcases after with _ | ⟨dash, rest⟩
    · cases hlong
    rw [dashed?] at hlong
    split at hlong
    · dsimp only at hlong
      split at hlong
      · cases hlong
        have hseam : Seam rest (count isWordByte rest) :=
          seam_count (fun _ => lt_of_not_word) rest
        refine ⟨_, ?_, hseam.cons dash⟩
        simp only [sound, count, List.length_append, List.length_cons]
        omega
      · cases hlong
    · cases hlong
  next =>
    split
    next hin =>
      rw [Bool.and_eq_true] at hin
      rcases after with _ | ⟨c, after⟩
      · cases hin.2
      obtain rfl : c = byteOf '~' := by simpa [startsWith] using hin.2
      exact ⟨1, by simp only [sound]; omega, seam_after (by decide) _⟩
    next =>
      split
      · obtain ⟨n, hn, hseam⟩ := seam_typedBody .plain 0
          (name.length - 1 + count isLayoutByte after) (after.drop (count isLayoutByte after))
        exact ⟨_, by rw [hn]; omega, hseam.of_drop⟩
      · refine ⟨0, by simp only [sound]; omega, seam_before fun c hc => ?_⟩
        exact lt_of_not_word (hafter c hc)

theorem seam_word (b : UInt8) (rest : Bytes) : Seam (b :: rest) ((word b rest).more + 1) := by
  have hafter : ∀ c ∈ (rest.drop (rest.takeWhile isWordByte).length).head?,
      isWordByte c = false := by
    have hdrop := @List.drop_left _ (rest.takeWhile isWordByte) (rest.dropWhile isWordByte)
    rw [List.takeWhile_append_dropWhile] at hdrop
    intro c hc
    have hnot := List.head?_dropWhile_not isWordByte rest
    rwa [← hdrop, Option.mem_def.1 hc] at hnot
  obtain ⟨n, hn, hseam⟩ := seam_ofWord (List.cons_ne_nil b (rest.takeWhile isWordByte)) hafter
  rw [word, hn, List.length_cons, Nat.add_right_comm]
  exact hseam.of_drop.cons b

theorem seam_negated (rest : Bytes) : Seam rest (negated rest).more := by
  simp only [negated]
  split
  next hin =>
    rw [Bool.and_eq_true] at hin
    refine Seam.of_drop (n := 1) ?_
    obtain ⟨-, htilde⟩ := hin
    generalize rest.drop (rest.takeWhile isWordByte).length = after at htilde ⊢
    rcases after with _ | ⟨c, after⟩
    · cases htilde
    obtain rfl : c = byteOf '~' := by simpa [startsWith] using htilde
    exact seam_after (by decide) _
  next => exact seam_count (fun c => lt_of_not_word) rest

/-- Bytes that are all below 0x80 end after one. -/
theorem seam_count_cons {c : UInt8} (hc : c < 0x80) (htest : ∀ c, test c = true → c < 0x80)
    (text : Bytes) : Seam (c :: text) (1 + count test text) := by
  induction text generalizing c with
  | nil => exact seam_after hc []
  | cons d text ih =>
    by_cases hd : test d = true
    · rw [count, List.takeWhile_cons_of_pos hd, List.length_cons]
      exact (ih (htest d hd)).cons c
    · rw [count, List.takeWhile_cons_of_neg hd]
      exact seam_after hc _

theorem seam_number (hb : b < 0x80) (rest : Bytes) :
    Seam (b :: rest) ((number b rest).more + 1) := by
  have hhex : ∀ c : UInt8, (hexValue? c).isSome = true → c < 0x80 := by decide +kernel
  rw [number_eq]
  split
  next hmark =>
    rw [Bool.and_eq_true] at hmark
    rcases rest with _ | ⟨x, rest⟩
    · cases hmark.2
    have hx : x < 0x80 := by
      have hmark : isHexMark x = true := hmark.2
      simp only [isHexMark, Bool.or_eq_true, decide_eq_true_eq] at hmark
      rcases hmark with rfl | rfl <;> decide
    exact (seam_count_cons hx hhex rest).cons b
  next =>
    rcases hlength : decimalLength (b :: rest) with _ | n
    · exact seam_after hb rest
    · simp only [sound, Nat.add_sub_cancel]
      rw [← hlength, decimalLength]
      exact Seam.of_drop (seam_count (fun c => lt_of_not_letter) _)

/-- Every lexeme ends at a seam. -/
theorem seam_head (b : UInt8) (rest : Bytes) : Seam (b :: rest) ((head b rest).more + 1) := by
  have hsymbol : ∀ b : UInt8, (punctuation? b).isSome = true ∨ (alone? b).isSome = true ∨
      isDigit b = true → b < 0x80 := by decide +kernel
  have hof := headOf b rest
  generalize head b rest = lexeme at hof
  cases hof with
  | mark h => exact seam_after (hsymbol b (.inl (by rw [h]; rfl))) rest
  | alone h => exact seam_after (hsymbol b (.inr (.inl (by rw [h]; rfl)))) rest
  | unexpected hb => exact seam_after (lt_of_not_letter hb) rest
  | pair h =>
    rcases rest with _ | ⟨c, rest⟩
    · rw [pair?_nil] at h
      cases h
    refine Seam.cons (seam_after ?_ rest) b
    obtain ⟨⟨x, d, k⟩, hrow, hk⟩ := List.exists_of_findSome?_eq_some h
    dsimp only at hk
    split at hk
    next hspelled =>
      rw [Bool.and_eq_true] at hspelled
      obtain rfl : c = byteOf d := by simpa [startsWith] using hspelled.2
      exact (by decide : ∀ row ∈ _, byteOf row.2.1 < 0x80) (x, d, k) hrow
    next => cases hk
  | negated => exact (seam_negated rest).cons b
  | quoted h =>
    obtain ⟨n, hn, hseam⟩ := seam_quoted h 0 rest
    rw [more_ofString, hn, Nat.zero_add]
    exact hseam.cons b
  | fenced =>
    obtain ⟨n, hn, hseam⟩ := seam_fenced 2 (rest.drop 2)
    rw [more_ofString, hn]
    exact hseam.of_drop.cons b
  | @verbatim quote tail _ hquote hrest =>
    obtain ⟨n, hn, hseam⟩ := seam_verbatim hquote 1 tail
    rw [more_ofString, hn, hrest, Nat.add_comm 1]
    exact (hseam.cons quote).cons b
  | marked _ h =>
    obtain ⟨n, hn, hseam⟩ := seam_string? h
    rw [hn, Nat.zero_add]
    exact hseam.cons b
  | word => exact seam_word b rest
  | number h =>
    refine seam_number ?_ rest
    rcases h with h | ⟨rfl, -⟩
    · exact hsymbol b (.inr (.inr h))
    · decide

end Lexeme
/-! ### Calls -/

namespace Lexer

variable {l after : Lexer} {t : Token} {r : Tokens} {text before skipped rest : Bytes}

/-- A gap ends at a seam, if the text ends with it in the case that it ends in a comment. -/
theorem seam_gap {last : Prop} (h : Gap last skipped) (hlast : last → rest = []) :
    skipped = [] ∨ Seam (skipped ++ rest) skipped.length := by
  have hascii : ∀ b ∈ [spaceByte, tabByte, carriageReturn, lineFeed], b < 0x80 := by
    decide +kernel
  have hcons {b : UInt8} {s : Bytes} (hb : b < 0x80)
      (h : s = [] ∨ Seam (s ++ rest) s.length) : Seam (b :: s ++ rest) (b :: s).length := by
    rcases h with rfl | h
    · exact seam_after hb rest
    · exact h.cons b
  induction h with
  | nil => exact .inl rfl
  | layout hb _ ih => exact .inr (hcons (hascii _ hb) ih)
  | @comment body s _ _ ih =>
    refine .inr (Seam.cons (Seam.cons ?_ _) _)
    have hfeed := hcons (show lineFeed < 0x80 by decide) ih
    rw [List.length_append]
    change Seam (body ++ lineFeed :: s ++ rest) (body.length + (lineFeed :: s).length)
    exact Seam.of_drop (by rwa [List.append_assoc, List.drop_left])
  | lastComment h =>
    rw [hlast h, List.append_nil]
    exact .inr (.inr (by simp))

/-- What a call reads from a text that is UTF-8, and what it leaves, is UTF-8. -/
theorem Reads.valid (h : Reads l skipped t after) (hnext : l.next = .ok (t, after))
    (hvalid : isValid l.rest = true) :
    isValid skipped = true ∧ isValid t.text = true ∧ isValid after.rest = true := by
  have hends : t.kind = .endOfInput → t.text ++ after.rest = [] := by
    intro hkind
    obtain ⟨hend, hrest, -⟩ := h.ending hkind
    rw [hrest, hend]
    rfl
  have hsplit := hvalid
  rw [h.rest, List.append_assoc] at hsplit
  have hskipped : isValid skipped = true ∧ isValid (t.text ++ after.rest) = true := by
    rcases seam_gap h.gap hends with rfl | hseam
    · exact ⟨rfl, hsplit⟩
    · simpa using hseam.isValid hsplit
  refine ⟨hskipped.1, ?_⟩
  by_cases hkind : t.kind = .endOfInput
  · obtain ⟨htext, hrest⟩ := List.append_eq_nil_iff.1 (hends hkind)
    rw [htext, hrest]
    exact ⟨rfl, rfl⟩
  · obtain ⟨b, rest, htakes⟩ := takes_next hnext hkind
    have htext : t.text = b :: rest.take (head b rest).more := by rw [htakes.token]; rfl
    have hseam := (seam_head b rest).isValid
    have hvalid := hskipped.2
    rw [htext, htakes.left, List.cons_append, List.take_append_drop] at hvalid
    rw [htext, htakes.left]
    exact hseam hvalid

end Lexer

/-! ### Values of strings -/

namespace Unquoted

variable {quote : UInt8} {owed : Owed} {text ending literal : Bytes}

/-- What an escape stands for is below 0x80 if the escaped byte is, and this byte itself if not. -/
theorem escaped_eq (c : UInt8) : escaped c = c ∨ c < 0x80 ∧ escaped c < 0x80 := by
  unfold escaped
  split_ifs with hn ht hr
  · exact .inr ⟨hn ▸ by decide, by decide⟩
  · exact .inr ⟨ht ▸ by decide, by decide⟩
  · exact .inr ⟨hr ▸ by decide, by decide⟩
  · exact .inl rfl

theorem run_readEscapes (hproper : owed.Proper) (h : owed.run text = true) :
    owed.run (readEscapes text) = true := by
  fun_induction readEscapes text generalizing owed with
  | case1 | case2 => exact h
  | case3 c rest ih =>
    obtain ⟨next, hstep, hnext⟩ := Owed.run_cons_iff.1 h
    obtain ⟨rfl, rfl⟩ := hproper.step_ascii (by decide) hstep
    obtain ⟨next, hstep, hnext⟩ := Owed.run_cons_iff.1 hnext
    refine Owed.run_cons_iff.2 ⟨next, ?_, ih (hproper.step hstep) hnext⟩
    rcases escaped_eq c with hc | ⟨hc, hescaped⟩
    · rw [hc, hstep]
    · rw [Owed.step_nothing hescaped, ← Owed.step_nothing hc, hstep]
  | case4 b c rest hb ih =>
    obtain ⟨next, hstep, hnext⟩ := Owed.run_cons_iff.1 h
    exact Owed.run_cons_iff.2 ⟨next, hstep, ih (hproper.step hstep) hnext⟩

theorem run_undouble (hquote : quote < 0x80) (hproper : owed.Proper) (h : owed.run text = true) :
    owed.run (undouble quote text) = true := by
  fun_induction undouble quote text generalizing owed with
  | case1 | case2 => exact h
  | case3 b c rest hboth ih =>
    simp only [Bool.and_eq_true, decide_eq_true_eq] at hboth
    obtain ⟨rfl, rfl⟩ := hboth
    obtain ⟨next, hstep, hnext⟩ := Owed.run_cons_iff.1 h
    obtain ⟨rfl, rfl⟩ := hproper.step_ascii hquote hstep
    obtain ⟨next, hstep, hnext⟩ := Owed.run_cons_iff.1 hnext
    obtain ⟨-, rfl⟩ := hproper.step_ascii hquote hstep
    exact Owed.run_cons_iff.2 ⟨_, hstep, ih hproper hnext⟩
  | case4 b c rest hb ih =>
    obtain ⟨next, hstep, hnext⟩ := Owed.run_cons_iff.1 h
    exact Owed.run_cons_iff.2 ⟨next, hstep, ih (hproper.step hstep) hnext⟩

/-- An ending that begins with a byte below 0x80 can be taken off. -/
theorem isValid_withoutEnding (hending : ∀ c ∈ ending.head?, c < 0x80)
    (h : isValid text = true) : isValid (Bytes.withoutEnding text ending) = true := by
  rcases Bytes.withoutEnding_cases text ending with hcut | hsame
  · generalize Bytes.withoutEnding text ending = front at hcut ⊢
    subst hcut
    have hseam : Seam (front ++ ending) (front.length + 0) :=
      Seam.of_drop (by rw [List.drop_left]; exact seam_before hending)
    have hvalid := (hseam.isValid h).1
    rwa [Nat.add_zero, List.take_left] at hvalid
  · rwa [hsame]

/-- A literal that begins as a string does: with a byte below 0x80 after its mark, and with another
    one after an at sign. -/
structure Opened (literal : Bytes) : Prop where
  first : ∀ c ∈ (withoutMark literal).head?, c < 0x80
  second : ∀ quote inside, withoutMark literal = byteOf '@' :: quote :: inside → quote < 0x80

theorem isValid_withoutMark (h : isValid literal = true) :
    isValid (withoutMark literal) = true := by
  rcases literal with _ | ⟨b, rest⟩
  · exact h
  rw [withoutMark]
  split
  next hb =>
    simp only [Bool.or_eq_true, decide_eq_true_eq] at hb
    rwa [isValid_cons (by rcases hb with rfl | rfl <;> decide)] at h
  next => exact h

/-- The value of a literal that begins as a string does. -/
theorem Opened.isValid_value (hopened : Opened literal) (h : isValid literal = true) :
    isValid (value literal) = true := by
  have hmark := isValid_withoutMark h
  obtain ⟨hfirst, hsecond⟩ := hopened
  rw [value]
  generalize withoutMark literal = literal at hfirst hsecond hmark
  split
  next inside hinside =>
    rw [Bytes.eq_append_of_after? hinside] at hmark
    exact isValid_withoutEnding (by rintro c ⟨⟩; decide) hmark
  next =>
    rcases literal with _ | ⟨b, rest⟩
    · rfl
    have hb := hfirst b rfl
    rw [isValid_cons hb] at hmark
    dsimp only
    split
    next hat =>
      rcases rest with _ | ⟨quote, inside⟩
      · rfl
      have hquote := hsecond quote inside (by rw [hat])
      rw [isValid_cons hquote] at hmark
      refine run_undouble hquote trivial (isValid_withoutEnding ?_ hmark)
      rintro c ⟨⟩
      exact hquote
    next =>
      refine run_readEscapes trivial (isValid_withoutEnding ?_ hmark)
      rintro c ⟨⟩
      exact hb

/-- Only the beginning of a text counts for that. -/
theorem Opened.take {b : UInt8} {rest : Bytes} (h : Opened (b :: rest)) (n : Nat) :
    Opened (b :: rest.take n) := by
  have hprefix : withoutMark (b :: rest.take n) <+: withoutMark (b :: rest) := by
    rw [withoutMark, withoutMark]
    split
    · exact List.take_prefix n rest
    · exact (List.prefix_cons_inj b).2 (List.take_prefix n rest)
  obtain ⟨more, hmore⟩ := hprefix
  refine ⟨fun c hc => h.first c ?_,
    fun quote inside hinside => h.second quote (inside ++ more) ?_⟩
  · rw [← hmore]
    exact List.mem_head?_append_of_mem_head? hc
  · rw [← hmore, hinside]
    rfl

theorem opened_of_not_marked {b : UInt8} {rest : Bytes} (hb : b < 0x80)
    (hmark : ¬(b = byteOf 'h' || b = byteOf 'H') = true)
    (hat : b = byteOf '@' → ∀ c ∈ rest.head?, c < 0x80) : Opened (b :: rest) := by
  have heq : withoutMark (b :: rest) = b :: rest := if_neg hmark
  refine ⟨?_, ?_⟩ <;> rw [heq]
  · rintro c ⟨⟩
    exact hb
  · rintro quote inside hinside
    obtain ⟨rfl, rfl⟩ := List.cons.inj hinside
    exact hat rfl quote rfl

theorem opened_of_marked {b : UInt8} {rest : Bytes} {lexeme : Lexeme}
    (hb : b = byteOf 'h' ∨ b = byteOf 'H') (h : string? 0 rest = some lexeme) :
    Opened (b :: rest) := by
  have heq : withoutMark (b :: rest) = rest := if_pos (by simpa using hb)
  rcases rest with _ | ⟨c, rest⟩
  · cases h
  simp only [string?] at h
  split at h
  next hquote =>
    refine ⟨?_, ?_⟩ <;> rw [heq]
    · rintro d ⟨⟩
      exact lt_of_quote hquote
    · rintro quote inside hinside
      obtain ⟨rfl, -⟩ := List.cons.inj hinside
      cases hquote
  next =>
    split at h
    next hat =>
      refine ⟨?_, ?_⟩ <;> rw [heq]
      · rintro d ⟨⟩
        exact hat ▸ by decide
      · rintro quote inside hinside
        obtain ⟨-, rfl⟩ := List.cons.inj hinside
        dsimp only at h
        split at h
        next hquote => exact lt_of_quote hquote
        next => cases h
    next => cases h

/-- What is read as a string begins as one. -/
theorem opened_of_kind {b : UInt8} {rest : Bytes} (h : (head b rest).kind = .string) :
    Opened (b :: rest) := by
  have hof := headOf b rest
  generalize head b rest = lexeme at h hof
  cases hof with
  | quoted hquote =>
    have hb : b = singleQuote ∨ b = doubleQuote := by
      simpa [isQuote] using hquote
    rcases hb with rfl | rfl
    · exact opened_of_not_marked (by decide) (by decide) (absurd · (by decide))
    · exact opened_of_not_marked (by decide) (by decide) (absurd · (by decide))
  | fenced hb =>
    subst hb
    exact opened_of_not_marked (by decide) (by decide) (absurd · (by decide))
  | @verbatim quote tail hb hquote hrest =>
    subst hb hrest
    refine opened_of_not_marked (by decide) (by decide) fun _ => ?_
    rintro c ⟨⟩
    exact lt_of_quote hquote
  | marked hb hstring => exact opened_of_marked hb hstring
  | mark hmark =>
    cases h
    exact absurd hmark ((by decide +kernel : ∀ b, punctuation? b ≠ some .string) b)
  | alone halone =>
    cases h
    exact absurd halone ((by decide +kernel : ∀ b, alone? b ≠ some .string) b)
  | pair hpair =>
    cases h
    obtain ⟨⟨x, d, k⟩, hrow, hk⟩ := List.exists_of_findSome?_eq_some hpair
    dsimp only at hk
    split at hk <;> cases hk
    exact absurd rfl ((by decide : ∀ row ∈ _, row.2.2 ≠ TokenKind.string) (x, d, _) hrow)
  | negated =>
    simp only [negated] at h
    split at h <;> cases h
  | word => rcases kind_word b rest with hkind | hkind <;> rw [h] at hkind <;> cases hkind
  | number =>
    rw [kind_number] at h
    cases h
  | unexpected => cases h

end Unquoted

/-! ### Whole texts -/

/-- A place in a text where no code point is cut. -/
structure IsBoundary (text : Bytes) (n : Nat) : Prop where
  le : n ≤ text.length
  before : isValid (text.take n) = true
  after : isValid (text.drop n) = true

/-- What stands in a text before each of some tokens, from an offset on. -/
def gapsFrom (text : Bytes) : (start : Nat) → List Token → List Bytes
  | _, [] => []
  | start, t :: ts => text.extract start t.pos.offset :: gapsFrom text t.stop ts

/-- Tokens of a text that cut no code point: their texts, the gaps before them and the values of
    those that are strings are UTF-8, and faults are reported at whole code points. -/
structure Unsplit (text : Bytes) (r : Tokens) : Prop where
  tokens : ∀ t ∈ r.all, isValid t.text = true
  gaps : ∀ gap ∈ gapsFrom text 0 r.all, isValid gap = true
  diagnostics : ∀ d ∈ r.diagnostics, IsBoundary text d.start ∧ IsBoundary text d.stop
  values : ∀ t ∈ r.all, t.kind = .string → isValid (Unquoted.value t.text) = true

namespace Lexer

variable {l after : Lexer} {t : Token} {r : Tokens} {text before skipped : Bytes}

/-- A token that a call reads from a text that is UTF-8 begins and ends at boundaries. -/
theorem Reads.boundaries (h : Reads l skipped t after) (hnext : l.next = .ok (t, after))
    (hat : At text before l) (hbefore : isValid before = true) (hvalid : isValid l.rest = true) :
    IsBoundary text t.pos.offset ∧ IsBoundary text t.stop ∧
      isValid (before ++ skipped ++ t.text) = true := by
  obtain ⟨hskipped, htext, hrest⟩ := h.valid hnext hvalid
  obtain ⟨-, hoffset, -⟩ := h.offset hat
  obtain ⟨hafter, hstop⟩ := h.at hat
  have hleft := isValid_append hbefore hskipped
  have hwhole := isValid_append hleft htext
  refine ⟨?_, ?_, hwhole⟩
  · have hsplit : text = (before ++ skipped) ++ (t.text ++ after.rest) := by
      rw [hafter.rest, List.append_assoc]
    have hlength : t.pos.offset = (before ++ skipped).length := by
      rw [hoffset, List.length_append]
    rw [hlength, hsplit]
    refine ⟨by simp, ?_, ?_⟩
    · rwa [List.take_left]
    · rw [List.drop_left]
      exact isValid_append htext hrest
  · rw [hstop, hafter.rest]
    refine ⟨by simp, ?_, ?_⟩
    · rwa [List.take_left]
    · rwa [List.drop_left]

/-- The value of a string that a call reads. -/
theorem value_next (hnext : l.next = .ok (t, after)) (hkind : t.kind = .string)
    (hvalid : isValid t.text = true) : isValid (Unquoted.value t.text) = true := by
  obtain ⟨b, rest, htakes⟩ := takes_next hnext (by rw [hkind]; nofun)
  have hhead : (head b rest).kind = .string := by
    rw [← hkind, htakes.token]
    rfl
  have htext : t.text = b :: rest.take (head b rest).more := by rw [htakes.token]; rfl
  rw [htext] at hvalid ⊢
  exact ((Unquoted.opened_of_kind hhead).take _).isValid_value hvalid

/-- Tokens that a lexer yields from a text that is UTF-8, and what it finds wrong with them. -/
theorem Yields.unsplit (h : Yields l r) (hat : At text before l) (hbefore : isValid before = true)
    (hvalid : isValid l.rest = true) :
    (∀ t ∈ r.all, isValid t.text = true ∧
      (t.kind = .string → isValid (Unquoted.value t.text) = true)) ∧
    (∀ gap ∈ gapsFrom text before.length r.all, isValid gap = true) ∧
    ∃ found, r.diagnostics = l.diagnostics.reverse ++ found ∧
      ∀ d ∈ found, IsBoundary text d.start ∧ IsBoundary text d.stop := by
  induction h generalizing before with
  | @ending l after t hnext hkind =>
    obtain ⟨skipped, hreads⟩ := reads_next hnext
    obtain ⟨hskipped, htext, -⟩ := hreads.valid hnext hvalid
    obtain ⟨-, -, hgap⟩ := hreads.offset hat
    obtain ⟨-, -, hsame⟩ := hreads.ending hkind
    refine ⟨?_, ?_, [], by rw [hsame, List.append_nil], nofun⟩
    · exact List.forall_mem_singleton.2 ⟨htext, fun h => value_next hnext h htext⟩
    · refine List.forall_mem_singleton.2 ?_
      rwa [hgap]
  | @token l after t r hnext hkind hrest ih =>
    obtain ⟨skipped, hreads⟩ := reads_next hnext
    obtain ⟨hskipped, htext, hleft⟩ := hreads.valid hnext hvalid
    obtain ⟨-, -, hgap⟩ := hreads.offset hat
    obtain ⟨hafter, hstop⟩ := hreads.at hat
    obtain ⟨hstart, hend, hwhole⟩ := hreads.boundaries hnext hat hbefore hvalid
    obtain ⟨htokens, hgaps, found, hfound, hplaces⟩ := ih hafter hwhole hleft
    refine ⟨?_, ?_, ?_⟩
    · exact List.forall_mem_cons.2 ⟨⟨htext, fun h => value_next hnext h htext⟩, htokens⟩
    · refine List.forall_mem_cons.2 ⟨by rwa [hgap], ?_⟩
      rwa [hstop]
    · rcases diagnostics_next hnext with hnone | ⟨d, hplace, hd, hone⟩
      · exact ⟨found, by rw [← hnone]; exact hfound, hplaces⟩
      · refine ⟨d :: found, ?_, List.forall_mem_cons.2 ⟨?_, hplaces⟩⟩
        · rw [hone, List.reverse_cons, List.append_assoc] at hfound
          exact hfound
        · rw [Diagnostic.start, hplace, hd]
          exact ⟨hstart, hend⟩

end Lexer

/-- No token of a text that is UTF-8 cuts a code point. -/
theorem unsplit_tokenize {text : Bytes} {r : Tokens} (hvalid : isValid text = true)
    (h : tokenize text = .ok r) : Unsplit text r := by
  have hyields : (Lexer.ofText text).Yields r := Lexer.yields_of_tokens h
  have hat : Lexer.At text [] (Lexer.ofText text) := ⟨rfl, rfl⟩
  obtain ⟨htokens, hgaps, found, hfound, hplaces⟩ := hyields.unsplit hat rfl hvalid
  refine ⟨fun t ht => (htokens t ht).1, hgaps, ?_, fun t ht => (htokens t ht).2⟩
  rw [show r.diagnostics = found from hfound]
  exact hplaces

/-- A word and a number with letters beyond ASCII, a comment, and an escape before such a letter in
    a string that is not closed. -/
theorem unsplit_tokenize_letters :
    ∃ r, tokenize (bytes "é>0x1µ//ß\n\"\\é") = .ok r ∧ r.diagnostics ≠ [] ∧
      Unsplit (bytes "é>0x1µ//ß\n\"\\é") r := by
  obtain ⟨r, hr, hfault⟩ : ∃ r, tokenize (bytes "é>0x1µ//ß\n\"\\é") = .ok r ∧
      r.diagnostics ≠ [] := ⟨_, rfl, List.cons_ne_nil _ _⟩
  exact ⟨r, hr, hfault, unsplit_tokenize (by decide) hr⟩

end KustoFacts
