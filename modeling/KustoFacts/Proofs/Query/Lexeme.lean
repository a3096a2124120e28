import KustoFacts.Proofs.Query.Forms

/-!
    Single lexemes. A lexeme takes no more than there is, and is never the end of the text. A word
    that is the name of a typed literal is a whole word, after which no body is opened. -/

namespace KustoFacts.Lexeme

/-! ### Bounds -/

theorem count_le (test : UInt8 → Bool) (text : Bytes) : count test text ≤ text.length :=
  (List.takeWhile_prefix _).length_le

theorem quoted_le (quote : UInt8) (read : Nat) (text : Bytes) :
    (quoted quote read text).1 ≤ read + text.length := by
  fun_induction quoted quote read text <;> simp_all <;> omega

theorem verbatim_le (quote : UInt8) (read : Nat) (text : Bytes) :
    (verbatim quote read text).1 ≤ read + text.length := by
  fun_induction verbatim quote read text <;> simp_all <;> omega

theorem fenced_le (read : Nat) (text : Bytes) : (fenced read text).1 ≤ read + text.length := by
  fun_induction fenced read text with
  | case1 read => simp
  | case2 read b rest hfence =>
    rcases rest with _ | ⟨c, _ | ⟨d, rest⟩⟩
    · simp [startsFence, Bytes.beginsWith, Bytes.after?] at hfence
    · simp [startsFence, Bytes.beginsWith, Bytes.after?] at hfence
    · simp
  | case3 read b rest hfence ih => simp only [List.length_cons]; omega

theorem more_ofString (p : Nat × Bool) : (ofString p).more = p.1 := by
  rcases p with ⟨more, _ | _⟩ <;> rfl

theorem typedBody_le (state : BodyState) (depth read : Nat) (text : Bytes) :
    (typedBody state depth read text).more ≤ read + text.length := by
  fun_induction typedBody state depth read text <;> simp_all [sound] <;> omega

/-- A dashed word stands at the head of the text. -/
theorem dashed?_some {word after long : Bytes} (h : dashed? word after = some long) :
    long ∈ dashedWords ∧ long <+: word ++ after := by
  unfold dashed? at h
  split at h
  · rename_i dash rest
    split at h
    · simp only [Option.ite_none_right_eq_some, Option.some.injEq, List.contains_iff_mem] at h
      obtain ⟨hlong, rfl⟩ := h
      refine ⟨hlong, (List.prefix_append_right_inj _).2 ?_⟩
      exact (List.prefix_cons_inj _).2 (List.takeWhile_prefix _)
    · cases h
  · cases h

theorem ofWord_le {word after : Bytes} (hword : word ≠ []) :
    (ofWord word after).more + 1 ≤ word.length + after.length := by
  have hpos := List.length_pos_iff.2 hword
  unfold ofWord
  split
  · rename_i long hlong
    have := (dashed?_some hlong).2.length_le
    rw [List.length_append] at this
    simp only [sound]
    omega
  split
  · rename_i hin
    rcases after with _ | ⟨c, after⟩
    · simp [startsWith] at hin
    · simp only [sound, List.length_cons]
      omega
  dsimp only
  split
  · have hbody := typedBody_le .plain 0 (word.length - 1 + count isLayoutByte after)
      (after.drop (count isLayoutByte after))
    have := count_le isLayoutByte after
    rw [List.length_drop] at hbody
    omega
  · simp only [sound]
    omega

theorem word_le (b : UInt8) (rest : Bytes) : (word b rest).more ≤ rest.length := by
  have := @ofWord_le (b :: rest.takeWhile isWordByte) (rest.drop (rest.takeWhile isWordByte).length)
    (List.cons_ne_nil _ _)
  have hle := count_le isWordByte rest
  simp only [count] at hle
  simp only [List.length_cons, List.length_drop] at this
  simp only [word]
  omega

theorem negated_le (rest : Bytes) : (negated rest).more ≤ rest.length := by
  have hle := count_le isWordByte rest
  simp only [count] at hle
  unfold negated
  dsimp only
  split
  · rename_i hin
    have hne : rest.drop (rest.takeWhile isWordByte).length ≠ [] := by
      intro hnil
      simp [hnil, startsWith] at hin
    have := List.length_pos_iff.2 hne
    rw [List.length_drop] at this
    simp only [sound]
    omega
  · exact hle

theorem fraction_le (text : Bytes) : fraction text ≤ text.length := by
  unfold fraction
  split
  · rename_i b rest
    have := count_le isDigit rest
    split
    · simp only [List.length_cons]; omega
    · exact Nat.zero_le _
  · exact Nat.le_refl _

theorem exponent_le (text : Bytes) : exponent text ≤ text.length := by
  unfold exponent
  split
  · rename_i e rest
    split
    · split
      · rename_i s digits
        have := count_le isDigit digits
        have := count_le isDigit (s :: digits)
        split
        · simp only [List.length_cons] at *; omega
        split
        · simp only [List.length_cons]; omega
        · exact Nat.zero_le _
      · exact Nat.zero_le _
    · exact Nat.zero_le _
  · exact Nat.le_refl _

theorem decimalLength_le (text : Bytes) : decimalLength text ≤ text.length := by
  have whole := count_le isDigit text
  have part := fraction_le (text.drop (count isDigit text))
  have power := exponent_le
    (text.drop (count isDigit text + fraction (text.drop (count isDigit text))))
  have unit := fun n => count_le isLetterByte (text.drop n)
  simp only [List.length_drop] at part power unit
  unfold decimalLength
  dsimp only
  refine Nat.le_trans (Nat.add_le_add_left (unit _) _) ?_
  omega

theorem number_le (b : UInt8) (rest : Bytes) : (number b rest).more ≤ rest.length := by
  unfold number
  split
  · rename_i hx
    rcases rest with _ | ⟨c, rest⟩
    · simp [startsWith] at hx
    · have := count_le (fun c => (hexValue? c).isSome) rest
      simp only [sound, List.drop_succ_cons, List.drop_zero, List.length_cons]
      omega
  · have := decimalLength_le (b :: rest)
    simp only [List.length_cons] at this
    simp only [sound]
    omega

theorem string?_le {read : Nat} {rest : Bytes} {lexeme : Lexeme} (h : string? read rest = some lexeme) :
    lexeme.more ≤ read + rest.length := by
  rcases rest with _ | ⟨b, rest⟩
  · cases h
  simp only [string?] at h
  split at h
  · cases h
    have := quoted_le b (read + 1) rest
    rw [more_ofString, List.length_cons]
    omega
  split at h
  · rcases rest with _ | ⟨q, rest⟩
    · cases h
    dsimp only at h
    split at h
    · cases h
      have := verbatim_le q (read + 2) rest
      rw [more_ofString, List.length_cons, List.length_cons]
      omega
    · cases h
  · cases h

theorem pair?_nil (b : UInt8) : pair? b [] = none := by simp [pair?, startsWith]

theorem startsFence_length {b : UInt8} {rest : Bytes} (h : startsFence (b :: rest) = true) :
    2 ≤ rest.length := by
  rcases rest with _ | ⟨c, _ | ⟨d, rest⟩⟩
  · simp [startsFence, Bytes.beginsWith, Bytes.after?] at h
  · simp [startsFence, Bytes.beginsWith, Bytes.after?] at h
  · simp

/-- A lexeme takes no more than there is. -/
theorem head_le (b : UInt8) (rest : Bytes) : (head b rest).more ≤ rest.length := by
  have hform := headOf b rest
  generalize head b rest = lexeme at hform
  cases hform with
  | mark | alone | unexpected => exact Nat.zero_le _
  | pair h =>
    rcases rest with _ | ⟨c, rest⟩
    · rw [pair?_nil] at h
      cases h
    · exact Nat.succ_le_succ (Nat.zero_le _)
  | negated => exact negated_le rest
  | quoted =>
    rw [more_ofString]
    simpa using quoted_le b 0 rest
  | fenced _ h =>
    have hlength := startsFence_length h
    have hle := fenced_le 2 (rest.drop 2)
    rw [List.length_drop] at hle
    rw [more_ofString]
    omega
  | @verbatim quote tail _ _ hrest =>
    have hle := verbatim_le quote 1 tail
    rw [more_ofString, hrest, List.length_cons]
    omega
  | marked _ h => simpa using string?_le h
  | word => exact word_le b rest
  | number => exact number_le b rest

/-! ### Kinds -/

theorem kind_typedBody (state : BodyState) (depth read : Nat) (text : Bytes) :
    (typedBody state depth read text).kind = .literal := by
  fun_induction typedBody state depth read text <;> simp_all [sound]

theorem kind_ofString (p : Nat × Bool) : (ofString p).kind = .string := by
  rcases p with ⟨more, _ | _⟩ <;> rfl

theorem kind_word (b : UInt8) (rest : Bytes) :
    (word b rest).kind = .word ∨ (word b rest).kind = .literal := by
  simp only [word, ofWord]
  split
  · exact .inl rfl
  split
  · exact .inl rfl
  split
  · exact .inr (kind_typedBody ..)
  · exact .inl rfl

theorem kind_number (b : UInt8) (rest : Bytes) : (number b rest).kind = .number := by
  unfold number
  split <;> rfl

theorem kind_string? {read : Nat} {rest : Bytes} {l : Lexeme} (h : string? read rest = some l) :
    l.kind = .string := by
  rcases rest with _ | ⟨b, rest⟩
  · cases h
  simp only [string?] at h
  split at h
  · cases h; exact kind_ofString _
  split at h
  · rcases rest with _ | ⟨q, rest⟩
    · cases h
    dsimp only at h
    split at h
    · cases h; exact kind_ofString _
    · cases h
  · cases h

theorem findSome?_kind {α : Type} {f : α → Option TokenKind} {l : List α} {kind : TokenKind}
    (h : l.findSome? f = some kind) (hf : ∀ a ∈ l, f a ≠ some .endOfInput) :
    kind ≠ .endOfInput := by
  obtain ⟨a, ha, hk⟩ := List.exists_of_findSome?_eq_some h
  rintro rfl
  exact hf a ha hk

/-- No lexeme is the end of the text. -/
theorem kind_head (b : UInt8) (rest : Bytes) : (head b rest).kind ≠ .endOfInput := by
  have hform := headOf b rest
  generalize head b rest = lexeme at hform
  cases hform with
  | mark h | pair h | alone h => exact findSome?_kind h (by simp)
  | negated =>
    unfold negated
    dsimp only
    split <;> nofun
  | quoted | fenced | verbatim =>
    rw [kind_ofString]
    nofun
  | marked _ h =>
    rw [kind_string? h]
    nofun
  | word =>
    intro h
    rcases kind_word b rest with hkind | hkind <;> rw [h] at hkind <;> cases hkind
  | number =>
    rw [kind_number]
    nofun
  | unexpected => nofun

/-! ### Names of typed literals -/

variable {b : UInt8} {rest : Bytes}

/-- Whether the body of a typed literal is opened after its name. -/
def opens (after : Bytes) : Bool :=
  startsWith (· = byteOf '(') (after.drop (count isLayoutByte after))

theorem opens_cons {b : UInt8} (hb : isLayoutByte b = true) (after : Bytes) :
    opens (b :: after) = opens after := by
  simp [opens, count, hb]

theorem opens_cons_of_not {b : UInt8} (hb : isLayoutByte b = false) (after : Bytes) :
    opens (b :: after) = decide (b = byteOf '(') := by
  simp [opens, count, hb, startsWith]

/-- Layout before an opened body ends there. -/
theorem count_before {after : Bytes} (s : Bytes) (h : opens after = true) :
    count isLayoutByte (after ++ s) = count isLayoutByte after ∧ opens (after ++ s) = true := by
  induction after with
  | nil => cases h
  | cons b after ih =>
    by_cases hb : isLayoutByte b = true
    · rw [opens_cons hb] at h
      have hcount : ∀ text, count isLayoutByte (b :: text) = count isLayoutByte text + 1 := by
        intro text
        simp [count, hb]
      rw [List.cons_append, hcount, hcount, opens_cons hb, (ih h).1]
      exact ⟨rfl, (ih h).2⟩
    · rw [Bool.not_eq_true] at hb
      rw [opens_cons_of_not hb] at h
      rw [List.cons_append, opens_cons_of_not hb]
      exact ⟨by simp [count, hb], h⟩

theorem ofWord_eq (word after : Bytes) : ofWord word after =
    match dashed? word after with
    | some long => sound .word (long.length - 1)
    | none =>
      if word = bytes "in" && startsWith (· = byteOf '~') after then
        sound .word (word.length - 1 + 1)
      else if typedLiteralWords.contains word && opens after then
        typedBody .plain 0 (word.length - 1 + count isLayoutByte after)
          (after.drop (count isLayoutByte after))
      else sound .word (word.length - 1) := rfl

/-- No word that is spelled with a dash begins like the name of a typed literal. -/
theorem not_prefix_dashed :
    ∀ long ∈ dashedWords, ∀ name ∈ typedLiteralWords, ¬name <+: long := by decide

theorem dashed?_typed {name : Bytes} (h : typedLiteralWords.contains name = true) (after : Bytes) :
    dashed? name after = none := by
  rcases after with _ | ⟨dash, rest⟩
  · rfl
  rw [dashed?]
  split
  · refine if_neg fun hlong => ?_
    exact not_prefix_dashed _ (List.contains_iff_mem.1 hlong) _ (List.contains_iff_mem.1 h)
      (List.prefix_append _ _)
  · rfl

/-- The name of a typed literal is read as a word. -/
theorem head_typed {name : Bytes} (h : typedLiteralWords.contains (b :: name) = true)
    (rest : Bytes) : head b rest = word b rest := by
  have hfirst : ∀ name ∈ typedLiteralWords, beginsName (name.headD 0) = true ∧
      (decide (name.headD 0 = byteOf 'h') || decide (name.headD 0 = byteOf 'H')) = false := by
    decide
  obtain ⟨hb, hmarked⟩ := hfirst _ (List.contains_iff_mem.1 h)
  rw [List.headD_cons] at hb hmarked
  rw [head_of_bare (.inl hb), hmarked, if_neg Bool.false_ne_true, if_pos hb]

/-- A word that is the name of a typed literal is a whole word, and no body is opened after it. -/
theorem typed_word (hkind : (head b rest).kind = .word)
    (htyped : typedLiteralWords.contains (b :: rest.take (head b rest).more) = true) :
    (head b rest).more = (rest.takeWhile isWordByte).length ∧
      opens (rest.drop (head b rest).more) = false := by
  generalize hname : rest.takeWhile isWordByte = name
  obtain ⟨after, hrest⟩ : ∃ after, rest = name ++ after :=
    ⟨_, hname ▸ (List.takeWhile_append_dropWhile (p := isWordByte)).symm⟩
  have hdrop : rest.drop name.length = after := by rw [hrest, List.drop_left]
  have hword : head b rest = ofWord (b :: name) after := by
    rw [head_typed htyped, word, hname, hdrop]
  -- no longer word would be the name of a typed literal
  have hlonger {long : Bytes} (hlong : long <+: b :: name ++ after)
      (hmore : (head b rest).more = long.length - 1) (hpos : 0 < long.length) :
      typedLiteralWords.contains long = true := by
    rw [hmore, hrest, ← List.take_succ_cons, Nat.sub_add_cancel hpos,
      ← List.cons_append, ← List.prefix_iff_eq_take.1 hlong] at htyped
    exact htyped
  rw [ofWord_eq] at hword
  split at hword
  next long hlong =>
    obtain ⟨hmem, hprefix⟩ := dashed?_some hlong
    have hpos : 0 < long.length := List.length_pos_iff.2 fun hnil =>
      absurd (hnil ▸ hmem) (by decide)
    have htyped := hlonger hprefix (by rw [hword]; rfl) hpos
    exact absurd List.prefix_rfl
      (not_prefix_dashed long hmem long (List.contains_iff_mem.1 htyped))
  next =>
    split at hword
    next hin =>
      simp only [Bool.and_eq_true, decide_eq_true_eq] at hin
      obtain ⟨hin, htilde⟩ := hin
      rcases after with _ | ⟨c, after⟩
      · cases htilde
      obtain rfl : c = byteOf '~' := by simpa [startsWith] using htilde
      have hlong : bytes "in~" <+: b :: name ++ byteOf '~' :: after := ⟨after, by rw [hin]; rfl⟩
      have htyped := hlonger hlong (by rw [hword, hin]; rfl) (by decide)
      exact absurd htyped (by decide)
    next =>
      split at hword
      next =>
        rw [hword, kind_typedBody] at hkind
        cases hkind
      next hbody =>
        have hmore : (head b rest).more = name.length := by rw [hword]; rfl
        have htake : rest.take name.length = name := by rw [hrest, List.take_left]
        rw [hmore, htake] at htyped
        rw [hmore, hdrop]
        exact ⟨rfl, by simpa only [htyped, Bool.true_and, Bool.not_eq_true] using hbody⟩

end KustoFacts.Lexeme
