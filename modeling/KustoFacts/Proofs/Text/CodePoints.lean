import KustoFacts.Proofs.Text.Utf8

/-!
    Code points and the bytes that spell them. A code point has exactly one spelling, which is what
    `encode` writes and what `first` reads; so code points are read back from what spells them. A
    text that is UTF-8 has no stray bytes. -/

namespace KustoFacts.Utf8

variable {code : Nat} {spelled text : Bytes}

/-- The numbers that are code points of text: those up to 10FFFF that are no surrogates. -/
def Scalar (code : Nat) : Prop := code < 0xD800 ∨ 0xE000 ≤ code ∧ code ≤ 0x10FFFF

instance (code : Nat) : Decidable (Scalar code) := by unfold Scalar; infer_instance

/-- The bytes that spell a code point, by their number. -/
inductive Spelling (code : Nat) : Bytes → Prop where
  | one {a : UInt8} (h : a < 0x80) (value : code = a.toNat) : Spelling code [a]
  | two {a b : UInt8} (h : isPair a b = true)
      (value : code = (a.toNat - 0xC0) * 0x40 + tailBits b) : Spelling code [a, b]
  | three {a b c : UInt8} (h : isTriple a b c = true)
      (value : code = (a.toNat - 0xE0) * 0x1000 + tailBits b * 0x40 + tailBits c) :
      Spelling code [a, b, c]
  | four {a b c d : UInt8} (h : isQuad a b c d = true)
      (value : code = (a.toNat - 0xF0) * 0x40000 + tailBits b * 0x1000 + tailBits c * 0x40 +
        tailBits d) : Spelling code [a, b, c, d]

/-! ### Spellings by number -/

theorem isPair_iff {a b : UInt8} : isPair a b = true ↔
    (0xC2 ≤ a.toNat ∧ a.toNat ≤ 0xDF) ∧ 0x80 ≤ b.toNat ∧ b.toNat ≤ 0xBF := by
  simp [isPair, isTail, UInt8.le_iff_toNat_le]

theorem isTriple_iff {a b c : UInt8} : isTriple a b c = true ↔
    (0xE0 ≤ a.toNat ∧ a.toNat ≤ 0xEF) ∧ (0x80 ≤ b.toNat ∧ b.toNat ≤ 0xBF) ∧
      (0x80 ≤ c.toNat ∧ c.toNat ≤ 0xBF) ∧ (a.toNat = 0xE0 → 0xA0 ≤ b.toNat) ∧
      (a.toNat = 0xED → b.toNat ≤ 0x9F) := by
  simp [isTriple, isTail, UInt8.le_iff_toNat_le, ← UInt8.toNat_inj]
  tauto

theorem isQuad_iff {a b c d : UInt8} : isQuad a b c d = true ↔
    (0xF0 ≤ a.toNat ∧ a.toNat ≤ 0xF4) ∧ (0x80 ≤ b.toNat ∧ b.toNat ≤ 0xBF) ∧
      (0x80 ≤ c.toNat ∧ c.toNat ≤ 0xBF) ∧ (0x80 ≤ d.toNat ∧ d.toNat ≤ 0xBF) ∧
      (a.toNat = 0xF0 → 0x90 ≤ b.toNat) ∧ (a.toNat = 0xF4 → b.toNat ≤ 0x8F) := by
  simp [isQuad, isTail, UInt8.le_iff_toNat_le, ← UInt8.toNat_inj]
  tauto

theorem Spelling.scalar (h : Spelling code spelled) : Scalar code := by
  unfold Scalar
  cases h with
  | one h value =>
    rw [UInt8.lt_iff_toNat_lt] at h
    exact .inl (by rw [value]; exact Nat.lt_trans h (by decide))
  | two h value =>
    rw [isPair_iff] at h
    unfold tailBits at value
    omega
  | three h value =>
    rw [isTriple_iff] at h
    unfold tailBits at value
    omega
  | four h value =>
    rw [isQuad_iff] at h
    unfold tailBits at value
    omega

theorem toNat_toUInt8 {n : Nat} (h : n < 0x100) : n.toUInt8.toNat = n := by
  simp only [Nat.toUInt8_eq, UInt8.toNat_ofNat']
  omega

/-- What is written for a code point spells it. -/
theorem spelling_encode (h : Scalar code) : Spelling code (encode code) := by
  unfold Scalar at h
  unfold encode
  have hlast : (0x80 + code % 0x40).toUInt8.toNat = 0x80 + code % 0x40 := toNat_toUInt8 (by omega)
  have hmiddle : (0x80 + code / 0x40 % 0x40).toUInt8.toNat = 0x80 + code / 0x40 % 0x40 :=
    toNat_toUInt8 (by omega)
  have hsecond : (0x80 + code / 0x1000 % 0x40).toUInt8.toNat = 0x80 + code / 0x1000 % 0x40 :=
    toNat_toUInt8 (by omega)
  split_ifs with hone htwo hthree
  · have ha : code.toUInt8.toNat = code := toNat_toUInt8 (by omega)
    exact .one (by rw [UInt8.lt_iff_toNat_lt, ha]; exact hone) ha.symm
  · have ha : (0xC0 + code / 0x40).toUInt8.toNat = 0xC0 + code / 0x40 := toNat_toUInt8 (by omega)
    refine .two ?_ ?_
    · rw [isPair_iff, ha, hlast]
      omega
    · unfold tailBits
      omega
  · have ha : (0xE0 + code / 0x1000).toUInt8.toNat = 0xE0 + code / 0x1000 :=
      toNat_toUInt8 (by omega)
    refine .three ?_ ?_
    · rw [isTriple_iff, ha, hmiddle, hlast]
      omega
    · unfold tailBits
      omega
  · have ha : (0xF0 + code / 0x40000).toUInt8.toNat = 0xF0 + code / 0x40000 :=
      toNat_toUInt8 (by omega)
    refine .four ?_ ?_
    · rw [isQuad_iff, ha, hsecond, hmiddle, hlast]
      omega
    · unfold tailBits
      omega

/-! ### Reading spellings -/

/-- What stands first in a text: a code point with its spelling, or a single stray byte. -/
inductive FirstOf : UInt8 → Bytes → Glyph × Nat → Prop where
  | char {a : UInt8} {code : Nat} (tail : Bytes) {rest : Bytes} (h : Spelling code (a :: tail)) :
      FirstOf a (tail ++ rest) (.char code, tail.length)
  | stray {a : UInt8} {rest : Bytes} : FirstOf a rest (.stray a, 0)

theorem firstOf (a : UInt8) (rest : Bytes) : FirstOf a rest (first a rest) := by
  unfold first
  split_ifs with h
  · exact .char [] (.one h rfl)
  · rcases rest with _ | ⟨b, _ | ⟨c, _ | ⟨d, rest⟩⟩⟩
    · exact .stray
    · dsimp only
      split_ifs with h
      · exact .char [b] (.two h rfl)
      · exact .stray
    · dsimp only
      split_ifs with h h
      · exact .char [b] (.two h rfl)
      · exact .char [b, c] (.three h rfl)
      · exact .stray
    · dsimp only
      split_ifs with h h h
      · exact .char [b] (.two h rfl)
      · exact .char [b, c] (.three h rfl)
      · exact .char [b, c, d] (.four h rfl)
      · exact .stray

/-- A spelling is read as its code point, whatever follows. -/
theorem Spelling.first {a : UInt8} {tail : Bytes} (h : Spelling code (a :: tail)) (rest : Bytes) :
    Utf8.first a (tail ++ rest) = (.char code, tail.length) := by
  unfold Utf8.first
  cases h with
  | one h value => rw [if_pos h, value]; rfl
  | @two _ b h value =>
    have hnot : ¬a < 0x80 := by
      rw [isPair_iff] at h
      rw [UInt8.lt_iff_toNat_lt]
      simp only [UInt8.toNat_ofNat]
      omega
    simp [hnot, h, value]
  | @three _ b c h value =>
    have hnumbers := isTriple_iff.1 h
    have hnot : ¬a < 0x80 := by
      rw [UInt8.lt_iff_toNat_lt]
      simp only [UInt8.toNat_ofNat]
      omega
    have hpair : ¬isPair a b = true := by
      rw [isPair_iff]
      omega
    simp [hnot, hpair, h, value]
  | @four _ b c d h value =>
    have hnumbers := isQuad_iff.1 h
    have hnot : ¬a < 0x80 := by
      rw [UInt8.lt_iff_toNat_lt]
      simp only [UInt8.toNat_ofNat]
      omega
    have hpair : ¬isPair a b = true := by
      rw [isPair_iff]
      omega
    have htriple : ¬isTriple a b c = true := by
      rw [isTriple_iff]
      omega
    simp [hnot, hpair, htriple, h, value]

/-! ### Units of a text -/

theorem glyphsAfter_eq_drop : ∀ (skip : Nat) (text : Bytes),
    glyphsAfter skip text = glyphs (text.drop skip)
  | 0, _ => rfl
  | _ + 1, [] => rfl
  | skip + 1, _ :: rest => glyphsAfter_eq_drop skip rest

theorem glyphs_cons (a : UInt8) (rest : Bytes) :
    glyphs (a :: rest) = (first a rest).1 :: glyphs (rest.drop (first a rest).2) := by
  rw [glyphs, glyphsAfter]
  exact congrArg ((first a rest).1 :: ·) (glyphsAfter_eq_drop _ _)

/-- A code point that is spelled at the head of a text is its first unit. -/
theorem Spelling.glyphs_append (h : Spelling code spelled) (rest : Bytes) :
    glyphs (spelled ++ rest) = .char code :: glyphs rest := by
  have hspelled : ∃ a tail, spelled = a :: tail := by cases h <;> exact ⟨_, _, rfl⟩
  obtain ⟨a, tail, rfl⟩ := hspelled
  rw [List.cons_append, glyphs_cons, h.first, List.drop_left]

/-- Code points that are written one after another are read back. -/
theorem glyphs_flatMap_encode {codes : List Nat} (h : ∀ code ∈ codes, Scalar code) :
    glyphs (codes.flatMap encode) = codes.map .char := by
  induction codes with
  | nil => rfl
  | cons code codes ih =>
    obtain ⟨hcode, hcodes⟩ := List.forall_mem_cons.1 h
    rw [List.flatMap_cons, (spelling_encode hcode).glyphs_append, ih hcodes, List.map_cons]

theorem toUInt8_eq {n : Nat} {b : UInt8} (h : n = b.toNat) : n.toUInt8 = b := by
  rw [h]
  exact UInt8.ofNat_toNat

/-- A spelling is what is written for its code point. -/
theorem Spelling.encode_eq (h : Spelling code spelled) : encode code = spelled := by
  unfold encode
  cases h with
  | one h value =>
    rw [UInt8.lt_iff_toNat_lt] at h
    rw [if_pos (value ▸ h), toUInt8_eq value]
  | @two a b h value =>
    rw [isPair_iff] at h
    unfold tailBits at value
    rw [if_neg (by omega), if_pos (by omega), toUInt8_eq (b := a) (by omega),
      toUInt8_eq (b := b) (by omega)]
  | @three a b c h value =>
    rw [isTriple_iff] at h
    unfold tailBits at value
    rw [if_neg (by omega), if_neg (by omega), if_pos (by omega), toUInt8_eq (b := a) (by omega),
      toUInt8_eq (b := b) (by omega), toUInt8_eq (b := c) (by omega)]
  | @four a b c d h value =>
    rw [isQuad_iff] at h
    unfold tailBits at value
    rw [if_neg (by omega), if_neg (by omega), if_neg (by omega), toUInt8_eq (b := a) (by omega),
      toUInt8_eq (b := b) (by omega), toUInt8_eq (b := c) (by omega),
      toUInt8_eq (b := d) (by omega)]

/-- Every text is cut into spellings and stray bytes. -/
theorem glyphs_induction {motive : Bytes → Prop} (nil : motive [])
    (char : ∀ code spelled rest, Spelling code spelled → motive rest → motive (spelled ++ rest))
    (stray : ∀ a rest, first a rest = (.stray a, 0) → motive rest → motive (a :: rest))
    (text : Bytes) : motive text := by
  match text with
  | [] => exact nil
  | a :: rest =>
    have hfirst := firstOf a rest
    generalize heq : first a rest = unit at hfirst
    cases hfirst with
    | @char code tail rest h =>
      exact char code (a :: tail) rest h (glyphs_induction nil char stray rest)
    | stray => exact stray a rest heq (glyphs_induction nil char stray rest)
termination_by text.length

/-- The code points among the units of a text are code points of text. -/
theorem scalar_of_mem_glyphs {text : Bytes} (h : .char code ∈ glyphs text) : Scalar code := by
  induction text using glyphs_induction with
  | nil => cases h
  | char code' spelled rest hspelled ih =>
    rw [hspelled.glyphs_append] at h
    rcases List.mem_cons.1 h with hcode | h
    · cases hcode
      exact hspelled.scalar
    · exact ih h
  | stray a rest hfirst ih =>
    rw [glyphs_cons, hfirst] at h
    rcases List.mem_cons.1 h with hcode | h
    · cases hcode
    · exact ih h

/-! ### Texts that are UTF-8 -/

/-- What follows where continuation bytes are owed. -/
theorem run_tails {low high : UInt8} {more : Nat} (l u : Nat) (hlow : low.toNat = l)
    (hhigh : high.toNat = u) (h : (Owed.tails low high more).run text = true) :
    ∃ b rest, text = b :: rest ∧ (l ≤ b.toNat ∧ b.toNat ≤ u) ∧
      (match more with
        | 0 => Owed.nothing
        | n + 1 => .tails 0x80 0xBF n).run rest = true := by
  rcases text with _ | ⟨b, rest⟩
  · cases h
  · obtain ⟨next, hstep, hrun⟩ := Owed.run_cons_iff.1 h
    simp only [Owed.step, Bool.and_eq_true, decide_eq_true_eq, UInt8.le_iff_toNat_le, hlow,
      hhigh] at hstep
    split_ifs at hstep with hb
    refine ⟨b, rest, rfl, hb, ?_⟩
    cases more <;> cases hstep <;> exact hrun

/-- A text that is UTF-8 begins with the spelling of a code point. -/
theorem exists_spelling {a : UInt8} {rest : Bytes} (h : isValid (a :: rest) = true) :
    ∃ code tail more, rest = tail ++ more ∧ Spelling code (a :: tail) ∧ isValid more = true := by
  -- three and four bytes, after a second byte between two bounds
  have three {l u : Nat} {low high : UInt8} (hlow : low.toNat = l) (hhigh : high.toNat = u)
      (hrun : (Owed.tails low high 1).run rest = true)
      (htriple : ∀ b c, l ≤ b.toNat → b.toNat ≤ u → 0x80 ≤ c.toNat → c.toNat ≤ 0xBF →
        isTriple a b c = true) :
      ∃ code tail more, rest = tail ++ more ∧ Spelling code (a :: tail) ∧ isValid more = true := by
    obtain ⟨b, rest, rfl, hb, hrun⟩ := run_tails l u hlow hhigh hrun
    obtain ⟨c, more, rfl, hc, hrun⟩ := run_tails 0x80 0xBF rfl rfl hrun
    exact ⟨_, [b, c], more, rfl, .three (htriple b c hb.1 hb.2 hc.1 hc.2) rfl, hrun⟩
  have four {l u : Nat} {low high : UInt8} (hlow : low.toNat = l) (hhigh : high.toNat = u)
      (hrun : (Owed.tails low high 2).run rest = true)
      (hquad : ∀ b c d, l ≤ b.toNat → b.toNat ≤ u → 0x80 ≤ c.toNat → c.toNat ≤ 0xBF →
        0x80 ≤ d.toNat → d.toNat ≤ 0xBF → isQuad a b c d = true) :
      ∃ code tail more, rest = tail ++ more ∧ Spelling code (a :: tail) ∧ isValid more = true := by
    obtain ⟨b, rest, rfl, hb, hrun⟩ := run_tails l u hlow hhigh hrun
    obtain ⟨c, rest, rfl, hc, hrun⟩ := run_tails 0x80 0xBF rfl rfl hrun
    obtain ⟨d, more, rfl, hd, hrun⟩ := run_tails 0x80 0xBF rfl rfl hrun
    exact ⟨_, [b, c, d], more, rfl, .four (hquad b c d hb.1 hb.2 hc.1 hc.2 hd.1 hd.2) rfl, hrun⟩
  obtain ⟨next, hstep, hrun⟩ := Owed.run_cons_iff.1 h
  simp only [Owed.step, Bool.and_eq_true, decide_eq_true_eq, UInt8.le_iff_toNat_le,
    UInt8.toNat_ofNat, ← UInt8.toNat_inj] at hstep
  split_ifs at hstep with hone htwo hE0 hED hthree hF0 hfour hF4 <;> cases hstep
  · exact ⟨_, [], rest, rfl, .one hone rfl, hrun⟩
  · obtain ⟨b, more, rfl, hb, hrun⟩ := run_tails 0x80 0xBF rfl rfl hrun
    exact ⟨_, [b], more, rfl, .two (isPair_iff.2 ⟨htwo, hb⟩) rfl, hrun⟩
  · refine three (l := 0xA0) (u := 0xBF) rfl rfl hrun ?_
    intros
    rw [isTriple_iff]
    omega
  · refine three (l := 0x80) (u := 0x9F) rfl rfl hrun ?_
    intros
    rw [isTriple_iff]
    omega
  · refine three (l := 0x80) (u := 0xBF) rfl rfl hrun ?_
    intros
    rw [isTriple_iff]
    omega
  · refine four (l := 0x90) (u := 0xBF) rfl rfl hrun ?_
    intros
    rw [isQuad_iff]
    omega
  · refine four (l := 0x80) (u := 0xBF) rfl rfl hrun ?_
    intros
    rw [isQuad_iff]
    omega
  · refine four (l := 0x80) (u := 0x8F) rfl rfl hrun ?_
    intros
    rw [isQuad_iff]
    omega

/-- A text that is UTF-8 is spelled by code points. -/
theorem exists_codes {text : Bytes} (h : isValid text = true) :
    ∃ codes : List Nat, (∀ code ∈ codes, Scalar code) ∧ codes.flatMap encode = text := by
  match text with
  | [] => exact ⟨[], List.forall_mem_nil _, rfl⟩
  | a :: rest =>
    obtain ⟨code, tail, more, rfl, hspelling, hmore⟩ := exists_spelling h
    obtain ⟨codes, hcodes, rfl⟩ := exists_codes hmore
    refine ⟨code :: codes, List.forall_mem_cons.2 ⟨hspelling.scalar, hcodes⟩, ?_⟩
    rw [List.flatMap_cons, hspelling.encode_eq, List.cons_append]
termination_by text.length

/-- The units of a text that is UTF-8 are code points. -/
theorem exists_glyphs (h : isValid text = true) :
    ∃ codes : List Nat, (∀ code ∈ codes, Scalar code) ∧ codes.flatMap encode = text ∧
      glyphs text = codes.map .char := by
  obtain ⟨codes, hcodes, rfl⟩ := exists_codes h
  exact ⟨codes, hcodes, rfl, glyphs_flatMap_encode hcodes⟩

/-! ### Bytes of spellings -/

theorem encode_ascii (h : code < 0x80) : encode code = [code.toUInt8] := if_pos h

/-- Only code points below 0x80 are spelled with bytes below it. -/
theorem le_of_mem_encode (hcode : Scalar code) (h : 0x80 ≤ code) :
    ∀ b ∈ encode code, 0x80 ≤ b.toNat := by
  have hspelling := spelling_encode hcode
  generalize encode code = spelled at hspelling
  cases hspelling with
  | one hone value =>
    rw [UInt8.lt_iff_toNat_lt, ← value] at hone
    exact absurd hone (Nat.not_lt.2 h)
  | two hbytes =>
    rw [isPair_iff] at hbytes
    simp only [List.mem_cons, List.not_mem_nil, or_false]
    rintro b (rfl | rfl) <;> omega
  | three hbytes =>
    rw [isTriple_iff] at hbytes
    simp only [List.mem_cons, List.not_mem_nil, or_false]
    rintro b (rfl | rfl | rfl) <;> omega
  | four hbytes =>
    rw [isQuad_iff] at hbytes
    simp only [List.mem_cons, List.not_mem_nil, or_false]
    rintro b (rfl | rfl | rfl | rfl) <;> omega

end KustoFacts.Utf8
