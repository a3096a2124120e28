import KustoFacts.Proofs.Query.Settled
import Mathlib.Data.List.TakeWhile

/-!
    Lexemes by their own text. A lexeme that is sound does not need the text after it: cut off from
    that, it is read in the same way. What it looked at beyond its end only told it to stop, and the
    end of a text tells it the same. -/

namespace KustoFacts.Lexeme

variable {b quote : UInt8} {read stop : Nat} {test : UInt8 → Bool} {u s text : Bytes}

/-! ### Bytes that pass a test -/

theorem startsWith_take {n : Nat} (hn : 0 < n) (text : Bytes) :
    startsWith test (text.take n) = startsWith test text := by
  rcases text with _ | ⟨c, text⟩
  · rw [List.take_nil]
  · obtain ⟨n, rfl⟩ := Nat.exists_eq_succ_of_ne_zero hn.ne'
    rfl

theorem startsWith_append_of_ne_nil (hu : u ≠ []) (s : Bytes) :
    startsWith test (u ++ s) = startsWith test u := by
  rcases u with _ | ⟨c, u⟩
  · exact absurd rfl hu
  · rfl

theorem startsWith_of_take {n : Nat} (h : startsWith test (text.take n) = true) :
    startsWith test text = true := by
  rcases n with _ | n
  · cases h
  · rwa [startsWith_take n.succ_pos] at h

theorem count_pos (h : startsWith test text = true) : 0 < count test text := by
  rcases text with _ | ⟨b, text⟩
  · cases h
  · simp [count, show test b = true from h]

theorem count_take {n : Nat} (h : count test text ≤ n) :
    count test (text.take n) = count test text := by
  rw [count, ← List.take_takeWhile, List.take_of_length_le h, count]

/-! ### Strings -/

theorem lt_verbatim (h : (verbatim quote read text).2 = true) :
    read < (verbatim quote read text).1 := by
  fun_induction verbatim quote read text <;> grind

theorem lt_fenced (h : (fenced read text).2 = true) : read + 2 < (fenced read text).1 := by
  fun_induction fenced read text <;> grind

/-- A verbatim string that is closed at the end of a text is closed there. -/
theorem verbatim_own (h : verbatim quote read (u ++ s) = (stop, true))
    (hstop : stop = read + u.length) : verbatim quote read u = (stop, true) := by
  fun_induction verbatim quote read u with
  | case1 read =>
    have hlt := lt_verbatim (congrArg Prod.snd h)
    rw [h, hstop] at hlt
    exact absurd hlt (Nat.lt_irrefl read)
  | case2 read rest =>
    rw [List.cons_append, verbatim.eq_def] at h
    simp at h
  | case3 read rest hq ih =>
    rw [List.cons_append, List.cons_append, verbatim.eq_def] at h
    simp only [if_neg hq, if_true] at h
    exact ih h (by rw [hstop, List.length_cons, List.length_cons]; omega)
  | case4 read c rest hq hc =>
    rw [List.cons_append, List.cons_append, verbatim.eq_def] at h
    simp only [if_neg hq, if_neg hc, if_true] at h
    exact h
  | case5 read hq => rw [hstop, List.length_singleton]
  | case6 read b rest hfeed hq ih =>
    rw [List.cons_append, verbatim.eq_def] at h
    simp only [if_neg hfeed, if_neg hq] at h
    exact ih h (by rw [hstop, List.length_cons]; omega)

/-- A fenced string that is closed at the end of a text is closed there. -/
theorem fenced_own (h : fenced read (u ++ s) = (stop, true)) (hstop : stop = read + u.length) :
    fenced read u = (stop, true) := by
  have hlt := lt_fenced (congrArg Prod.snd h)
  rw [h] at hlt
  induction u generalizing read with
  | nil =>
    rw [List.length_nil] at hstop
    omega
  | cons b rest ih =>
    rw [List.length_cons] at hstop
    rw [List.cons_append, fenced, startsFence_append b (by omega)] at h
    rw [fenced]
    split at h
    next hfence => rw [if_pos hfence, h]
    next hfence =>
      rw [if_neg hfence]
      refine ih h (by omega) ?_
      have hlt := lt_fenced (congrArg Prod.snd h)
      rwa [h] at hlt

/-! ### Numbers -/

theorem fraction_take {n : Nat} (h : fraction text ≤ n)
    (hnone : startsWith (· = byteOf '.') text = true → fraction text = 0 → n = 0) :
    fraction (text.take n) = fraction text := by
  rcases text with _ | ⟨b, rest⟩
  · rw [List.take_nil]
  rcases n with _ | n
  · exact (Nat.le_zero.1 h).symm
  by_cases hb : b = byteOf '.'
  · have hpoint : startsWith (· = byteOf '.') rest = false := by
      rw [← Bool.not_eq_true]
      intro hpoint
      exact absurd (hnone (by simpa [startsWith] using hb) (by simp [fraction, hpoint])) nofun
    have hpoint' : startsWith (· = byteOf '.') (rest.take n) = false := by
      rcases n with _ | n
      · rfl
      · rw [startsWith_take n.succ_pos, hpoint]
    have hfraction (rest : Bytes) (hpoint : startsWith (· = byteOf '.') rest = false) :
        fraction (b :: rest) = 1 + count isDigit rest := by simp [fraction, hb, hpoint]
    rw [hfraction rest hpoint] at h ⊢
    rw [List.take_succ_cons, hfraction _ hpoint', count_take (by omega)]
  · simp [fraction, hb]

theorem exponent_take {n : Nat} (h : exponent text ≤ n) :
    exponent (text.take n) = exponent text := by
  rcases text with _ | ⟨e, rest⟩
  · rw [List.take_nil]
  rcases n with _ | n
  · exact (Nat.le_zero.1 h).symm
  by_cases he : (decide (e = byteOf 'e') || decide (e = byteOf 'E')) = true
  · rcases rest with _ | ⟨sign, digits⟩
    · rw [List.take_succ_cons, List.take_nil]
    have hexponent (digits : Bytes) : exponent (e :: sign :: digits) =
        if isDigit sign then 1 + count isDigit (sign :: digits)
        else if (decide (sign = byteOf '+') || decide (sign = byteOf '-')) &&
          startsWith isDigit digits then 2 + count isDigit digits
        else 0 := by
      simp only [exponent, he, if_true]
    rw [List.take_succ_cons]
    rw [hexponent] at h ⊢
    split at h
    next hdigit =>
      have hcount := @count_take isDigit (sign :: digits) n (by omega)
      have hpos : 0 < count isDigit (sign :: digits) := count_pos hdigit
      obtain ⟨n, rfl⟩ := Nat.exists_eq_add_of_le' (show 1 ≤ n by omega)
      rw [List.take_succ_cons] at hcount ⊢
      rw [hexponent, if_pos hdigit, if_pos hdigit, hcount]
    next hdigit =>
      rw [if_neg hdigit]
      split at h
      next hsign =>
        have hpos : 0 < count isDigit digits := by
          rw [Bool.and_eq_true] at hsign
          exact count_pos hsign.2
        obtain ⟨n, rfl⟩ := Nat.exists_eq_add_of_le' (show 2 ≤ n by omega)
        rw [if_pos hsign, List.take_succ_cons, hexponent, if_neg hdigit,
          startsWith_take n.succ_pos, if_pos hsign, count_take (by omega)]
      next hsign =>
        rw [if_neg hsign]
        rcases n with _ | n
        · simp [exponent]
        rw [List.take_succ_cons, hexponent, if_neg hdigit, if_neg]
        rw [Bool.and_eq_true] at hsign ⊢
        exact fun h => hsign ⟨h.1, startsWith_of_take h.2⟩
  · simp [exponent, he]

theorem startsWith_point (h : startsWith (· = byteOf '.') text = true) :
    exponent text = 0 ∧ count isLetterByte text = 0 := by
  rcases text with _ | ⟨b, rest⟩
  · cases h
  obtain rfl : b = byteOf '.' := by simpa [startsWith] using h
  exact ⟨rfl, rfl⟩

/-- A number in decimal is as long when it is cut off at its end. -/
theorem decimalLength_take (text : Bytes) :
    decimalLength (text.take (decimalLength text)) = decimalLength text := by
  generalize hn : decimalLength text = n
  simp only [decimalLength] at hn ⊢
  have hwhole : count isDigit (text.take n) = count isDigit text := count_take (by omega)
  have hfraction : fraction ((text.drop (count isDigit text)).take (n - count isDigit text)) =
      fraction (text.drop (count isDigit text)) := by
    refine fraction_take (by omega) fun hpoint hzero => ?_
    obtain ⟨hexponent, hunit⟩ := startsWith_point hpoint
    rw [hzero, Nat.add_zero, hexponent, Nat.add_zero, hunit] at hn
    omega
  rw [hwhole, List.drop_take, hfraction, List.drop_take, exponent_take (by omega), List.drop_take,
    count_take (by omega), hn]

/-- The second byte of a hexadecimal number. -/
def isHexMark (c : UInt8) : Bool := c = byteOf 'x' || c = byteOf 'X'

theorem number_eq (b : UInt8) (rest : Bytes) : number b rest =
    if b = byteOf '0' && startsWith isHexMark rest then
      sound .number (1 + count (fun c => (hexValue? c).isSome) (rest.drop 1))
    else sound .number (decimalLength (b :: rest) - 1) := rfl

/-- A number is as long when it is cut off at its end. -/
theorem number_own (h : (number b (u ++ s)).more = u.length) :
    number b u = number b (u ++ s) := by
  rw [number_eq] at h
  rw [number_eq, number_eq]
  split at h
  next hhex =>
    have hu : u ≠ [] := by
      rintro rfl
      simp only [sound, List.length_nil] at h
      omega
    have hcount : count (fun c => (hexValue? c).isSome) ((u ++ s).drop 1) = u.length - 1 := by
      simp only [sound] at h
      omega
    have htake := count_take (Nat.le_of_eq hcount)
    rw [← List.drop_take, List.take_left] at htake
    rw [if_pos hhex, if_pos (by rwa [startsWith_append_of_ne_nil hu] at hhex), htake]
  next hhex =>
    have hhex' : ¬(decide (b = byteOf '0') && startsWith isHexMark u) = true := by
      rcases u with _ | ⟨x, u⟩
      · rw [startsWith, Bool.and_false]
        exact Bool.false_ne_true
      · exact hhex
    have htake := decimalLength_take (b :: (u ++ s))
    have hle := decimalLength_le [b]
    rw [if_neg hhex, if_neg hhex']
    rcases hlength : decimalLength (b :: (u ++ s)) with _ | n
    · obtain rfl : u = [] := List.length_eq_zero_iff.1 (by rw [← h, hlength]; rfl)
      exact congrArg (sound .number) (Nat.sub_eq_zero_of_le hle)
    · obtain rfl : n = u.length := by rw [← h, hlength]; rfl
      rw [hlength, List.take_succ_cons, List.take_left] at htake
      rw [htake]

/-! ### Words -/

theorem takeWhile_take {n : Nat} (h : (text.takeWhile test).length ≤ n) :
    (text.take n).takeWhile test = text.takeWhile test := by
  rw [← List.take_takeWhile, List.take_of_length_le h]

theorem negated_own (h : (negated (u ++ s)).more = u.length) :
    negated u = negated (u ++ s) := by
  have htake : (u ++ s).take u.length = u := List.take_left
  have hname : u.takeWhile isWordByte = (u ++ s).takeWhile isWordByte := by
    have hle : ((u ++ s).takeWhile isWordByte).length ≤ u.length := by
      rw [← h]
      simp only [negated]
      split <;> simp [sound]
    rw [← takeWhile_take hle, htake]
  have hle := count_le isWordByte u
  simp only [count] at hle
  simp only [negated, ← hname, List.drop_append_of_le_length hle] at h ⊢
  split at h
  next hin =>
    have hne : u.drop (u.takeWhile isWordByte).length ≠ [] := by
      intro hnil
      have := List.drop_eq_nil_iff.1 hnil
      simp only [sound] at h
      omega
    rw [startsWith_append_of_ne_nil hne]
  next hin =>
    have hnil : u.drop (u.takeWhile isWordByte).length = [] :=
      List.drop_eq_nil_of_le (Nat.le_of_eq h.symm)
    rw [if_neg hin, if_neg (by simp [hnil, startsWith])]

/-- A body that is opened has its parenthesis. -/
theorem lt_typedBody {after : Bytes} (h : opens after = true) (read : Nat) :
    read < (typedBody .plain 0 read (after.drop (count isLayoutByte after))).more := by
  rw [opens] at h
  rcases hafter : after.drop (count isLayoutByte after) with _ | ⟨c, rest⟩ <;> rw [hafter] at h
  · cases h
  · obtain rfl : c = byteOf '(' := by simpa [startsWith] using h
    exact le_typedBody (.plain) 1 (read + 1) rest

theorem ofWord_typed {name after : Bytes} (htyped : typedLiteralWords.contains name = true)
    (hopens : opens after = true) : ofWord name after =
      typedBody .plain 0 (name.length - 1 + count isLayoutByte after)
        (after.drop (count isLayoutByte after)) := by
  have hin : ∀ name ∈ typedLiteralWords, name ≠ bytes "in" := by decide
  simp only [ofWord_eq, dashed?_typed htyped, htyped, hopens, Bool.and_self, if_true,
    hin _ (List.contains_iff_mem.1 htyped), decide_false, Bool.false_and, Bool.false_eq_true,
    if_false]

/-- A typed literal that is closed at the end of a text is closed there. -/
theorem typed_own {name own : Bytes} (htyped : typedLiteralWords.contains name = true)
    (hopens : opens (own ++ s) = true)
    (h : (ofWord name (own ++ s)).more = name.length - 1 + own.length)
    (hsound : (ofWord name (own ++ s)).fault = none) :
    ofWord name own = ofWord name (own ++ s) := by
  rw [ofWord_typed htyped hopens] at h hsound ⊢
  have hlt := lt_typedBody hopens (name.length - 1 + count isLayoutByte (own ++ s))
  have hle : count isLayoutByte (own ++ s) < own.length := by omega
  have hcount : count isLayoutByte own = count isLayoutByte (own ++ s) := by
    have htake := count_take (Nat.le_of_lt hle)
    rwa [List.take_left] at htake
  have hdrop : (own ++ s).drop (count isLayoutByte own) = own.drop (count isLayoutByte own) ++ s :=
    List.drop_append_of_le_length (count_le _ _)
  have hopens' : opens own = true := by
    rw [opens, ← hcount, hdrop, startsWith_append_of_ne_nil] at hopens
    · exact hopens
    · intro hnil
      have := List.drop_eq_nil_iff.1 hnil
      omega
  rw [← hcount, hdrop] at h hsound ⊢
  have hsettled := typedBody_settled (by rw [h, List.length_drop]; omega) (.inl hsound) []
  rw [List.append_nil] at hsettled
  rw [ofWord_typed htyped hopens', hsettled]

/-- The words with a dash, and the one with a tilde, are read to their ends. -/
theorem word_special : ∀ long ∈ bytes "in~" :: dashedWords,
    word (long.headD 0) long.tail = sound .word (long.length - 1) := by decide

/-- A word with a dash or a tilde that ends with a text is read from it. -/
theorem special_own {long : Bytes} (hmem : long ∈ bytes "in~" :: dashedWords)
    (hbegins : long <+: b :: (u ++ s)) (hlength : long.length - 1 = u.length) :
    word b u = sound .word (long.length - 1) := by
  have hword := word_special long hmem
  rcases long with _ | ⟨c, tail⟩
  · exact absurd hmem (by decide)
  · obtain ⟨rfl, htail⟩ := List.cons_prefix_cons.1 hbegins
    obtain rfl : tail = u := by
      rw [List.prefix_iff_eq_take.1 htail, show tail.length = u.length from hlength, List.take_left]
    exact hword

theorem word_own (h : (word b (u ++ s)).more = u.length)
    (hsound : (word b (u ++ s)).fault = none) : word b u = word b (u ++ s) := by
  generalize hname : (u ++ s).takeWhile isWordByte = name
  generalize hafter : (u ++ s).drop name.length = after
  have hsplit : u ++ s = name ++ after := by
    rw [← hafter, List.prefix_iff_eq_append.1 (hname ▸ List.takeWhile_prefix _)]
  have hword : word b (u ++ s) = ofWord (b :: name) after := by rw [word, hname, hafter]
  -- the name of the word belongs to the text of the lexeme, which goes on behind it
  have hown (hle : name.length ≤ u.length) :
      word b u = ofWord (b :: name) (u.drop name.length) ∧ after = u.drop name.length ++ s := by
    have hname' : u.takeWhile isWordByte = name := by
      have htake := takeWhile_take (hname ▸ hle)
      rwa [List.take_left, hname] at htake
    exact ⟨by rw [word, hname'], by rw [← hafter, List.drop_append_of_le_length hle]⟩
  rw [hword] at h hsound ⊢
  by_cases hbody : typedLiteralWords.contains (b :: name) = true ∧ opens after = true
  · obtain ⟨htyped, hopens⟩ := hbody
    have hlt := lt_typedBody hopens (name.length + count isLayoutByte after)
    have hle : name.length ≤ u.length := by
      rw [ofWord_typed htyped hopens] at h
      simp only [List.length_cons, Nat.add_sub_cancel] at h
      omega
    obtain ⟨hshort, rfl⟩ := hown hle
    rw [hshort]
    refine typed_own htyped hopens ?_ hsound
    rw [h, List.length_drop, List.length_cons]
    omega
  rw [ofWord_eq] at h ⊢
  split at h
  next long hlong =>
    obtain ⟨hmem, hprefix⟩ := dashed?_some hlong
    rw [List.cons_append, ← hsplit] at hprefix
    exact special_own (List.mem_cons_of_mem _ hmem) hprefix h
  next hdashed =>
    split at h
    next hin =>
      simp only [Bool.and_eq_true, decide_eq_true_eq] at hin
      obtain ⟨hin, htilde⟩ := hin
      rcases after with _ | ⟨c, after⟩
      · cases htilde
      obtain rfl : c = byteOf '~' := by simpa [startsWith] using htilde
      have hprefix : bytes "in~" <+: b :: (u ++ s) :=
        ⟨after, by rw [hsplit, ← List.cons_append, hin]; rfl⟩
      rw [hin] at h
      have hown := special_own List.mem_cons_self hprefix h
      rw [if_pos (by simp [hin, startsWith]), hin, hown]
      rfl
    next hin =>
      rw [← Bool.and_eq_true] at hbody
      rw [if_neg hbody] at h
      have hlength : name.length = u.length := h
      obtain ⟨hown, -⟩ := hown (Nat.le_of_eq hlength)
      rw [if_neg hin, if_neg hbody, hown, List.drop_eq_nil_of_le (Nat.le_of_eq hlength.symm)]
      simp [ofWord_eq, dashed?, startsWith, opens]

/-! ### All lexemes -/

/-- A sound string was closed where it ends. -/
theorem closed_at {p : Nat × Bool} (h : (ofString p).more = stop)
    (hsound : (ofString p).fault = none) : p = (stop, true) := by
  rw [more_ofString] at h
  exact Prod.ext h (closed_of_ofString hsound)

theorem negated_pos (h : startsWith isLetterByte text = true) : 0 < (negated text).more := by
  rcases text with _ | ⟨c, text⟩
  · cases h
  have hword : isWordByte c = true := by
    simp only [startsWith] at h
    simp [isWordByte, h]
  simp only [negated, List.takeWhile_cons_of_pos hword]
  split <;> exact Nat.succ_pos _

theorem number_pos (h : startsWith isDigit text = true) : 0 < (number (byteOf '.') text).more := by
  rcases text with _ | ⟨c, text⟩
  · cases h
  have hpoint : startsWith (· = byteOf '.') (c :: text) = false := by
    simp only [startsWith, decide_eq_false_iff_not] at h ⊢
    rintro rfl
    cases h
  have hfraction : fraction (byteOf '.' :: c :: text) = 1 + count isDigit (c :: text) := by
    simp [fraction, hpoint]
  have hpos := count_pos h
  have hwhole : count isDigit (byteOf '.' :: c :: text) = 0 := rfl
  rw [number_eq, if_neg (by simp [show byteOf '.' ≠ byteOf '0' by decide])]
  simp only [sound, decimalLength, hwhole, List.drop_zero, hfraction]
  omega

theorem lt_string? {lexeme : Lexeme} (h : string? read text = some lexeme) :
    read < lexeme.more := by
  rcases text with _ | ⟨c, text⟩
  · cases h
  simp only [string?] at h
  split at h
  · cases h
    rw [more_ofString]
    exact le_quoted c (read + 1) text
  split at h
  · rcases text with _ | ⟨q, text⟩
    · cases h
    dsimp only at h
    split at h
    · cases h
      rw [more_ofString]
      exact Nat.lt_of_succ_lt (le_verbatim q (read + 2) text)
    · cases h
  · cases h

theorem string?_none (h : string? read (u ++ s) = none) : string? read u = none := by
  rcases u with _ | ⟨c, u⟩
  · rfl
  simp only [List.cons_append, string?] at h ⊢
  split at h
  · cases h
  next hquote =>
    rw [if_neg hquote]
    split
    · rw [if_pos ‹_›] at h
      rcases u with _ | ⟨q, u⟩
      · rfl
      · dsimp only [List.cons_append] at h ⊢
        split at h
        · cases h
        · rw [if_neg ‹_›]
    · rfl

theorem string?_own {lexeme : Lexeme} (h : string? read (u ++ s) = some lexeme)
    (hmore : lexeme.more = read + u.length) (hsound : lexeme.fault = none) :
    string? read u = some lexeme := by
  have hlt := lt_string? h
  rcases u with _ | ⟨c, u⟩
  · rw [hmore] at hlt
    exact absurd hlt (Nat.lt_irrefl read)
  simp only [List.cons_append, string?] at h ⊢
  split at h
  next hquote =>
    cases h
    have hclosed := closed_at hmore hsound
    have hown : quoted c (read + 1) (u ++ []) = quoted c (read + 1) (u ++ s) :=
      quoted_settled (by rw [hclosed, List.length_cons]; omega) (.inl (congrArg Prod.snd hclosed))
        []
    rw [List.append_nil] at hown
    rw [if_pos hquote, hown]
  next hquote =>
    split at h
    next hat =>
      rw [if_neg hquote, if_pos hat]
      rcases u with _ | ⟨q, u⟩
      · rcases s with _ | ⟨q, s⟩
        · cases h
        dsimp only [List.nil_append] at h
        split at h
        · cases h
          have hle := le_verbatim q (read + 2) s
          rw [more_ofString, List.length_singleton] at hmore
          omega
        · cases h
      · dsimp only [List.cons_append] at h ⊢
        split at h
        next hquote =>
          cases h
          have hclosed := closed_at hmore hsound
          rw [if_pos hquote, verbatim_own hclosed (by simp only [List.length_cons]; omega), hclosed]
        · cases h
    · cases h

/-- A sound lexeme is read from its own text as it is read from a text that goes on. -/
theorem head_own (h : (head b (u ++ s)).more = u.length)
    (hsound : (head b (u ++ s)).fault = none) : head b u = head b (u ++ s) := by
  have hof := headOf b (u ++ s)
  generalize head b (u ++ s) = lexeme at h hsound hof
  refine head_eq ?_ hsound
  cases hof with
  | mark hkind => exact .mark hkind
  | pair hkind =>
    rcases u with _ | ⟨c, u⟩
    · cases h
    · exact .pair hkind
  | alone hkind hpair hpoint =>
    obtain rfl : u = [] := List.length_eq_zero_iff.1 h.symm
    exact .alone hkind (pair?_nil b) fun _ => rfl
  | negated hb hletter =>
    rw [← negated_own h]
    refine .negated hb ?_
    rcases u with _ | ⟨c, u⟩
    · exact absurd h (negated_pos hletter).ne'
    · exact hletter
  | quoted hquote =>
    have hclosed := closed_at h hsound
    have hown :=
      quoted_settled (by rw [hclosed, Nat.zero_add]) (.inl (congrArg Prod.snd hclosed)) []
    rw [List.append_nil] at hown
    rw [← hown]
    exact .quoted hquote
  | fenced hb hfence =>
    have hclosed := closed_at h hsound
    have hlt := lt_fenced (congrArg Prod.snd hclosed)
    rw [hclosed] at hlt
    rw [List.drop_append_of_le_length (by omega)] at hclosed ⊢
    rw [hclosed, ← fenced_own hclosed (by rw [List.length_drop]; omega)]
    exact .fenced hb (by rwa [startsFence_append b (by omega)] at hfence)
  | @verbatim quote tail hb hquote hrest =>
    have hclosed := closed_at h hsound
    have hlt := lt_verbatim (congrArg Prod.snd hclosed)
    rw [hclosed] at hlt
    rcases u with _ | ⟨c, u⟩
    · cases hlt
    obtain ⟨rfl, rfl⟩ := List.cons.inj hrest
    rw [hclosed, ← verbatim_own hclosed (Nat.add_comm ..)]
    exact .verbatim hb hquote rfl
  | marked hb hstring => exact .marked hb (string?_own hstring (by rw [h, Nat.zero_add]) hsound)
  | word hb hstring =>
    rw [← word_own h hsound]
    exact .word hb fun hmarked => string?_none (hstring hmarked)
  | number hdigit =>
    rw [← number_own h]
    refine .number (hdigit.imp_right fun ⟨hpoint, hstart⟩ => ⟨hpoint, ?_⟩)
    rcases u with _ | ⟨c, u⟩
    · subst hpoint
      exact absurd h (number_pos hstart).ne'
    · exact hstart
  | unexpected hb => cases hsound

end KustoFacts.Lexeme
