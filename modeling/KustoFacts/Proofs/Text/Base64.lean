import KustoFacts.Proofs.Text.Blank
import KustoFacts.Text.Base64

/-!
    Base64. `Written` has the readable texts in base64, group by group, with what they stand for;
    reading succeeds on exactly these, with line breaks anywhere. What is written for a text is one
    of them, and the others for the same text differ from it only in bits that no byte takes. -/

namespace KustoFacts.Base64

variable {b : UInt8} {i v : Nat} {group : List Nat} {text digits out result payload : Bytes}

/-! ### Digits -/

theorem value?_digit (h : v < 64) : value? (digit v) = some v := by
  have hall : ∀ v < 64, value? (digit v) = some v := by decide +kernel
  exact hall v h

/-- A byte that is neither white space nor a line break nor a comma. -/
def Plain (b : UInt8) : Prop := InkByte b ∧ isBreak b = false ∧ b ≠ byteOf ','

instance (b : UInt8) : Decidable (Plain b) := by unfold Plain; infer_instance

theorem value?_spec (h : value? b = some v) : v < 64 ∧ digit v = b ∧ Plain b := by
  have hall : ∀ n < 256, ∀ v ∈ value? (UInt8.ofNat n),
      v < 64 ∧ digit v = UInt8.ofNat n ∧ Plain (UInt8.ofNat n) := by decide +kernel
  have hb := hall b.toNat b.toNat_lt
  rw [UInt8.ofNat_toNat] at hb
  exact hb v h

theorem value?_lt (h : value? b = some v) : v < 64 := (value?_spec h).1

theorem digit_of_value? (h : value? b = some v) : digit v = b := (value?_spec h).2.1

theorem value?_pad : value? pad = none := by decide

/-! ### Readable texts -/

/-- A text and digits that stand for it, by fours, with the padding but without line breaks. -/
inductive Written : Bytes → Bytes → Prop
  | nil : Written [] []
  | one {a b : UInt8} {w x : Nat} (ha : value? a = some w) (hb : value? b = some x) :
      Written [(w * 4 + x / 0x10).toUInt8] [a, b, pad, pad]
  | two {a b c : UInt8} {w x y n : Nat} (ha : value? a = some w) (hb : value? b = some x)
      (hc : value? c = some y) (hn : n = w * 0x400 + x * 0x10 + y / 4) :
      Written [(n / 0x100).toUInt8, n.toUInt8] [a, b, c, pad]
  | group {a b c d : UInt8} {w x y z n : Nat} {text digits : Bytes} (ha : value? a = some w)
      (hb : value? b = some x) (hc : value? c = some y) (hd : value? d = some z)
      (hn : n = w * 0x40000 + x * 0x1000 + y * 0x40 + z) (h : Written text digits) :
      Written ((n / 0x10000).toUInt8 :: (n / 0x100).toUInt8 :: n.toUInt8 :: text)
        (a :: b :: c :: d :: digits)

/-- Digits and padding without the line breaks between them. -/
def withoutBreaks (payload : Bytes) : Bytes := payload.filter (!isBreak ·)

theorem withoutBreaks_break (h : isBreak b = true) (rest : Bytes) :
    withoutBreaks (b :: rest) = withoutBreaks rest := List.filter_cons_of_neg (by simp [h])

theorem withoutBreaks_solid (h : isBreak b = false) (rest : Bytes) :
    withoutBreaks (b :: rest) = b :: withoutBreaks rest := List.filter_cons_of_pos (by simp [h])

theorem finish_eq_ok : finish i out payload = .ok result ↔
    withoutBreaks payload = [] ∧ result = out.reverse := by
  induction payload generalizing i with
  | nil => simp [finish, withoutBreaks, eq_comm]
  | cons b rest ih =>
    rw [finish]
    by_cases hb : isBreak b = true
    · rw [if_pos hb, ih, withoutBreaks_break hb]
    · simp [hb, withoutBreaks]

theorem secondPad_eq_ok : secondPad i out payload = .ok result ↔
    withoutBreaks payload = [pad] ∧ result = out.reverse := by
  induction payload generalizing i with
  | nil => simp [secondPad, withoutBreaks]
  | cons b rest ih =>
    rw [secondPad]
    by_cases hb : isBreak b = true
    · rw [if_pos hb, ih, withoutBreaks_break hb]
    · rw [if_neg hb, withoutBreaks_solid (Bool.eq_false_iff.2 hb)]
      split
      next hpad => rw [finish_eq_ok, hpad]; simp
      next hpad => simp [hpad]

theorem Written.length (h : Written text digits) : digits.length % 4 = 0 := by
  induction h with
  | nil => rfl
  | one | two => simp
  | group _ _ _ _ _ _ ih => simp only [List.length_cons]; omega

/-- A group of four digits stands for three bytes. -/
theorem written_group {a b c d : UInt8} {w x y z n : Nat} (ha : value? a = some w)
    (hb : value? b = some x) (hc : value? c = some y) (hd : value? d = some z)
    (hn : n = w * 0x40000 + x * 0x1000 + y * 0x40 + z) :
    Written text (a :: b :: c :: d :: digits) ↔
      ∃ more, Written more digits ∧
        text = (n / 0x10000).toUInt8 :: (n / 0x100).toUInt8 :: n.toUInt8 :: more := by
  refine ⟨fun h => ?_, fun ⟨more, h, htext⟩ => htext ▸ .group ha hb hc hd hn h⟩
  cases h with
  | one => cases hd
  | two => cases hd
  | group ha' hb' hc' hd' hn' h =>
    cases ha.symm.trans ha'
    cases hb.symm.trans hb'
    cases hc.symm.trans hc'
    cases hd.symm.trans hd'
    exact ⟨_, h, by rw [hn, hn']⟩

/-- After two digits padding must come twice, and nothing more. -/
theorem written_one {a b c : UInt8} {w x : Nat} (ha : value? a = some w) (hb : value? b = some x)
    (hc : value? c = none) : Written text (a :: b :: c :: digits) ↔
      c = pad ∧ digits = [pad] ∧ text = [(w * 4 + x / 0x10).toUInt8] := by
  refine ⟨fun h => ?_, fun ⟨hpad, hdigits, htext⟩ => ?_⟩
  · cases h with
    | one ha' hb' =>
      cases ha.symm.trans ha'
      cases hb.symm.trans hb'
      exact ⟨rfl, rfl, rfl⟩
    | two _ _ hc' => cases hc.symm.trans hc'
    | group _ _ hc' => cases hc.symm.trans hc'
  · rw [hpad, hdigits, htext]
    exact .one ha hb

/-- After three digits padding must come once, and nothing more. -/
theorem written_two {a b c d : UInt8} {w x y n : Nat} (ha : value? a = some w)
    (hb : value? b = some x) (hc : value? c = some y) (hd : value? d = none)
    (hn : n = w * 0x400 + x * 0x10 + y / 4) : Written text (a :: b :: c :: d :: digits) ↔
      d = pad ∧ digits = [] ∧ text = [(n / 0x100).toUInt8, n.toUInt8] := by
  refine ⟨fun h => ?_, fun ⟨hpad, hdigits, htext⟩ => ?_⟩
  · cases h with
    | one => cases hc
    | two ha' hb' hc' hn' =>
      cases ha.symm.trans ha'
      cases hb.symm.trans hb'
      cases hc.symm.trans hc'
      exact ⟨rfl, rfl, by rw [hn, hn']⟩
    | group _ _ _ hd' => cases hd.symm.trans hd'
  · rw [hpad, hdigits, htext]
    exact .two ha hb hc hn

/-- A group begins with two digits. -/
theorem not_written_first {a : UInt8} (ha : value? a = none) : ¬Written text (a :: digits) := by
  rintro (_ | ⟨ha', _⟩ | ⟨ha', _⟩ | ⟨ha', _⟩) <;> cases ha.symm.trans ha'

theorem not_written_second {a b : UInt8} (hb : value? b = none) :
    ¬Written text (a :: b :: digits) := by
  rintro (_ | ⟨_, hb'⟩ | ⟨_, hb'⟩ | ⟨_, hb'⟩) <;> cases hb.symm.trans hb'

/-- A payload may end between groups only. -/
theorem decodeFrom_nil_eq_ok (hlength : group.length < 4) :
    decodeFrom i group out [] = .ok result ↔
      ∃ text, Written text (group.map digit) ∧ result = out.reverse ++ text := by
  rw [decodeFrom]
  rcases group with _ | ⟨v, group⟩
  · refine ⟨fun h => ⟨[], .nil, ?_⟩, fun ⟨text, h, hresult⟩ => ?_⟩
    · cases h
      exact (List.append_nil _).symm
    · cases h
      rw [hresult, List.append_nil]
      rfl
  · refine ⟨nofun, fun ⟨text, h, _⟩ => ?_⟩
    have hfour := h.length
    simp only [List.length_map, List.length_cons] at hfour hlength
    omega

/-- Reading from the middle of a group on: what is read is what the digits of the group stand for,
    together with those that follow. -/
theorem decodeFrom_eq_ok (hvalues : ∀ v ∈ group, v < 64) (hlength : group.length < 4) :
    decodeFrom i group out payload = .ok result ↔
      ∃ text, Written text (group.map digit ++ withoutBreaks payload) ∧
        result = out.reverse ++ text := by
  induction payload generalizing i group out with
  | nil => rw [decodeFrom_nil_eq_ok hlength, withoutBreaks, List.filter_nil, List.append_nil]
  | cons b rest ih =>
    rw [decodeFrom.eq_def]
    dsimp only
    by_cases hbreak : isBreak b = true
    · rw [if_pos hbreak, ih hvalues hlength, withoutBreaks_break hbreak]
    rw [if_neg hbreak, withoutBreaks_solid (Bool.eq_false_iff.2 hbreak)]
    have more {i z : Nat} (hb : value? b = some z) (hthree : group.length + 1 < 4) :
        decodeFrom i (group ++ [z]) out rest = .ok result ↔
          ∃ text, Written text (group.map digit ++ b :: withoutBreaks rest) ∧
            result = out.reverse ++ text := by
      rw [ih (by simpa [or_imp, forall_and] using ⟨hvalues, value?_lt hb⟩)
        (by rwa [List.length_append])]
      simp [digit_of_value? hb]
    -- one case for each place in a group, where a digit or something else may stand
    rcases group with _ | ⟨w, _ | ⟨x, _ | ⟨y, _ | ⟨u, group⟩⟩⟩⟩
    · cases hb : value? b with
      | some z => exact more hb (by simp)
      | none => simp [not_written_first hb]
    · cases hb : value? b with
      | some z => exact more hb (by simp)
      | none => simp [not_written_second hb]
    · have hw : value? (digit w) = some w := value?_digit (hvalues w (by simp))
      have hx : value? (digit x) = some x := value?_digit (hvalues x (by simp))
      cases hb : value? b with
      | some z => exact more hb (by simp)
      | none =>
        simp only [List.map_cons, List.map_nil, List.cons_append, List.nil_append,
          written_one hw hx hb]
        split
        next hpad => simp [secondPad_eq_ok, hpad]
        next hpad => simp [hpad]
    · have hw : value? (digit w) = some w := value?_digit (hvalues w (by simp))
      have hx : value? (digit x) = some x := value?_digit (hvalues x (by simp))
      have hy : value? (digit y) = some y := value?_digit (hvalues y (by simp))
      cases hb : value? b with
      | some z =>
        simp only [List.map_cons, List.map_nil, List.cons_append, List.nil_append,
          written_group hw hx hy hb rfl]
        rw [ih (List.forall_mem_nil _) (by decide)]
        simp
      | none =>
        simp only [List.map_cons, List.map_nil, List.cons_append, List.nil_append,
          written_two hw hx hy hb rfl]
        split
        next hpad => simp [finish_eq_ok, hpad]
        next hpad => simp [hpad]
    · simp only [List.length_cons] at hlength
      omega

/-- Reading succeeds on the texts that are written in base64, with line breaks anywhere, and gives
    what they stand for. -/
theorem decode_eq_ok : decode payload = .ok text ↔ Written text (withoutBreaks payload) := by
  rw [decode, decodeFrom_eq_ok (List.forall_mem_nil _) (by decide)]
  simp

/-! ### Writing -/

theorem toNat_toUInt8_mod (n : Nat) : n.toUInt8.toNat = n % 0x100 := by
  rw [Nat.toUInt8_eq, UInt8.toNat_ofNat']

theorem toUInt8_eq_of_mod {n : Nat} (h : n % 0x100 = b.toNat) : n.toUInt8 = b := by
  rw [← UInt8.toNat_inj, toNat_toUInt8_mod, h]

/-- What is written for a text stands for it. -/
theorem written_encode (text : Bytes) : Written text (encode text) := by
  fun_induction encode text with
  | case1 => exact .nil
  | case2 a n =>
    have ha := a.toNat_lt
    have hbyte : (n / 0x40 * 4 + n % 0x40 / 0x10).toUInt8 = a := Utf8.toUInt8_eq (by omega)
    rw [← hbyte]
    exact .one (value?_digit (by omega)) (value?_digit (by omega))
  | case3 a b n =>
    have ha := a.toNat_lt
    have hb := b.toNat_lt
    have hdigits (m : Nat) :
        m = m * 4 / 0x1000 * 0x400 + m * 4 / 0x40 % 0x40 * 0x10 + m * 4 % 0x40 / 4 := by omega
    have h : Written _ [digit (n / 0x1000), digit (n / 0x40 % 0x40), digit (n % 0x40), pad] :=
      .two (value?_digit (by omega)) (value?_digit (by omega)) (value?_digit (by omega)) (hdigits _)
    rwa [Utf8.toUInt8_eq (b := a) (by omega), toUInt8_eq_of_mod (b := b) (by omega)] at h
  | case4 a b c rest n ih =>
    have ha := a.toNat_lt
    have hb := b.toNat_lt
    have hc := c.toNat_lt
    have hfirst : (n / 0x10000).toUInt8 = a := Utf8.toUInt8_eq (by omega)
    have hsecond : (n / 0x100).toUInt8 = b := toUInt8_eq_of_mod (by omega)
    have hthird : n.toUInt8 = c := toUInt8_eq_of_mod (by omega)
    rw [← hfirst, ← hsecond, ← hthird]
    exact .group (value?_digit (by omega)) (value?_digit (by omega)) (value?_digit (by omega))
      (value?_digit (by omega)) (by omega) ih

/-- Digits that differ from others in nothing but the unused bits of the last digit before the
    padding: four bits before two bytes of padding and two bits before one. -/
inductive Alike : Bytes → Bytes → Prop
  | same (digits : Bytes) : Alike digits digits
  | onePad {a b : UInt8} {v w : Nat} (ha : value? a = some v) (hb : value? b = some w)
      (h : v / 4 = w / 4) : Alike [a, pad] [b, pad]
  | twoPads {a b : UInt8} {v w : Nat} (ha : value? a = some v) (hb : value? b = some w)
      (h : v / 0x10 = w / 0x10) : Alike [a, pad, pad] [b, pad, pad]
  | cons (b : UInt8) {digits digits' : Bytes} (h : Alike digits digits') :
      Alike (b :: digits) (b :: digits')

/-- Digits that stand for a text are alike what is written for it. -/
theorem alike_of_written (h : Written text digits) : Alike (encode text) digits := by
  induction h with
  | nil => exact .same []
  | @one a b w x ha hb =>
    have hlt : w < 64 ∧ x < 64 := ⟨value?_lt ha, value?_lt hb⟩
    have hbyte : (w * 4 + x / 0x10).toUInt8.toNat = w * 4 + x / 0x10 :=
      Utf8.toNat_toUInt8 (by omega)
    obtain ⟨m, hm⟩ : ∃ m, m = (w * 4 + x / 0x10) * 0x10 := ⟨_, rfl⟩
    have hhigh : m / 0x40 = w := by omega
    have hencode : encode [(w * 4 + x / 0x10).toUInt8] =
        [a, digit (m % 0x40), pad, pad] := by
      rw [encode, hbyte, ← hm, hhigh, digit_of_value? ha]
    rw [hencode]
    exact .cons a (.twoPads (value?_digit (by omega)) hb (by omega))
  | @two a b c w x y n ha hb hc hn =>
    have hlt : w < 64 ∧ x < 64 ∧ y < 64 := ⟨value?_lt ha, value?_lt hb, value?_lt hc⟩
    have hfirst : (n / 0x100).toUInt8.toNat = n / 0x100 := Utf8.toNat_toUInt8 (by omega)
    obtain ⟨m, hm⟩ : ∃ m, m = (n / 0x100 * 0x100 + n % 0x100) * 4 := ⟨_, rfl⟩
    have hhigh : m / 0x1000 = w := by omega
    have hmiddle : m / 0x40 % 0x40 = x := by omega
    have hencode : encode [(n / 0x100).toUInt8, n.toUInt8] =
        [a, b, digit (m % 0x40), pad] := by
      rw [encode, hfirst, toNat_toUInt8_mod, ← hm, hhigh, hmiddle, digit_of_value? ha,
        digit_of_value? hb]
    rw [hencode]
    exact .cons a (.cons b (.onePad (value?_digit (by omega)) hc (by omega)))
  | @group a b c d w x y z n text digits ha hb hc hd hn h ih =>
    have hlt : w < 64 ∧ x < 64 ∧ y < 64 ∧ z < 64 :=
      ⟨value?_lt ha, value?_lt hb, value?_lt hc, value?_lt hd⟩
    have hfirst : (n / 0x10000).toUInt8.toNat = n / 0x10000 := Utf8.toNat_toUInt8 (by omega)
    have hwhole : n / 0x10000 * 0x10000 + n / 0x100 % 0x100 * 0x100 + n % 0x100 = n := by omega
    have hdigits :
        n / 0x40000 = w ∧ n / 0x1000 % 0x40 = x ∧ n / 0x40 % 0x40 = y ∧ n % 0x40 = z := by omega
    have hencode : encode ((n / 0x10000).toUInt8 :: (n / 0x100).toUInt8 :: n.toUInt8 :: text) =
        a :: b :: c :: d :: encode text := by
      rw [encode, hfirst, toNat_toUInt8_mod, toNat_toUInt8_mod, hwhole, hdigits.1, hdigits.2.1,
        hdigits.2.2.1, hdigits.2.2.2, digit_of_value? ha, digit_of_value? hb, digit_of_value? hc,
        digit_of_value? hd]
    rw [hencode]
    exact .cons a (.cons b (.cons c (.cons d ih)))

theorem value?_ne_pad (h : value? b = some v) : b ≠ pad := fun hpad => by
  rw [hpad, value?_pad] at h
  cases h

theorem Written.head?_ne (h : Written text digits) : digits.head? ≠ some pad := by
  rcases digits with _ | ⟨b, digits⟩
  · nofun
  · rintro ⟨⟩
    exact not_written_first value?_pad h

/-- Digits that are not followed by padding are the same in both. -/
theorem Alike.tail {digits' : Bytes} (h : Alike (b :: digits) digits')
    (hpad : digits.head? ≠ some pad) : ∃ more, digits' = b :: more ∧ Alike digits more := by
  cases h with
  | same => exact ⟨digits, rfl, .same digits⟩
  | onePad => exact absurd rfl hpad
  | twoPads => exact absurd rfl hpad
  | cons b h => exact ⟨_, rfl, h⟩

/-- Padding is the same in both. -/
theorem Alike.onlyPad {digits' : Bytes} (h : Alike digits digits')
    (hdigits : ∀ b ∈ digits, b = pad) : digits' = digits := by
  induction h with
  | same => rfl
  | onePad ha => exact absurd (hdigits _ List.mem_cons_self) (value?_ne_pad ha)
  | twoPads ha => exact absurd (hdigits _ List.mem_cons_self) (value?_ne_pad ha)
  | cons b h ih => rw [ih (List.forall_mem_cons.1 hdigits).2]

/-- Alike digits stand for the same text. -/
theorem Written.alike {digits' : Bytes} (h : Written text digits) (halike : Alike digits digits') :
    Written text digits' := by
  induction h generalizing digits' with
  | nil =>
    cases halike
    exact .nil
  | @one a b w x ha hb =>
    obtain ⟨_, rfl, hsecond⟩ := halike.tail (by simpa using value?_ne_pad hb)
    cases hsecond with
    | same => exact .one ha hb
    | twoPads hb' hc h =>
      cases hb.symm.trans hb'
      rw [h]
      exact .one ha hc
    | cons _ h =>
      rw [h.onlyPad (by simp)]
      exact .one ha hb
  | @two a b c w x y n ha hb hc hn =>
    obtain ⟨_, rfl, hsecond⟩ := halike.tail (by simpa using value?_ne_pad hb)
    obtain ⟨_, rfl, hthird⟩ := hsecond.tail (by simpa using value?_ne_pad hc)
    cases hthird with
    | same => exact .two ha hb hc hn
    | onePad hc' hd h =>
      cases hc.symm.trans hc'
      exact .two ha hb hd (h ▸ hn)
    | cons _ h =>
      rw [h.onlyPad (by simp)]
      exact .two ha hb hc hn
  | @group a b c d w x y z n text digits ha hb hc hd hn h ih =>
    obtain ⟨_, rfl, hsecond⟩ := halike.tail (by simpa using value?_ne_pad hb)
    obtain ⟨_, rfl, hthird⟩ := hsecond.tail (by simpa using value?_ne_pad hc)
    obtain ⟨_, rfl, hfourth⟩ := hthird.tail (by simpa using value?_ne_pad hd)
    obtain ⟨_, rfl, hrest⟩ := hfourth.tail h.head?_ne
    exact .group ha hb hc hd hn (ih hrest)

/-- What reading gives is the text for which something alike would be written. -/
theorem decode_eq_ok_iff_alike :
    decode payload = .ok text ↔ Alike (encode text) (withoutBreaks payload) := by
  rw [decode_eq_ok]
  exact ⟨alike_of_written, (written_encode text).alike⟩

example : decode (bytes "Y\nR==") = .ok [0x61] ∧ encode [0x61] = bytes "YQ==" := by decide +kernel

/-! ### The bytes of base64 -/

theorem Written.plain (h : Written text digits) : ∀ b ∈ digits, Plain b := by
  have hpad : Plain pad := by decide
  have hdigit {b : UInt8} {v : Nat} (hb : value? b = some v) : Plain b := (value?_spec hb).2.2
  induction h with
  | nil => exact List.forall_mem_nil _
  | one ha hb => simp [hpad, hdigit ha, hdigit hb]
  | two ha hb hc => simp [hpad, hdigit ha, hdigit hb, hdigit hc]
  | group ha hb hc hd _ _ ih => simpa [hdigit ha, hdigit hb, hdigit hc, hdigit hd] using ih

theorem plain_of_mem_encode (h : b ∈ encode text) : Plain b := (written_encode text).plain b h

/-- What is written for a text is read back. -/
theorem decode_encode (text : Bytes) : decode (encode text) = .ok text := by
  have hsolid : withoutBreaks (encode text) = encode text :=
    List.filter_eq_self.2 fun b hb => by simp [(plain_of_mem_encode hb).2.1]
  rw [decode_eq_ok, hsolid]
  exact written_encode text

end KustoFacts.Base64
