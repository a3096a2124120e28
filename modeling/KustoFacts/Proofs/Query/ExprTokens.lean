import KustoFacts.Proofs.Query.Expr
import Mathlib.Data.FinEnum
import Mathlib.Data.List.TakeWhile

/-!
    The tokens of a written expression. Each token is spelled where nothing follows it, and a space
    or an opening parenthesis after it does not go on with it, so that a text that is written token
    by token is read as these tokens. -/

namespace KustoFacts

/-! ### Spelling -/

namespace Lexeme

variable {kind : TokenKind} {text rest : Bytes}

instance (kind : TokenKind) (rest : Bytes) : ∀ text, Decidable (Spells kind rest text)
  | [] => inferInstanceAs (Decidable False)
  | _ :: _ => inferInstanceAs (Decidable (_ ∧ _))

/-- A space and an opening parenthesis go on with no token but the name of a typed literal. -/
theorem Spells.followed (h : Spells kind [] text) (htext : typedLiteralWords.contains text = false)
    (hrest : ∀ c ∈ rest.head?, c = spaceByte ∨ c = byteOf '(') : Spells kind rest text := by
  refine h.before (fun c hc => ?_) (fun c hc => ?_) fun _ htyped => ?_
  · rcases hrest c hc with rfl | rfl
    · exact stops_space
    · exact ⟨by decide, by decide, by decide⟩
  · rcases hrest c hc with rfl | rfl <;> decide
  · rw [htext] at htyped
    cases htyped

end Lexeme

/-! ### Texts of tokens -/

namespace Piece

/-- A token that is spelled by its text and names no typed literal. -/
def Spelled (x : Piece) : Prop :=
  Lexeme.Spells x.kind [] x.text ∧ typedLiteralWords.contains x.text = false

/-- Tokens that are spelled by their texts. Only a parenthesis touches the one before it. -/
def Sound : List Piece → Prop
  | [] => True
  | x :: xs => x.Spelled ∧ (x.touched = true → xs.head? = some Expr.opening) ∧ Sound xs

/-- The tokens of a text from a place on. -/
def place : Position → List Piece → List Token
  | _, [] => []
  | p, x :: xs => .ofText x.kind x.text p :: place ((p.advance x.text).advance x.gap) xs

/-- The place after some tokens and what is written after them. -/
def past (p : Position) : List Piece → Position
  | [] => p
  | x :: xs => past ((p.advance x.text).advance x.gap) xs

variable {xs ys : List Piece} {x : Piece} {p : Position}

theorem written_cons (x y : Piece) (xs : List Piece) :
    written (x :: y :: xs) = x.text ++ (x.gap ++ written (y :: xs)) := by
  rw [written]
  nofun

theorem Sound.append (h : Sound xs) (h' : Sound ys) : Sound (xs ++ ys) := by
  induction xs with
  | nil => exact h'
  | cons x xs ih =>
    obtain ⟨hx, htouched, hxs⟩ := h
    refine ⟨hx, fun ht => ?_, ih hxs⟩
    exact List.head?_append.trans (by rw [htouched ht]; rfl)

theorem place_append (p : Position) (xs ys : List Piece) :
    place p (xs ++ ys) = place p xs ++ place (past p xs) ys := by
  induction xs generalizing p with
  | nil => rfl
  | cons x xs ih => rw [List.cons_append, place, place, past, ih, List.cons_append]

@[simp] theorem length_place (p : Position) (xs : List Piece) :
    (place p xs).length = xs.length := by
  induction xs generalizing p with
  | nil => rfl
  | cons x xs ih => rw [place, List.length_cons, List.length_cons, ih]

theorem offset_advance (p : Position) (text : Bytes) :
    (p.advance text).offset = p.offset + text.length := by
  induction text generalizing p with
  | nil => rfl
  | cons b text ih =>
    rw [Position.advance_cons, ih, Position.offset_step, List.length_cons]
    omega

/-- What is written after tokens does not touch them. -/
theorem Sound.stop_lt (h : Sound xs) : ∀ t ∈ place p xs, t.stop < (past p xs).offset := by
  induction xs generalizing p with
  | nil => nofun
  | cons x xs ih =>
    obtain ⟨hx, htouched, hxs⟩ := h
    have hlater := ih (p := (p.advance x.text).advance x.gap) hxs
    refine List.forall_mem_cons.2 ⟨?_, hlater⟩
    rcases xs with _ | ⟨y, xs⟩
    · have hgap : x.gap = [spaceByte] := if_neg fun ht => by cases htouched ht
      simp [past, hgap, offset_advance, Token.ofText]
    · have hnext := hlater _ List.mem_cons_self
      simp only [Token.ofText, offset_advance] at hnext ⊢
      rw [past]
      omega

/-- A text of tokens is read as these tokens. -/
theorem Sound.readFrom (h : Sound xs) (p : Position) (tokens : List Token) :
    Tokens.readFrom 0 false p tokens [] (written xs) =
      .ok ⟨tokens.reverse ++ place p xs, .endAt (p.advance (written xs)), []⟩ := by
  induction xs generalizing p tokens with
  | nil => simp [written, Tokens.readFrom, place, Position.advance]
  | cons x xs ih =>
    obtain ⟨⟨hspells, htyped⟩, htouched, hxs⟩ := h
    rcases xs with _ | ⟨y, xs⟩
    · have hread := Tokens.readFrom_token hspells p tokens []
      rw [List.append_nil] at hread
      rw [written, hread]
      simp [Tokens.readFrom, place]
    · have hrest : ∀ c ∈ (x.gap ++ written (y :: xs)).head?, c = spaceByte ∨ c = byteOf '(' := by
        rcases htouch : x.touched with _ | _
        · rw [gap, if_neg (by simp [htouch])]
          rintro c ⟨⟩
          exact .inl rfl
        · obtain rfl : y = Expr.opening := by simpa using htouched htouch
          rw [gap, if_pos htouch]
          rcases xs with _ | ⟨z, xs⟩ <;> rintro c ⟨⟩ <;> exact .inr rfl
      rw [written_cons, Tokens.readFrom_token (hspells.followed htyped hrest)]
      have hgap (t : Bytes) (p : Position) (tokens : List Token) :
          Tokens.readFrom 0 false p tokens [] (x.gap ++ t) =
            Tokens.readFrom 0 false (p.advance x.gap) tokens [] t := by
        unfold gap
        split <;> rfl
      rw [hgap, ih hxs]
      simp [place, Position.advance_append]

theorem Sound.tokenize (h : Sound xs) :
    KustoFacts.tokenize (written xs) =
      .ok ⟨place .start xs, .endAt (Position.start.advance (written xs)), []⟩ := by
  rw [KustoFacts.tokenize, h.readFrom]
  rfl

end Piece

/-! ### What expressions are made of -/

namespace Lexeme

variable {b : UInt8} {tail : Bytes}

theorem pass?_of_bare (hb : beginsName b = true ∨ isDigit b = true) :
    Tokens.pass? 0 false b tail = none := by
  have hbyte : ∀ b : UInt8, beginsName b = true ∨ isDigit b = true →
      isLayoutByte b = false ∧ b ≠ byteOf '/' := by
    decide +kernel
  simp [Tokens.pass?, hbyte b hb]

end Lexeme

theorem PlainName.spelled (x : PlainName) : (Piece.apart .word x.text).Spelled := by
  have hplain := x.plain
  simp only [reservedWords, List.mem_append, not_or] at hplain
  -- no quote follows a letter that may begin a string
  have hstring : Lexeme.string? 0 x.more = none := by
    have hbyte : ∀ c : UInt8, isWordByte c = true → isQuote c = false ∧ c ≠ byteOf '@' := by
      decide +kernel
    have hword := x.word
    rcases hmore : x.more with _ | ⟨c, more⟩
    · rfl
    · rw [hmore, List.all_cons, Bool.and_eq_true] at hword
      simp [Lexeme.string?, hbyte c hword.1]
  have hall : x.more.takeWhile isWordByte = x.more :=
    List.takeWhile_eq_self_iff.2 (List.all_eq_true.1 x.word)
  have hword : Lexeme.word x.first x.more = Lexeme.sound .word x.more.length := by
    rw [Lexeme.word, hall, List.drop_length, Lexeme.ofWord_eq]
    simp [Lexeme.dashed?, Lexeme.startsWith, Lexeme.opens]
  refine ⟨⟨Lexeme.pass?_of_bare (.inl x.begins), ?_⟩,
    by simpa [Piece.apart, PlainName.text] using hplain.1.1⟩
  rw [List.append_nil, Lexeme.head_eq (.word x.begins fun _ => hstring) (by rw [hword]; rfl)]
  exact hword

namespace Lexeme

theorem startsWith_append {p : UInt8 → Bool} {a b : Bytes} (ha : startsWith p a = false)
    (hb : startsWith p b = false) : startsWith p (a ++ b) = false := by
  rcases a with _ | ⟨c, a⟩
  · exact hb
  · exact ha

theorem startsWith_of_all {p q : UInt8 → Bool} {text : Bytes} (h : text.all q = true)
    (hpq : ∀ c, q c = true → p c = false) : startsWith p text = false := by
  rcases text with _ | ⟨c, text⟩
  · rfl
  · simp only [List.all_cons, Bool.and_eq_true] at h
    exact hpq c h.1

/-- The names of typed literals begin with letters. -/
theorem not_typed {b : UInt8} {tail : Bytes} (hb : isLetterByte b = false) :
    typedLiteralWords.contains (b :: tail) = false := by
  have hwords : ∀ w ∈ typedLiteralWords, startsWith isLetterByte w = true := by decide
  rw [← Bool.not_eq_true, List.contains_iff_mem]
  intro hmem
  have hletter := hwords _ hmem
  rw [startsWith, hb] at hletter
  cases hletter

/-- Digits before what is no digit. -/
theorem count_digits {ds rest : Bytes} (hds : ds.all isDigit = true)
    (hrest : startsWith isDigit rest = false) : count isDigit (ds ++ rest) = ds.length := by
  have htake : rest.takeWhile isDigit = [] := by
    rcases rest with _ | ⟨c, rest⟩
    · rfl
    · exact List.takeWhile_cons_of_neg (by simpa [startsWith] using hrest)
  rw [count, List.takeWhile_append_of_pos (List.all_eq_true.1 hds), htake, List.append_nil]

end Lexeme

namespace DecimalNumber

open Lexeme (startsWith count count_digits startsWith_append startsWith_of_all)

variable (x : DecimalNumber)

/-- An exponent begins with its letter. -/
theorem startsWith_exponent {p : UInt8 → Bool} (h : p (byteOf 'e') = false)
    (h' : p (byteOf 'E') = false) : startsWith p x.exponent = false := by
  rcases x.power with hnil | ⟨e, sign, d, ds, htext, he, -⟩
  · rw [hnil]
    rfl
  · rw [htext]
    simp only [List.mem_cons, List.not_mem_nil, or_false] at he
    rcases he with rfl | rfl
    · exact h
    · exact h'

theorem exponent_exponent : Lexeme.exponent x.exponent = x.exponent.length := by
  rcases x.power with hnil | ⟨e, sign, d, ds, htext, he, hsign, hdigits⟩
  · rw [hnil]
    rfl
  have hcount : count isDigit (d :: ds) = ds.length + 1 := by
    simpa using @count_digits (d :: ds) [] hdigits rfl
  have hd : isDigit d = true := by simpa using List.all_eq_true.1 hdigits d List.mem_cons_self
  have hletter : (decide (e = byteOf 'e') || decide (e = byteOf 'E')) = true := by simpa using he
  simp only [List.mem_cons, List.not_mem_nil, or_false] at hsign
  rw [htext]
  rcases hsign with rfl | rfl | rfl
  · simp only [List.nil_append, Lexeme.exponent, hletter, hd, if_true, hcount, List.length_cons]
    omega
  all_goals
    simp [Lexeme.exponent, hletter, hcount, startsWith, hd,
      show isDigit (byteOf '+') = false from rfl, show isDigit (byteOf '-') = false from rfl]
    omega

/-- A fraction begins with its point. -/
theorem startsWith_fraction {p : UInt8 → Bool} (h : p (byteOf '.') = false)
    (he : p (byteOf 'e') = false) (hE : p (byteOf 'E') = false) :
    startsWith p (x.fraction ++ x.exponent) = false := by
  refine startsWith_append ?_ (x.startsWith_exponent he hE)
  rcases x.point with hnil | ⟨ds, htext, -⟩
  · rw [hnil]
    rfl
  · rw [htext]
    exact h

theorem fraction_fraction : Lexeme.fraction (x.fraction ++ x.exponent) = x.fraction.length := by
  rcases x.point with hnil | ⟨ds, htext, hdigits⟩
  · rw [hnil, List.nil_append, List.length_nil]
    rcases x.power with hnil | ⟨e, sign, d, ds, htext, he, -⟩
    · rw [hnil]
      rfl
    · have hpoint : e ≠ byteOf '.' := by
        rintro rfl
        exact absurd he (by decide)
      simp [htext, Lexeme.fraction, hpoint]
  · have hpoint : startsWith (· = byteOf '.') (ds ++ x.exponent) = false := by
      refine startsWith_append (startsWith_of_all hdigits fun c hc => ?_)
        (x.startsWith_exponent rfl rfl)
      simp only [decide_eq_false_iff_not]
      rintro rfl
      cases hc
    have hcount := count_digits hdigits (x.startsWith_exponent (p := isDigit) rfl rfl)
    simp [htext, Lexeme.fraction, hpoint, hcount, Nat.add_comm]

theorem decimalLength_text : Lexeme.decimalLength x.text = x.text.length := by
  have hwhole : count isDigit x.text = x.whole.length :=
    count_digits x.digits (x.startsWith_fraction rfl rfl rfl)
  have hfraction : x.text.drop x.whole.length = x.fraction ++ x.exponent := List.drop_left
  have hexponent : x.text.drop (x.whole.length + x.fraction.length) = x.exponent := by
    rw [text, ← List.append_assoc, ← List.length_append, List.drop_left]
  have hend : x.text.drop (x.whole.length + x.fraction.length + x.exponent.length) = [] := by
    rw [List.drop_eq_nil_iff, text]
    simp only [List.length_append]
    omega
  simp only [Lexeme.decimalLength, hwhole, hfraction, x.fraction_fraction, hexponent,
    x.exponent_exponent, hend]
  simp [count, text, Nat.add_assoc]

/-- The bytes that a number can be made of. -/
def isNumberByte (b : UInt8) : Bool :=
  isDigit b || [byteOf '.', byteOf 'e', byteOf 'E', byteOf '+', byteOf '-'].contains b

theorem all_text : x.text.all isNumberByte = true := by
  have hdigits {ds : Bytes} (h : ds.all isDigit = true) : ds.all isNumberByte = true :=
    List.all_eq_true.2 fun c hc => by simp [isNumberByte, List.all_eq_true.1 h c hc]
  have hfraction : x.fraction.all isNumberByte = true := by
    rcases x.point with hnil | ⟨ds, htext, hds⟩
    · rw [hnil]
      rfl
    · rw [htext, List.all_cons, hdigits hds]
      rfl
  have hexponent : x.exponent.all isNumberByte = true := by
    rcases x.power with hnil | ⟨e, sign, d, ds, htext, he, hsign, hds⟩
    · rw [hnil]
      rfl
    · have hletter : isNumberByte e = true := by
        simp only [List.mem_cons, List.not_mem_nil, or_false] at he
        rcases he with rfl | rfl <;> rfl
      have hmark : sign.all isNumberByte = true := by
        simp only [List.mem_cons, List.not_mem_nil, or_false] at hsign
        rcases hsign with rfl | rfl | rfl <;> rfl
      rw [htext, List.all_cons, List.all_append, hletter, hmark, hdigits hds]
      rfl
  rw [text, List.all_append, List.all_append, hdigits x.digits, hfraction, hexponent]
  rfl

/-- A number begins with a digit, or with a point and a digit. -/
theorem text_cases : (∃ d tail, x.text = d :: tail ∧ isDigit d = true) ∨
    ∃ d tail, x.text = byteOf '.' :: d :: tail ∧ isDigit d = true := by
  rcases hwhole : x.whole with _ | ⟨d, ds⟩
  · rcases x.point with hnil | ⟨ds, htext, hds⟩
    · simpa [hwhole, hnil] using x.digit
    · rcases ds with _ | ⟨d, ds⟩
      · simpa [hwhole, htext] using x.digit
      · refine .inr ⟨d, ds ++ x.exponent, by rw [text, hwhole, htext]; rfl, ?_⟩
        exact List.all_eq_true.1 hds d List.mem_cons_self
  · refine .inl ⟨d, ds ++ (x.fraction ++ x.exponent), by rw [text, hwhole]; rfl, ?_⟩
    exact List.all_eq_true.1 x.digits d (hwhole ▸ List.mem_cons_self)

/-- A number in decimal is read to its end. -/
theorem number_text {b : UInt8} {tail : Bytes} (h : x.text = b :: tail) :
    Lexeme.number b tail = Lexeme.sound .number tail.length := by
  have hnumber : ∀ c : UInt8, isNumberByte c = true →
      (decide (c = byteOf 'x') || decide (c = byteOf 'X')) = false := by
    decide +kernel
  have htail : tail.all isNumberByte = true := by
    have hall := x.all_text
    rw [h, List.all_cons, Bool.and_eq_true] at hall
    exact hall.2
  rw [Lexeme.number, startsWith_of_all htail hnumber, Bool.and_false, if_neg Bool.false_ne_true,
    ← h, x.decimalLength_text, h, List.length_cons, Nat.add_sub_cancel]

theorem spelled : (Piece.apart .number x.text).Spelled := by
  rcases x.text_cases with ⟨d, tail, htext, hd⟩ | ⟨d, tail, htext, hd⟩ <;> rw [htext]
  · have hletter : ∀ b : UInt8, isDigit b = true → isLetterByte b = false := by decide +kernel
    have hnumber := x.number_text htext
    refine ⟨⟨Lexeme.pass?_of_bare (.inr hd), ?_⟩, Lexeme.not_typed (hletter d hd)⟩
    rw [List.append_nil, Lexeme.head_eq (.number (.inl hd)) (by rw [hnumber]; rfl)]
    exact hnumber
  · have hnumber := x.number_text htext
    have hdigit : startsWith isDigit (d :: tail) = true := hd
    refine ⟨⟨rfl, ?_⟩, Lexeme.not_typed rfl⟩
    rw [List.append_nil, Lexeme.head_eq (.number (.inr ⟨rfl, hdigit⟩)) (by rw [hnumber]; rfl)]
    exact hnumber

end DecimalNumber

/-- A closed string is read up to its closing quote. -/
theorem ClosedString.quoted_body (body : List StringByte) (read : Nat) :
    Lexeme.quoted singleQuote read (body.flatMap StringByte.text ++ [singleQuote]) =
      (read + (body.flatMap StringByte.text).length + 1, true) := by
  induction body generalizing read with
  | nil => rfl
  | cons c body ih =>
    rw [List.flatMap_cons, List.append_assoc, List.length_append]
    cases c with
    | plain b h =>
      simp only [List.mem_cons, List.not_mem_nil, or_false, not_or] at h
      obtain ⟨hquote, hslash, hfeed⟩ := h
      rw [StringByte.text, List.cons_append, Lexeme.quoted.eq_def]
      simp only [if_neg hfeed, if_neg hslash, if_neg hquote, List.nil_append, ih, List.length_cons,
        List.length_nil, Prod.mk.injEq, and_true]
      omega
    | escaped b h =>
      rw [StringByte.text, List.cons_append, List.cons_append, Lexeme.quoted.eq_def]
      simp only [if_neg h, if_neg (show backslash ≠ lineFeed by decide), if_true, List.nil_append,
        ih, List.length_cons, List.length_nil, Prod.mk.injEq, and_true]
      omega

theorem ClosedString.spelled (x : ClosedString) : (Piece.apart .string x.text).Spelled := by
  have hhead (tail : Bytes) : Lexeme.head singleQuote tail =
      Lexeme.ofString (Lexeme.quoted singleQuote 0 tail) := rfl
  refine ⟨⟨rfl, ?_⟩, Lexeme.not_typed rfl⟩
  rw [List.append_nil, hhead, quoted_body, List.length_append]
  simp [Lexeme.ofString, Piece.apart]

/-! ### Operators -/

theorem Sign.spelled (x : Sign) : (Piece.apart x.kind x.text).Spelled := by
  cases x <;> exact ⟨by decide, by decide⟩

/-- A word after an exclamation mark is read to its end. -/
theorem NegatableWord.head_text (w : NegatableWord) :
    Lexeme.head (byteOf '!') w.text = Lexeme.sound .negatedWord w.text.length := by
  have hnegated : Lexeme.negated w.text = Lexeme.sound .negatedWord w.text.length := by
    rcases w.word with hword | hin
    · have hall : w.text.takeWhile isWordByte = w.text :=
        List.takeWhile_eq_self_iff.2 (List.all_eq_true.1 hword)
      rw [Lexeme.negated, hall, List.drop_length]
      simp [Lexeme.startsWith]
    · rw [hin]
      rfl
  rw [Lexeme.head_eq (.negated rfl w.letter) (by rw [hnegated]; rfl), hnegated]

theorem InfixOperator.spelled (op : InfixOperator) : (Piece.apart op.kind op.first).Spelled := by
  cases op with
  | symbol kind text h =>
    have hsymbols : ∀ x ∈ infixSymbols, Lexeme.Spells x.1 [] x.2 ∧
        typedLiteralWords.contains x.2 = false := by decide
    exact hsymbols _ h
  | word text h =>
    have hwords : ∀ w ∈ infixWords, Lexeme.Spells .word [] w ∧
        typedLiteralWords.contains w = false := by decide
    exact hwords _ h
  | negated w =>
    refine ⟨⟨rfl, ?_⟩, Lexeme.not_typed rfl⟩
    rw [List.append_nil]
    exact w.head_text

theorem InfixOperator.sound (op : InfixOperator) : Piece.Sound op.pieces := by
  refine ⟨op.spelled, nofun, ?_⟩
  unfold second
  split
  · exact ⟨⟨by decide, by decide⟩, nofun, trivial⟩
  · trivial

/-! ### Expressions -/

namespace Expr

theorem listed_cons (e e' : Expr) (es : List Expr) :
    listed (e :: e' :: es) = e.pieces ++ comma :: listed (e' :: es) := by
  rw [listed]
  exact List.cons_ne_nil e' es

theorem spelled_opening : opening.Spelled := ⟨by decide, by decide⟩

theorem spelled_comma : comma.Spelled := ⟨by decide, by decide⟩

theorem sound_closing : Piece.Sound [closing] := ⟨⟨by decide, by decide⟩, nofun, trivial⟩

mutual

theorem sound : ∀ e : Expr, Piece.Sound e.pieces
  | name x => ⟨x.spelled, nofun, trivial⟩
  | number x => ⟨x.spelled, nofun, trivial⟩
  | string x => ⟨x.spelled, nofun, trivial⟩
  | signed sign operand => ⟨sign.spelled, nofun, operand.sound⟩
  | binary left op right => left.sound.append (op.sound.append right.sound)
  | call f arguments =>
    ⟨f.spelled, fun _ => rfl, spelled_opening, nofun, (sound_listed arguments).append sound_closing⟩
  | paren inner => ⟨spelled_opening, nofun, inner.sound.append sound_closing⟩

theorem sound_listed : ∀ es : List Expr, Piece.Sound (listed es)
  | [] => trivial
  | [e] => e.sound
  | e :: e' :: es => e.sound.append ⟨spelled_comma, nofun, sound_listed (e' :: es)⟩

end

end Expr
end KustoFacts
