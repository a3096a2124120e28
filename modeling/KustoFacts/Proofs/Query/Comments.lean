import KustoFacts.Proofs.Query.Forms
import KustoFacts.Proofs.Query.Lexer

/-!
    Comments are layout. A text whose comments are written over with spaces has the same tokens at
    the same places and the same faults, because whatever reads a token stops at a slash as it stops
    at a space. The one look ahead that knows spaces but no comments is the one from the name of a
    typed literal to its parenthesis: a comment between them keeps the literal from being read as
    one, and there, and only there, blanking the comment changes the tokens. -/

namespace KustoFacts

open KustoFacts.Lexeme

namespace Tokens

/-! ### Blanked comments -/

/-- A text with the bytes of its comments made spaces, read as `readFrom` reads it: the first `skip`
    bytes belong to a token, and the text may begin inside a comment. -/
def blankFrom (skip : Nat) (comment : Bool) : Bytes → Bytes
  | [] => []
  | b :: rest =>
    match pass? skip comment b rest with
    | some (skip, comment) => (if comment then spaceByte else b) :: blankFrom skip comment rest
    | none => b :: blankFrom (head b rest).more false rest

/-- Whether the token at the head of a text is the name of a typed literal and no more, although a
    parenthesis follows it: then a comment stands between them. -/
def parted (b : UInt8) (rest : Bytes) : Bool :=
  let more := (head b rest).more
  let after := rest.drop more
  (head b rest).kind = .word && typedLiteralWords.contains (b :: rest.take more) &&
    startsWith (· = byteOf '(') (after.drop (Lexer.gap false after))

/-- Whether the name of a typed literal is parted from its parenthesis by a comment somewhere. -/
def partedFrom (skip : Nat) (comment : Bool) : Bytes → Bool
  | [] => false
  | b :: rest =>
    match pass? skip comment b rest with
    | some (skip, comment) => partedFrom skip comment rest
    | none => parted b rest || partedFrom (head b rest).more false rest

variable {skip : Nat} {comment : Bool} {b : UInt8} {rest text : Bytes}

theorem length_blankFrom (skip : Nat) (comment : Bool) (text : Bytes) :
    (blankFrom skip comment text).length = text.length := by
  induction text generalizing skip comment with
  | nil => rfl
  | cons b rest ih =>
    unfold blankFrom
    split <;> rw [List.length_cons, List.length_cons, ih]

/-- The bytes of a token stay. -/
theorem blankFrom_append (token after : Bytes) :
    blankFrom token.length false (token ++ after) = token ++ blankFrom 0 false after := by
  induction token with
  | nil => rfl
  | cons b token ih =>
    have hpass : pass? (token.length + 1) false b (token ++ after) =
        some (token.length, false) := by simp [pass?]
    rw [List.length_cons, List.cons_append, blankFrom, hpass]
    simp only [Bool.false_eq_true, if_false]
    rw [ih, List.cons_append]

/-- A byte that is passed outside of tokens belongs to a gap and is left behind as layout. -/
theorem pass?_gap {skip' : Nat} {comment' : Bool}
    (h : pass? 0 comment b rest = some (skip', comment')) :
    skip' = 0 ∧ Lexer.gap comment (b :: rest) = Lexer.gap comment' rest + 1 ∧
      isLayoutByte (if comment' then spaceByte else b) = true ∧
      (comment' = true → b ≠ lineFeed) := by
  have hspace : isLayoutByte spaceByte = true := by decide
  unfold pass? at h
  rw [if_neg (Nat.lt_irrefl 0)] at h
  split at h
  · rename_i hcomment
    cases h
    refine ⟨rfl, by rw [Lexer.gap, if_pos hcomment], ?_, by simp⟩
    by_cases hfeed : b = lineFeed
    · subst hfeed
      decide
    · simpa [hfeed] using hspace
  rename_i hcomment
  split at h
  · rename_i hlayout
    cases h
    exact ⟨rfl, by rw [Lexer.gap, if_neg hcomment, if_pos hlayout], hlayout,
      fun h => absurd h Bool.false_ne_true⟩
  rename_i hlayout
  split at h
  · rename_i hslash
    cases h
    refine ⟨rfl, by rw [Lexer.gap, if_neg hcomment, if_neg hlayout, if_pos hslash], hspace,
      fun _ hfeed => ?_⟩
    subst hfeed
    exact hlayout (by decide)
  · cases h

/-- A byte with which a token begins belongs to no gap. -/
theorem pass?_token (h : pass? skip comment b rest = none) :
    skip = 0 ∧ comment = false ∧ Lexer.gap comment (b :: rest) = 0 ∧ isLayoutByte b = false ∧
      (b = byteOf '/' → startsWith (· = byteOf '/') rest = false) := by
  unfold pass? at h
  unfold Lexer.gap
  grind

/-- After a byte that is passed the same is left to do, whether it was blanked or not. -/
theorem pass?_blanked {skip' : Nat} {comment' : Bool} (hskip : 0 < skip → comment = false)
    (h : pass? skip comment b rest = some (skip', comment')) (rest' : Bytes) :
    pass? skip false (if comment' then spaceByte else b) rest' = some (skip', false) ∧
      (comment' = true → b ≠ lineFeed) ∧ (0 < skip' → comment' = false) := by
  rcases Nat.eq_zero_or_pos skip with rfl | hpos
  · obtain ⟨rfl, -, hlayout, hfeed⟩ := pass?_gap h
    exact ⟨by simp [pass?, hlayout], hfeed, fun h => absurd h (Nat.lt_irrefl 0)⟩
  · rw [pass?, if_pos hpos] at h
    cases h
    exact ⟨by simp [pass?, hpos], fun h => absurd h Bool.false_ne_true, fun _ => rfl⟩

/-- A text is blanked from the first slash of a comment on, which no token reaches. -/
theorem blankFrom_cases (hskip : skip ≤ text.length) :
    blankFrom skip false text = text ∨ ∃ u x y, skip ≤ u.length ∧ text = u ++ byteOf '/' :: x ∧
      blankFrom skip false text = u ++ spaceByte :: y := by
  induction text generalizing skip with
  | nil => exact .inl rfl
  | cons b rest ih =>
    have later {skip' : Nat} (hskip' : skip' ≤ rest.length) (hle : skip ≤ skip' + 1)
        (h : blankFrom skip false (b :: rest) = b :: blankFrom skip' false rest) :
        blankFrom skip false (b :: rest) = b :: rest ∨ ∃ u x y, skip ≤ u.length ∧
          b :: rest = u ++ byteOf '/' :: x ∧
          blankFrom skip false (b :: rest) = u ++ spaceByte :: y := by
      rw [h]
      rcases ih hskip' with hrest | ⟨u, x, y, hu, hx, hy⟩
      · exact .inl (by rw [hrest])
      · refine .inr ⟨b :: u, x, y, ?_, by rw [hx]; rfl, by rw [hy]; rfl⟩
        rw [List.length_cons]
        omega
    rcases hpass : pass? skip false b rest with _ | ⟨skip', _ | _⟩
    · have hzero : skip = 0 := by
        by_contra hne
        simp [pass?, Nat.pos_of_ne_zero hne] at hpass
      exact later (head_le b rest) (by omega) (by rw [blankFrom, hpass])
    · refine later (pass?_le hskip hpass) ?_ (by rw [blankFrom, hpass]; rfl)
      unfold pass? at hpass
      split at hpass <;> [cases hpass; skip] <;> omega
    · -- a comment begins here
      have hstart : skip = 0 ∧ b = byteOf '/' := by
        unfold pass? at hpass
        grind
      refine .inr ⟨[], rest, blankFrom skip' true rest, ?_, by rw [hstart.2]; rfl,
        by rw [blankFrom, hpass]; rfl⟩
      rw [hstart.1]
      exact Nat.zero_le _

/-- Through a blanked gap one sees what follows the gap. -/
theorem opens_blankFrom (comment : Bool) (text : Bytes) :
    opens (blankFrom 0 comment text) =
      startsWith (· = byteOf '(') (text.drop (Lexer.gap comment text)) := by
  induction text generalizing comment with
  | nil => rfl
  | cons b rest ih =>
    rcases hpass : pass? 0 comment b rest with _ | ⟨skip', comment'⟩
    · obtain ⟨-, -, hgap, hlayout, -⟩ := pass?_token hpass
      rw [blankFrom, hpass, hgap]
      exact opens_cons_of_not hlayout _
    · obtain ⟨rfl, hgap, hlayout, -⟩ := pass?_gap hpass
      rw [blankFrom, hpass, hgap, List.drop_succ_cons]
      exact (opens_cons hlayout _).trans (ih comment')

/-! ### Tokens before blanked comments -/

theorem stops_slash : Stops (byteOf '/') := ⟨by decide, by decide, by decide⟩

/-- Before a slash no body is opened that is not opened before. -/
theorem opens_slash (x after : Bytes) : opens (after ++ byteOf '/' :: x) = opens after := by
  induction after with
  | nil => rfl
  | cons b after ih =>
    by_cases hb : isLayoutByte b = true
    · rw [List.cons_append, opens_cons hb, opens_cons hb, ih]
    · rw [Bool.not_eq_true] at hb
      rw [List.cons_append, opens_cons_of_not hb, opens_cons_of_not hb]

/-- The text after a token, blanked. -/
theorem blankFrom_drop (hskip : skip ≤ text.length) :
    (blankFrom skip false text).take skip = text.take skip ∧
      (blankFrom skip false text).drop skip = blankFrom 0 false (text.drop skip) := by
  have happend := blankFrom_append (text.take skip) (text.drop skip)
  have hlength : (text.take skip).length = skip := by rw [List.length_take]; omega
  rw [List.take_append_drop, hlength] at happend
  rw [happend]
  exact ⟨List.take_left' hlength, List.drop_left' hlength⟩

/-- A token does not change when comments after it are blanked, unless they part it from its
    parenthesis. -/
theorem head_blankFrom (h : parted b rest = false) :
    head b (blankFrom (head b rest).more false rest) = head b rest := by
  rcases blankFrom_cases (head_le b rest) with hsame | ⟨u, x, y, hu, hx, hy⟩
  · rw [hsame]
  rw [hy]
  obtain ⟨-, hdrop⟩ := blankFrom_drop (head_le b rest)
  rw [hy] at hdrop
  rw [parted] at h
  rw [hx] at hu hdrop h ⊢
  refine head_settled (.cons stops_slash x) (.cons stops_space y) (opens_slash x) ?_ hu
    (.inr ⟨_, x, rfl, by decide⟩)
  intro k hk htyped hopens
  -- the body is opened through the blanked comment only if it parts the name from it
  simp only [hk, sound] at hu hdrop h
  rw [List.take_append_of_le_length hu, htyped, List.drop_append_of_le_length hu,
    ← opens_blankFrom, ← List.drop_append_of_le_length hu, ← hdrop,
    List.drop_append_of_le_length hu] at h
  simpa using h

/-! ### Names parted from their bodies -/

/-- The name that is parted from its parenthesis is a whole word. -/
theorem parted_word (h : parted b rest = true) :
    let name := rest.takeWhile isWordByte
    typedLiteralWords.contains (b :: name) = true ∧ (head b rest).more = name.length ∧
      startsWith (· = byteOf '(')
        ((rest.drop name.length).drop (Lexer.gap false (rest.drop name.length))) = true := by
  simp only [parted, Bool.and_eq_true, decide_eq_true_eq] at h
  obtain ⟨⟨hkind, htyped⟩, hafter⟩ := h
  obtain ⟨hmore, -⟩ := typed_word hkind htyped
  rw [hmore] at htyped hafter
  rw [← List.prefix_iff_eq_take.1 (List.takeWhile_prefix _)] at htyped
  exact ⟨htyped, hmore, hafter⟩

/-- With the comment blanked the name and its body are a literal. -/
theorem kind_parted (h : parted b rest = true) :
    (head b (blankFrom (head b rest).more false rest)).kind = .literal := by
  obtain ⟨htyped, hmore, hafter⟩ := parted_word h
  have hle := head_le b rest
  obtain ⟨-, hdrop⟩ := blankFrom_drop hle
  -- the blanked text goes on with no word byte after the name either
  have hname : (blankFrom (head b rest).more false rest).takeWhile isWordByte =
      rest.takeWhile isWordByte := by
    rcases blankFrom_cases hle with hsame | ⟨u, x, y, -, hx, hy⟩
    · rw [hsame]
    · have hword {c : UInt8} (hc : Stops c) (t : Bytes) :
          (u ++ c :: t).takeWhile isWordByte = u.takeWhile isWordByte :=
        takeWhile_ends (fun d hd => (Ends.cons hc t d hd).word) u
      rw [hy, hword stops_space]
      conv => rhs; rw [hx]
      rw [hword stops_slash]
  rw [hmore] at hdrop hname ⊢
  rw [head_typed htyped, word, hname, hdrop, ofWord_eq, dashed?_typed htyped]
  have hin : ∀ name ∈ typedLiteralWords, name ≠ bytes "in" := by decide
  have hopens := (opens_blankFrom false _).trans hafter
  simp only [hin _ (List.contains_iff_mem.1 htyped), decide_false, Bool.false_and,
    Bool.false_eq_true, if_false, htyped, hopens, Bool.and_self, if_true]
  exact kind_typedBody _ _ _ _

/-! ### All tokens -/

theorem step_space {b : UInt8} (pos : Position) (hb : b ≠ lineFeed) :
    pos.step spaceByte = pos.step b := by
  rw [Position.step, Position.step, if_neg (by decide), if_neg hb]

/-- A token begins in the blanked text where one begins in the text. -/
theorem pass?_blankFrom (h : pass? skip comment b rest = none) :
    pass? skip false b (blankFrom (head b rest).more false rest) = none := by
  obtain ⟨rfl, -, -, hlayout, hslash⟩ := pass?_token h
  have hnot : ¬(decide (b = byteOf '/') && startsWith (· = byteOf '/')
      (blankFrom (head b rest).more false rest)) = true := by
    simp only [Bool.and_eq_true, decide_eq_true_eq, not_and, Bool.not_eq_true]
    rintro rfl
    have hrest := hslash rfl
    rcases rest with _ | ⟨c, rest⟩
    · rfl
    · have hc : c ≠ byteOf '/' := by simpa [startsWith] using hrest
      rw [show (head (byteOf '/') (c :: rest)).more = 0 from rfl, blankFrom]
      split
      · split <;> simp [startsWith, hc, show spaceByte ≠ byteOf '/' by decide]
      · simp [startsWith, hc]
  simp [pass?, hlayout, hnot]

/-- The tokens of a blanked text, byte by byte. -/
theorem readFrom_blankFrom_cons (hcomment : 0 < skip → comment = false) (pos : Position) (b : UInt8)
    (rest : Bytes) :
    readFrom skip false pos [] [] (blankFrom skip comment (b :: rest)) =
      match pass? skip comment b rest with
      | some (skip, comment) =>
        readFrom skip false (pos.step b) [] [] (blankFrom skip comment rest)
      | none =>
        let blanked := blankFrom (head b rest).more false rest
        if (head b blanked).fault = some .escapeAtEnd then .error ⟨pos.offset + 1 + rest.length⟩
        else
          (readFrom (head b blanked).more false (pos.step b) [] [] blanked).map
            (onto [tokenAt pos b blanked] (faultsAt pos b blanked)) := by
  rw [blankFrom]
  rcases hpass : pass? skip comment b rest with _ | ⟨skip', comment'⟩
  · dsimp only
    rw [readFrom_cons, pass?_blankFrom hpass, length_blankFrom]
  · obtain ⟨hblanked, hfeed, -⟩ :=
      pass?_blanked hcomment hpass (blankFrom skip' comment' rest)
    dsimp only
    rw [readFrom_cons, hblanked]
    cases comment' with
    | false => rfl
    | true => exact congrArg (readFrom skip' false · [] [] _) (step_space pos (hfeed rfl))

/-- Blanked comments leave the token before them as it is, with what is wrong with it. -/
theorem tokenAt_blankFrom (h : parted b rest = false) (pos : Position) :
    tokenAt pos b (blankFrom (head b rest).more false rest) = tokenAt pos b rest ∧
      faultsAt pos b (blankFrom (head b rest).more false rest) = faultsAt pos b rest := by
  obtain ⟨htake, -⟩ := blankFrom_drop (head_le b rest)
  simp only [tokenAt, faultsAt, head_blankFrom h, htake, and_self]

/-- A text in which no name is parted from its body has the same tokens with its comments
    blanked. -/
theorem readFrom_blankFrom (hskip : skip ≤ text.length) (hcomment : 0 < skip → comment = false)
    (pos : Position) (h : partedFrom skip comment text = false) :
    readFrom skip false pos [] [] (blankFrom skip comment text) =
      readFrom skip comment pos [] [] text := by
  induction text generalizing skip comment pos with
  | nil => rfl
  | cons b rest ih =>
    rw [readFrom_blankFrom_cons hcomment, readFrom_cons]
    rw [partedFrom] at h
    rcases hpass : pass? skip comment b rest with _ | ⟨skip', comment'⟩ <;>
      simp only [hpass, Bool.or_eq_false_iff] at h ⊢
    · obtain ⟨htoken, hfaults⟩ := tokenAt_blankFrom h.1 pos
      rw [head_blankFrom h.1, htoken, hfaults, ih (head_le b rest) (fun _ => rfl) _ h.2]
    · obtain ⟨-, -, hcomment'⟩ := pass?_blanked hcomment hpass rest
      exact ih (pass?_le hskip hpass) hcomment' _ h

theorem onto_injective {ts : List Token} {ds : List Diagnostic} {r r' : Tokens}
    (h : onto ts ds r = onto ts ds r') : r = r' := by
  simp only [onto, Tokens.mk.injEq, List.append_cancel_left_eq] at h
  rcases r with ⟨tokens, ending, diagnostics⟩
  rcases r' with ⟨tokens', ending', diagnostics'⟩
  simpa using h

/-- A text in which a name is parted from its body has other tokens with its comments blanked. -/
theorem readFrom_blankFrom_ne (hskip : skip ≤ text.length) (hcomment : 0 < skip → comment = false)
    (pos : Position) (h : partedFrom skip comment text = true) {r : Tokens}
    (hr : readFrom skip comment pos [] [] text = .ok r) :
    readFrom skip false pos [] [] (blankFrom skip comment text) ≠ .ok r := by
  induction text generalizing skip comment pos r with
  | nil => cases h
  | cons b rest ih =>
    rw [readFrom_blankFrom_cons hcomment]
    rw [readFrom_cons] at hr
    rw [partedFrom] at h
    rcases hpass : pass? skip comment b rest with _ | ⟨skip', comment'⟩ <;>
      simp only [hpass, Bool.or_eq_true] at h hr ⊢
    · split at hr
      · cases hr
      rcases hrest : readFrom (head b rest).more false (pos.step b) [] [] rest with e | r1 <;>
        rw [hrest] at hr <;> cases hr
      intro hblanked
      split at hblanked
      · cases hblanked
      generalize hread : readFrom (head b (blankFrom (head b rest).more false rest)).more false
        (pos.step b) [] [] (blankFrom (head b rest).more false rest) = x at hblanked
      rcases x with e | r2
      · cases hblanked
      have honto := Except.ok.inj hblanked
      cases hparted : parted b rest with
      | true =>
        -- a literal stands in the place of a word
        have hkind := congrArg (fun r : Tokens => r.tokens.head?.map Token.kind) honto
        have hword : (head b rest).kind = .word := by
          simp only [parted, Bool.and_eq_true, decide_eq_true_eq] at hparted
          exact hparted.1.1
        simp [onto, tokenAt, kind_parted hparted, hword] at hkind
      | false =>
        obtain ⟨htoken, hfaults⟩ := tokenAt_blankFrom hparted pos
        rw [htoken, hfaults] at honto
        obtain rfl := onto_injective honto
        rw [head_blankFrom hparted] at hread
        have hlater := h.resolve_left (by rw [hparted]; exact Bool.false_ne_true)
        exact ih (head_le b rest) (fun _ => rfl) _ hlater hrest hread
    · obtain ⟨-, -, hcomment'⟩ := pass?_blanked hcomment hpass rest
      exact ih (pass?_le hskip hpass) hcomment' _ h hr

end Tokens

/-- A text with every comment written over with spaces, up to the line feed that ends it. -/
def withoutComments (text : Bytes) : Bytes := Tokens.blankFrom 0 false text

/-- Whether a comment parts the name of a typed literal from its parenthesis. -/
def partsLiteral (text : Bytes) : Bool := Tokens.partedFrom 0 false text

/-- A text has the same tokens and the same faults with its comments blanked, unless a comment parts
    the name of a typed literal from its parenthesis; then, and only then, its tokens are others. -/
theorem comments_are_layout (text : Bytes) :
    (partsLiteral text = false → tokenize (withoutComments text) = tokenize text) ∧
      (partsLiteral text = true → ∀ r, tokenize text = .ok r →
        tokenize (withoutComments text) ≠ .ok r) :=
  ⟨Tokens.readFrom_blankFrom (Nat.zero_le _) nofun .start,
    fun h _ => Tokens.readFrom_blankFrom_ne (Nat.zero_le _) nofun .start h⟩

/-- A comment at the end of a line, and one before a parenthesis that belongs to the name. -/
theorem comments_are_layout_name :
    withoutComments (bytes "T //all
|take 1") = bytes "T      
|take 1" ∧
      partsLiteral (bytes "T //all
|take 1") = false ∧
      tokenize (bytes "T      
|take 1") = tokenize (bytes "T //all
|take 1") ∧
      partsLiteral (bytes "long//c
(1)") = true ∧
      ∃ r, tokenize (bytes "long//c
(1)") = .ok r ∧
        tokenize (withoutComments (bytes "long//c
(1)")) ≠ .ok r := by
  have hblanked : withoutComments (bytes "T //all
|take 1") = bytes "T      
|take 1" := by decide
  have hparts : partsLiteral (bytes "T //all
|take 1") = false := by decide
  have hparts' : partsLiteral (bytes "long//c
(1)") = true := by decide
  refine ⟨hblanked, hparts, ?_, hparts', _, rfl, ?_⟩
  · rw [← hblanked]
    exact (comments_are_layout (bytes "T //all
|take 1")).1 hparts
  · exact (comments_are_layout (bytes "long//c
(1)")).2 hparts' _ rfl

/-- Between `datetime` and its parenthesis a comment is no layout: the name is a word of its own,
    which it is not with the comment blanked. -/
theorem comment_parts_literal :
    withoutComments (bytes "datetime //c
(1)") = bytes "datetime    
(1)" ∧
      (tokenize (bytes "datetime //c
(1)")).toOption.map (·.tokens.map (·.kind)) =
        some [.word, .leftParen, .number, .rightParen] ∧
      (tokenize (bytes "datetime    
(1)")).toOption.map (·.tokens.map (·.kind)) =
        some [.literal] := by
  refine ⟨by decide, by decide, by decide⟩

end KustoFacts
