import KustoFacts.Records.Line
import Mathlib.Data.List.Basic

/-!
    The lines of a source are those of its text. However a text is delivered, and however large the
    buffer is that it is read through, reading line by line gives what stands between the line feeds
    of the text; a line longer than the limit is counted, but its text is not kept.

    `Handed` says what a buffer may hand on: a fragment ends with the first line feed in it, or stops
    because the buffer is full or the source has ended. `LineReader.next` asks for a single line, and
    `LineReader.Yields` is what asking again and again gives, up to the first failure. -/

namespace KustoFacts

/-! ### Plain splitting -/

/-- The lines that stand in a text, if it ends as a source does: what is before each line feed, and
    what is after the last one if that is not empty and the source does not fail. -/
def linesOf (ending : SourceEnd) (text : Bytes) : List Bytes :=
  let pieces := List.splitOn lineFeed text
  pieces.dropLast ++
    pieces.getLast?.toList.filter fun last => !last.isEmpty && decide (ending = .complete)

/-- A line as it is reported: with its text, unless that is longer than the limit. -/
def Line.within (limit : Int) (number : Nat) (text : Bytes) : Line :=
  ⟨number, if text.length ≤ limit then some text else none⟩

/-- Lines numbered on from a number of lines before them. -/
def numbered (limit : Int) (before : Nat) (texts : List Bytes) : List Line :=
  (texts.zipIdx (before + 1)).map fun (text, number) => .within limit number text

variable {limit : Int} {ending : SourceEnd}

theorem linesOf_nil_lineFeed {text : Bytes} (h : lineFeed ∉ text) :
    linesOf ending text = if !text.isEmpty && decide (ending = .complete) then [text] else [] := by
  simp [linesOf, List.splitOn_eq_singleton h, List.filter_cons]

theorem linesOf_append_lineFeed {body : Bytes} (rest : Bytes) (h : lineFeed ∉ body) :
    linesOf ending (body ++ lineFeed :: rest) = body :: linesOf ending rest := by
  have hne := List.splitOn_ne_nil lineFeed rest
  rw [linesOf, List.splitOn_append_cons_self_of_not_mem h, List.dropLast_cons_of_ne_nil hne,
    List.getLast?_cons_of_ne_nil hne]
  rfl

theorem numbered_cons (before : Nat) (text : Bytes) (texts : List Bytes) :
    numbered limit before (text :: texts) =
      .within limit (before + 1) text :: numbered limit (before + 1) texts := by
  simp [numbered, List.zipIdx_cons]

/-! ### What a buffer hands on -/

/-- Fragments that a buffer may hand on of a text. -/
inductive Handed : Bytes → List Fragment → Prop where
  | ended {text : Bytes} (h : lineFeed ∉ text) : Handed text [⟨text, .sourceEnd⟩]
  | full {piece rest : Bytes} {fragments : List Fragment} (h : lineFeed ∉ piece)
      (more : Handed rest fragments) : Handed (piece ++ rest) (⟨piece, .full⟩ :: fragments)
  | line {body rest : Bytes} {fragments : List Fragment} (h : lineFeed ∉ body)
      (more : Handed rest fragments) :
      Handed (body ++ lineFeed :: rest) (⟨body ++ [lineFeed], .lineFeed⟩ :: fragments)

/-- What a buffer that holds a part of a text hands on of it and of what follows it. -/
theorem Buffer.handed_foldl (size : Nat) (text held : Bytes) (count : Nat)
    (fragments : List Fragment) (hheld : lineFeed ∉ held) :
    ∃ more, Handed (held.reverse ++ text) more ∧
      let buffer := text.foldl (Buffer.take size) ⟨held, count, fragments⟩
      (⟨buffer.held.reverse, .sourceEnd⟩ :: buffer.fragments).reverse = fragments.reverse ++ more := by
  induction text generalizing held count fragments with
  | nil =>
    refine ⟨[⟨held.reverse, .sourceEnd⟩], ?_, by simp⟩
    rw [List.append_nil]
    exact .ended (by simpa using hheld)
  | cons b text ih =>
    rw [List.foldl_cons]
    by_cases hb : b = lineFeed
    · subst hb
      obtain ⟨more, hmore, hreverse⟩ := ih [] 0
        (⟨(lineFeed :: held).reverse, .lineFeed⟩ :: fragments) List.not_mem_nil
      refine ⟨⟨held.reverse ++ [lineFeed], .lineFeed⟩ :: more, ?_, ?_⟩
      · exact .line (by simpa using hheld) hmore
      · simpa [Buffer.take] using hreverse
    have hlonger : lineFeed ∉ b :: held := List.not_mem_cons_of_ne_of_not_mem (Ne.symm hb) hheld
    by_cases hsize : count + 1 = size
    · obtain ⟨more, hmore, hreverse⟩ := ih [] 0
        (⟨(b :: held).reverse, .full⟩ :: fragments) List.not_mem_nil
      refine ⟨⟨(b :: held).reverse, .full⟩ :: more, ?_, ?_⟩
      · have hreversed : lineFeed ∉ (b :: held).reverse := by simpa [and_comm] using hlonger
        simpa using Handed.full hreversed hmore
      · simpa [Buffer.take, hb, hsize] using hreverse
    · obtain ⟨more, hmore, hreverse⟩ := ih (b :: held) (count + 1) fragments hlonger
      refine ⟨more, by simpa using hmore, ?_⟩
      simpa [Buffer.take, hb, hsize] using hreverse

/-- A buffer of any size hands on fragments of the text of its source. -/
theorem Source.handed_fragments (s : Source) (size : Nat) : Handed s.text (s.fragments size) := by
  obtain ⟨more, hmore, hreverse⟩ := Buffer.handed_foldl size s.text [] 0 [] List.not_mem_nil
  have hfragments : s.fragments size = more := by
    rw [Source.text, List.foldl_flatten] at hreverse
    exact hreverse
  rw [hfragments]
  exact hmore

/-! ### Line by line -/

/-- A line reader between two lines: what its buffer has yet to hand on, how its source ends, its
    limit, and the number of lines it has read. -/
structure LineReader where
  fragments : List Fragment
  ending : SourceEnd
  limit : Int
  count : Nat

namespace LineReader

/-- A line read from what is held of it, or how the source ends when there is none; `begun` tells
    whether any of it has been read. -/
def nextFrom (ending : SourceEnd) (limit : Int) (count : Nat) (held : Option Held) (begun : Bool) :
    List Fragment → Except SourceEnd Line × LineReader
  | [] => (.error ending, ⟨[], ending, limit, count⟩)
  | f :: rest =>
    let held := LineState.extend limit held f.text
    let begun := begun || !f.text.isEmpty
    let line : Line := ⟨count + 1, held.map Held.text⟩
    match f.stopped with
    | .lineFeed => (.ok line, ⟨rest, ending, limit, count + 1⟩)
    | .full => nextFrom ending limit count held begun rest
    | .sourceEnd =>
      if begun && ending = .complete then (.ok line, ⟨rest, ending, limit, count + 1⟩)
      else (.error ending, ⟨rest, ending, limit, count⟩)

/-- The next line, or how the source ends when there is none, and the reader after it. -/
def next (r : LineReader) : Except SourceEnd Line × LineReader :=
  nextFrom r.ending r.limit r.count (some .empty) false r.fragments

/-- What calls give from the result of one of them on, up to the first that fails: the lines, how
    the source ends, and the number of lines that the reader has then counted. -/
inductive Gives : Except SourceEnd Line × LineReader → List Line → SourceEnd → Nat → Prop where
  | failed {ending : SourceEnd} {r : LineReader} : Gives (.error ending, r) [] ending r.count
  | read {line : Line} {r : LineReader} {lines : List Line} {ending : SourceEnd} {count : Nat}
      (more : Gives r.next lines ending count) : Gives (.ok line, r) (line :: lines) ending count

/-- What calling for lines gives. -/
def Yields (r : LineReader) (lines : List Line) (ending : SourceEnd) (count : Nat) : Prop :=
  Gives r.next lines ending count

end LineReader

/-- A reader of the lines of a source, through a buffer of a size. -/
def Source.reader (s : Source) (size : Nat) (limit : Int) : LineReader :=
  ⟨s.fragments size, s.ending, limit, 0⟩

/-! ### What is held of a line -/

/-- What is held of a line of which a part has been read, unless that is longer than the limit. -/
def heldOf (limit : Int) (part : Bytes) : Option Held :=
  if part.length ≤ limit then some ⟨part.reverse, part.length⟩ else none

/-- A fragment without a line feed makes the part longer. -/
theorem extend_heldOf {part piece : Bytes} (hpart : lineFeed ∉ part) (hpiece : lineFeed ∉ piece) :
    LineState.extend limit (heldOf limit part) piece = heldOf limit (part ++ piece) := by
  have hopen : (Held.extend ⟨part.reverse, part.length⟩ piece).isComplete = false := by
    rw [Held.isComplete, decide_eq_false_iff_not]
    intro hlast
    have hmem : lineFeed ∈ piece.reverse ++ part.reverse := List.mem_of_mem_head? hlast
    simp [hpart, hpiece] at hmem
  have hlength : (Held.extend ⟨part.reverse, part.length⟩ piece).length =
      (part ++ piece).length := by
    rw [Held.length, hopen]
    simp [Held.extend]
  unfold heldOf
  by_cases hwithin : (part.length : Int) ≤ limit
  · simp only [hwithin, if_true, LineState.extend, Option.bind_some, hlength]
    by_cases hlonger : limit < ((part ++ piece).length : Int)
    · rw [if_pos hlonger, if_neg (by omega)]
    · rw [if_neg hlonger, if_pos (by omega), Held.extend, List.reverse_append, List.length_append]
  · have hlonger : ¬((part ++ piece).length : Int) ≤ limit := by
      rw [List.length_append]
      omega
    rw [if_neg hwithin, if_neg hlonger]
    rfl

/-- A fragment with a line feed completes the line, and the line feed does not count. -/
theorem text_extend_heldOf (part body : Bytes) :
    (LineState.extend limit (heldOf limit part) (body ++ [lineFeed])).map Held.text =
      if (part ++ body).length ≤ limit then some (part ++ body) else none := by
  unfold heldOf
  by_cases hwithin : (part.length : Int) ≤ limit
  · have hcomplete : (Held.extend ⟨part.reverse, part.length⟩ (body ++ [lineFeed])).isComplete := by
      simp [Held.isComplete, Held.extend]
    have hlength : (Held.extend ⟨part.reverse, part.length⟩ (body ++ [lineFeed])).length =
        (part ++ body).length := by
      rw [Held.length, if_pos hcomplete]
      simp [Held.extend, ← Nat.add_assoc]
    have htext : (Held.extend ⟨part.reverse, part.length⟩ (body ++ [lineFeed])).text =
        part ++ body := by
      rw [Held.text, if_pos hcomplete]
      simp [Held.extend]
    simp only [hwithin, if_true, LineState.extend, Option.bind_some, hlength]
    by_cases hlonger : limit < ((part ++ body).length : Int)
    · rw [if_pos hlonger, if_neg (by omega), Option.map_none]
    · rw [if_neg hlonger, if_pos (by omega), Option.map_some, htext]
  · have hlonger : ¬((part ++ body).length : Int) ≤ limit := by
      rw [List.length_append]
      omega
    rw [if_neg hwithin, if_neg hlonger]
    rfl

/-- A part that is all of its line. -/
theorem text_heldOf {part : Bytes} (h : lineFeed ∉ part) :
    (heldOf limit part).map Held.text = if part.length ≤ limit then some part else none := by
  have hopen : Held.isComplete ⟨part.reverse, part.length⟩ = false := by
    rw [Held.isComplete, decide_eq_false_iff_not]
    intro hlast
    exact h (List.mem_reverse.1 (List.mem_of_mem_head? hlast))
  unfold heldOf
  split
  · simp [Held.text, hopen]
  · rfl

/-! ### All lines -/

open LineReader (nextFrom Gives)

/-- Nothing is held of a line that has not begun, whether or not the limit admits any line. -/
theorem extend_empty (piece : Bytes) :
    LineState.extend limit (some .empty) piece = LineState.extend limit (heldOf limit []) piece := by
  unfold heldOf
  by_cases hwithin : (([] : Bytes).length : Int) ≤ limit
  · rw [if_pos hwithin]
    rfl
  · have hlonger : limit < ((Held.empty.extend piece).length : Int) := by
      rw [List.length_nil] at hwithin
      omega
    rw [if_neg hwithin, LineState.extend, Option.bind_some, if_pos hlonger]
    rfl

/-- Reading goes on from a part of a line to the lines of the part and what follows it, whether
    lines are asked for one by one or collected fragment by fragment. -/
theorem Handed.lines {text : Bytes} {fragments : List Fragment} (h : Handed text fragments)
    {part : Bytes} (hpart : lineFeed ∉ part) {held : Option Held}
    (hheld : ∀ piece, LineState.extend limit held piece =
      LineState.extend limit (heldOf limit part) piece) (count : Nat) (found : List Line) :
    let texts := linesOf ending (part ++ text)
    Gives (nextFrom ending limit count held (!part.isEmpty) fragments)
        (numbered limit count texts) ending (count + texts.length) ∧
      (fragments.foldl (LineState.take limit ending) ⟨held, !part.isEmpty, count, found⟩).lines =
        (numbered limit count texts).reverse ++ found := by
  induction h generalizing part held count found with
  | @ended text h =>
    have hall : lineFeed ∉ part ++ text := by simp [hpart, h]
    have hbegun : (!part.isEmpty || !text.isEmpty) = !(part ++ text).isEmpty := by
      cases part <;> simp
    have hlonger := (hheld text).trans (extend_heldOf hpart h)
    rw [linesOf_nil_lineFeed hall]
    cases hends : !(part ++ text).isEmpty && decide (ending = .complete) with
    | true =>
      have hline : numbered limit count [part ++ text] =
          [⟨count + 1, (heldOf limit (part ++ text)).map Held.text⟩] := by
        rw [numbered_cons, Line.within, text_heldOf hall]
        rfl
      simp only [nextFrom, hlonger, hbegun, hends, if_true, hline, List.foldl_cons, List.foldl_nil,
        LineState.take, LineState.complete, List.reverse_singleton, List.singleton_append, and_true]
      exact .read (.failed (r := ⟨[], ending, limit, count + 1⟩))
    | false =>
      simp only [nextFrom, hlonger, hbegun, hends, List.foldl_cons, List.foldl_nil, LineState.take,
        Bool.false_eq_true, if_false]
      exact ⟨.failed (r := ⟨[], ending, limit, count⟩), rfl⟩
  | @full piece rest fragments h more ih =>
    have hall : lineFeed ∉ part ++ piece := by simp [hpart, h]
    have hbegun : (!part.isEmpty || !piece.isEmpty) = !(part ++ piece).isEmpty := by
      cases part <;> simp
    have hlonger := (hheld piece).trans (extend_heldOf hpart h)
    simp only [nextFrom, hlonger, hbegun, List.foldl_cons, LineState.take, ← List.append_assoc]
    exact ih hall (fun _ => rfl) count found
  | @line body rest fragments h more ih =>
    have hall : lineFeed ∉ part ++ body := by simp [hpart, h]
    have hline : (LineState.extend limit held (body ++ [lineFeed])).map Held.text =
        (Line.within limit (count + 1) (part ++ body)).text :=
      (congrArg _ (hheld _)).trans (text_extend_heldOf part body)
    obtain ⟨hgives, hlines⟩ := ih List.not_mem_nil extend_empty (count + 1)
      (.within limit (count + 1) (part ++ body) :: found)
    dsimp only
    rw [← List.append_assoc, linesOf_append_lineFeed rest hall, numbered_cons, List.length_cons,
      Nat.add_comm (linesOf ending rest).length, ← Nat.add_assoc, List.reverse_cons, List.append_assoc]
    simp only [nextFrom, hline, List.foldl_cons, LineState.take, LineState.complete]
    exact ⟨.read (r := ⟨fragments, ending, limit, count + 1⟩) hgives, hlines⟩

/-- Reading line by line is plain splitting: calling for lines until there is none gives, for
    every delivery of a text and every size of the buffer, the lines of the text, each with its
    text unless that is longer than the limit, and then how the source ends, with every line
    counted once; and these are the lines that are collected fragment by fragment. -/
theorem Source.yields_linesOf (s : Source) (size : Nat) (limit : Int) :
    let lines := numbered limit 0 (linesOf s.ending s.text)
    (s.reader size limit).Yields lines s.ending lines.length ∧ s.linesThrough size limit = lines := by
  obtain ⟨hgives, hlines⟩ := @Handed.lines limit s.ending _ _ (s.handed_fragments size) []
    List.not_mem_nil _ extend_empty 0 []
  refine ⟨?_, ?_⟩
  · have hlength : (numbered limit 0 (linesOf s.ending s.text)).length =
        0 + (linesOf s.ending s.text).length := by
      simp [numbered]
    rw [hlength]
    exact hgives
  · rw [Source.linesThrough, ← List.reverse_inj, List.reverse_reverse]
    exact hlines.trans (List.append_nil _)

end KustoFacts
