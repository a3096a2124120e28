import KustoFacts.Records.Source

/-!
    The lines of a source. Lines end with a line feed; a last line without one counts if the source
    ends in order and is dropped if it fails. A line longer than the limit is passed over without
    being kept, but it is counted. -/

namespace KustoFacts

/-- A line: its number, from 1, and its text without the line feed, unless it is too long. -/
structure Line where
  number : Nat
  text : Option Bytes
  deriving DecidableEq, Repr

/-- The part of a line that has been read: its bytes, latest first, and their number. -/
structure Held where
  reversed : Bytes
  size : Nat
  deriving DecidableEq, Repr

namespace Held

/-- Nothing has been read. -/
def empty : Held := ⟨[], 0⟩

/-- One more fragment. -/
def extend (h : Held) (fragment : Bytes) : Held :=
  ⟨fragment.reverse ++ h.reversed, h.size + fragment.length⟩

/-- Whether a line feed was read last. -/
def isComplete (h : Held) : Bool := h.reversed.head? = some lineFeed

/-- The length of the line without its line feed. -/
def length (h : Held) : Nat := if h.isComplete then h.size - 1 else h.size

/-- The line without its line feed. -/
def text (h : Held) : Bytes :=
  if h.isComplete then h.reversed.tail.reverse else h.reversed.reverse

end Held

/-- Line reading in progress: what is held of the line at hand, unless it is too long already,
    whether any of it has been read, the number of lines so far, and these lines, latest first. -/
structure LineState where
  held : Option Held
  begun : Bool
  count : Nat
  lines : List Line
  deriving DecidableEq, Repr

namespace LineState

/-- Before anything is read. -/
def start : LineState := ⟨some .empty, false, 0, []⟩

/-- What is held of the line at hand with a fragment added, within the limit. -/
def extend (limit : Int) (held : Option Held) (fragment : Bytes) : Option Held :=
  held.bind fun h =>
    let longer := h.extend fragment
    if limit < longer.length then none else some longer

/-- The line at hand completed. -/
def complete (s : LineState) (held : Option Held) : LineState :=
  ⟨some .empty, false, s.count + 1, ⟨s.count + 1, held.map Held.text⟩ :: s.lines⟩

/-- The state after a fragment; `ending` is how the source ends. -/
def take (limit : Int) (ending : SourceEnd) (s : LineState) (f : Fragment) : LineState :=
  let held := extend limit s.held f.text
  let begun := s.begun || !f.text.isEmpty
  match f.stopped with
  | .lineFeed => s.complete held
  | .full => ⟨held, begun, s.count, s.lines⟩
  | .sourceEnd => if begun && ending = .complete then s.complete held else s

end LineState

/-- The lines of a source, read through a buffer of the given size. -/
def Source.linesThrough (size : Nat) (limit : Int) (s : Source) : List Line :=
  ((s.fragments size).foldl (LineState.take limit s.ending) .start).lines.reverse

/-- The lines of a source. -/
def Source.lines (limit : Int) (s : Source) : List Line := s.linesThrough bufferSize limit

end KustoFacts
