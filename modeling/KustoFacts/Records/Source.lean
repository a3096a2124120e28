import KustoFacts.Text.Bytes

/-!
    Where records come from: a text that is delivered piece by piece and then ends, in order or
    with a failure. Reading goes through a buffer of fixed size: what is handed on is a fragment,
    which stops at a line feed, when the buffer is full, or when the source has ended. -/

namespace KustoFacts

/-- How a source ends. -/
inductive SourceEnd where
  | complete
  | failure (why : Bytes)
  deriving DecidableEq, Repr

/-- A text in the pieces it is delivered in, and how the source ends after them. -/
structure Source where
  pieces : List Bytes
  ending : SourceEnd
  deriving DecidableEq, Repr

namespace Source

/-- A text cut into pieces of at most `size` bytes, of which the piece at hand, kept in reverse,
    has `count`. -/
def cutFrom (size : Nat) (done : List Bytes) (piece : Bytes) (count : Nat) : Bytes → List Bytes
  | [] => (if piece.isEmpty then done else piece.reverse :: done).reverse
  | b :: rest =>
    if count + 1 = size then cutFrom size ((b :: piece).reverse :: done) [] 0 rest
    else cutFrom size done (b :: piece) (count + 1) rest

/-- A text delivered in pieces of at most `size` bytes, or in one piece if `size` is 0. -/
def ofText (size : Nat) (text : Bytes) (ending : SourceEnd) : Source :=
  ⟨if size = 0 then [text] else cutFrom size [] [] 0 text, ending⟩

/-- The whole text of a source. -/
def text (s : Source) : Bytes := s.pieces.flatten

end Source

/-! ### Fragments -/

/-- Why a fragment stops where it does. -/
inductive FragmentEnd where
  /-- It ends with a line feed. -/
  | lineFeed
  /-- The buffer is full. -/
  | full
  /-- The source has ended. -/
  | sourceEnd
  deriving DecidableEq, Repr

/-- A piece of input as the buffer hands it on. -/
structure Fragment where
  text : Bytes
  stopped : FragmentEnd
  deriving DecidableEq, Repr

/-- The buffer while it is filled: the bytes it holds, in reverse, their number, and the fragments
    handed on so far, latest first. -/
structure Buffer where
  held : Bytes
  count : Nat
  fragments : List Fragment
  deriving DecidableEq, Repr

namespace Buffer

/-- The empty buffer. -/
def empty : Buffer := ⟨[], 0, []⟩

/-- The buffer of a given size after one more byte. -/
def take (size : Nat) (buffer : Buffer) (b : UInt8) : Buffer :=
  let held := b :: buffer.held
  if b = lineFeed then ⟨[], 0, ⟨held.reverse, .lineFeed⟩ :: buffer.fragments⟩
  else if buffer.count + 1 = size then ⟨[], 0, ⟨held.reverse, .full⟩ :: buffer.fragments⟩
  else ⟨held, buffer.count + 1, buffer.fragments⟩

/-- The buffer after one more piece of input. -/
def takePiece (size : Nat) (buffer : Buffer) (piece : Bytes) : Buffer :=
  piece.foldl (take size) buffer

end Buffer

/-- The fragments of a source, of which the last holds what is left at its end. -/
def Source.fragments (size : Nat) (s : Source) : List Fragment :=
  let buffer := s.pieces.foldl (Buffer.takePiece size) .empty
  (⟨buffer.held.reverse, .sourceEnd⟩ :: buffer.fragments).reverse

/-- The size of the buffer that is used: 64 KiB. -/
def bufferSize : Nat := 64 * 1024

end KustoFacts
