import KustoFacts.Query.Lexeme

/-!
    A text as its tokens. Layout and comments are skipped, then a lexeme is cut off, until the text
    is used up. The only text without a token list is one that ends in a backslash inside a string
    of a typed literal: the escape would take a byte beyond the end. -/

namespace KustoFacts

/-- The tokens of a text without the one that ends it, that one, and what is wrong with them. -/
structure Tokens where
  tokens : List Token
  ending : Token
  diagnostics : List Diagnostic
  deriving DecidableEq, Repr

/-- A text of the given length was read one byte beyond its end. -/
structure Overrun where
  length : Nat
  deriving DecidableEq, Repr

/-- How an overrun is reported. -/
def Overrun.message (o : Overrun) : Bytes :=
  bytes "runtime error: slice bounds out of range [:" ++ decimal (o.length + 1) ++
    bytes "] with length " ++ decimal o.length

namespace Tokens

/-- The fault of a lexeme that begins with byte `b`, as a diagnostic reports it. -/
def report (b : UInt8) : LexFault → Fault
  | .unexpectedByte => .unexpectedByte b
  | .unterminatedString => .unterminatedString
  | .unterminatedLiteral => .unterminatedLiteral
  | .escapeAtEnd => .unterminatedString

/-- Reads a text from a place on. The first `skip` bytes belong to the token read last; then, if
    `comment` is set, the text begins inside a comment, which runs up to a line feed. Tokens and
    diagnostics found so far are kept latest first. -/
def readFrom (skip : Nat) (comment : Bool) (pos : Position) (tokens : List Token)
    (diagnostics : List Diagnostic) : Bytes → Except Overrun Tokens
  | [] => .ok ⟨tokens.reverse, Token.endAt pos, diagnostics.reverse⟩
  | b :: rest =>
    if 0 < skip then readFrom (skip - 1) false (pos.step b) tokens diagnostics rest
    else if comment then readFrom 0 (b != lineFeed) (pos.step b) tokens diagnostics rest
    else if isLayoutByte b then readFrom 0 false (pos.step b) tokens diagnostics rest
    else if b = byteOf '/' && Lexeme.startsWith (· = byteOf '/') rest then
      readFrom 0 true (pos.step b) tokens diagnostics rest
    else
      let lexeme := Lexeme.head b rest
      if lexeme.fault = some .escapeAtEnd then .error ⟨pos.offset + 1 + rest.length⟩
      else
        let stop := pos.offset + 1 + lexeme.more
        let token : Token := ⟨lexeme.kind, b :: rest.take lexeme.more, pos, stop⟩
        let found := lexeme.fault.toList.map fun fault => ⟨pos, stop, report b fault⟩
        readFrom lexeme.more false (pos.step b) (token :: tokens) (found ++ diagnostics) rest

end Tokens

/-- The tokens of a text. -/
def tokenize (text : Bytes) : Except Overrun Tokens := Tokens.readFrom 0 false .start [] [] text

end KustoFacts
