import KustoFacts.Text.Bytes

/-!
    Tokens of the query language. A token is a kind, the text it was read from and the place where
    it stands. Places count bytes from 0 and lines and columns from 1. -/

namespace KustoFacts

/-- The lexical classes, in the order of their codes. -/
inductive TokenKind where
  | endOfInput
  | illegal
  | word
  | negatedWord
  | number
  | string
  | literal
  | pipe
  | comma
  | semicolon
  | leftParen
  | rightParen
  | leftBracket
  | rightBracket
  | leftBrace
  | rightBrace
  | dot
  | dotDot
  | colon
  | assign
  | equal
  | notEqual
  | equalTilde
  | notTilde
  | less
  | greater
  | lessEqual
  | greaterEqual
  | plus
  | minus
  | star
  | slash
  | percent
  | arrow
  deriving DecidableEq, Repr

namespace TokenKind

/-- Every kind, in the order of the codes. -/
def all : List TokenKind :=
  [endOfInput, illegal, word, negatedWord, number, string, literal, pipe, comma, semicolon,
    leftParen, rightParen, leftBracket, rightBracket, leftBrace, rightBrace, dot, dotDot, colon,
    assign, equal, notEqual, equalTilde, notTilde, less, greater, lessEqual, greaterEqual, plus,
    minus, star, slash, percent, arrow]

/-- What messages call a kind. -/
def name : TokenKind → Bytes
  | endOfInput => bytes "end of input"
  | illegal => bytes "illegal"
  | word => bytes "identifier"
  | negatedWord => bytes "operator"
  | number => bytes "number"
  | string => bytes "string"
  | literal => bytes "literal"
  | pipe => bytes "|"
  | comma => bytes ","
  | semicolon => bytes ";"
  | leftParen => bytes "("
  | rightParen => bytes ")"
  | leftBracket => bytes "["
  | rightBracket => bytes "]"
  | leftBrace => bytes "\x7b"
  | rightBrace => bytes "\x7d"
  | dot => bytes "."
  | dotDot => bytes ".."
  | colon => bytes ":"
  | assign => bytes "="
  | equal => bytes "=="
  | notEqual => bytes "!="
  | equalTilde => bytes "=~"
  | notTilde => bytes "!~"
  | less => bytes "<"
  | greater => bytes ">"
  | lessEqual => bytes "<="
  | greaterEqual => bytes ">="
  | plus => bytes "+"
  | minus => bytes "-"
  | star => bytes "*"
  | slash => bytes "/"
  | percent => bytes "%"
  | arrow => bytes "=>"

/-- The name of the kind with a given code; a code without a kind is named by its number. -/
def nameOfCode (code : Int) : Bytes :=
  let known := if code < 0 then none else all[code.toNat]?
  match known with
  | some kind => kind.name
  | none => bytes "token(" ++ decimalInt code ++ bytes ")"

end TokenKind

/-- A place in the query text. -/
structure Position where
  offset : Nat
  line : Nat
  column : Nat
  deriving DecidableEq, Repr

namespace Position

/-- Where a text begins. -/
def start : Position := ⟨0, 1, 1⟩

/-- The place after one byte; a line feed begins the next line. -/
def step (p : Position) (b : UInt8) : Position :=
  if b = lineFeed then ⟨p.offset + 1, p.line + 1, 1⟩ else ⟨p.offset + 1, p.line, p.column + 1⟩

/-- The place after a text. -/
def advance (p : Position) (text : Bytes) : Position := text.foldl step p

end Position

/-- One token: its text stands from `pos` up to the offset `stop`. -/
structure Token where
  kind : TokenKind
  text : Bytes
  pos : Position
  stop : Nat
  deriving DecidableEq, Repr

namespace Token

/-- Whether a token is the given word. -/
def isWord (t : Token) (word : Bytes) : Bool := t.kind = .word && t.text = word

theorem kind_of_isWord {t : Token} {word : Bytes} (h : t.isWord word = true) : t.kind = .word := by
  simp only [isWord, Bool.and_eq_true, decide_eq_true_eq] at h
  exact h.1

/-- The token that ends a text at a place. -/
def endAt (p : Position) : Token := ⟨.endOfInput, [], p, p.offset⟩

end Token
end KustoFacts
