import KustoFacts.Proofs.Query.Forms
import KustoFacts.Proofs.Query.Levels
import KustoFacts.Proofs.Query.Outline
import KustoFacts.Proofs.Query.Spelled

/-!
    Expressions and how they are written. An expression is made of names, numbers and strings by
    signs, infix operators, calls and parentheses; its text is its tokens in order with a space
    between each two, except between the name of a call and the parenthesis after it. Whatever can
    be written is sound by its type: a name is no word that begins something else, and a string is
    closed. -/

namespace KustoFacts

/-! ### Words, numbers and strings -/

/-- The words that begin something other than a name: a typed literal, a constant, an operator after
    a pipe, an operator without input, or a statement. -/
def reservedWords : List Bytes :=
  typedLiteralWords ++ pipeOperators ++
    ["true", "false", "print", "find", "datatable", "externaldata", "range", "let", "set",
      "declare", "alias"].map bytes

/-- A word that is nothing but a name. -/
structure PlainName where
  first : UInt8
  more : Bytes
  begins : beginsName first = true
  word : more.all isWordByte = true
  plain : first :: more ∉ reservedWords

def PlainName.text (x : PlainName) : Bytes := x.first :: x.more

/-- A number in decimal: digits, a point and digits, and an exponent, of which all but one digit may
    be missing. -/
structure DecimalNumber where
  whole : Bytes
  fraction : Bytes
  exponent : Bytes
  digits : whole.all isDigit = true
  point : fraction = [] ∨ ∃ ds, fraction = byteOf '.' :: ds ∧ ds.all isDigit = true
  power : exponent = [] ∨ ∃ e sign d ds, exponent = e :: (sign ++ d :: ds) ∧
    e ∈ [byteOf 'e', byteOf 'E'] ∧ sign ∈ [[], [byteOf '+'], [byteOf '-']] ∧
    (d :: ds).all isDigit = true
  digit : whole ≠ [] ∨ 2 ≤ fraction.length

def DecimalNumber.text (x : DecimalNumber) : Bytes := x.whole ++ (x.fraction ++ x.exponent)

/-- A byte in a single-quoted string, by itself or after a backslash. -/
inductive StringByte where
  | plain (b : UInt8) (h : b ∉ [singleQuote, backslash, lineFeed])
  | escaped (b : UInt8) (h : b ≠ lineFeed)

def StringByte.text : StringByte → Bytes
  | .plain b _ => [b]
  | .escaped b _ => [backslash, b]

/-- A single-quoted string that is closed. -/
structure ClosedString where
  body : List StringByte

def ClosedString.text (x : ClosedString) : Bytes :=
  singleQuote :: (x.body.flatMap StringByte.text ++ [singleQuote])

/-! ### Operators -/

/-- A sign in front of an operand. -/
inductive Sign where
  | plus
  | minus
  deriving DecidableEq, Repr

def Sign.kind : Sign → TokenKind
  | .plus => .plus
  | .minus => .minus

def Sign.text : Sign → Bytes
  | .plus => bytes "+"
  | .minus => bytes "-"

/-- The infix operators that are no words. -/
def infixSymbols : List (TokenKind × Bytes) :=
  [(.equal, bytes "=="), (.notEqual, bytes "!="), (.notEqual, bytes "<>"),
    (.equalTilde, bytes "=~"), (.notTilde, bytes "!~"), (.less, bytes "<"), (.greater, bytes ">"),
    (.lessEqual, bytes "<="), (.greaterEqual, bytes ">="), (.plus, bytes "+"),
    (.minus, bytes "-"), (.star, bytes "*"), (.slash, bytes "/"), (.percent, bytes "%")]

/-- The infix operators that are words, without ranges. -/
def infixWords : List Bytes := bytes "or" :: bytes "and" :: stringOperators.erase (bytes "between")

/-- A word that can be negated to an infix operator: any but that of ranges. -/
structure NegatableWord where
  text : Bytes
  letter : Lexeme.startsWith isLetterByte text = true
  word : text.all isWordByte = true ∨ text = bytes "in~"
  plain : text ≠ bytes "between"

/-- An infix operator that is no range. -/
inductive InfixOperator where
  | symbol (kind : TokenKind) (text : Bytes) (h : (kind, text) ∈ infixSymbols)
  | word (text : Bytes) (h : text ∈ infixWords)
  | negated (w : NegatableWord)

/-! ### Expressions -/

inductive Expr where
  | name (x : PlainName)
  | number (x : DecimalNumber)
  | string (x : ClosedString)
  | signed (sign : Sign) (operand : Expr)
  | binary (left : Expr) (op : InfixOperator) (right : Expr)
  | call (f : PlainName) (arguments : List Expr)
  | paren (inner : Expr)

/-- A token to be written, and whether the next one touches it. -/
structure Piece where
  kind : TokenKind
  text : Bytes
  touched : Bool

namespace Piece

/-- A token with a space after it, if another one follows. -/
def apart (kind : TokenKind) (text : Bytes) : Piece := ⟨kind, text, false⟩

/-- What is written between a token and the next one. -/
def gap (x : Piece) : Bytes := if x.touched then [] else [spaceByte]

/-- Tokens in order, with a space between each two that do not touch. -/
def written : List Piece → Bytes
  | [] => []
  | [x] => x.text
  | x :: xs => x.text ++ (x.gap ++ written xs)

end Piece

namespace InfixOperator

def kind : InfixOperator → TokenKind
  | symbol kind _ _ => kind
  | word _ _ => .word
  | negated _ => .negatedWord

/-- The first word or symbol of an operator. -/
def first : InfixOperator → Bytes
  | symbol _ text _ => text
  | word text _ => text
  | negated w => byteOf '!' :: w.text

/-- The only operator of two words is `matches regex`. -/
def second (op : InfixOperator) : List Piece :=
  if op.first = bytes "matches" then [.apart .word (bytes "regex")] else []

def pieces (op : InfixOperator) : List Piece := .apart op.kind op.first :: op.second

def text (op : InfixOperator) : Bytes := Piece.written op.pieces

def level (op : InfixOperator) : Nat := operatorLevel op.text

end InfixOperator

namespace Expr

def opening : Piece := .apart .leftParen (bytes "(")

def closing : Piece := .apart .rightParen (bytes ")")

def comma : Piece := .apart .comma (bytes ",")

mutual

/-- The tokens of an expression, in order. -/
def pieces : Expr → List Piece
  | name x => [.apart .word x.text]
  | number x => [.apart .number x.text]
  | string x => [.apart .string x.text]
  | signed sign operand => .apart sign.kind sign.text :: operand.pieces
  | binary left op right => left.pieces ++ (op.pieces ++ right.pieces)
  | call f arguments => ⟨.word, f.text, true⟩ :: opening :: (listed arguments ++ [closing])
  | paren inner => opening :: (inner.pieces ++ [closing])

/-- The tokens of expressions with a comma between each two. -/
def listed : List Expr → List Piece
  | [] => []
  | [e] => e.pieces
  | e :: es => e.pieces ++ comma :: listed es

end

/-- The text of an expression. -/
def written (e : Expr) : Bytes := Piece.written e.pieces

/-- How tightly an expression is held together: as its operator binds, or tighter if it is none. -/
def level : Expr → Nat
  | binary _ op _ => op.level
  | signed _ _ => 6
  | _ => 7

mutual

/-- Each operator's operands bind as it asks: the left one at least as tightly as the operator, the
    right one tighter, and behind a sign stands no infix operator. -/
def Binds : Expr → Prop
  | name _ | number _ | string _ => True
  | signed _ operand => 6 ≤ operand.level ∧ operand.Binds
  | binary left op right =>
    op.level ≤ left.level ∧ op.level < right.level ∧ left.Binds ∧ right.Binds
  | call _ arguments => AllBind arguments
  | paren inner => inner.Binds

def AllBind : List Expr → Prop
  | [] => True
  | e :: es => e.Binds ∧ AllBind es

end

mutual

instance decidableBinds : ∀ e : Expr, Decidable e.Binds
  | name _ | number _ | string _ => .isTrue True.intro
  | signed _ operand => by
    have := decidableBinds operand
    exact inferInstanceAs (Decidable (_ ∧ _))
  | binary left _ right => by
    have := decidableBinds left
    have := decidableBinds right
    exact inferInstanceAs (Decidable (_ ∧ _ ∧ _ ∧ _))
  | call _ arguments => decidableAllBind arguments
  | paren inner => decidableBinds inner

instance decidableAllBind : ∀ es : List Expr, Decidable (AllBind es)
  | [] => .isTrue True.intro
  | e :: es => by
    have := decidableBinds e
    have := decidableAllBind es
    exact inferInstanceAs (Decidable (_ ∧ _))

end

mutual

/-- How many parentheses, calls and signs there are around a part of an expression at most. -/
def nesting : Expr → Nat
  | name _ | number _ | string _ => 0
  | signed _ operand => operand.nesting + 1
  | binary left _ right => max left.nesting right.nesting
  | call _ arguments => nestingInside arguments
  | paren inner => inner.nesting + 1

/-- The same for the arguments of a call. -/
def nestingInside : List Expr → Nat
  | [] => 0
  | e :: es => max (e.nesting + 1) (nestingInside es)

end

/-- The kind and the text of an expression's first token. -/
def lead : Expr → TokenKind × Bytes
  | name x => (.word, x.text)
  | number x => (.number, x.text)
  | string x => (.string, x.text)
  | signed sign _ => (sign.kind, sign.text)
  | binary left _ _ => left.lead
  | call f _ => (.word, f.text)
  | paren _ => (.leftParen, bytes "(")

/-- A node without places that begins with a token. -/
def nodeFrom (lead : TokenKind × Bytes) (form : Form) (children : List Node) : Node :=
  .mk .none form ⟨0, 0⟩ ⟨lead.1, lead.2, .start, 0⟩ children

mutual

/-- The tree of an expression, without places. -/
def node : Expr → Node
  | name x => nodeFrom (.word, x.text) (.nameReference x.text .unknown) []
  | number x => nodeFrom (.number, x.text) .literal []
  | string x => nodeFrom (.string, x.text) .literal []
  | signed sign operand =>
    nodeFrom (sign.kind, sign.text) (.unary sign.text) [operand.node.inSlot .expression]
  | binary left op right =>
    nodeFrom left.lead (.binary op.text) [left.node.inSlot .left, right.node.inSlot .right]
  | call f arguments => nodeFrom (.word, f.text) (.functionCall f.text) (argumentNodes arguments)
  | paren inner =>
    nodeFrom (.leftParen, bytes "(") .parenthesized [inner.node.inSlot .expression]

/-- The trees of the arguments of a call. -/
def argumentNodes : List Expr → List Node
  | [] => []
  | e :: es => e.node.inSlot .argument :: argumentNodes es

end

/-- The tree of a text that is an expression, without places. -/
def query (e : Expr) : Node :=
  nodeFrom e.lead .query
    [(nodeFrom e.lead .expressionStatement [e.node.inSlot .expression]).inSlot .statement]

end Expr
end KustoFacts
