import KustoFacts.Number.Decimal
import KustoFacts.Number.Integer
import KustoFacts.Yaml.Timestamp

/-!
    What a plain YAML scalar stands for. The first character tells what is tried: a few spellings
    are looked up, numbers and points in time are recognised by their form, and everything else is
    text. Underscores in a number do not count. -/

namespace KustoFacts.Yaml

/-- What a plain scalar stands for. -/
inductive PlainValue where
  | null
  | bool (b : Bool)
  | int (n : Int)
  | real (d : Double)
  | timestamp
  | text
  deriving DecidableEq, Repr

namespace PlainValue

/-- The spellings that are looked up. -/
def known : List (PlainValue × List String) :=
  [(.null, ["", "~", "null", "Null", "NULL"]),
    (.bool true, ["true", "True", "TRUE"]),
    (.bool false, ["false", "False", "FALSE"]),
    (.real .nan, [".nan", ".NaN", ".NAN"]),
    (.real (.infinite false), [".inf", ".Inf", ".INF", "+.inf", "+.Inf", "+.INF"]),
    (.real (.infinite true), ["-.inf", "-.Inf", "-.INF"])]

/-- The value of a spelling that is looked up. -/
def known? (text : Bytes) : Option PlainValue :=
  known.findSome? fun (v, spellings) =>
    if spellings.any fun s => bytes s = text then some v else none

/-- An integer behind a mark of its base, with a sign between them or not. -/
def marked? (mark : String) (base : Nat) (text : Bytes) : Option Int := do
  let rest ← Bytes.after? (bytes mark) text
  ((Spelling.inBase base).signed rest).toOption

/-- An integer behind a minus sign and a mark of its base. -/
def negativeMarked? (mark : String) (base : Nat) (text : Bytes) : Option Int := do
  let rest ← Bytes.after? (bytes "-" ++ bytes mark) text
  ((Spelling.inBase base).signed (byteOf '-' :: rest)).toOption

/-- The integer a text without underscores spells. -/
def int? (text : Bytes) : Option Int :=
  (Spelling.literal.signed text).toOption
    <|> ((Spelling.literal.magnitude text).toOption.map Int.ofNat)

/-- The number of another form a text without underscores spells. -/
def number? (text : Bytes) : Option PlainValue :=
  ((int? text).map .int)
    <|> ((Decimal.read? text).bind Decimal.toDouble? |>.map .real)
    <|> ((marked? "0b" 2 text <|> negativeMarked? "0b" 2 text
      <|> marked? "0o" 8 text <|> negativeMarked? "0o" 8 text).map .int)

/-- The value of a scalar that begins with a digit or a sign. -/
def numeric (text : Bytes) : PlainValue :=
  if Timestamp.isTimestamp text then .timestamp
  else (number? (text.filter (· ≠ underscore))).getD .text

/-- The value of a scalar that begins with a point. -/
def pointed (text : Bytes) : PlainValue :=
  if text.contains underscore && !dividersFit text then .text
  else
    (((Decimal.read? (text.filter (· ≠ underscore))).bind Decimal.toDouble?).map .real).getD .text

/-- What a plain scalar stands for. -/
def ofText (text : Bytes) : PlainValue :=
  match text with
  | [] => .null
  | b :: _ =>
    if isDigit b || b = byteOf '+' || b = byteOf '-' then (known? text).getD (numeric text)
    else if b = byteOf '.' then (known? text).getD (pointed text)
    else if (bytes "yYnNtTfFoO~").contains b then (known? text).getD .text
    else .text

end PlainValue

/-! ### Spellings that other readers take for something else -/

/-- The spellings that were truth values in an earlier version of the format. -/
def isOldBool (text : Bytes) : Bool :=
  ["y", "Y", "yes", "Yes", "YES", "on", "On", "ON", "n", "N", "no", "No", "NO", "off", "Off",
    "OFF"].any fun s => bytes s = text

/-- Whether a text is one or two digits of a base of sixty. -/
def isSixtieth : Bytes → Bool
  | [d] => isDigit d
  | [t, d] => 0x30 ≤ t && t ≤ 0x35 && isDigit d
  | _ => false

/-- Whether a text is a number in a base of sixty, its places divided by colons. -/
def isBaseSixty (text : Bytes) : Bool :=
  let isPart (b : UInt8) : Bool := isDigit b || b = underscore
  let (_, text) := Decimal.sign text
  let whole := text.takeWhile fun b => isPart b || b = byteOf ':'
  let rest := text.dropWhile fun b => isPart b || b = byteOf ':'
  let fraction :=
    match rest with
    | [] => true
    | p :: more => p = byteOf '.' && more.all isPart
  match Bytes.splitOn (byteOf ':') whole with
  | (d :: first) :: second :: more =>
    isDigit d && first.all isPart && (second :: more).all isSixtieth && fraction
  | _ => false

end KustoFacts.Yaml
