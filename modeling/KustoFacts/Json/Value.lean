import KustoFacts.Text.Utf8

/-!
    JSON values and their compact text. The members of an object keep the order they were given in,
    and a number keeps its spelling. Writing is governed by a style, which says whether the
    characters of markup are escaped and which control characters have letters of their own. -/

namespace KustoFacts

/-- A JSON value. -/
inductive Json where
  | null
  | bool (b : Bool)
  | number (literal : Bytes)
  | string (text : Bytes)
  | array (items : List Json)
  | object (members : List (Bytes × Json))
  deriving Repr

namespace Json

/-- An integer as a value. -/
def ofInt (n : Int) : Json := .number (decimalInt n)

/-- A natural number as a value. -/
def ofNat (n : Nat) : Json := .number (decimal n)

/-- The member of an object with a given name; the last one if there are several. -/
def member? (v : Json) (name : Bytes) : Option Json :=
  match v with
  | .object members => members.reverse.lookup name
  | _ => none

/-! ### Writing -/

/-- How strings are escaped. -/
structure Style where
  /-- Whether `<`, `>` and `&` are written as escapes. -/
  markup : Bool
  /-- Whether backspace and form feed are written with a letter. -/
  letters : Bool

/-- Results escape markup and give backspace and form feed a letter. -/
def Style.result : Style := ⟨true, true⟩

/-- Log lines leave markup alone and write backspace and form feed by number. -/
def Style.log : Style := ⟨false, false⟩

/-- An escape with four hexadecimal digits. -/
def numberEscape (code : Nat) : Bytes := bytes "\\u" ++ hexPadded 4 code

/-- One unit inside a string. -/
def Style.unit (style : Style) : Glyph → Bytes
  | .stray _ => numberEscape Utf8.replacement
  | .char code =>
    if code = doubleQuote.toNat || code = backslash.toNat then [backslash, code.toUInt8]
    else if code = 0x0A then bytes "\\n"
    else if code = 0x0D then bytes "\\r"
    else if code = 0x09 then bytes "\\t"
    else if style.letters && code = 0x08 then bytes "\\b"
    else if style.letters && code = 0x0C then bytes "\\f"
    else if code < 0x20 || code = 0x2028 || code = 0x2029 then numberEscape code
    else if style.markup && (code = 0x3C || code = 0x3E || code = 0x26) then numberEscape code
    else Utf8.encode code

/-- A string with its quotes. -/
def Style.string (style : Style) (text : Bytes) : Bytes :=
  doubleQuote :: (Utf8.glyphs text).flatMap style.unit ++ [doubleQuote]

mutual

/-- The compact text of a value. -/
def render (style : Style) : Json → Bytes
  | .null => bytes "null"
  | .bool true => bytes "true"
  | .bool false => bytes "false"
  | .number literal => literal
  | .string text => style.string text
  | .array items => bytes "[" ++ renderItems style items ++ bytes "]"
  | .object members => bytes "\x7b" ++ renderMembers style members ++ bytes "\x7d"

/-- Values with a comma between each two. -/
def renderItems (style : Style) : List Json → Bytes
  | [] => []
  | [v] => v.render style
  | v :: w :: rest => v.render style ++ bytes "," ++ renderItems style (w :: rest)

/-- Members with a comma between each two. -/
def renderMembers (style : Style) : List (Bytes × Json) → Bytes
  | [] => []
  | [(name, v)] => style.string name ++ bytes ":" ++ v.render style
  | (name, v) :: m :: rest =>
    style.string name ++ bytes ":" ++ v.render style ++ bytes "," ++ renderMembers style (m :: rest)

end

end Json
end KustoFacts
