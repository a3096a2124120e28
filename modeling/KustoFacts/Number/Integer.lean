import KustoFacts.Number.Power
import KustoFacts.Text.Bytes

/-!
    Integers as text. An integer is spelled in a given base, or as a literal, whose beginning names
    the base: `0b`, `0o` and `0x` for two, eight and sixteen, a leading zero for eight, and ten
    otherwise. In a literal an underscore may stand between two digits and after the base. Values
    fit into 64 bits; of two faults in one text, the one met first from the left is reported. -/

namespace KustoFacts

/-- Why a text is not an integer. -/
inductive IntegerFault where
  | malformed
  | outOfRange
  deriving DecidableEq, Repr

/-- The wording of a fault. -/
def IntegerFault.message : IntegerFault → Bytes
  | .malformed => bytes "invalid syntax"
  | .outOfRange => bytes "value out of range"

/-- How an integer is spelled. -/
inductive Spelling where
  | literal
  | inBase (base : Nat)
  deriving DecidableEq, Repr

/-- The value of a digit of any base up to 36. -/
def digitValue? (b : UInt8) : Option Nat :=
  let b := lowerByte b
  if isDigit b then some (b.toNat - 0x30)
  else if isLower b then some (b.toNat - 0x57)
  else none

/-- Digits read from the left onto the number read so far. -/
def readDigits (base : Nat) : Nat → Bytes → Except IntegerFault Nat
  | n, [] => .ok n
  | n, b :: rest =>
    match digitValue? b with
    | none => .error .malformed
    | some d =>
      if base ≤ d then .error .malformed
      else if wordCount ≤ base * n + d then .error .outOfRange
      else readDigits base (base * n + d) rest

/-! ### Literals -/

/-- The underscore, which divides the digits of a literal. -/
def underscore : UInt8 := byteOf '_'

/-- The base that a letter after a zero names. -/
def namedBase? (b : UInt8) : Option Nat :=
  let b := lowerByte b
  if b = byteOf 'b' then some 2
  else if b = byteOf 'o' then some 8
  else if b = byteOf 'x' then some 16
  else none

/-- The base of a literal and its digits. -/
def literalDigits : Bytes → Nat × Bytes
  | [] => (10, [])
  | z :: rest =>
    if z ≠ byteOf '0' then (10, z :: rest)
    else
      match rest with
      | letter :: d :: more =>
        match namedBase? letter with
        | some base => (base, d :: more)
        | none => (8, rest)
      | _ => (8, rest)

/-- What stood before a byte of a literal. -/
inductive Before where
  | nothing
  | digit
  | divider
  | other
  deriving DecidableEq, Repr

/-- What stands before the next byte. -/
def Before.step (hex : Bool) (before : Option Before) (b : UInt8) : Option Before :=
  before.bind fun seen =>
    if isDigit b || (hex && (hexValue? b).isSome) then some .digit
    else if b = underscore then (if seen = .digit then some .divider else none)
    else if seen = .divider then none
    else some .other

/-- Whether the underscores of a number without its sign divide digits; the name of a base counts
    as a digit. -/
def dividersFit (text : Bytes) : Bool :=
  let fits (hex : Bool) (start : Before) (rest : Bytes) : Bool :=
    match rest.foldl (Before.step hex) (some start) with
    | none | some .divider => false
    | _ => true
  match text with
  | z :: letter :: rest =>
    match (if z = byteOf '0' then namedBase? letter else none) with
    | some base => fits (base = 16) .digit rest
    | none => fits false .nothing text
  | _ => fits false .nothing text

/-! ### Reading -/

namespace Spelling

/-- The number without sign that a text spells. -/
def magnitude : Spelling → Bytes → Except IntegerFault Nat
  | _, [] => .error .malformed
  | .inBase base, text => readDigits base 0 text
  | .literal, text => do
    let (base, digits) := literalDigits text
    let n ← readDigits base 0 (digits.filter (· ≠ underscore))
    if text.contains underscore && !dividersFit text then throw .malformed
    return n

/-- The number with or without sign that a text spells; it fits into 64 bits, one of which is the
    sign. -/
def signed (spelling : Spelling) (text : Bytes) : Except IntegerFault Int :=
  let (negative, digits) :=
    match text with
    | b :: rest =>
      if b = byteOf '-' then (true, rest) else if b = byteOf '+' then (false, rest)
      else (false, text)
    | [] => (false, [])
  match spelling.magnitude digits with
  | .error e => .error e
  | .ok n =>
    if negative then (if halfWordCount < n then .error .outOfRange else .ok (-(n : Int)))
    else if halfWordCount ≤ n then .error .outOfRange
    else .ok n

end Spelling
end KustoFacts
