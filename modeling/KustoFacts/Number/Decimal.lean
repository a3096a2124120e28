import KustoFacts.Number.Double

/-!
    Decimals as text: a sign, digits with or without a point, and a power of ten. -/

namespace KustoFacts

/-- A decimal: its sign, its digits as one number, and the power of ten of the last one. -/
structure Decimal where
  negative : Bool
  digits : Nat
  exponent : Int
  deriving DecidableEq, Repr

namespace Decimal

/-- A sign, if there is one, and the text after it. -/
def sign : Bytes → Bool × Bytes
  | [] => (false, [])
  | b :: rest =>
    if b = byteOf '-' then (true, rest) else if b = byteOf '+' then (false, rest)
    else (false, b :: rest)

/-- The power of ten at the end of a decimal; without one it is zero. -/
def readExponent? : Bytes → Option Int
  | [] => some 0
  | e :: rest =>
    let (negative, digits) := sign rest
    if lowerByte e = byteOf 'e' && !digits.isEmpty && digits.all isDigit then
      let n : Int := ofDecimalDigits digits
      some (if negative then -n else n)
    else none

/-- The decimal a text spells. There is a digit before the point or after it. -/
def read? (text : Bytes) : Option Decimal :=
  let (negative, text) := sign text
  let whole := text.takeWhile isDigit
  let rest := text.dropWhile isDigit
  let (fraction, rest) :=
    match rest with
    | b :: more =>
      if b = byteOf '.' then (more.takeWhile isDigit, more.dropWhile isDigit) else ([], rest)
    | [] => ([], [])
  if whole.isEmpty && fraction.isEmpty then none
  else
    (readExponent? rest).map fun exponent =>
      ⟨negative, ofDecimalDigits (whole ++ fraction), exponent - fraction.length⟩

/-- The double nearest to a decimal; `none` when it is too great. -/
def toDouble? (d : Decimal) : Option Double := Double.ofDecimal? d.negative d.digits d.exponent

end Decimal
end KustoFacts
