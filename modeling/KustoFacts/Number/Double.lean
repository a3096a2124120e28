import KustoFacts.Number.Power
import KustoFacts.Text.Bytes

/-!
    Numbers in double precision. A finite one is a whole number of units of a power of two, so that
    rounding a ratio, cutting off a fraction and finding the shortest decimal are exact arithmetic
    on natural numbers. -/

namespace KustoFacts

/-- A number in double precision. -/
inductive Double where
  | nan
  | infinite (negative : Bool)
  /-- The mantissa times a power of two. -/
  | finite (negative : Bool) (mantissa : Nat) (exponent : Int)
  deriving DecidableEq, Repr

namespace Double

/-- The exponent of the finest unit. -/
def minExponent : Int := -1074

/-- The exponent of the coarsest unit. -/
def maxExponent : Int := 971

/-- A ratio in units of a power of two, again as numerator and denominator. -/
def inUnits (num den : Nat) (exponent : Int) : Nat × Nat :=
  if 0 ≤ exponent then (num, den * twoTo exponent.toNat) else (num * twoTo (-exponent).toNat, den)

/-- The whole number nearest to a ratio; a half goes to the even neighbour. -/
def nearest (num den : Nat) : Nat :=
  let q := num / den
  let r := num % den
  if 2 * r < den then q else if den < 2 * r then q + 1 else q + q % 2

/-- The exponent of the unit in which a positive ratio has 53 bits, or the finest one. -/
def unitExponent (num den : Nat) : Int :=
  let wanted : Int := (num.log2 : Int) - den.log2 - 53
  let guess := if wanted < minExponent then minExponent else wanted
  let (n, d) := inUnits num den guess
  if twoTo 53 ≤ n / d then guess + 1 else guess

/-- The double nearest to a ratio; `none` when it is too great. -/
def ofRatio? (negative : Bool) (num den : Nat) : Option Double :=
  if num = 0 then some (.finite negative 0 minExponent)
  else
    let exponent := unitExponent num den
    let (n, d) := inUnits num den exponent
    let m := nearest n d
    let (m, exponent) := if m = twoTo 53 then (twoTo 52, exponent + 1) else (m, exponent)
    if maxExponent < exponent then none else some (.finite negative m exponent)

/-- The double nearest to `digits * 10 ^ exponent`; `none` when it is too great. Beyond 400 places
    on either side the answer is known without arithmetic. -/
def ofDecimal? (negative : Bool) (digits : Nat) (exponent : Int) : Option Double :=
  let places : Int := (decimal digits).length + exponent
  if digits = 0 || places < -400 then some (.finite negative 0 minExponent)
  else if 400 < places then none
  else if 0 ≤ exponent then ofRatio? negative (digits * tenTo exponent.toNat) 1
  else ofRatio? negative digits (tenTo (-exponent).toNat)

/-- Whether a number differs from zero. -/
def isNonzero : Double → Bool
  | .finite _ mantissa _ => mantissa ≠ 0
  | _ => true

/-! ### Whole numbers -/

/-- The least integer of 64 bits, which stands for every number outside of their range. -/
def outside : Int := -(halfWordCount : Int)

/-- A number without its fraction, as an integer of 64 bits. -/
def toInt64 : Double → Int
  | .nan | .infinite _ => outside
  | .finite negative mantissa exponent =>
    let whole : Nat :=
      if 0 ≤ exponent then mantissa * twoTo exponent.toNat else mantissa / twoTo (-exponent).toNat
    let n : Int := if negative then -(whole : Int) else whole
    if n < outside || (halfWordCount : Int) ≤ n then outside else n

/-! ### The shortest decimal -/

/-- The reals that round to a double, between two bounds that count or not, and the double itself;
    all in units of a common denominator. -/
structure Neighbourhood where
  low : Nat
  value : Nat
  high : Nat
  den : Nat
  closed : Bool

/-- The neighbourhood of a positive double. -/
def neighbourhood (mantissa : Nat) (exponent : Int) : Neighbourhood :=
  let (unit, den) := inUnits 1 1 (2 - exponent)
  let below := if mantissa = twoTo 52 && minExponent < exponent then 1 else 2
  ⟨(4 * mantissa - below) * unit, 4 * mantissa * unit, (4 * mantissa + 2) * unit, den,
    mantissa % 2 = 0⟩

/-- The multiple of a power of ten in a neighbourhood that is nearest to its value. -/
def Neighbourhood.gridPoint? (n : Neighbourhood) (place : Int) : Option Nat :=
  let (step, scale) := if 0 ≤ place then (tenTo place.toNat, 1) else (1, tenTo (-place).toNat)
  let unit := step * n.den
  let inside (g : Nat) : Bool :=
    let x := g * unit
    if n.closed then n.low * scale ≤ x && x ≤ n.high * scale
    else n.low * scale < x && x < n.high * scale
  let value := n.value * scale
  let g := value / unit
  let r := value % unit
  let (first, second) := if 2 * r ≤ unit then (g, g + 1) else (g + 1, g)
  if inside first then some first else if inside second then some second else none

/-- The coarsest grid of powers of ten, from `place` on and for `steps` places down, that has a
    point in a neighbourhood, with that point. -/
def Neighbourhood.coarsest (n : Neighbourhood) : (steps : Nat) → (place : Int) → Nat × Int
  | 0, place => (0, place)
  | steps + 1, place =>
    match n.gridPoint? place with
    | some g => (g, place)
    | none => n.coarsest steps (place - 1)

/-- The fewest digits that read back as a positive double, and the place of the last one. -/
def shortest (mantissa : Nat) (exponent : Int) : Nat × Int :=
  (neighbourhood mantissa exponent).coarsest 650 310

/-- Digits written out positionally. -/
def positional (digits : Nat) (place : Int) : Bytes :=
  let zeros (n : Nat) : Bytes := List.replicate n (byteOf '0')
  let text := decimal digits
  if 0 ≤ place then text ++ zeros place.toNat
  else
    let fraction := (-place).toNat
    let text := zeros (fraction + 1 - text.length) ++ text
    text.take (text.length - fraction) ++ byteOf '.' :: text.drop (text.length - fraction)

/-- The text of a number: the fewest digits that read back, without an exponent. -/
def text : Double → Bytes
  | .nan => bytes "NaN"
  | .infinite negative => bytes (if negative then "-Inf" else "+Inf")
  | .finite negative mantissa exponent =>
    let digits :=
      if mantissa = 0 then bytes "0"
      else
        let (g, place) := shortest mantissa exponent
        positional g place
    if negative then byteOf '-' :: digits else digits

end Double
end KustoFacts
