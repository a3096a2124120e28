/-!
    Powers of the two bases that numbers are written in, and the bounds of 64 bits. -/

namespace KustoFacts

/-- A power of two. -/
def twoTo (n : Nat) : Nat := Nat.pow 2 n

/-- A power of ten. -/
def tenTo (n : Nat) : Nat := Nat.pow 10 n

/-- The number of values of 64 bits. -/
def wordCount : Nat := 18446744073709551616

/-- The number of values of 64 bits that are negative when one bit is the sign. -/
def halfWordCount : Nat := 9223372036854775808

/-- A number as it stands in 64 bits with sign: greater ones wrap around. -/
def wrapped (n : Int) : Int := Int.bmod n wordCount

end KustoFacts
