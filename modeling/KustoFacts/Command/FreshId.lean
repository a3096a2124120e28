import KustoFacts.Text.Bytes

/-!
    Ids drawn at random: 128 bits, of which six say that the rest is random, in hexadecimal digits
    with hyphens between the groups. -/

namespace KustoFacts.FreshId

/-- Random bytes with the six fixed bits set. -/
def stamped (random : Bytes) : Bytes :=
  random.zipIdx.map fun (b, i) =>
    if i = 6 then b % 0x10 + 0x40 else if i = 8 then b % 0x40 + 0x80 else b

/-- The text of an id of sixteen bytes. -/
def text (random : Bytes) : Bytes :=
  let hex (part : Bytes) : Bytes := part.flatMap fun b => hexPadded 2 b.toNat
  let id := stamped random
  Bytes.joinWith (bytes "-")
    [hex (id.slice 0 4), hex (id.slice 4 6), hex (id.slice 6 8), hex (id.slice 8 10),
      hex (id.slice 10 16)]

end KustoFacts.FreshId
