import Adventure.Text.Numeral

namespace Adventure.Bytes

/-- The two digits of a byte, in small letters. -/
def hexPair (b : UInt8) : List Char :=
  [Nat.digitChar (b.toNat / 16), Nat.digitChar (b.toNat % 16)]

def toHex (bytes : List UInt8) : List Char := bytes.flatMap hexPair

/-- The bytes of digits, after those of `gathered`, which are last first. -/
def ofHexFrom (gathered : List UInt8) : List Char → Option (List UInt8)
  | [] => some gathered.reverse
  | high :: low :: rest =>
    match Text.digits? 16 0 [high, low] with
    | some value => ofHexFrom (UInt8.ofNat value :: gathered) rest
    | none => none
  | [_] => none

/-- The bytes of digits, of which each byte has two. -/
def ofHex? (digits : List Char) : Option (List UInt8) := ofHexFrom [] digits

end Adventure.Bytes
