import Turnstile.Text.Hex

/-! Random identifiers. -/

namespace Turnstile

abbrev Draw := Vector UInt8 16

/-- The version 4 identifier made from a draw: version and variant replace the bits drawn there. -/
def uuidBytes (d : Draw) : Bytes :=
  ((d.set 6 ((d[6] &&& 0x0f) ||| 0x40)).set 8 ((d[8] &&& 0x3f) ||| 0x80)).toList

/-- The version 4 identifier made from a draw, as 32 lowercase hexadecimal digits. -/
def tokenIdOf (d : Draw) : String :=
  hex (uuidBytes d)

end Turnstile
