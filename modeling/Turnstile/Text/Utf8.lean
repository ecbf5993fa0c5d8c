/-! Text as UTF-8 bytes. -/

namespace Turnstile

abbrev Bytes := List UInt8

def utf8 (s : String) : Bytes :=
  s.toUTF8.data.toList

/-- The text whose UTF-8 bytes are `b`, if there is one. -/
def ofUtf8? (b : Bytes) : Option String :=
  String.fromUTF8? ⟨b.toArray⟩

end Turnstile
