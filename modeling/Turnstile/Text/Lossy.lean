import Turnstile.Text.Utf8

/-! Bytes read as UTF-8 with a replacement character for what is none. -/

namespace Turnstile

/-- A character begun: the range of its next byte, the bytes to come after that one, and the code
point so far. -/
structure Begun where
  low : UInt8
  high : UInt8
  left : Nat
  code : Nat
  deriving Repr, DecidableEq

/-- What one byte at the start of a character does: what it adds, and the character it begins. -/
def beginChar (b : UInt8) : List Char × Option Begun :=
  let n := b.toNat
  if n < 0x80 then ([Char.ofNat n], none)
  else if 0xC2 ≤ n ∧ n ≤ 0xDF then ([], some ⟨0x80, 0xBF, 0, n - 0xC0⟩)
  else if n = 0xE0 then ([], some ⟨0xA0, 0xBF, 1, 0⟩)
  else if n = 0xED then ([], some ⟨0x80, 0x9F, 1, 0xD⟩)
  else if 0xE1 ≤ n ∧ n ≤ 0xEF then ([], some ⟨0x80, 0xBF, 1, n - 0xE0⟩)
  else if n = 0xF0 then ([], some ⟨0x90, 0xBF, 2, 0⟩)
  else if 0xF1 ≤ n ∧ n ≤ 0xF3 then ([], some ⟨0x80, 0xBF, 2, n - 0xF0⟩)
  else if n = 0xF4 then ([], some ⟨0x80, 0x8F, 2, 4⟩)
  else (['\uFFFD'], none)

/-- The characters of some bytes; each longest part that could have become a character but did not
is replaced by one replacement character. -/
def lossyChars : Option Begun → Bytes → List Char
  | none, [] => []
  | some _, [] => ['\uFFFD']
  | none, b :: rest =>
    let (out, begun) := beginChar b
    out ++ lossyChars begun rest
  | some p, b :: rest =>
    if p.low ≤ b ∧ b ≤ p.high then
      let code := p.code * 64 + (b.toNat - 0x80)
      match p.left with
      | 0 => Char.ofNat code :: lossyChars none rest
      | left + 1 => lossyChars (some ⟨0x80, 0xBF, left, code⟩) rest
    else
      let (out, begun) := beginChar b
      '\uFFFD' :: out ++ lossyChars begun rest

def lossyText (b : Bytes) : String :=
  String.ofList (lossyChars none b)

end Turnstile
