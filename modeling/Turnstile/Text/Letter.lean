/-! Letters and digits of the scripts in common use. -/

namespace Turnstile

/-- Whether a character is a letter or digit: exactly in ASCII, by whole ranges beyond it. -/
def isLetterOrDigit (c : Char) : Bool :=
  let n := c.toNat
  c.isAlphanum || (0xC0 ≤ n && n ≤ 0x24F && n ≠ 0xD7 && n ≠ 0xF7) || (0x370 ≤ n && n < 0x1680) ||
    (0x3041 ≤ n && n ≤ 0xD7A3)

end Turnstile
