import Turnstile.Bcrypt.Pi

/-! The Blowfish cipher and its costly key schedule. -/

namespace Turnstile.Bcrypt

/-- The cipher's words: eighteen subkeys, then four boxes of 256 words. -/
abbrev Cipher := Array UInt32

def initialCipher : Cipher :=
  piWords 1042

/-- The mixing function: one word from each box, chosen by the bytes of `x`. -/
@[inline] def mix (c : Cipher) (x : UInt32) : UInt32 :=
  let a := c.getD (18 + (x >>> 24).toNat) 0
  let b := c.getD (274 + ((x >>> 16) &&& 0xff).toNat) 0
  let d := c.getD (530 + ((x >>> 8) &&& 0xff).toNat) 0
  let e := c.getD (786 + (x &&& 0xff).toNat) 0
  ((a + b) ^^^ d) + e

/-- `n` rounds from round `i`, then the last two subkeys; the halves come back in one word. -/
def rounds (c : Cipher) : Nat → Nat → UInt32 → UInt32 → UInt64
  | 0, _, l, r =>
    let left := r ^^^ c.getD 17 0
    let right := l ^^^ c.getD 16 0
    (left.toUInt64 <<< 32) ||| right.toUInt64
  | n + 1, i, l, r =>
    let l' := l ^^^ c.getD i 0
    rounds c n (i + 1) (r ^^^ mix c l') l'

/-- One block enciphered, as two halves in one word. -/
def encipher (c : Cipher) (l r : UInt32) : UInt64 :=
  rounds c 16 0 l r

/-- Replaces `n` pairs of words from word `i` on, each by the cipher of the one before mixed with
two words of the salt. -/
def refill (salt : Vector UInt32 4) : Nat → Nat → UInt32 → UInt32 → Cipher → Cipher
  | 0, _, _, _, c => c
  | n + 1, i, l, r, c =>
    let x := encipher c (l ^^^ salt[i % 4]) (r ^^^ salt[(i + 1) % 4])
    let l' := (x >>> 32).toUInt32
    let r' := x.toUInt32
    refill salt n (i + 2) l' r' ((c.setIfInBounds i l').setIfInBounds (i + 1) r')

/-- Mixes the eighteen words of a key into the subkeys. -/
def addKey (key : Array UInt32) : Nat → Cipher → Cipher
  | 0, c => c
  | n + 1, c => addKey key n (c.modify n (· ^^^ key.getD n 0))

def expand (key : Array UInt32) (salt : Vector UInt32 4) (c : Cipher) : Cipher :=
  refill salt 521 0 0 0 (addKey key 18 c)

/-- `n` repetitions of a step with the key and a step with the salt as key. -/
def strengthen (key saltKey : Array UInt32) : Nat → Cipher → Cipher
  | 0, c => c
  | n + 1, c => strengthen key saltKey n (expand saltKey #v[0, 0, 0, 0] (expand key #v[0, 0, 0, 0] c))

def encipherTimes (c : Cipher) : Nat → UInt64 → UInt64
  | 0, x => x
  | n + 1, x => encipherTimes c n (encipher c (x >>> 32).toUInt32 x.toUInt32)

end Turnstile.Bcrypt
