import Turnstile.Digest.Roots
import Turnstile.Text.Utf8

/-! SHA-2 over 32-bit and 64-bit words. -/

namespace Turnstile.Sha2

/-- The word size and mixing amounts shared by the hashes of one word size. -/
structure Family where
  wordBits : Nat
  rounds : Nat
  /-- Rotations mixing the first working word. -/
  sum0 : Nat × Nat × Nat
  /-- Rotations mixing the fifth working word. -/
  sum1 : Nat × Nat × Nat
  /-- Two rotations and a shift for the schedule word fifteen back. -/
  spread0 : Nat × Nat × Nat
  /-- Two rotations and a shift for the schedule word two back. -/
  spread1 : Nat × Nat × Nat

def narrow : Family :=
  ⟨32, 64, (2, 13, 22), (6, 11, 25), (7, 18, 3), (17, 19, 10)⟩

def wide : Family :=
  ⟨64, 80, (28, 34, 39), (14, 18, 41), (1, 8, 7), (19, 61, 6)⟩

/-- A hash of a family: its initial value and how many words of the final value it keeps. -/
structure Hash where
  family : Family
  initial : Vector (BitVec family.wordBits) 8
  digestWords : Nat

/-- The top bits of a 64-bit fraction, as a word. -/
def word (w : Nat) (fraction : Nat) : BitVec w :=
  BitVec.ofNat w (fraction >>> (64 - w))

def initialFrom (w : Nat) (primes : List Nat) : Vector (BitVec w) 8 :=
  Vector.ofFn fun i => word w (rootFraction 2 (primes.getD i 0))

def roundFractions : List Nat :=
  firstPrimes.map (rootFraction 3)

def sha256 : Hash := ⟨narrow, initialFrom _ firstPrimes, 8⟩

def sha384 : Hash := ⟨wide, initialFrom _ (firstPrimes.drop 8), 6⟩

def sha512 : Hash := ⟨wide, initialFrom _ firstPrimes, 8⟩

namespace Family

variable (f : Family)

def constants : List (BitVec f.wordBits) :=
  (roundFractions.take f.rounds).map (word f.wordBits)

def rotations (r : Nat × Nat × Nat) (x : BitVec f.wordBits) : BitVec f.wordBits :=
  x.rotateRight r.1 ^^^ x.rotateRight r.2.1 ^^^ x.rotateRight r.2.2

def spread (r : Nat × Nat × Nat) (x : BitVec f.wordBits) : BitVec f.wordBits :=
  x.rotateRight r.1 ^^^ x.rotateRight r.2.1 ^^^ (x >>> r.2.2)

/-- The schedule word that follows the sixteen words of a window. -/
def scheduled (window : Vector (BitVec f.wordBits) 16) : BitVec f.wordBits :=
  window[0] + f.spread f.spread0 window[1] + window[9] + f.spread f.spread1 window[14]

def advance (window : Vector (BitVec f.wordBits) 16) : Vector (BitVec f.wordBits) 16 :=
  (window.eraseIdx 0).push (f.scheduled window)

/-- One round, with round constant `k` and schedule word `w`. -/
def round (s : Vector (BitVec f.wordBits) 8) (k w : BitVec f.wordBits) :
    Vector (BitVec f.wordBits) 8 :=
  let choice := (s[4] &&& s[5]) ^^^ (~~~s[4] &&& s[6])
  let majority := (s[0] &&& s[1]) ^^^ (s[0] &&& s[2]) ^^^ (s[1] &&& s[2])
  let t1 := s[7] + f.rotations f.sum1 s[4] + choice + k + w
  let t2 := f.rotations f.sum0 s[0] + majority
  #v[t1 + t2, s[0], s[1], s[2], s[3] + t1, s[4], s[5], s[6]]

/-- The rounds for the given constants, from a schedule window. -/
def runRounds : List (BitVec f.wordBits) → Vector (BitVec f.wordBits) 16 →
    Vector (BitVec f.wordBits) 8 → Vector (BitVec f.wordBits) 8
  | [], _, s => s
  | k :: ks, window, s => runRounds ks (f.advance window) (f.round s k window[0])

def compress (constants : List (BitVec f.wordBits)) (value : Vector (BitVec f.wordBits) 8)
    (block : Vector (BitVec f.wordBits) 16) : Vector (BitVec f.wordBits) 8 :=
  Vector.zipWith (· + ·) value (f.runRounds constants block value)

def wordBytes : Nat := f.wordBits / 8

def blockBytes : Nat := 16 * f.wordBytes

/-- The message followed by a one bit, zeros and its length in bits, to whole blocks. -/
def pad (message : Bytes) : Bytes :=
  let lengthBytes := 2 * f.wordBytes
  let used := message.length + 1 + lengthBytes
  let zeros := (f.blockBytes - used % f.blockBytes) % f.blockBytes
  let bits := (List.range lengthBytes).reverse.map fun i =>
    UInt8.ofNat ((8 * message.length) >>> (8 * i))
  message ++ [0x80] ++ List.replicate zeros 0 ++ bits

def bigEndian (b : Bytes) : BitVec f.wordBits :=
  BitVec.ofNat _ ((b.take f.wordBytes).foldl (fun n x => 256 * n + x.toNat) 0)

def block (b : Bytes) : Vector (BitVec f.wordBits) 16 :=
  Vector.ofFn fun i => f.bigEndian (b.drop (f.wordBytes * i))

def absorb (constants : List (BitVec f.wordBits)) :
    Nat → Bytes → Vector (BitVec f.wordBits) 8 → Vector (BitVec f.wordBits) 8
  | 0, _, value => value
  | n + 1, b, value =>
    absorb constants n (b.drop f.blockBytes) (f.compress constants value (f.block b))

def bytesOf (x : BitVec f.wordBits) : Bytes :=
  (List.range f.wordBytes).reverse.map fun i => UInt8.ofNat (x.toNat >>> (8 * i))

end Family

def Hash.digest (h : Hash) (message : Bytes) : Bytes :=
  let padded := h.family.pad message
  let value := h.family.absorb h.family.constants (padded.length / h.family.blockBytes)
    padded h.initial
  (value.toList.take h.digestWords).flatMap h.family.bytesOf

end Turnstile.Sha2
