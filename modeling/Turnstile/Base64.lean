import Turnstile.Text.Utf8

/-! Base64 without padding, over any alphabet of sixty-four symbols. -/

namespace Turnstile.Base64

/-- The symbols for the values 0 to 63, in order. -/
structure Alphabet where
  symbols : List Char

def urlSafe : Alphabet :=
  ⟨"ABCDEFGHIJKLMNOPQRSTUVWXYZabcdefghijklmnopqrstuvwxyz0123456789-_".toList⟩

def bcrypt : Alphabet :=
  ⟨"./ABCDEFGHIJKLMNOPQRSTUVWXYZabcdefghijklmnopqrstuvwxyz0123456789".toList⟩

inductive Fault where
  /-- A byte that is no symbol. -/
  | symbol (byte : UInt8) (offset : Nat)
  /-- A last symbol with bits set beyond the last byte. -/
  | lastSymbol (byte : UInt8) (offset : Nat)
  /-- A padding sign in a place where padding could stand. -/
  | padding
  /-- A single symbol left over. -/
  | length
  deriving Repr, DecidableEq

def Fault.message : Fault → String
  | .symbol b i => s!"Invalid symbol {b}, offset {i}."
  | .lastSymbol b i => s!"Invalid last symbol {b}, offset {i}."
  | .padding => "Invalid padding"
  | .length => "Invalid input length"

namespace Alphabet

variable (a : Alphabet)

def symbol (n : Nat) : Char :=
  a.symbols.getD (n % 64) 'A'

/-- The symbols for some bytes, three bytes to four symbols. -/
def encodeChars : Bytes → List Char
  | [] => []
  | [x] =>
    let n := x.toNat <<< 4
    [a.symbol (n >>> 6), a.symbol n]
  | [x, y] =>
    let n := (x.toNat <<< 8 + y.toNat) <<< 2
    [a.symbol (n >>> 12), a.symbol (n >>> 6), a.symbol n]
  | x :: y :: z :: rest =>
    let n := x.toNat <<< 16 + y.toNat <<< 8 + z.toNat
    a.symbol (n >>> 18) :: a.symbol (n >>> 12) :: a.symbol (n >>> 6) :: a.symbol n ::
      encodeChars rest

def encode (b : Bytes) : String :=
  String.ofList (a.encodeChars b)

def value (byte : UInt8) (offset : Nat) : Except Fault Nat :=
  match a.symbols.findIdx? fun c => c.toNat = byte.toNat with
  | some v => .ok v
  | none => .error (.symbol byte offset)

/-- The bytes encoded by a text that starts at `offset`. Bits of the last symbol that belong to
no byte must be zero. -/
def decodeFrom (offset : Nat) : Bytes → Except Fault Bytes
  | [] => .ok []
  | [_] => .error .length
  | [p, q] => do
    let v ← a.value p offset
    let w ← a.value q (offset + 1)
    let n := v <<< 6 + w
    if n % 16 ≠ 0 then throw (.lastSymbol q (offset + 1))
    return [UInt8.ofNat (n >>> 4)]
  | [p, q, r] => do
    let v ← a.value p offset
    let w ← a.value q (offset + 1)
    if r = '='.toNat.toUInt8 then throw .padding
    let x ← a.value r (offset + 2)
    let n := v <<< 12 + w <<< 6 + x
    if n % 4 ≠ 0 then throw (.lastSymbol r (offset + 2))
    return [UInt8.ofNat (n >>> 10), UInt8.ofNat (n >>> 2)]
  | p :: q :: r :: s :: rest => do
    let v ← a.value p offset
    let w ← a.value q (offset + 1)
    let x ← a.value r (offset + 2)
    let y ← a.value s (offset + 3)
    let n := v <<< 18 + w <<< 12 + x <<< 6 + y
    let tail ← decodeFrom (offset + 4) rest
    return UInt8.ofNat (n >>> 16) :: UInt8.ofNat (n >>> 8) :: UInt8.ofNat n :: tail

def decode (text : Bytes) : Except Fault Bytes :=
  a.decodeFrom 0 text

end Alphabet

end Turnstile.Base64
