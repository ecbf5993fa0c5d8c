import Turnstile.Base64
import Turnstile.Uuid
import Turnstile.Text.Integer
import Turnstile.Bcrypt.Blowfish

/-! Password hashes in the bcrypt format. -/

namespace Turnstile.Bcrypt

inductive Fault where
  /-- Not a marker, a cost, and fifty-three bytes of salt and digest. -/
  | layout (text : String)
  | marker (text : String)
  | cost (text : String)
  | costRange (n : Nat)
  | base64 (fault : Base64.Fault)
  deriving Repr, DecidableEq

def Fault.message : Fault → String
  | .layout text => s!"Invalid hash: {text}"
  | .marker text => s!"Invalid Prefix: {text}"
  | .cost text => s!"Invalid Cost: {text}"
  | .costRange n => s!"Cost needs to be between 4 and 31, got {n}"
  | .base64 fault => s!"Base64 error: {fault.message}"

def wordsOf : Bytes → List UInt32
  | a :: b :: c :: d :: rest =>
    ((a.toUInt32 <<< 24) ||| (b.toUInt32 <<< 16) ||| (c.toUInt32 <<< 8) ||| d.toUInt32) ::
      wordsOf rest
  | _ => []

def cycle (l : Bytes) (n : Nat) : Bytes :=
  (List.range n).map fun i => l.getD (i % l.length) 0

/-- The seventy-two key bytes of a password: its bytes and a zero byte, repeated and cut off. -/
def keyOf (password : String) : Bytes :=
  cycle ((utf8 password ++ [0]).take 72) 72

def digest (cost : Nat) (salt : Draw) (key : Bytes) : Bytes :=
  let keyWords := (wordsOf key).toArray
  let saltWords := wordsOf salt.toList
  let saltVector := Vector.ofFn fun i : Fin 4 => saltWords.getD i 0
  let saltKey := (wordsOf (cycle salt.toList 72)).toArray
  let c := strengthen keyWords saltKey (1 <<< cost) (expand keyWords saltVector initialCipher)
  let blocks := pairs (wordsOf (utf8 "OrpheanBeholderScryDoubt"))
  (blocks.flatMap fun x => bytesOf (encipherTimes c 64 x)).take 23
where
  /-- Pairs of words as blocks. -/
  pairs : List UInt32 → List UInt64
    | a :: b :: rest => ((a.toUInt64 <<< 32) ||| b.toUInt64) :: pairs rest
    | _ => []
  /-- The big-endian bytes of a block. -/
  bytesOf (x : UInt64) : Bytes :=
    [56, 48, 40, 32, 24, 16, 8, 0].map fun s : UInt64 => (x >>> s).toUInt8

structure Parts where
  cost : Nat
  salt : Bytes
  digest : Bytes
  deriving Repr, DecidableEq

/-- Splits a hash text into its parts, with salt and digest still encoded. -/
def split (text : String) : Except Fault Parts := do
  match (text.toList.splitOn '$').filter (· ≠ []) with
  | [marker, cost, rest] =>
    if String.ofList marker ∉ ["2y", "2b", "2a", "2x"] then
      throw (.marker (String.ofList marker))
    match natural? 32 cost with
    | none => throw (.cost (String.ofList cost))
    | some cost =>
      let bytes := utf8 (String.ofList rest)
      if bytes.length = 53 ∧ ¬ continues (bytes.getD 22 0) then
        return ⟨cost, bytes.take 22, bytes.drop 22⟩
      else throw (.layout text)
  | _ => throw (.layout text)
where
  /-- Whether a byte continues a character begun before it. -/
  continues (b : UInt8) : Bool := b &&& 0xC0 = 0x80

def verify (password text : String) : Except Fault Bool := do
  let parts ← split text
  let salt ← (Base64.bcrypt.decode parts.salt).mapError .base64
  if ¬ (4 ≤ parts.cost ∧ parts.cost ≤ 31) then throw (.costRange parts.cost)
  let expected ← (Base64.bcrypt.decode parts.digest).mapError .base64
  let draw : Draw := Vector.ofFn fun i => salt.getD i 0
  return digest parts.cost draw (keyOf password) = expected

def hashText (cost : Nat) (salt : Draw) (key : Bytes) : String :=
  let shownCost := if cost < 10 then s!"0{cost}" else s!"{cost}"
  "$2b$" ++ shownCost ++ "$" ++ Base64.bcrypt.encode salt.toList ++
    Base64.bcrypt.encode (digest cost salt key)

end Turnstile.Bcrypt
