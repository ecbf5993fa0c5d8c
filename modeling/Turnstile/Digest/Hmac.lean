import Turnstile.Digest.Sha2

/-! Keyed message authentication from a hash. -/

namespace Turnstile

/-- The key as one block: hashed first if it is longer, then filled up with zeros. -/
def hmacBlock (h : Sha2.Hash) (key : Bytes) : Bytes :=
  let short := if h.family.blockBytes < key.length then h.digest key else key
  short ++ List.replicate (h.family.blockBytes - short.length) 0

def hmac (h : Sha2.Hash) (key message : Bytes) : Bytes :=
  let block := hmacBlock h key
  h.digest (block.map (· ^^^ 0x5c) ++ h.digest (block.map (· ^^^ 0x36) ++ message))

end Turnstile
