import Turnstile.Text.Hex
import Turnstile.Text.Integer

/-! Whether a text is a URL. -/

namespace Turnstile.Url

/-- The characters that count: without control characters and spaces at the two ends, and without
tabs and line ends anywhere. -/
def significant (cs : List Char) : List Char :=
  let isEdge (c : Char) : Bool := c.toNat ≤ 0x20
  (((cs.dropWhile isEdge).reverse.dropWhile isEdge).reverse).filter fun c =>
    c ≠ '\t' && c ≠ '\n' && c ≠ '\r'

def isScheme (cs : List Char) : Bool :=
  cs.head?.any Char.isAlpha && cs.all fun c => c.isAlphanum || c = '+' || c = '-' || c = '.'

def needsHost (scheme : List Char) : Bool :=
  ["http", "https", "ws", "wss", "ftp"].contains (String.ofList (scheme.map Char.toLower))

/-- Whether a host is well-formed: an address in brackets, or a name without separators. -/
def isHost : List Char → Bool
  | '[' :: rest =>
    rest.getLast? = some ']' && rest.dropLast.contains ':' &&
      rest.dropLast.all fun c => (hexValue? c).isSome || c = ':' || c = '.'
  | cs => cs.all fun c => c ≠ '\x00' && !" #/:<>?@[\\]^|".toList.contains c

/-- Splits at the first colon outside brackets, which is dropped. -/
def splitPort : Bool → List Char → List Char × Option (List Char)
  | _, [] => ([], none)
  | inside, c :: cs =>
    if c = ':' ∧ ¬ inside then ([], some cs)
    else
      let (host, port) := splitPort (c = '[' || (inside && c ≠ ']')) cs
      (c :: host, port)

/-- Whether a port is well-formed. It may be left empty. -/
def isPort (cs : List Char) : Bool :=
  cs = [] || (cs.all Char.isDigit && (natural? 16 cs).isSome)

/-- Whether the part between two slashes and the path is well-formed. A user or a port stands with a
host only. -/
def isAuthority (cs : List Char) : Bool :=
  let (host, port) := splitPort false (cs.reverse.takeWhile (· ≠ '@')).reverse
  isHost host && port.all isPort && (host ≠ [] || (port.isNone && !cs.contains '@'))

def isUrl (text : String) : Bool :=
  let cs := significant text.toList
  let scheme := cs.takeWhile (· ≠ ':')
  let rest := (cs.dropWhile (· ≠ ':')).drop 1
  let authorityOf (cs : List Char) : List Char :=
    cs.takeWhile fun c => c ≠ '/' && c ≠ '?' && c ≠ '#'
  cs.contains ':' && isScheme scheme &&
    if needsHost scheme then
      let authority := authorityOf (rest.dropWhile fun c => c = '/' || c = '\\')
      authority ≠ [] && isAuthority authority
    else !"//".toList.isPrefixOf rest || isAuthority (authorityOf (rest.drop 2))

end Turnstile.Url
