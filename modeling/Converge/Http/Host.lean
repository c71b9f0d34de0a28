import Converge.Http.Address
import Converge.Http.Percent

/-!
# Hosts

A host is a name or a numeric address. Names are written without regard to case; what is written percent-encoded
or in a wide form counts as the character it stands for.

## Main Definitions

* `Host` — a name, an IPv4 address or an IPv6 address.
* `Host.read` — the host of a URL whose scheme goes over the network.
* `Host.readPlain` — the host of any other URL.
* `Host.text` — a host in writing.
* `Host.isLocal` — whether a host is the machine itself.

## Design Notes

Letters outside ASCII are taken as they stand: which of them look alike, and how a name is written
on the wire, does not change whether a URL is accepted.
-/

namespace Converge.Http

open Chars

/-- Why a text is no host. -/
inductive HostError where
  | empty
  | badName
  | badNumber
  | badBrackets
  deriving Repr, DecidableEq

/-- The words for a text that is no host. -/
def HostError.message : HostError → String
  | .empty => "empty host"
  | .badName => "invalid domain character"
  | .badNumber => "invalid IPv4 address"
  | .badBrackets => "invalid IPv6 address"

/-- A host. -/
inductive Host where
  | name (text : String)
  | ipv4 (address : Nat)
  | ipv6 (groups : List Nat)
  deriving Repr, DecidableEq

namespace Host

/-- A host in writing. -/
def text : Host → String
  | .name text => text
  | .ipv4 address => Address.ipv4Text address
  | .ipv6 groups => "[" ++ Address.ipv6Text groups ++ "]"

/-- The characters that stand in no host. -/
def isForbidden (c : Char) : Bool := "\x00\t\n\r #/:<>?@[\\]^|".toList.contains c

/-- The characters that stand in no name: those of no host, all control characters, and `%`. -/
def isForbiddenInName (c : Char) : Bool := isForbidden c || c.toNat < 0x20 || c.toNat = 0x7F || c = '%'

/-- The characters that are left out of names: they are not seen. -/
def isIgnored (c : Char) : Bool :=
  let n := c.toNat
  n = 0xAD || n = 0x34F || n = 0x200B || n = 0x2060 || n = 0x2064 || n = 0xFEFF || (0xFE00 ≤ n && n ≤ 0xFE0F)

/-- The characters outside ASCII that no name may have: blanks, control characters, marks of direction, private
characters and what is no character. -/
def isDisallowed (c : Char) : Bool :=
  let n := c.toNat
  isBlank c || (0x80 ≤ n && n ≤ 0x9F) || (0x200C ≤ n && n ≤ 0x200F) || (0x2028 ≤ n && n ≤ 0x202E)
    || (0xE000 ≤ n && n ≤ 0xF8FF) || (0xFFF9 ≤ n && n ≤ 0xFFFF) || 0xE0000 ≤ n

/-- What a character of a name stands for: a small letter for a capital, the plain form of a wide character. -/
def mapped (c : Char) : Option (List Char) :=
  let n := c.toNat
  if n < 0x80 then some [asciiLower c]
  else if n = 0x3002 || n = 0xFF0E || n = 0xFF61 then some ['.']
  else if 0xFF01 ≤ n && n ≤ 0xFF5E then some [asciiLower (Char.ofNat (n - 0xFEE0))]
  else if isIgnored c then some []
  else if isDisallowed c then none
  else some [c]

/-- A name in the form in which names are compared. -/
def canonical? (text : List Char) : Option (List Char) :=
  ((text.mapM mapped).map List.flatten).filter (!·.any isForbiddenInName)

/-- The address between brackets. -/
def readBrackets (text : List Char) : Except HostError Host :=
  match (afterStart ['['] text).bind (beforeEnd [']']) with
  | some inner =>
      match Address.ipv6? inner with
      | some groups => .ok (.ipv6 groups)
      | none => .error .badBrackets
  | none => .error .badBrackets

/-- A name, or an address if its last part is a number. -/
def ofName (letters : List Char) : Except HostError Host :=
  if letters.isEmpty then .error .empty
  else if Address.readsAsNumber letters then
    match Address.ipv4? letters with
    | some address => .ok (.ipv4 address)
    | none => .error .badNumber
  else .ok (.name (String.ofList letters))

/-- The host of a URL whose scheme goes over the network. -/
def read (text : List Char) : Except HostError Host :=
  if text.head? = some '[' then readBrackets text
  else match (Percent.decode? text).bind fun decoded => canonical? decoded.toList with
    | some letters => ofName letters
    | none => .error .badName

/-- The host of any other URL: a name is taken as it is written. -/
def readPlain (text : List Char) : Except HostError Host :=
  if text.head? = some '[' then readBrackets text
  else if text.any isForbidden then .error .badName
  else .ok (.name (String.ofList (Percent.encode (fun c => 0x20 ≤ c.toNat && c.toNat < 0x7F) text)))

/-- The hosts that are the machine itself. -/
def localHosts : List String := ["localhost", "127.0.0.1", "[::1]"]

/-- Whether a host is the machine itself. -/
def isLocal (host : Host) : Bool :=
  localHosts.contains (String.ofList (host.text.toList.map asciiLower))

end Host

end Converge.Http
