import Mathlib.Algebra.GroupWithZero.Nat

/-!
# Textual network addresses

The grammar of IPv4 and IPv6 addresses and of socket addresses as the standard address parsers
read them.  A parser consumes a front part of the text and gives back nothing when it does not
match, so every alternative starts again at the same place; an address is the whole text.
-/

namespace Awman.SocketText

instance octets_ne_zero : NeZero 256 :=
  ⟨nofun⟩

instance groups_ne_zero : NeZero 65536 :=
  ⟨nofun⟩

/-- An address: four octets or eight groups of sixteen bits. -/
inductive IpAddr where
  | v4 (octets : List (Fin 256))
  | v6 (groups : List (Fin 65536))
  deriving DecidableEq, Repr

/-- An address with a port; the scope belongs to an IPv6 address. -/
structure SocketAddr where
  ip : IpAddr
  port : Fin 65536
  /-- The scope id, zero unless the text of an IPv6 address names one. -/
  scope : Nat
  deriving DecidableEq, Repr

/-- A parser that takes a front part of the text. -/
abbrev Parser (α : Type) := StateT (List Char) Option α

/-- The value of a digit, up to base sixteen. -/
def digitValue (digit : Char) : Option Nat :=
  if '0' ≤ digit ∧ digit ≤ '9' then some (digit.toNat - '0'.toNat)
  else if 'a' ≤ digit ∧ digit ≤ 'f' then some (digit.toNat - 'a'.toNat + 10)
  else if 'A' ≤ digit ∧ digit ≤ 'F' then some (digit.toNat - 'A'.toNat + 10)
  else none

/-- One given character. -/
def givenChar (target : Char) : Parser Unit
  | character :: rest => if character = target then some ((), rest) else none
  | [] => none

/-- The digits in front of the text, and the text after them. -/
def takeDigits (radix : Nat) : List Char → List Nat × List Char
  | [] => ([], [])
  | character :: rest =>
    match digitValue character with
    | some value =>
      if value < radix then
        let (digits, remaining) := takeDigits radix rest
        (value :: digits, remaining)
      else ([], character :: rest)
    | none => ([], character :: rest)

/-- A number in the given base, below `bound`, with at most `maxDigits` digits when there is a
limit, and without leading zeros unless they are allowed. -/
def number (radix : Nat) (maxDigits : Option Nat) (allowZeroPrefix : Bool) (bound : Nat) :
    Parser Nat := fun text =>
  let (digits, rest) := takeDigits radix text
  let value := digits.foldl (fun total digit => total * radix + digit) 0
  if digits.isEmpty then none
  else if maxDigits.any (· < digits.length) then none
  else if !allowZeroPrefix && digits.head? == some 0 && 1 < digits.length then none
  else if value < bound then some (value, rest)
  else none

/-- What comes after a separator; the first element has none. -/
def separated {α : Type} (separator : Char) (index : Nat) (inner : Parser α) : Parser α := do
  if 0 < index then givenChar separator
  inner

/-- One decimal octet. -/
def octet : Parser (Fin 256) := do
  let value ← number 10 (some 3) false 256
  return Fin.ofNat 256 value

/-- Four decimal octets. -/
def ipv4Addr : Parser (List (Fin 256)) := do
  let first ← separated '.' 0 octet
  let second ← separated '.' 1 octet
  let third ← separated '.' 2 octet
  let fourth ← separated '.' 3 octet
  return [first, second, third, fourth]

/-- Two groups from the four octets of an embedded IPv4 address. -/
def groupsOfOctets : List (Fin 256) → List (Fin 65536)
  | high :: low :: rest => Fin.ofNat 65536 (high.val * 256 + low.val) :: groupsOfOctets rest
  | _ => []

/-- The groups read from place `index` on, with room for `room` more of them, and whether the last
two came from an embedded IPv4 address. -/
def ipv6Groups (index : Nat) : Nat → List Char → List (Fin 65536) × Bool × List Char
  | 0, text => ([], false, text)
  | room + 1, text =>
    match if 1 ≤ room then (separated ':' index ipv4Addr).run text else none with
    | some (octets, rest) => (groupsOfOctets octets, true, rest)
    | none =>
      match (separated ':' index (number 16 (some 4) true 65536)).run text with
      | some (group, rest) =>
        let (groups, embedded, remaining) := ipv6Groups (index + 1) room rest
        (Fin.ofNat 65536 group :: groups, embedded, remaining)
      | none => ([], false, text)

/-- Eight groups, of which one run of zeros may be written `::`. -/
def ipv6Addr : Parser (List (Fin 65536)) := fun text =>
  let (head, embedded, rest) := ipv6Groups 0 8 text
  if head.length = 8 then some (head, rest)
  else if embedded then none
  else do
    let ((), rest) ← givenChar ':' rest
    let ((), rest) ← givenChar ':' rest
    let (tail, _, rest) := ipv6Groups 0 (8 - (head.length + 1)) rest
    return (head ++ List.replicate (8 - head.length - tail.length) 0 ++ tail, rest)

/-- An address of either kind. -/
def ipAddr : Parser IpAddr :=
  (IpAddr.v4 <$> ipv4Addr) <|> (IpAddr.v6 <$> ipv6Addr)

/-- A port after its colon. -/
def port : Parser (Fin 65536) := do
  givenChar ':'
  let value ← number 10 none true 65536
  return Fin.ofNat 65536 value

/-- The scope of an IPv6 address after its percent sign. -/
def scopeId : Parser Nat := do
  givenChar '%'
  number 10 none true (2 ^ 32)

/-- An IPv4 address with a port. -/
def socketAddrV4 : Parser SocketAddr := do
  let octets ← ipv4Addr
  let port ← port
  return ⟨.v4 octets, port, 0⟩

/-- An IPv6 address in brackets with a port. -/
def socketAddrV6 : Parser SocketAddr := do
  givenChar '['
  let groups ← ipv6Addr
  let scope ← scopeId <|> pure 0
  givenChar ']'
  let port ← port
  return ⟨.v6 groups, port, scope⟩

/-- A socket address of either kind. -/
def socketAddr : Parser SocketAddr := socketAddrV4 <|> socketAddrV6

/-- The value of a parser that takes the whole text. -/
def parseWith {α : Type} (parser : Parser α) (text : List Char) : Option α :=
  match parser.run text with
  | some (value, []) => some value
  | _ => none

/-- The address the whole text names. -/
def parseIpAddr (text : List Char) : Option IpAddr := parseWith ipAddr text

/-- The socket address the whole text names. -/
def parseSocketAddr (text : List Char) : Option SocketAddr := parseWith socketAddr text

example : parseIpAddr "1.2.3.4".toList = some (.v4 [1, 2, 3, 4]) := by decide
example : parseIpAddr "1.2.3.04".toList = none := by decide
example : parseIpAddr "fe80::1".toList = some (.v6 [65152, 0, 0, 0, 0, 0, 0, 1]) := by decide
example : parseSocketAddr "[::1%7]:53".toList =
    some ⟨.v6 [0, 0, 0, 0, 0, 0, 0, 1], 53, 7⟩ := by decide

end Awman.SocketText
