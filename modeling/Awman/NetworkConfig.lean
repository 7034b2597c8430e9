import Awman.Library.Checks
import Awman.Library.OrderedSets
import Awman.Library.SocketText
import Awman.Library.TextCuts
import Mathlib.Data.Char
import Mathlib.Data.List.DropRight
import Mathlib.Data.List.Lex
import Mathlib.Data.Prod.Lex
import Mathlib.Order.Fin.Basic
import Mathlib.Algebra.GroupWithZero.Nat

/-!
# The network block of the built-in runtime

A global and a repository config file may each hold a `builtin.network` block.
`BuiltinNetworkConfig.resolve` checks the two blocks and combines them into the settings the
host-side network stack enforces; the global block is the ceiling.  Texts are lists of characters.
-/

namespace Awman.Network

open Awman.Checks Awman.SocketText
open Awman.TextCuts (byteLength)

/-- The name a guest dials to reach an authorised host port. -/
def hostAlias : List Char := "host.builtin.internal".toList

/-- The most entries accepted in `allow` or `hostPorts`. -/
def maxNetworkEntries : Nat := 256

/-- How much network a session gets, from most to least restrictive. -/
inductive NetworkMode where
  /-- No network device. -/
  | none
  /-- Only the names in `allow` and the authorised host ports. -/
  | allowlist
  | publicInternet
  deriving DecidableEq, Repr

namespace NetworkMode

/-- The place of a mode in the order of permissiveness. -/
def rank : NetworkMode → Nat
  | none => 0
  | allowlist => 1
  | publicInternet => 2

instance : LinearOrder NetworkMode :=
  LinearOrder.lift' rank (by intro first second; cases first <;> cases second <;> simp [rank])

/-- A block that names no mode asks for the public internet. -/
instance : Inhabited NetworkMode := ⟨publicInternet⟩

/-- The mode as config files write it. -/
def asStr : NetworkMode → String
  | none => "none"
  | allowlist => "allowlist"
  | publicInternet => "public"

end NetworkMode

/-- The block as one config file holds it. -/
structure BuiltinNetworkConfig where
  mode : Option NetworkMode
  /-- Allowed destination names. -/
  allow : Option (List (List Char))
  /-- Host loopback ports a guest may reach. -/
  hostPorts : Option (List (Fin 65536))
  /-- Upstream resolvers of the host-side forwarder. -/
  nameservers : Option (List (List Char))
  /-- Whether the host's trusted root certificates are installed in the guest. -/
  trustHostCas : Option Bool

/-! ## Names -/

/-- What is wrong with a domain name. -/
inductive NameError where
  | empty
  | tooLong
  | wildcard
  | oneLabel
  | label (text : List Char)
  | numericTopLevel
  deriving DecidableEq, Repr

/-- The text of the error; `debug` quotes a text taken from the config file. -/
def NameError.message (debug : List Char → String) : NameError → String
  | empty => "empty name"
  | tooLong => "name longer than 253 bytes"
  | wildcard => "a wildcard is only allowed as a leading \"*.\""
  | oneLabel => "name must have at least two labels (e.g. example.com)"
  | label text => s!"invalid DNS label {debug text}"
  | numericTopLevel => "numeric top-level label; name the host, not an address"

/-- A character with the Unicode property `White_Space`. -/
def isWhiteSpace (character : Char) : Bool :=
  let code := character.toNat
  (9 ≤ code && code ≤ 13) || code == 32 || code == 0x85 || code == 0xA0 || code == 0x1680 ||
    (0x2000 ≤ code && code ≤ 0x200A) || code == 0x2028 || code == 0x2029 || code == 0x202F ||
    code == 0x205F || code == 0x3000

/-- The text without the white space around it. -/
def trim (text : List Char) : List Char := (text.dropWhile isWhiteSpace).rdropWhile isWhiteSpace

/-- The text without the dots at its end, in lower case. -/
def lowered (text : List Char) : List Char := (text.rdropWhile (· == '.')).map Char.toLower

/-- A character a label is made of. -/
def isLabelChar (character : Char) : Bool :=
  character.isLower || character.isDigit || character == '-'

/-- A label has 1 to 63 letters, digits and inner hyphens. -/
def validLabel (label : List Char) : Bool :=
  !label.isEmpty && byteLength label ≤ 63 && label.head? != some '-' &&
    label.getLast? != some '-' && label.all isLabelChar

/-- A name in the form `canonical_domain` gives it. -/
structure DomainName where
  /-- The text of the name. -/
  chars : List Char
  /-- Every part between two dots is a label. -/
  labels_valid : ∀ label ∈ chars.splitOn '.', validLabel label = true
  deriving DecidableEq

theorem DomainName.chars_injective : Function.Injective DomainName.chars := by
  intro first second hchars
  cases first
  cases second
  cases hchars
  rfl

instance : LinearOrder DomainName := LinearOrder.lift' DomainName.chars DomainName.chars_injective

/-- Lower-case and check a domain name. -/
def canonicalDomain (raw : List Char) : Except NameError DomainName :=
  let name := lowered raw
  if name.isEmpty then .error .empty
  else if 253 < byteLength name then .error .tooLong
  else if name.contains '*' then .error .wildcard
  else if (name.splitOn '.').length < 2 then .error .oneLabel
  else if hlabels : ∀ label ∈ name.splitOn '.', validLabel label = true then
    if (name.splitOn '.').getLast?.any (·.all Char.isDigit) then .error .numericTopLevel
    else .ok ⟨name, hlabels⟩
  else .error (.label (((name.splitOn '.').find? fun label => !validLabel label).getD []))

/-- Whether a name is the guest's own loopback. -/
def isLoopbackName (name : List Char) : Bool :=
  name == "localhost".toList || ".localhost".toList.isSuffixOf name

/-! ## Entries of the allow list -/

/-- One entry of the allow list. -/
inductive NetworkAllowEntry where
  | domain (name : DomainName)
  /-- This name and every subdomain of it. -/
  | suffix (name : DomainName)
  deriving DecidableEq

/-- What is wrong with an entry of the allow list. -/
inductive EntryError where
  | address (raw : List Char)
  | loopback (raw : List Char)
  | name (raw : List Char) (error : NameError)
  deriving DecidableEq, Repr

/-- The text of the error. -/
def EntryError.message (debug : List Char → String) : EntryError → String
  | address raw => s!"{debug raw} is an address, not a name; allow entries must be DNS names " ++
      "(IP and CIDR destinations are not supported)"
  | loopback raw => s!"{debug raw} names the guest's own loopback or the host alias; " ++
      "use hostPorts to authorise a host service"
  | name raw error => s!"{debug raw}: {error.message debug}"

namespace NetworkAllowEntry

/-- Parse one `allow` entry. -/
def parse (raw : List Char) : Except EntryError NetworkAllowEntry :=
  let trimmed := trim raw
  if (parseIpAddr trimmed).isSome || trimmed.contains '/' || trimmed.contains ':' ||
      trimmed.head? == some '[' then .error (.address raw)
  else
    let wildcard := "*.".toList.isPrefixOf trimmed
    let name := if wildcard then trimmed.drop 2 else trimmed
    if isLoopbackName (lowered name) || lowered name == hostAlias then .error (.loopback raw)
    else
      match canonicalDomain name with
      | .error error => .error (.name raw error)
      | .ok name => .ok (if wildcard then .suffix name else .domain name)

/-- The name this entry matches, without the `*.`. -/
def name : NetworkAllowEntry → DomainName
  | domain name => name
  | suffix name => name

/-- The entry as config files write it. -/
def display : NetworkAllowEntry → String
  | domain name => String.ofList name.chars
  | suffix name => s!"*.{String.ofList name.chars}"

/-- Whether every name this entry matches is also matched by `other`. -/
def within (entry other : NetworkAllowEntry) : Bool :=
  match entry, other with
  | _, suffix parent =>
    entry.name.chars == parent.chars || ('.' :: parent.chars).isSuffixOf entry.name.chars
  | domain first, domain second => first == second
  | suffix _, domain _ => false

/-- Exact names come before wildcards, each kind by its name. -/
def key : NetworkAllowEntry → Bool ×ₗ DomainName
  | domain name => toLex (false, name)
  | suffix name => toLex (true, name)

theorem key_injective : Function.Injective key := by
  intro first second hkey
  cases first <;> cases second <;> simp_all [key]

instance : LinearOrder NetworkAllowEntry := LinearOrder.lift' key key_injective

end NetworkAllowEntry

/-! ## Nameservers -/

/-- What is wrong with a nameserver. -/
inductive NameserverError where
  | portZero (raw : List Char)
  | notAnAddress (raw : List Char)
  deriving DecidableEq, Repr

/-- The text of the error. -/
def NameserverError.message (debug : List Char → String) : NameserverError → String
  | portZero raw => s!"{debug raw}: port 0 is not valid"
  | notAnAddress raw => s!"{debug raw} is not an IP address or IP:PORT (host names are not " ++
      "accepted, so resolving a resolver never depends on another resolver)"

/-- `IP` or `IP:PORT`. -/
def parseNameserver (raw : List Char) : Except NameserverError SocketAddr :=
  let raw := trim raw
  match parseSocketAddr raw with
  | some addr => if addr.port = 0 then .error (.portZero raw) else .ok addr
  | none =>
    match parseIpAddr raw with
    | some ip => .ok ⟨ip, 53, 0⟩
    | none => .error (.notAnAddress raw)

/-! ## One block -/

/-- What is wrong with one block. -/
inductive BlockError where
  | allowCount (count : Nat)
  | allow (error : EntryError)
  | hostPortsCount (count : Nat)
  | hostPortZero
  | hostPortDns
  | nameservers (error : NameserverError)
  | allowOutsideAllowlist (mode : NetworkMode)
  | hostPortsInModeNone
  deriving DecidableEq, Repr

/-- The text of the error. -/
def BlockError.message (debug : List Char → String) : BlockError → String
  | allowCount count =>
    s!"allow has {count} entries; at most {maxNetworkEntries} are supported"
  | allow error => s!"allow: {error.message debug}"
  | hostPortsCount count =>
    s!"hostPorts has {count} entries; at most {maxNetworkEntries} are supported"
  | hostPortZero => "hostPorts: port 0 is not a valid TCP port"
  | hostPortDns => "hostPorts: port 53 is reserved for the guest's DNS, which the host-side " ++
      "forwarder answers"
  | nameservers error => s!"nameservers: {error.message debug}"
  | allowOutsideAllowlist mode =>
    s!"allow only applies to mode \"allowlist\" (mode is \"{mode.asStr}\")"
  | hostPortsInModeNone => "hostPorts cannot be reached in mode \"none\" (no network device)"

/-- A checked block. -/
structure ParsedBlock where
  mode : Option NetworkMode
  /-- Allowed destination names. -/
  allow : Option (OrderedSet NetworkAllowEntry)
  /-- Host loopback ports a guest may reach. -/
  hostPorts : Option (OrderedSet (Fin 65536))
  /-- Upstream resolvers of the host-side forwarder. -/
  nameservers : Option (List SocketAddr)
  /-- Whether the host's trusted root certificates are installed in the guest. -/
  trustHostCas : Option Bool

/-- The block of a config file that has none. -/
instance : Inhabited ParsedBlock := ⟨⟨none, none, none, none, none⟩⟩

namespace BuiltinNetworkConfig

/-- The `allow` list of a block. -/
def parsedAllow (entries : List (List Char)) :
    Except BlockError (OrderedSet NetworkAllowEntry) := do
  refuseIf (maxNetworkEntries < entries.length) (.allowCount entries.length)
  let parsed ← collect (fun entry => (NetworkAllowEntry.parse entry).mapError .allow) entries
  return OrderedSet.ofList parsed

/-- The `hostPorts` of a block. -/
def parsedHostPorts (ports : List (Fin 65536)) :
    Except BlockError (OrderedSet (Fin 65536)) := do
  refuseIf (maxNetworkEntries < ports.length) (.hostPortsCount ports.length)
  refuseIf (0 ∈ ports) .hostPortZero
  refuseIf (53 ∈ ports) .hostPortDns
  return OrderedSet.ofList ports

/-- The `nameservers` of a block. -/
def parsedNameservers (servers : List (List Char)) : Except BlockError (List SocketAddr) :=
  collect (fun server => (parseNameserver server).mapError .nameservers) servers

/-- Contradictions visible inside a single block. -/
def contradiction (mode : Option NetworkMode) (allow : Option (OrderedSet NetworkAllowEntry))
    (hostPorts : Option (OrderedSet (Fin 65536))) : Except BlockError Unit :=
  match mode with
  | none => return ()
  | some mode => do
    refuseIf (mode ≠ .allowlist ∧ allow.isSome) (.allowOutsideAllowlist mode)
    refuseIf (mode = .none ∧ hostPorts.any (·.elements ≠ []))
      .hostPortsInModeNone

/-- Check one block and give its fields their checked form. -/
def parsed (config : BuiltinNetworkConfig) : Except BlockError ParsedBlock := do
  let allow ← checkField parsedAllow config.allow
  let hostPorts ← checkField parsedHostPorts config.hostPorts
  let nameservers ← checkField parsedNameservers config.nameservers
  contradiction config.mode allow hostPorts
  return ⟨config.mode, allow, hostPorts, nameservers, config.trustHostCas⟩

/-- The checked block of a config file that may have none. -/
def parsedOrDefault : Option BuiltinNetworkConfig → Except BlockError ParsedBlock
  | none => .ok default
  | some config => config.parsed

end BuiltinNetworkConfig

/-! ## Combining the two blocks -/

/-- The settings the engine enforces. -/
structure BuiltinNetworkSettings where
  mode : NetworkMode
  allow : List NetworkAllowEntry
  hostPorts : List (Fin 65536)
  /-- Upstream resolvers; none means the host's configuration. -/
  nameservers : List SocketAddr
  /-- Whether the host's trusted root certificates are installed in the guest. -/
  trustHostCas : Bool
  deriving DecidableEq

/-- Why two blocks cannot be combined. -/
inductive ResolveError where
  | globalBlock (error : BlockError)
  | repoBlock (error : BlockError)
  | repoNameservers
  | repoTrustHostCas
  | lessRestrictive (requested globalMode : NetworkMode)
  | globalAllowOutsideAllowlist
  | entryNotPermitted (entry : NetworkAllowEntry)
  | repoAllowOutsideAllowlist (mode : NetworkMode)
  | portNotAuthorised (port : Fin 65536)
  | hostPortsInModeNone
  | globalOnlyInModeNone
  deriving DecidableEq

/-- The text of the error. -/
def ResolveError.message (debug : List Char → String) : ResolveError → String
  | globalBlock error => s!"global builtin.network: {error.message debug}"
  | repoBlock error => s!"repo builtin.network: {error.message debug}"
  | repoNameservers => "repo builtin.network.nameservers is not allowed: host-side resolvers are " ++
      "set in the global config only"
  | repoTrustHostCas => "repo builtin.network.trustHostCas is not allowed: host trust is shared " ++
      "into guests from the global config only"
  | lessRestrictive requested globalMode =>
    s!"repo builtin.network.mode \"{requested.asStr}\" is less restrictive than the global mode " ++
      s!"\"{globalMode.asStr}\""
  | globalAllowOutsideAllowlist =>
    "global builtin.network.allow only applies to mode \"allowlist\""
  | entryNotPermitted entry => s!"repo builtin.network.allow entry {entry.display} is not " ++
      "permitted by the global allow list"
  | repoAllowOutsideAllowlist mode =>
    "repo builtin.network.allow only applies to mode \"allowlist\" (effective mode is " ++
      s!"\"{mode.asStr}\")"
  | portNotAuthorised port => s!"repo builtin.network.hostPorts port {port} is not authorised by " ++
      "the global hostPorts"
  | hostPortsInModeNone => "builtin.network.hostPorts cannot be reached in mode \"none\" (no " ++
      "network device); remove hostPorts or choose another mode"
  | globalOnlyInModeNone => "builtin.network.nameservers and trustHostCas have no effect in mode " ++
      "\"none\"; remove them or choose another mode"

namespace BuiltinNetworkConfig

/-- The effective mode. -/
def resolveMode (globalMode : NetworkMode) : Option NetworkMode → Except ResolveError NetworkMode
  | some requested =>
    if globalMode < requested then .error (.lessRestrictive requested globalMode) else .ok requested
  | none => .ok globalMode

/-- The effective allow list. -/
def resolveAllow (mode globalMode : NetworkMode)
    (globalAllow repoAllow : Option (OrderedSet NetworkAllowEntry)) :
    Except ResolveError (OrderedSet NetworkAllowEntry) :=
  if mode = .allowlist then
    let ceiling := globalAllow.getD .empty
    match globalMode == .allowlist, repoAllow with
    | true, some requested =>
      match requested.elements.find? (fun entry => !ceiling.elements.any entry.within) with
      | some extra => .error (.entryNotPermitted extra)
      | none => .ok requested
    | false, some requested => .ok requested
    | true, none => .ok ceiling
    | false, none => .ok .empty
  else if repoAllow.isSome then .error (.repoAllowOutsideAllowlist mode)
  else .ok .empty

/-- The effective host ports. -/
def resolveHostPorts (globalPorts repoPorts : Option (OrderedSet (Fin 65536))) :
    Except ResolveError (OrderedSet (Fin 65536)) :=
  let authorised := globalPorts.getD .empty
  match repoPorts with
  | some requested =>
    match requested.elements.find? (fun port => decide (port ∉ authorised)) with
    | some port => .error (.portNotAuthorised port)
    | none => .ok requested
  | none => .ok authorised

/-- Combine the global and the repository block; the global block is the ceiling. -/
def resolve (globalConfig repoConfig : Option BuiltinNetworkConfig) :
    Except ResolveError BuiltinNetworkSettings := do
  let globalBlock ← (parsedOrDefault globalConfig).mapError .globalBlock
  let repo ← (parsedOrDefault repoConfig).mapError .repoBlock
  refuseIf repo.nameservers.isSome .repoNameservers
  refuseIf repo.trustHostCas.isSome .repoTrustHostCas
  let globalMode := globalBlock.mode.getD default
  let mode ← resolveMode globalMode repo.mode
  refuseIf (globalBlock.allow.isSome ∧ globalMode ≠ .allowlist) .globalAllowOutsideAllowlist
  let allow ← resolveAllow mode globalMode globalBlock.allow repo.allow
  let hostPorts ← resolveHostPorts globalBlock.hostPorts repo.hostPorts
  refuseIf (mode = .none ∧ hostPorts.elements ≠ []) .hostPortsInModeNone
  let nameservers := globalBlock.nameservers.getD []
  let trustHostCas := globalBlock.trustHostCas.getD false
  refuseIf (mode = .none ∧ (nameservers ≠ [] ∨ trustHostCas)) .globalOnlyInModeNone
  return ⟨mode, allow.elements, hostPorts.elements, nameservers, trustHostCas⟩

end BuiltinNetworkConfig

end Awman.Network
