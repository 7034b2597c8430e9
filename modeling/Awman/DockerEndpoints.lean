import Awman.EngineErrors
import Awman.Library.TextCuts
import Awman.NumberTexts

/-!
# The endpoint of a Docker Engine

An image is exported from a Docker Engine whose endpoint comes from the configured source, from the
environment, or from the platform's default.  For one launch the endpoint is frozen: it is written
into the source as text, and the import that follows reads it again.
-/

namespace Awman.Docker

open Awman.Checks Awman.Network Awman.RawArgs Awman.SocketText
open Awman.Engine (EngineError)
open Awman.TextCuts (stripPrefix rsplitOnce)

/-- TLS material for an endpoint, by the paths of its files. -/
structure DockerTlsConfig where
  /-- The CA bundle. -/
  ca : Text
  /-- The client certificate. -/
  cert : Option Text
  key : Option Text
  /-- Verify the engine's certificate. -/
  verify : Bool
  deriving DecidableEq

/-- Where an image is acquired. -/
inductive ImageSourceSpec where
  | registry (registry reference : Option Text)
  | dockerStore (host : Option Text) (tls : Option DockerTlsConfig) (reference : Option Text)
  | appleStore (reference : Option Text)
  | archive (path : Text)
  deriving DecidableEq

/-- The schemes a configured host may use. -/
def dockerHostSchemes : List Text := ["unix://".toList, "tcp://".toList, "npipe://".toList]

/-- A field that is given must not be blank. -/
def nonEmpty (field : String) (value : Option Text) : Except String Unit :=
  refuseIf (value.any (trim · = []) = true) s!"`{field}` must not be empty"

/-- Reject a source that cannot mean anything. -/
def ImageSourceSpec.validate : ImageSourceSpec → Except String Unit
  | .registry named reference => do
      nonEmpty "registry" named
      nonEmpty "reference" reference
  | .dockerStore host tls reference => do
      nonEmpty "host" host
      nonEmpty "reference" reference
      match host with
      | some host =>
        let name := String.ofList host
        refuseIf (dockerHostSchemes.any (·.isPrefixOf host) = false)
          s!"docker host `{name}` must start with one of unix://, tcp://, npipe://"
        refuseIf (tls.isSome = true ∧ "tcp://".toList.isPrefixOf host = false)
          s!"`tls` applies only to a tcp:// docker host, not `{name}`"
      | none => refuseIf (tls.isSome = true) "`tls` requires an explicit tcp:// `host`"
  | .appleStore reference => nonEmpty "reference" reference
  | .archive path => refuseIf (path = []) "`path` must not be empty"

/-- The configured reference, if there is one. -/
def ImageSourceSpec.reference : ImageSourceSpec → Option Text
  | .registry _ reference => reference
  | .dockerStore _ _ reference => reference
  | .appleStore reference => reference
  | .archive _ => none

/-- The reference to acquire. -/
def ImageSourceSpec.referenceOr (spec : ImageSourceSpec) (awmanTag : Text) : Text :=
  ((spec.reference.map trim).filter (· ≠ [])).getD awmanTag

/-- What a build of the program is compiled for. -/
structure Target where
  /-- It runs on macOS. -/
  macos : Bool
  windows : Bool
  isAbsolute : Text → Bool
  /-- The path of a name in a directory. -/
  join : Text → Text → Text
  /-- Away from Windows an absolute path starts with a slash. -/
  isAbsolute_unix : windows = false → ∀ path, isAbsolute path = (path.head? == some '/')
  /-- A path ends with the relative name that was put behind it. -/
  join_suffix : ∀ dir name, name.head? ≠ some '/' → name <:+ join dir name

/-- The environment of one resolution. -/
structure Environment where
  get : String → Option Text
  /-- Tests are kept away from the machine's own engines. -/
  testIsolationActive : Bool
  pathExists : Text → Bool

/-- `DOCKER_HOST`, when it is set and not blank. -/
def Environment.dockerHost (env : Environment) : Option Text :=
  ((env.get "DOCKER_HOST").map trim).filter (· ≠ [])

/-- `DOCKER_CERT_PATH`, when it is set and not blank. -/
def Environment.dockerCertPath (env : Environment) : Option Text :=
  (env.get "DOCKER_CERT_PATH").filter (trim · ≠ [])

/-- `DOCKER_TLS_VERIFY` is set and not blank. -/
def Environment.dockerTlsVerify (env : Environment) : Bool :=
  (env.get "DOCKER_TLS_VERIFY").any (trim · ≠ [])

/-- `AWMAN_TEST_DOCKER` is set to a true value. -/
def Environment.testDocker (env : Environment) : Bool :=
  (env.get "AWMAN_TEST_DOCKER").any fun value =>
    ["1", "true", "yes", "on"].contains (String.ofList ((trim value).map Char.toLower))

/-- Where the engine listens. -/
inductive Endpoint where
  | unix (path : Text)
  | tcp (host : Text) (port : Fin 65536) (tls : Option DockerTlsConfig)
  deriving DecidableEq

/-- A port in digits. -/
def portText (port : Fin 65536) : Text := Nat.toDigits 10 port.val

/-- A description without secrets. -/
def Endpoint.describe : Endpoint → Text
  | .unix path => "unix://".toList ++ path
  | .tcp host port tls =>
    let scheme := if tls.isSome then "tcp+tls" else "tcp"
    scheme.toList ++ "://".toList ++ host ++ ':' :: portText port

/-- The host of an address, and its port if it has one. -/
def splitHostPort (text : Text) : Option (Text × Option (Fin 65536)) :=
  let parsePort := fun text => (parseUnsigned 65536 text).map (Fin.ofNat 65536)
  match stripPrefix ['['] text with
  | some rest =>
    (TextCuts.splitOnce ']' rest).bind fun parts =>
      match stripPrefix [':'] parts.2 with
      | some port => (parsePort port).map fun port => (parts.1, some port)
      | none => if parts.2 = [] then some (parts.1, none) else none
  | none =>
    let whole := if text ≠ [] ∧ '/' ∉ text then some (text, none) else none
    match rsplitOnce ':' text with
    | some (host, port) =>
      if ':' ∉ host then (parsePort port).map fun port => (host, some port) else whole
    | none => whole

/-- The host is this machine. -/
def isLoopback (host : Text) : Bool :=
  host == "localhost".toList ||
    match parseIpAddr host with
    | some (.v4 octets) => octets.head? == some 127
    | some (.v6 groups) => groups == [0, 0, 0, 0, 0, 0, 0, 1]
    | none => false

/-- The address of a `tcp://` host. -/
def tcpAddress (raw : Text) : Option Text :=
  (stripPrefix "tcp://".toList raw).map (·.rdropWhile (· == '/'))

/-- The endpoint of a `tcp://` host. -/
def parseTcp (raw address : Text) (tls : Option DockerTlsConfig) : Except EngineError Endpoint :=
  let name := String.ofList raw
  if '@' ∈ address then .error (.config "docker host URLs must not embed credentials")
  else
    match splitHostPort address with
    | none => .error (.config s!"docker host `{name}` must be tcp://host[:port]")
    | some (host, given) =>
      let port := given.getD (if tls.isSome then 2376 else 2375)
      let hostName := String.ofList host
      let portName := String.ofList (portText port)
      if tls = none ∧ isLoopback host = false then
        .error (.unsupportedImageSource
          (s!"plain tcp:// to the remote Docker Engine at {hostName}:{portName} is refused; " ++
            "configure `tls` (the supported authenticated remote transport)"))
      else .ok (.tcp host port tls)

/-- Read a host. -/
def parseHost (target : Target) (raw : Text) (tls : Option DockerTlsConfig) :
    Except EngineError Endpoint :=
  let name := String.ofList raw
  match stripPrefix "unix://".toList raw with
  | some path =>
    if target.isAbsolute path = false then
      .error (.config s!"docker host `{name}` must name an absolute socket path")
    else if tls.isSome = true then
      .error (.config "TLS settings apply only to tcp:// docker hosts")
    else .ok (.unix path)
  | none =>
    match tcpAddress raw with
    | some address => parseTcp raw address tls
    | none =>
      if "ssh://".toList.isPrefixOf raw then
        .error (.unsupportedImageSource
          ("ssh:// Docker hosts are not supported (awman does not run an ssh client); " ++
            "expose the Engine over tcp:// with TLS instead"))
      else if "npipe://".toList.isPrefixOf raw then
        .error (.unsupportedImageSource
          "Windows named-pipe Docker hosts are not supported by the builtin runtime")
      else .error (.config s!"docker host `{name}` must start with unix:// or tcp://")

/-- The socket of the system. -/
def systemSocket : Text := "/var/run/docker.sock".toList

/-- The socket under the home directory that macOS prefers, if it does. -/
def userSocket (target : Target) (env : Environment) : Option Text :=
  if target.macos then
    ((env.get "HOME").map (target.join · ".docker/run/docker.sock".toList)).filter fun user =>
      env.pathExists user || !env.pathExists systemSocket
  else none

/-- The default endpoint of the platform. -/
def defaultEndpoint (target : Target) (env : Environment) : Except EngineError Endpoint :=
  if env.testIsolationActive && !env.testDocker then
    .error (.unsupportedImageSource
      ("the default Docker Engine socket is disabled under test isolation; set an " ++
        "explicit `host`"))
  else
    match userSocket target env with
    | some user => .ok (.unix user)
    | none =>
      if target.windows then
        .error (.unsupportedImageSource
          "Windows named-pipe Docker hosts are not supported by the builtin runtime")
      else .ok (.unix systemSocket)

/-- The host to read, and whether it comes from the environment. -/
def chooseHost (host : Option Text) (env : Environment) : Option (Text × Bool) :=
  match host with
  | some host => some (trim host, false)
  | none => (env.dockerHost.filter (trim · ≠ [])).map fun host => (trim host, true)

/-- The TLS settings for a host. -/
def chooseTls (target : Target) (tls : Option DockerTlsConfig) (fromEnv : Bool) (env : Environment) :
    Except EngineError (Option DockerTlsConfig) :=
  match tls with
  | some tls => .ok (some tls)
  | none =>
    if fromEnv && env.dockerTlsVerify then
      match env.dockerCertPath <|> (env.get "HOME").map (target.join · ".docker".toList) with
      | some dir => .ok (some {
          ca := target.join dir "ca.pem".toList
          cert := some (target.join dir "cert.pem".toList)
          key := some (target.join dir "key.pem".toList)
          verify := true })
      | none => .error (.config
          ("DOCKER_TLS_VERIFY is set but DOCKER_CERT_PATH is not, and there is no " ++
            "home directory"))
    else .ok none

/-- Resolve the endpoint: the source's host, else `DOCKER_HOST`, else the default. -/
def resolveEndpoint (target : Target) (host : Option Text) (tls : Option DockerTlsConfig)
    (env : Environment) : Except EngineError Endpoint :=
  match chooseHost host env with
  | none => defaultEndpoint target env
  | some (raw, fromEnv) => do
      let tls ← chooseTls target tls fromEnv env
      parseHost target raw tls

/-- The configured sources. -/
structure ImageSources where
  /-- Used for every tag without its own entry. -/
  default : Option ImageSourceSpec := none
  /-- The sources of single tags. -/
  images : Text → Option ImageSourceSpec := fun _ => none

/-- A platform. -/
structure OciPlatform where
  /-- The operating system. -/
  os : Text
  architecture : Text
  variant : Option Text
  deriving DecidableEq

/-- The store that a build goes into. -/
inductive BuildStoreKey where
  | docker (endpoint : Text)
  | appleLocal
  deriving DecidableEq

/-- The source of a single launch. -/
structure ResolvedImageSource where
  source : ImageSourceSpec
  reference : Text
  platform : OciPlatform
  storeKey : Option BuildStoreKey
  dockerEndpoint : Option Endpoint
  deriving DecidableEq

/-- The source for a tag, and the reference to acquire from it. -/
def resolveSource (tag : Text) (sources : ImageSources) :
    Except EngineError (ImageSourceSpec × Text) := do
  let name := String.ofList tag
  match sources.images tag <|> sources.default with
  | none => .error (.imageSourceUnconfigured tag)
  | some spec => do
      spec.validate.mapError fun reason =>
        .config s!"builtin image source for '{name}': {reason}"
      .ok (spec, spec.referenceOr tag)

/-- The host that an endpoint is written as, and its TLS settings. -/
def Endpoint.frozen : Endpoint → Text × Option DockerTlsConfig
  | .unix path => ("unix://".toList ++ path, none)
  | .tcp host port tls =>
    let authority := if ':' ∈ host then '[' :: host ++ [']'] else host
    ("tcp://".toList ++ authority ++ ':' :: portText port, tls)

/-- The source of a launch with its endpoint resolved and frozen. -/
def resolveForImage (target : Target) (sources : ImageSources) (env : Environment) (tag : Text)
    (platform : OciPlatform) : Except EngineError ResolvedImageSource := do
  let (source, reference) ← resolveSource tag sources
  match source with
  | .dockerStore host tls configured => do
      let endpoint ← resolveEndpoint target host tls env
      .ok {
        source := .dockerStore (some endpoint.frozen.1) endpoint.frozen.2 configured
        reference, platform
        storeKey := some (.docker endpoint.describe)
        dockerEndpoint := some endpoint }
  | .appleStore _ =>
    .ok { source, reference, platform, storeKey := some .appleLocal, dockerEndpoint := none }
  | _ => .ok { source, reference, platform, storeKey := none, dockerEndpoint := none }

/-! ## Reading a frozen host again -/

/-- The authority that a host is written as. -/
def authority (host : Text) : Text := if ':' ∈ host then '[' :: host ++ [']'] else host

/-- The host is read back from the authority it is written as. -/
def ReadsBack (host : Text) : Prop :=
  (':' ∈ host → ']' ∉ host) ∧ (':' ∉ host → host.head? ≠ some '[')

/-- The address names a host that is not read back: it opens with two brackets and has no colon
before the first closing one, or it has two colons and a closing bracket but no opening one in
front. -/
def Misread (address : Text) : Prop :=
  (∃ host after, address = '[' :: '[' :: host ++ ']' :: after ∧ ':' ∉ host ∧ ']' ∉ host) ∨
  (address.head? ≠ some '[' ∧ 2 ≤ address.count ':' ∧ ']' ∈ address)

/-- The endpoint that the host and the environment lead to can be frozen. -/
def Freezable (target : Target) (host : Option Text) (env : Environment) : Prop :=
  match chooseHost host env with
  | some (raw, _) => ∀ address, tcpAddress raw = some address → ¬ Misread address
  | none => ∀ user, userSocket target env = some user → target.isAbsolute user = true

section Hosts

variable {host address text : Text} {port : Fin 65536} {given : Option (Fin 65536)}

theorem parsePort_portText (port : Fin 65536) :
    (parseUnsigned 65536 (portText port)).map (Fin.ofNat 65536) = some port := by
  rw [portText, parseUnsigned_digits port.isLt]
  simp

theorem not_mem_portText {character : Char} (h : character.toNat < 48 ∨ 57 < character.toNat) :
    character ∉ portText port := by
  intro hmem
  have hrange := digits_range port.val character hmem
  omega

theorem splitHostPort_authority (h : ReadsBack host) (port : Fin 65536) :
    splitHostPort (authority host ++ ':' :: portText port) = some (host, some port) := by
  rw [authority]
  split
  · rename_i hcolon
    have hbracket := h.1 hcolon
    have hsplit := TextCuts.splitOnce_append hbracket (':' :: portText port)
    have htext : '[' :: host ++ [']'] ++ ':' :: portText port =
        ['['] ++ (host ++ ']' :: ':' :: portText port) := by simp
    have hport := TextCuts.stripPrefix_append [':'] (portText port)
    rw [htext, splitHostPort, TextCuts.stripPrefix_append]
    dsimp only
    rw [hsplit, Option.bind_some]
    rw [List.singleton_append] at hport
    rw [hport]
    dsimp only
    rw [parsePort_portText]
    rfl
  · rename_i hcolon
    have hbracket := h.2 hcolon
    have hstrip : stripPrefix ['['] (host ++ ':' :: portText port) = none := by
      rw [TextCuts.stripPrefix_eq_none]
      intro hstarts
      obtain ⟨rest, hrest⟩ := hstarts
      cases host with
      | nil =>
        rw [List.nil_append, List.singleton_append, List.cons.injEq] at hrest
        exact absurd hrest.1 (by decide)
      | cons first others =>
        rw [List.singleton_append, List.cons_append, List.cons.injEq] at hrest
        exact hbracket (by rw [← hrest.1]; rfl)
    have hlast : ':' ∉ portText port := not_mem_portText (by decide)
    rw [splitHostPort, hstrip]
    rw [TextCuts.rsplitOnce_append host hlast]
    dsimp only
    rw [if_pos hcolon, parsePort_portText]
    rfl

/-- A host that cannot be read back is read as another one, or not at all. -/
theorem splitHostPort_misread (h : ¬ ReadsBack host) (port : Fin 65536) :
    splitHostPort (authority host ++ ':' :: portText port) ≠ some (host, given) := by
  have hshorter : ∀ rest : Text, (∀ front back, rest = front ++ ']' :: back → ']' ∉ front →
      front ≠ host) → splitHostPort ('[' :: rest) ≠ some (host, given) := by
    intro rest hfronts hsome
    have hstrip := TextCuts.stripPrefix_append ['['] rest
    rw [List.singleton_append] at hstrip
    rw [splitHostPort, hstrip] at hsome
    obtain ⟨parts, hparts, hrest⟩ := Option.bind_eq_some_iff.mp hsome
    obtain ⟨hfront, hnot⟩ := TextCuts.splitOnce_eq_some.mp hparts
    have hne := hfronts parts.1 parts.2 hfront hnot
    split at hrest
    · obtain ⟨port, -, heq⟩ := Option.map_eq_some_iff.mp hrest
      exact hne (Prod.mk.inj heq).1
    · split at hrest
      · exact hne (Prod.mk.inj (Option.some.inj hrest)).1
      · cases hrest
  have hclosing : ']' ∉ portText port := not_mem_portText (by decide)
  have hcases : (':' ∈ host ∧ ']' ∈ host) ∨ (':' ∉ host ∧ host.head? = some '[') := by
    unfold ReadsBack at h
    by_cases hcolon : ':' ∈ host
    · simp only [hcolon, forall_const, not_true_eq_false, false_implies, and_true, not_not] at h
      exact Or.inl ⟨hcolon, h⟩
    · simp only [hcolon, false_implies, not_false_eq_true, forall_const, true_and, ne_eq,
        not_not] at h
      exact Or.inr ⟨hcolon, h⟩
  rw [authority]
  cases hcases with
  | inl h =>
    rw [if_pos h.1, List.cons_append, List.cons_append]
    apply hshorter _
    intro front back hrest hnot heq
    rw [heq] at hnot
    exact hnot h.2
  | inr h =>
    rw [if_neg h.1]
    cases host with
    | nil => exact absurd h.2 (by simp)
    | cons first others =>
      have hfirst : first = '[' := by simpa using h.2
      subst hfirst
      rw [List.cons_append]
      apply hshorter _
      intro front back hrest hnot heq
      -- The part before a closing bracket would start with all of the rest.
      have hlength := congrArg List.length hrest
      have hfront : front.length = others.length + 1 := by rw [heq, List.length_cons]
      cases List.append_eq_append_iff.mp hrest with
      | inl hlonger =>
        obtain ⟨middle, hmiddle, hport⟩ := hlonger
        have hin : ']' ∈ ':' :: portText port := by rw [hport]; simp
        cases List.mem_cons.mp hin with
        | inl hsign => exact absurd hsign (by decide)
        | inr hmem => exact hclosing hmem
      | inr hshort =>
        obtain ⟨middle, hmiddle, -⟩ := hshort
        have hmiddleLength := congrArg List.length hmiddle
        rw [List.length_append] at hmiddleLength
        omega

/-- A host between brackets is misread when it opens with another bracket and has no colon. -/
theorem misread_bracketed_iff {after : Text} (haddress : address = '[' :: (host ++ ']' :: after))
    (hclosing : ']' ∉ host) : Misread address ↔ ':' ∉ host ∧ host.head? = some '[' := by
  constructor
  · intro hmis
    cases hmis with
    | inl hbrackets =>
      obtain ⟨inner, rest, heq, hcolon, hnot⟩ := hbrackets
      have hinner : ']' ∉ '[' :: inner := by simp [hnot]
      have hsame : host ++ ']' :: after = '[' :: inner ++ ']' :: rest := by
        rw [haddress] at heq
        simpa using heq
      have hsplit := TextCuts.splitOnce_append hclosing after
      rw [hsame, TextCuts.splitOnce_append hinner rest, Option.some.injEq, Prod.mk.injEq] at hsplit
      rw [← hsplit.1]
      exact ⟨by simp [hcolon], rfl⟩
    | inr hopen =>
      rw [haddress] at hopen
      exact absurd rfl hopen.1
  · intro hbad
    cases host with
    | nil => exact absurd hbad.2 (by simp)
    | cons first others =>
      have hfirst : first = '[' := by simpa using hbad.2
      rw [hfirst] at haddress hbad hclosing
      refine Or.inl ⟨others, after, haddress, ?_, ?_⟩
      · exact fun hmem => hbad.1 (List.mem_cons_of_mem _ hmem)
      · exact fun hmem => hclosing (List.mem_cons_of_mem _ hmem)

/-- Which hosts are not read back shows in the address they come from. -/
theorem readsBack_iff (h : splitHostPort address = some (host, given)) :
    ReadsBack host ↔ ¬ Misread address := by
  rw [splitHostPort] at h
  cases hstrip : stripPrefix ['['] address with
  | some rest =>
    have haddress := TextCuts.stripPrefix_eq_some.mp hstrip
    rw [List.singleton_append] at haddress
    rw [hstrip] at h
    obtain ⟨parts, hparts, hrest⟩ := Option.bind_eq_some_iff.mp h
    obtain ⟨htext, hnot⟩ := TextCuts.splitOnce_eq_some.mp hparts
    have hhost : parts.1 = host := by
      split at hrest
      · obtain ⟨port, -, heq⟩ := Option.map_eq_some_iff.mp hrest
        exact (Prod.mk.inj heq).1
      · split at hrest
        · exact (Prod.mk.inj (Option.some.inj hrest)).1
        · cases hrest
    rw [hhost] at hnot htext
    rw [htext] at haddress
    rw [ReadsBack, misread_bracketed_iff haddress hnot]
    constructor
    · intro hreads hbad
      exact hreads.2 hbad.1 hbad.2
    · intro hgood
      exact ⟨fun _ => hnot, fun hcolon hhead => hgood ⟨hcolon, hhead⟩⟩
  | none =>
    have hopen : address.head? ≠ some '[' := by
      intro hhead
      cases address with
      | nil => cases hhead
      | cons first others =>
        have hfirst : first = '[' := by simpa using hhead
        exact TextCuts.stripPrefix_eq_none.mp hstrip ⟨others, by rw [hfirst]; rfl⟩
    have hnoBrackets : ¬ ∃ inner after, address = '[' :: '[' :: inner ++ ']' :: after ∧
        ':' ∉ inner ∧ ']' ∉ inner := by
      intro hbrackets
      obtain ⟨inner, after, heq, -⟩ := hbrackets
      rw [heq] at hopen
      exact hopen rfl
    have hwhole : (if address ≠ [] ∧ '/' ∉ address then
        some (address, (none : Option (Fin 65536))) else none) = some (host, given) →
        host = address := by
      intro hsome
      split at hsome
      · exact (Prod.mk.inj (Option.some.inj hsome)).1.symm
      · cases hsome
    rw [hstrip] at h
    rw [ReadsBack, Misread, or_iff_right hnoBrackets]
    cases hsplit : rsplitOnce ':' address with
    | none =>
      have hcolon := TextCuts.rsplitOnce_eq_none.mp hsplit
      rw [hsplit] at h
      rw [hwhole h, List.count_eq_zero_of_not_mem hcolon]
      simp [hcolon, hopen]
    | some parts =>
      obtain ⟨htext, hlast⟩ := TextCuts.rsplitOnce_eq_some.mp hsplit
      rw [hsplit] at h
      dsimp only at h
      by_cases hfront : ':' ∉ parts.1
      · rw [if_pos hfront] at h
        obtain ⟨port, -, heq⟩ := Option.map_eq_some_iff.mp h
        have hhost : parts.1 = host := (Prod.mk.inj heq).1
        have hcount : address.count ':' = 1 := by
          rw [htext, List.count_append, List.count_cons_self,
            List.count_eq_zero_of_not_mem hfront, List.count_eq_zero_of_not_mem hlast]
        have hhead : parts.1.head? ≠ some '[' := by
          intro hhead
          rw [htext, List.head?_append, hhead] at hopen
          exact hopen rfl
        rw [← hhost, hcount]
        simp [hfront, hhead]
      · rw [if_neg hfront] at h
        rw [not_not] at hfront
        have hcount : 2 ≤ address.count ':' := by
          have hpos := List.count_pos_iff.mpr hfront
          rw [htext, List.count_append, List.count_cons_self]
          omega
        have hcolon : ':' ∈ address := by
          rw [htext]
          exact List.mem_append_left _ hfront
        rw [hwhole h]
        simp [hcolon, hopen, hcount]

end Hosts

section Endpoints

variable {target : Target} {host : Option Text} {tls : Option DockerTlsConfig} {env : Environment}
  {raw address name path : Text} {port : Fin 65536} {endpoint : Endpoint}

/-- The text that a TCP endpoint is frozen to. -/
def tcpText (name : Text) (port : Fin 65536) : Text :=
  "tcp://".toList ++ (authority name ++ ':' :: portText port)

theorem tcpText_eq :
    tcpText name port = "tcp://".toList ++ (authority name ++ ':' :: portText port) := by
  delta tcpText
  rfl

theorem frozen_tcp : (Endpoint.tcp name port tls).frozen = (tcpText name port, tls) := by
  rw [tcpText_eq, ← List.append_assoc]
  rfl

/-- The last character of a frozen TCP endpoint is a digit of its port. -/
theorem exists_last_digit (front : Text) (port : Fin 65536) :
    ∃ digit, (front ++ ':' :: portText port).getLast? = some digit ∧
      48 ≤ digit.toNat ∧ digit.toNat ≤ 57 := by
  have hne : portText port ≠ [] := Nat.toDigits_ne_nil
  have hlast := List.getLast?_eq_some_getLast hne
  refine ⟨(portText port).getLast hne, ?_, digits_range port.val _ (List.getLast_mem hne)⟩
  rw [List.getLast?_append_of_ne_nil _ (List.cons_ne_nil _ _), List.getLast?_cons_of_ne_nil hne,
    hlast]

theorem tcpText_head : (tcpText name port).head? = some 't' := by
  have hscheme : "tcp://".toList = 't' :: "cp://".toList := rfl
  rw [tcpText_eq, hscheme, List.cons_append, List.head?_cons]

theorem trim_tcpText : trim (tcpText name port) = tcpText name port := by
  obtain ⟨digit, hlast, hrange⟩ := exists_last_digit ("tcp://".toList ++ authority name) port
  have htext : tcpText name port = "tcp://".toList ++ authority name ++ ':' :: portText port := by
    rw [tcpText_eq, List.append_assoc]
  apply Trimmed.trim_eq
  constructor
  · intro character hhead
    rw [tcpText_head, Option.mem_some_iff] at hhead
    rw [← hhead]
    decide
  · intro character hmem
    rw [htext, hlast, Option.mem_some_iff] at hmem
    rw [← hmem]
    exact not_isWhiteSpace (by omega)

theorem tcpAddress_tcpText :
    tcpAddress (tcpText name port) = some (authority name ++ ':' :: portText port) := by
  obtain ⟨digit, hlast, hrange⟩ := exists_last_digit (authority name) port
  have hself : (authority name ++ ':' :: portText port).rdropWhile (· == '/') =
      authority name ++ ':' :: portText port := by
    rw [List.rdropWhile_eq_self_iff]
    intro hne
    rw [List.getLast?_eq_some_getLast hne, Option.some.injEq] at hlast
    rw [hlast, beq_iff_eq]
    rintro rfl
    exact absurd hrange (by decide)
  rw [tcpAddress, tcpText_eq, TextCuts.stripPrefix_append, Option.map_some, hself]

theorem stripPrefix_unix_tcpText : stripPrefix "unix://".toList (tcpText name port) = none := by
  rw [TextCuts.stripPrefix_eq_none]
  intro hstarts
  obtain ⟨rest, hrest⟩ := hstarts
  have hscheme : "unix://".toList = 'u' :: "nix://".toList := rfl
  have hhead : (tcpText name port).head? = some 't' := tcpText_head
  rw [← hrest, hscheme, List.cons_append, List.head?_cons] at hhead
  cases hhead

theorem mem_of_splitHostPort {given : Option (Fin 65536)} {character : Char}
    (h : splitHostPort address = some (name, given)) (hmem : character ∈ name) :
    character ∈ address := by
  rw [splitHostPort] at h
  split at h
  · rename_i rest hstrip
    obtain ⟨parts, hparts, hrest⟩ := Option.bind_eq_some_iff.mp h
    have hname : parts.1 = name := by
      split at hrest
      · obtain ⟨port, -, heq⟩ := Option.map_eq_some_iff.mp hrest
        exact (Prod.mk.inj heq).1
      · split at hrest
        · exact (Prod.mk.inj (Option.some.inj hrest)).1
        · cases hrest
    rw [TextCuts.stripPrefix_eq_some.mp hstrip, (TextCuts.splitOnce_eq_some.mp hparts).1, hname]
    simp [hmem]
  · have hwhole : (if address ≠ [] ∧ '/' ∉ address then
        some (address, (none : Option (Fin 65536))) else none) = some (name, given) →
        character ∈ address := by
      intro hsome
      split at hsome
      · rw [(Prod.mk.inj (Option.some.inj hsome)).1]
        exact hmem
      · cases hsome
    dsimp only at h
    split at h
    · rename_i front back hsplit
      split at h
      · obtain ⟨port, -, heq⟩ := Option.map_eq_some_iff.mp h
        rw [(TextCuts.rsplitOnce_eq_some.mp hsplit).1, (Prod.mk.inj heq).1]
        exact List.mem_append_left _ hmem
      · exact hwhole h
    · exact hwhole h

/-- What an endpoint read from a `tcp://` address has passed. -/
theorem parseTcp_ok (h : parseTcp raw address tls = .ok endpoint) :
    '@' ∉ address ∧ ∃ name given, splitHostPort address = some (name, given) ∧
      (tls = none → isLoopback name = true) ∧
      endpoint = .tcp name (given.getD (if tls.isSome then 2376 else 2375)) tls := by
  unfold parseTcp at h
  dsimp only at h
  split at h
  · cases h
  · rename_i hat
    split at h
    · cases h
    · rename_i name given hsplit
      split at h
      · cases h
      · rename_i hplain
        refine ⟨hat, name, given, hsplit, ?_, (Except.ok.inj h).symm⟩
        intro htls
        by_contra hloopback
        exact hplain ⟨htls, Bool.eq_false_iff.mpr hloopback⟩

/-- A frozen TCP endpoint is read again exactly when its host is read back. -/
theorem parseHost_tcpText (hloopback : tls = none → isLoopback name = true) (hat : '@' ∉ name) :
    parseHost target (tcpText name port) tls = .ok (.tcp name port tls) ↔ ReadsBack name := by
  have hparse : parseHost target (tcpText name port) tls =
      parseTcp (tcpText name port) (authority name ++ ':' :: portText port) tls := by
    rw [parseHost, stripPrefix_unix_tcpText, tcpAddress_tcpText]
  rw [hparse]
  constructor
  · intro h
    by_contra hbad
    obtain ⟨-, other, given, hsplit, -, hendpoint⟩ := parseTcp_ok h
    rw [Endpoint.tcp.injEq] at hendpoint
    rw [← hendpoint.1] at hsplit
    exact splitHostPort_misread hbad port hsplit
  · intro h
    have hnoAt : '@' ∉ authority name ++ ':' :: portText port := by
      have hport : '@' ∉ portText port := not_mem_portText (by decide)
      rw [authority]
      split <;> simp [hat, hport]
    have hnotPlain : ¬ (tls = none ∧ isLoopback name = false) := by
      intro hplain
      rw [hloopback hplain.1] at hplain
      exact absurd hplain.2 (by decide)
    rw [parseTcp]
    rw [if_neg hnoAt, splitHostPort_authority h]
    dsimp only
    rw [if_neg hnotPlain]
    rfl

theorem trim_unix (h : ∀ character ∈ path.getLast?, isWhiteSpace character = false) :
    trim ("unix://".toList ++ path) = "unix://".toList ++ path := by
  apply Trimmed.trim_eq
  constructor
  · intro character hhead
    have hfirst : ("unix://".toList ++ path).head? = some 'u' := rfl
    rw [hfirst, Option.mem_some_iff] at hhead
    rw [← hhead]
    decide
  · intro character hlast
    cases hpath : path with
    | nil =>
      rw [hpath] at hlast
      have hslash : ("unix://".toList ++ ([] : Text)).getLast? = some '/' := rfl
      rw [hslash, Option.mem_some_iff] at hlast
      rw [← hlast]
      decide
    | cons first rest =>
      have hne : path ≠ [] := by rw [hpath]; exact List.cons_ne_nil _ _
      rw [List.getLast?_append_of_ne_nil _ hne] at hlast
      exact h character hlast

theorem frozen_unix : (Endpoint.unix path).frozen = ("unix://".toList ++ path, none) := rfl

theorem parseHost_unixText :
    parseHost target ("unix://".toList ++ path) none = .ok (.unix path) ↔
      target.isAbsolute path = true := by
  rw [parseHost, TextCuts.stripPrefix_append]
  dsimp only
  cases target.isAbsolute path <;> simp

/-- A frozen socket is read again exactly when its path is absolute. -/
theorem parseHost_unix :
    parseHost target (Endpoint.unix path).frozen.1 (Endpoint.unix path).frozen.2 =
      .ok (.unix path) ↔ target.isAbsolute path = true := by
  rw [frozen_unix]
  exact parseHost_unixText

end Endpoints

/-! ## Resolving a frozen source again -/

/-- Resolving the frozen source again gives the same endpoint in every environment. -/
def Stable (target : Target) (tag : Text) (platform : OciPlatform)
    (resolved : ResolvedImageSource) : Prop :=
  ∀ env, ∃ again, resolveForImage target { default := some resolved.source } env tag platform =
    .ok again ∧ again.dockerEndpoint = resolved.dockerEndpoint

section Freezing

variable {target : Target} {host configured : Option Text} {tls : Option DockerTlsConfig}
  {env : Environment} {endpoint : Endpoint} {sources : ImageSources} {tag : Text}
  {platform : OciPlatform} {resolved : ResolvedImageSource} {source : ImageSourceSpec}
  {reference raw : Text}

theorem frozen_scheme (endpoint : Endpoint) :
    (∃ path, endpoint.frozen = ("unix://".toList ++ path, none)) ∨
      ∃ rest tls, endpoint.frozen = ("tcp://".toList ++ rest, tls) := by
  cases endpoint with
  | unix path => exact Or.inl ⟨path, rfl⟩
  | tcp name port tls => exact Or.inr ⟨_, tls, frozen_tcp⟩

/-- The host of a trimmed frozen endpoint passes the checks of a source. -/
theorem validate_frozen (htrim : trim endpoint.frozen.1 = endpoint.frozen.1)
    (hreference : nonEmpty "reference" configured = .ok ()) :
    (ImageSourceSpec.dockerStore (some endpoint.frozen.1) endpoint.frozen.2 configured).validate =
      .ok () := by
  have hhost : nonEmpty "host" (some endpoint.frozen.1) = .ok () := by
    have hne : endpoint.frozen.1 ≠ [] := by
      cases frozen_scheme endpoint with
      | inl hunix =>
        obtain ⟨path, hpath⟩ := hunix
        rw [hpath]
        exact List.append_ne_nil_of_left_ne_nil (by decide) _
      | inr htcp =>
        obtain ⟨rest, tls, hrest⟩ := htcp
        rw [hrest]
        exact List.append_ne_nil_of_left_ne_nil (by decide) _
    simp [nonEmpty, refuseIf, htrim, hne]
  have hschemes : dockerHostSchemes.any (·.isPrefixOf endpoint.frozen.1) = true := by
    cases frozen_scheme endpoint with
    | inl hunix =>
      obtain ⟨path, hpath⟩ := hunix
      rw [hpath]
      simp [dockerHostSchemes]
    | inr htcp =>
      obtain ⟨rest, tls, hrest⟩ := htcp
      rw [hrest]
      simp [dockerHostSchemes]
  have htls : ¬ (endpoint.frozen.2.isSome = true ∧
      "tcp://".toList.isPrefixOf endpoint.frozen.1 = false) := by
    intro hbad
    cases frozen_scheme endpoint with
    | inl hunix =>
      obtain ⟨path, hpath⟩ := hunix
      rw [hpath] at hbad
      exact Bool.false_ne_true hbad.1
    | inr htcp =>
      obtain ⟨rest, tls, hrest⟩ := htcp
      rw [hrest] at hbad
      exact absurd hbad.2 (by simp)
  rw [ImageSourceSpec.validate, hhost, hreference]
  dsimp only
  rw [refuseIf, if_neg (by rw [hschemes]; decide), refuseIf, if_neg htls]
  rfl

/-- A frozen host is read without a look at the environment. -/
theorem resolveEndpoint_frozen (htrim : trim endpoint.frozen.1 = endpoint.frozen.1) :
    resolveEndpoint target (some endpoint.frozen.1) endpoint.frozen.2 env =
      parseHost target endpoint.frozen.1 endpoint.frozen.2 := by
  have htls : chooseTls target endpoint.frozen.2 false env = .ok endpoint.frozen.2 := by
    cases endpoint.frozen.2 <;> rfl
  rw [resolveEndpoint, chooseHost]
  dsimp only
  rw [htrim, htls]
  rfl

/-- What a host that could be read is. -/
theorem parseHost_ok (h : parseHost target raw tls = .ok endpoint) :
    (∃ path, raw = "unix://".toList ++ path ∧ target.isAbsolute path = true ∧
      endpoint = .unix path) ∨
    ∃ address name given, tcpAddress raw = some address ∧ '@' ∉ address ∧
      splitHostPort address = some (name, given) ∧ (tls = none → isLoopback name = true) ∧
      endpoint = .tcp name (given.getD (if tls.isSome then 2376 else 2375)) tls := by
  unfold parseHost at h
  split at h
  · rename_i path hunix
    split at h
    · cases h
    · rename_i habsolute
      split at h
      · cases h
      · exact Or.inl ⟨path, TextCuts.stripPrefix_eq_some.mp hunix, by simpa using habsolute,
          (Except.ok.inj h).symm⟩
  · split at h
    · rename_i address htcp
      obtain ⟨hat, name, given, hsplit, hloopback, hendpoint⟩ := parseTcp_ok h
      exact Or.inr ⟨address, name, given, htcp, hat, hsplit, hloopback, hendpoint⟩
    · split at h
      · cases h
      · split at h <;> cases h

/-- Which sockets the platform's default can be. -/
theorem defaultEndpoint_ok (h : defaultEndpoint target env = .ok endpoint) :
    (∃ user, userSocket target env = some user ∧ endpoint = .unix user) ∨
      (userSocket target env = none ∧ target.windows = false ∧ endpoint = .unix systemSocket) := by
  unfold defaultEndpoint at h
  split at h
  · cases h
  · split at h
    · rename_i user huser
      exact Or.inl ⟨user, huser, (Except.ok.inj h).symm⟩
    · rename_i huser
      split at h
      · cases h
      · rename_i hwindows
        exact Or.inr ⟨huser, by simpa using hwindows, (Except.ok.inj h).symm⟩

theorem trim_userSocket {user : Text} (h : userSocket target env = some user) :
    trim ("unix://".toList ++ user) = "unix://".toList ++ user := by
  apply trim_unix
  unfold userSocket at h
  split at h
  · obtain ⟨hmap, -⟩ := Option.filter_eq_some_iff.mp h
    obtain ⟨home, -, hjoin⟩ := Option.map_eq_some_iff.mp hmap
    have hsuffix := target.join_suffix home ".docker/run/docker.sock".toList (by decide)
    rw [hjoin] at hsuffix
    obtain ⟨front, hfront⟩ := hsuffix
    intro character hlast
    rw [← hfront, List.getLast?_append_of_ne_nil _ (by decide)] at hlast
    have hend : ".docker/run/docker.sock".toList.getLast? = some 'k' := by decide
    rw [hend, Option.mem_some_iff] at hlast
    rw [← hlast]
    decide
  · cases h

theorem trim_chosen {fromEnv : Bool} (h : chooseHost host env = some (raw, fromEnv)) :
    trim raw = raw := by
  unfold chooseHost at h
  split at h
  · rename_i given
    rw [← (Prod.mk.inj (Option.some.inj h)).1]
    exact trim_trim given
  · obtain ⟨given, -, hgiven⟩ := Option.map_eq_some_iff.mp h
    rw [← (Prod.mk.inj hgiven).1]
    exact trim_trim given

/-- A resolved endpoint is written without white space around it. -/
theorem trim_frozen (h : resolveEndpoint target host tls env = .ok endpoint) :
    trim endpoint.frozen.1 = endpoint.frozen.1 := by
  unfold resolveEndpoint at h
  split at h
  · cases defaultEndpoint_ok h with
    | inl huser =>
      obtain ⟨user, hsocket, hendpoint⟩ := huser
      rw [hendpoint]
      exact trim_userSocket hsocket
    | inr hsystem =>
      rw [hsystem.2.2]
      decide
  · rename_i raw fromEnv hchosen
    obtain ⟨settings, -, hparse⟩ := bind_eq_ok.mp h
    cases parseHost_ok hparse with
    | inl hunix =>
      obtain ⟨path, hraw, -, hendpoint⟩ := hunix
      rw [hendpoint]
      have htrimmed := trim_chosen hchosen
      rw [hraw] at htrimmed
      exact htrimmed
    | inr htcp =>
      obtain ⟨address, name, given, -, -, -, -, hendpoint⟩ := htcp
      rw [hendpoint, frozen_tcp]
      exact trim_tcpText

/-- A resolved endpoint is read again from its frozen text exactly when it can be frozen. -/
theorem parseHost_frozen_iff (h : resolveEndpoint target host tls env = .ok endpoint) :
    parseHost target endpoint.frozen.1 endpoint.frozen.2 = .ok endpoint ↔
      Freezable target host env := by
  unfold resolveEndpoint at h
  unfold Freezable
  split at h
  · rename_i hchosen
    rw [hchosen]
    cases defaultEndpoint_ok h with
    | inl huser =>
      obtain ⟨user, hsocket, hendpoint⟩ := huser
      rw [hendpoint, hsocket, parseHost_unix]
      constructor
      · intro habsolute other hother
        rw [← Option.some.inj hother]
        exact habsolute
      · intro hall
        exact hall user rfl
    | inr hsystem =>
      obtain ⟨hsocket, hwindows, hendpoint⟩ := hsystem
      have habsolute : target.isAbsolute systemSocket = true := by
        rw [target.isAbsolute_unix hwindows]
        decide
      rw [hendpoint, hsocket, parseHost_unix, iff_true_left habsolute]
      intro user huser
      cases huser
  · rename_i raw fromEnv hchosen
    obtain ⟨settings, -, hparse⟩ := bind_eq_ok.mp h
    rw [hchosen]
    dsimp only
    cases parseHost_ok hparse with
    | inl hunix =>
      obtain ⟨path, hraw, habsolute, hendpoint⟩ := hunix
      have hnone : tcpAddress raw = none := by
        rw [hraw]
        rfl
      rw [hendpoint, hnone, parseHost_unix, iff_true_left habsolute]
      intro address haddress
      cases haddress
    | inr htcp =>
      obtain ⟨address, name, given, haddress, hat, hsplit, hloopback, hendpoint⟩ := htcp
      have hname : '@' ∉ name := fun hmem => hat (mem_of_splitHostPort hsplit hmem)
      rw [hendpoint, haddress, frozen_tcp, parseHost_tcpText hloopback hname,
        readsBack_iff hsplit]
      constructor
      · intro hgood other hother
        rw [← Option.some.inj hother]
        exact hgood
      · intro hall
        exact hall address rfl

theorem resolveSource_ok (h : resolveSource tag sources = .ok (source, reference)) :
    (sources.images tag <|> sources.default) = some source ∧ source.validate = .ok () ∧
      reference = source.referenceOr tag := by
  unfold resolveSource at h
  split at h
  · cases h
  · rename_i spec hspec
    obtain ⟨_, hvalid, hpair⟩ := bind_eq_ok.mp h
    have hparts := Prod.mk.inj (Except.ok.inj hpair)
    rw [mapError_eq_ok] at hvalid
    rw [← hparts.1]
    exact ⟨hspec, hvalid, hparts.2.symm⟩

theorem resolveSource_default (h : source.validate = .ok ()) :
    resolveSource tag { default := some source } = .ok (source, source.referenceOr tag) := by
  simp [resolveSource, h, Except.mapError]

/-- Resolving a frozen source gives what its host is read as. -/
theorem resolveForImage_frozen
    (hvalid : (ImageSourceSpec.dockerStore (some endpoint.frozen.1) endpoint.frozen.2
      configured).validate = .ok ())
    (htrim : trim endpoint.frozen.1 = endpoint.frozen.1) (found : Endpoint) :
    (∃ again, resolveForImage target { default := some (.dockerStore (some endpoint.frozen.1)
        endpoint.frozen.2 configured) } env tag platform = .ok again ∧
      again.dockerEndpoint = some found) ↔
      parseHost target endpoint.frozen.1 endpoint.frozen.2 = .ok found := by
  rw [resolveForImage, resolveSource_default hvalid]
  constructor
  · intro hagain
    obtain ⟨again, hresolved, hfound⟩ := hagain
    obtain ⟨pair, hpair, hrest⟩ := bind_eq_ok.mp hresolved
    rw [← Except.ok.inj hpair] at hrest
    obtain ⟨other, hother, hrecord⟩ := bind_eq_ok.mp hrest
    rw [resolveEndpoint_frozen htrim] at hother
    rw [← Except.ok.inj hrecord, Option.some.injEq] at hfound
    rw [hother, hfound]
  · intro hparse
    have hresolve : resolveEndpoint target (some endpoint.frozen.1) endpoint.frozen.2 env =
        .ok found := by
      rw [resolveEndpoint_frozen htrim, hparse]
    exact ⟨_, bind_eq_ok.mpr ⟨_, rfl, bind_eq_ok.mpr ⟨found, hresolve, rfl⟩⟩, rfl⟩

/-- A launch from a Docker Engine is stable exactly when its endpoint can be frozen. -/
theorem stable_dockerStore (hvalid : (ImageSourceSpec.dockerStore host tls configured).validate = .ok ())
    (hresolve : resolveEndpoint target host tls env = .ok endpoint)
    (hsource : resolved.source = .dockerStore (some endpoint.frozen.1) endpoint.frozen.2 configured)
    (hendpoint : resolved.dockerEndpoint = some endpoint) :
    Stable target tag platform resolved ↔ Freezable target host env := by
  have htrim := trim_frozen hresolve
  have hreference : nonEmpty "reference" configured = .ok () := by
    obtain ⟨_, -, hrest⟩ := bind_eq_ok.mp hvalid
    obtain ⟨_, hsecond, -⟩ := bind_eq_ok.mp hrest
    exact hsecond
  have hfrozen := validate_frozen htrim hreference
  rw [← parseHost_frozen_iff hresolve, Stable, hsource, hendpoint]
  constructor
  · intro hstable
    exact (resolveForImage_frozen hfrozen htrim endpoint).mp (hstable env)
  · intro hparse again
    exact (resolveForImage_frozen hfrozen htrim endpoint).mpr hparse

/-- A source that names no Docker Engine is resolved without an endpoint, and without a look at the
environment. -/
theorem stable_other (hother : ∀ host tls configured, source ≠ .dockerStore host tls configured)
    (hvalid : source.validate = .ok ()) (hsource : resolved.source = source)
    (hnone : resolved.dockerEndpoint = none) :
    Stable target tag platform resolved := by
  intro env
  rw [hsource, hnone, resolveForImage, resolveSource_default hvalid]
  cases source with
  | dockerStore host tls configured => exact absurd rfl (hother host tls configured)
  | registry | appleStore | archive => exact ⟨_, rfl, rfl⟩

/-- A launch is stable exactly when the endpoint of its Docker Engine, if it has one, can be
frozen. -/
theorem frozen_stable_iff (h : resolveForImage target sources env tag platform = .ok resolved) :
    Stable target tag platform resolved ↔
      ∀ host tls configured, (sources.images tag <|> sources.default) =
        some (.dockerStore host tls configured) → Freezable target host env := by
  obtain ⟨⟨source, reference⟩, hresolve, hresolved⟩ := bind_eq_ok.mp h
  obtain ⟨hchosen, hvalid, -⟩ := resolveSource_ok hresolve
  rw [hchosen]
  cases source with
  | dockerStore host tls configured =>
    obtain ⟨endpoint, hendpoint, hrecord⟩ := bind_eq_ok.mp hresolved
    have hstable : Stable target tag platform resolved ↔ Freezable target host env :=
      stable_dockerStore hvalid hendpoint (by rw [← Except.ok.inj hrecord])
        (by rw [← Except.ok.inj hrecord])
    rw [hstable]
    constructor
    · intro hfreezable other otherTls otherConfigured heq
      rw [Option.some.injEq, ImageSourceSpec.dockerStore.injEq] at heq
      rw [← heq.1]
      exact hfreezable
    · intro hall
      exact hall host tls configured rfl
  | registry | appleStore | archive =>
    have hrecord := Except.ok.inj hresolved
    have hstable : Stable target tag platform resolved :=
      stable_other (by simp) hvalid (by rw [← hrecord]) (by rw [← hrecord])
    simp [hstable]

end Freezing

/-- A build for Linux. -/
def linux : Target where
  macos := false
  windows := false
  isAbsolute := fun path => path.head? == some '/'
  join := fun dir name => if name.head? = some '/' then name else dir ++ '/' :: name
  isAbsolute_unix := fun _ _ => rfl
  join_suffix := by
    intro dir name hname
    rw [if_neg hname]
    exact ⟨dir ++ ['/'], by simp⟩

/-- An environment without variables. -/
def bareEnvironment : Environment where
  get := fun _ => none
  testIsolationActive := false
  pathExists := fun _ => true

/-- A source with a host and TLS settings. -/
def hostSource (host : String) : ImageSources where
  default := some (.dockerStore (some host.toList)
    (some { ca := "/certs/ca.pem".toList, cert := none, key := none, verify := true }) none)

/-- The platform of the launches below. -/
def linuxAmd64 : OciPlatform := { os := "linux".toList, architecture := "amd64".toList, variant := none }

/-- What resolving a single host leads to. -/
def resolvedHost (host : String) : Option ResolvedImageSource :=
  (resolveForImage linux (hostSource host) bareEnvironment "agent".toList linuxAmd64).toOption

theorem frozen_stable_remote : ∃ resolved, resolvedHost "tcp://build:2376" = some resolved ∧
    Stable linux "agent".toList linuxAmd64 resolved := by
  have hsome : (resolvedHost "tcp://build:2376").isSome = true := by decide
  refine ⟨_, (Option.some_get hsome).symm, ?_⟩
  apply (frozen_stable_iff (toOption_get hsome)).mpr
  intro host tls configured hspec
  have hhost : host = some "tcp://build:2376".toList :=
    (ImageSourceSpec.dockerStore.inj (Option.some.inj hspec)).1.symm
  have haddress : tcpAddress (trim "tcp://build:2376".toList) = some "build:2376".toList := by decide
  rw [hhost]
  intro address hother
  rw [haddress, Option.some.injEq] at hother
  rw [← hother]
  intro hmisread
  cases hmisread with
  | inl hbrackets =>
    obtain ⟨inner, after, heq, -⟩ := hbrackets
    have hhead := congrArg List.head? heq
    rw [List.cons_append, List.head?_cons] at hhead
    cases hhead
  | inr hcolons => exact absurd hcolons.2.1 (by decide)

/-- An IPv6 address that lacks its opening bracket is accepted, but frozen to a host that cannot be
read. -/
theorem unopened_bracket_not_frozen : ∃ resolved, resolvedHost "tcp://::1]" = some resolved ∧
    ¬ Stable linux "agent".toList linuxAmd64 resolved := by
  have hsome : (resolvedHost "tcp://::1]").isSome = true := by decide
  refine ⟨_, (Option.some_get hsome).symm, ?_⟩
  intro hstable
  obtain ⟨again, hagain, -⟩ := hstable bareEnvironment
  have hfail : ∀ hsome : (resolvedHost "tcp://::1]").isSome = true, (resolveForImage linux
      { default := some ((resolvedHost "tcp://::1]").get hsome).source } bareEnvironment
      "agent".toList linuxAmd64).toOption = none := by decide
  have hnone := hfail hsome
  rw [hagain] at hnone
  cases hnone

end Awman.Docker
