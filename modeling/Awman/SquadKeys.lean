import Awman.Library.HexPairs
import Awman.Library.Interleaving
import Mathlib.Data.String.Basic
import Mathlib.Data.List.OfFn

/-!
# The bearer key of the squad daemon

Only the hash of the key is stored.  A process that needs a key and finds no hash makes a key,
empties the file and writes the hash into it; a refresh does the same over the hash that is there.
Any number of processes do so at the same time, and every read, the emptying and the write are
steps of their own.  What a process learns about the other daemon, the pidfile and the endpoint
sidecar is left to the schedule.
-/

namespace Awman.SquadKey

open Interleaving
open Awman.HexPairs (hexPair)

/-- Thirty-two bytes in hexadecimal. -/
def hexEncode (bytes : Fin 32 → UInt8) : String :=
  String.ofList ((List.ofFn bytes).flatMap hexPair)

/-- The hash of a key, for the digest in use. -/
def hashApiKey (sha256 : String → Fin 32 → UInt8) (key : String) : String :=
  hexEncode (sha256 key)

theorem hashApiKey_ne_empty (sha256 : String → Fin 32 → UInt8) (key : String) :
    hashApiKey sha256 key ≠ "" := by
  intro hempty
  have hlist := congrArg String.toList hempty
  rw [hashApiKey, hexEncode, String.toList_ofList, List.ofFn_succ, List.flatMap_cons] at hlist
  cases hlist

/-- Why a key is made. -/
inductive Mint where
  /-- No hash was stored. -/
  | absent
  /-- The stored hash is to be replaced. -/
  | refresh
deriving DecidableEq, Repr

/-- What was done to the file. -/
inductive Note where
  | emptied (mint : Mint)
  /-- The hash of a key was written. -/
  | wrote (mint : Mint) (key : String)

/-- Why the file was touched. -/
def Note.mint : Note → Mint
  | .emptied mint => mint
  | .wrote mint _ => mint

/-- `squad_key.hash`. -/
structure KeyFile where
  /-- Its content, `none` when there is no file. -/
  hash : Option String
  /-- What was done to it, the latest first. -/
  log : List Note

/-- The file is opened and emptied. -/
def KeyFile.emptied (file : KeyFile) (mint : Mint) : KeyFile :=
  ⟨some "", .emptied mint :: file.log⟩

/-- The hash of a key is written over all the file holds. -/
def KeyFile.written (file : KeyFile) (sha256 : String → Fin 32 → UInt8) (mint : Mint)
    (key : String) : KeyFile :=
  ⟨some (hashApiKey sha256 key), .wrote mint key :: file.log⟩

/-- What a process can be asked to do. -/
inductive Operation where
  /-- `endpoint_from_meta` of the supervisor. -/
  | endpointFromMeta
  /-- `ensure_running` of the supervisor. -/
  | ensureRunning
  /-- `refresh_key` of the supervisor. -/
  | refreshKey
  /-- The command `squad start`, with two of its flags. -/
  | start (refreshKey skipAuth : Bool)

/-- Who called `provision_key`. -/
inductive Caller where
  /-- `endpoint_from_meta`. -/
  | endpointFromMeta
  /-- `ensure_running`, with the key that `refresh_key` has just stored if that one called it. -/
  | ensureRunning (stored : Option String)

/-- The key that was stored just before. -/
def Caller.stored : Caller → Option String
  | .endpointFromMeta => none
  | .ensureRunning stored => stored

/-- Who makes a key. -/
inductive Minter where
  /-- `provision_key`. -/
  | provision (caller : Caller)
  /-- `refresh_key`. -/
  | refreshKey
  /-- `squad start`. -/
  | start (refreshKey : Bool)

/-- Why a key is made there. -/
def Minter.mint : Minter → Mint
  | .provision _ => .absent
  | .refreshKey => .refresh
  | .start true => .refresh
  | .start false => .absent

/-- Where the daemon answers and the key to present. -/
structure SquadEndpoint where
  address : String
  key : Option String

/-- Where an operation stands. -/
inductive Stage where
  /-- Nothing was asked yet. -/
  | idle
  /-- `endpoint_from_meta` looks for the sidecar. -/
  | readingMeta
  /-- `ensure_running` looks for the other daemon. -/
  | guarding (stored : Option String)
  /-- `refresh_key` looks for the other daemon. -/
  | guardingRefresh
  /-- `refresh_key` stops the daemon. -/
  | terminating
  /-- `refresh_key` removes the sidecar. -/
  | clearingMeta
  /-- `squad start` looks for the other daemon and for one of its own. -/
  | guardingStart (refreshKey skipAuth : Bool)
  /-- `squad start` looks for a hash. -/
  | readingStartHash
  /-- `provision_key` looks for a key in hand. -/
  | provisioning (caller : Caller)
  /-- `provision_key` asks whether the daemon that runs checks no key. -/
  | askingAuth (caller : Caller)
  /-- `provision_key` looks for a hash. -/
  | readingHash (caller : Caller)
  /-- A key is made. -/
  | generating (minter : Minter)
  /-- The file is about to be emptied. -/
  | emptying (minter : Minter) (key : String)
  /-- The hash is about to be written. -/
  | writing (minter : Minter) (key : String)
  /-- The key is chosen, the address is not known yet. -/
  | locating (caller : Caller) (key : Option String)
  | returned (caller : Caller) (endpoint : SquadEndpoint)
  /-- `squad start` has gone on, with the key it made and showed. -/
  | started (key : Option String)
  /-- The operation failed or found no endpoint. -/
  | failed

/-- A process. -/
structure Position where
  /-- `AWMAN_SQUAD_KEY` as the process found it. -/
  env : Option String
  /-- The key its supervisor made. -/
  generated : Option String
  /-- Where its operation stands. -/
  stage : Stage

/-- The key of the environment, if set and not empty. -/
def Position.squadKey (position : Position) : Option String :=
  position.env.filter fun key => key ≠ ""

/-- What a step chooses. -/
inductive Choice where
  /-- The process is asked for something. -/
  | call (operation : Operation)
  /-- The operation goes on. -/
  | proceed
  | random (bytes : Fin 32 → UInt8)
  /-- Whether the daemon that runs checks no key. -/
  | authDisabled (answer : Bool)
  /-- The sidecar names this address. -/
  | address (address : String)
  | fail

/-- Where an operation starts. -/
def Operation.entry : Operation → Stage
  | .endpointFromMeta => .readingMeta
  | .ensureRunning => .guarding none
  | .refreshKey => .guardingRefresh
  | .start refresh skipAuth => .guardingStart refresh skipAuth

/-- The process can be asked for something. -/
def Stage.isBetween : Stage → Bool
  | .idle => true
  | .returned .. => true
  | .failed => true
  | _ => false

/-- The process no longer does anything by itself. -/
def Stage.isOver : Stage → Bool
  | .started _ => true
  | stage => stage.isBetween

/-- The process with the key it made and stored. -/
def Position.minted (position : Position) (key : String) : Minter → Position
  | .provision caller =>
    { position with generated := some key, stage := .locating caller (some key) }
  | .refreshKey => { position with generated := some key, stage := .guarding (some key) }
  | .start _ => { position with stage := .started (some key) }

/-- The key `provision_key` finds in hand: that of the environment, or else the one the supervisor
made before. -/
def Position.inHand (position : Position) : Option String :=
  position.squadKey <|> position.generated

/-- Where the operation goes without touching the file. -/
def Position.goOn (position : Position) (file : KeyFile) : Stage → Choice → Option Stage
  | .readingMeta, .proceed => some (.provisioning .endpointFromMeta)
  | .guarding stored, .proceed => some (.provisioning (.ensureRunning stored))
  | .guardingRefresh, .proceed => some .terminating
  | .terminating, .proceed => some .clearingMeta
  | .clearingMeta, .proceed => some (.generating .refreshKey)
  | .guardingStart refreshKey skipAuth, .proceed =>
    if refreshKey then some (.generating (.start true))
    else if skipAuth then some (.started none)
    else some .readingStartHash
  | .readingStartHash, .proceed =>
    if file.hash.isNone then some (.generating (.start false)) else some (.started none)
  | .provisioning caller, .proceed =>
    match position.inHand with
    | some key => some (.locating caller (some key))
    | none => some (.askingAuth caller)
  | .askingAuth caller, .authDisabled answer =>
    if answer then some (.locating caller none) else some (.readingHash caller)
  | .readingHash caller, .proceed =>
    if file.hash.isSome then some (.locating caller none)
    else some (.generating (.provision caller))
  | .generating minter, .random bytes => some (.emptying minter (hexEncode bytes))
  | .locating caller key, .address address => some (.returned caller ⟨address, key⟩)
  | stage, .call operation => if stage.isBetween then some operation.entry else none
  | stage, .fail => if stage.isOver then none else some .failed
  | _, _ => none

/-- One step of a process. -/
def step (sha256 : String → Fin 32 → UInt8) (position : Position) (choice : Choice)
    (file : KeyFile) : Option (Position × KeyFile) :=
  match position.stage, choice with
  | .emptying minter key, .proceed =>
    some ({ position with stage := .writing minter key }, file.emptied minter.mint)
  | .writing minter key, .proceed =>
    some (position.minted key minter, file.written sha256 minter.mint key)
  | stage, choice =>
    (position.goOn file stage choice).map fun stage => ({ position with stage }, file)

/-- Processes over one squad root. -/
def keySystem (sha256 : String → Fin 32 → UInt8) : System Choice KeyFile Position where
  starts position := position.generated.isNone && match position.stage with
    | .idle => true
    | _ => false
  step := step sha256

end Awman.SquadKey
