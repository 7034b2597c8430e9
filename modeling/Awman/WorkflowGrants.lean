import Awman.PrerequisitePolicies
import Awman.RemoteUrls

/-!
# The grants of a run

What the steps of a run may use: an identity, keys and a token, with the remotes they were approved for.
-/

namespace Awman.Consent

open Awman.Overlay (HostPath)
open Awman.Remotes (GitRemoteUrl toAsciiLowercase)
open Awman.Squad Awman.RawArgs

/-- Where a granted identity comes from. -/
inductive IdentitySource where
  | host
  | entered
  | repoConfig
  | globalConfig
  | flag
  | remembered
deriving DecidableEq

/-- An identity the steps commit with. -/
structure GitIdentityGrant where
  name : Text
  email : Text
  source : IdentitySource
deriving DecidableEq

/-- What is mounted into the steps that push. -/
inductive SshGrant where
  | key (path : HostPath) (knownHosts : Option HostPath) (passphraseProtected : Option Bool)
  | wholeDir (sshDir : HostPath)
deriving DecidableEq

/-- Where a granted token comes from. -/
inductive TokenGrantSource where
  | env (var : Text)
  | pasted
  | hostCommand (label : Text)
  | apiSecret (name : Text)
  | ghAuthToken
deriving DecidableEq

/-- A token that is passed to the steps. -/
structure TokenGrant where
  secret : Text
  source : TokenGrantSource
  host : Text
  acquire : Option AcquirePolicy
deriving DecidableEq

/-- What the steps of a run may use. -/
structure PrerequisiteGrants where
  /-- How the granted key reaches a remote. -/
  sshTransports : List (Text × Text) := []
  /-- The remotes the key may be used for. -/
  sshDestinations : List Text := []
  /-- The remotes the token may be used for. -/
  tokenDestinations : List Text := []
  identity : Option GitIdentityGrant := none
  ssh : Option SshGrant := none
  token : Option TokenGrant := none
deriving DecidableEq

namespace PrerequisiteGrants

/-- SSH may be used with the destination. -/
def allowsSsh (grants : PrerequisiteGrants) (destination : Text) : Bool :=
  grants.sshDestinations.contains destination

/-- The token may be used with the destination. -/
def allowsToken (grants : PrerequisiteGrants) (destination : Text) : Bool :=
  grants.tokenDestinations.contains destination

/-- The token for a remote. -/
def tokenForRemote (grants : PrerequisiteGrants) (remote : GitRemoteUrl) :
    Option Text :=
  match grants.token with
  | none => none
  | some token =>
    match remote.host with
    | none => none
    | some host =>
      if grants.allowsToken remote.redacted && toAsciiLowercase token.host == toAsciiLowercase host then
        some token.secret
      else none

end PrerequisiteGrants

end Awman.Consent
