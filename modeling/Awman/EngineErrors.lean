/-!
# Errors of the engine

The engine has one enumeration of errors; it has here the members that the modelled functions return.  A
path is the bytes of its name.
-/

namespace Awman.Engine

/-- The errors of the data layer that the modelled functions return. -/
inductive DataError where
  | missingDependency (step missing : String)
  | cyclicDependency (step : String)
  | invalidAgentName (name reason : String)
  /-- The state file could not be read or written. -/
  | workflowState (message : String)
deriving DecidableEq, Repr

/-- The errors of the engine. -/
inductive EngineError where
  | data (error : DataError)
  | io (path : List UInt8) (error : String)
  | git (message : String)
  /-- The error of git for a path that is no UTF-8, with what the decoder says. -/
  | gitNotUtf8 (path : List UInt8)
  /-- An answer that is not valid where it was given. -/
  | invalidAdvanceAction (message : String)
  /-- The saved state was written by a newer version. -/
  | unsupportedWorkflowSchemaVersion (found supported : Nat)
  /-- The user declined to resume against another definition. -/
  | workflowResumeIncompatible (message : String)
  | config (text : String)
  | unsupportedImageSource (reason : String)
  /-- No source is configured for an image, which the guidance names. -/
  | imageSourceUnconfigured (tag : List Char)
  | imageArchiveRejected (path : List UInt8) (reason : String)
  | insufficientDiskSpace (path : List UInt8) (needed available : Nat)
  | imageAcquisitionCancelled
  | imageSourceFailure (diagnostic : String)
  | other (message : String)
deriving DecidableEq, Repr

end Awman.Engine
