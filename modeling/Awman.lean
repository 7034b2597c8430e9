import Awman.WorkflowRuns
import Awman.WorkflowClosedRuns
import Awman.WorkflowGroupLimits
import Awman.WorkflowPublishing
import Awman.NetworkNarrowing
import Awman.ImageReplay
import Awman.PhaseStepOptions
import Awman.EnvPersistence
import Awman.SquadKeyMinting
import Awman.DaemonSuccession
import Awman.OverlayRestrictions
import Awman.TaskRoundTrip
import Awman.PrerequisiteNarrowing
import Awman.ExecStopping
import Awman.DynamicResume
import Awman.CredentialConfinement
import Awman.PrerequisiteRuns
import Awman.GitMetadataRefs
import Awman.ContainerNaming
import Awman.CiVerdict
import Awman.ImageReferences
import Awman.DockerEndpoints
import Awman.StagingLimits
import Awman.Redaction
import Awman.LayerHardlinks
import Awman.CommandLogs
import Awman.PromptTemplates
import Awman.TaskEditRuns
import Awman.WorkflowOrder
import Awman.TaskRunPaths
import Awman.ConfigKeyOrder
import Awman.ConfigPaths
import Awman.OverlayAcceptance
import Awman.PrerequisiteGrantRuns
import Awman.RemoteApproval
import Awman.WorkflowStages
import Awman.WorkflowRewind
import Awman.WorkflowStateFiles
import Awman.CommandWorkers
import Awman.TaskConfigs
import Awman.EnvOverlayNames
import Awman.WorkflowPhaseOutcomes
import Awman.WorkflowGroupFailures
import Awman.OutputTail
import Awman.LogFollowing
import Awman.ContainerCredentials
import Awman.EnvSync
import Awman.GrantOverlays
import Awman.CheckoutFingerprints
import Awman.LegacyMigration
import Awman.CatalogRestores
import Awman.WorktreePreparation
import Awman.RemoteExecution
import Awman.AttachProtocol
import Awman.RemoteSpellings
