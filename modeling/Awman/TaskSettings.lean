import Awman.ArgumentSettings
import Awman.TaskValues

/-!
# Task requests as settings

The arguments the remote gateway writes set flags of `squad add` or `squad edit`.  The daemon reads
each of these flags as the value it was set to.
-/

namespace Awman.Squad

open Awman.Network (trim)
open Awman.Overlay (HostPath textBytes)
open Awman.Utf8Text (fromUtf8Lossy)
open Awman.RawArgs Awman.Checks

/-! ## Settings -/

/-- A setting for a value that may be absent. -/
def optionSettings (key : SquadFlag) (value : Option Text) : List (Setting SquadFlag) :=
  value.toList.map (Setting.value key)

/-- A setting for a value that is set or cleared. -/
def clearedSettings (key clearKey : SquadFlag) : Option (Option Text) → List (Setting SquadFlag)
  | some (some value) => [.value key value]
  | some none => [.switch clearKey]
  | none => []

/-- Settings for values that are replaced or cleared. -/
def replacedSettings (key clearKey : SquadFlag) : Option (List Text) → List (Setting SquadFlag)
  | some [] => [.switch clearKey]
  | some values => values.map (Setting.value key)
  | none => []

/-- The settings of a policy. -/
def PrerequisitePolicy.settings (policy : PrerequisitePolicy) : List (Setting SquadFlag) :=
  optionSettings .prerequisiteIdentity policy.gitIdentity.flagValue ++
    optionSettings .prerequisiteSsh policy.ssh.flagValue ++
    optionSettings .prerequisiteToken policy.githubToken.flagValue ++
    optionSettings .prerequisiteUnresolved (policy.unresolved.map UnresolvedMode.asStr)

/-- The workspace as the flag names it. -/
def TaskWorkspace.flagValue : TaskWorkspace → Text
  | default => defaultWorkspaceFlagValue
  | custom path => fromUtf8Lossy path

/-- The scope as the flag names it. -/
def MountScope.flagValue : MountScope → Text
  | cwd => "cwd".toList
  | gitRoot | directory => "gitroot".toList

/-- The settings of a request to create a task. -/
def CreateTask.settings (req : CreateTask) : List (Setting SquadFlag) :=
  [.value .name req.name, .value .description req.description,
    .value .workspace req.workspace.flagValue, .value .interval (Nat.toDigits 10 req.intervalSecs),
    .value .mountScope req.mountScope.flagValue] ++
  optionSettings .agent req.agent ++ optionSettings .model req.model ++
  req.overlays.map (Setting.value .overlay) ++
  (formatAgentModelsSpecs req.agentsToModels).map (Setting.value .agentModels) ++
  (req.prerequisites.map PrerequisitePolicy.settings).getD []

/-- The settings of a request to edit a task. -/
def UpdateTask.settings (req : UpdateTask) : List (Setting SquadFlag) :=
  optionSettings .description req.description ++
  optionSettings .interval (req.intervalSecs.map (Nat.toDigits 10)) ++
  clearedSettings .agent .clearAgent req.agent ++
  clearedSettings .model .clearModel req.model ++
  replacedSettings .overlay .clearOverlays req.overlays ++
  replacedSettings .agentModels .clearAgentModels
    (req.agentsToModels.map formatAgentModelsSpecs) ++
  (req.prerequisites.map PrerequisitePolicy.settings).getD []

section argv

variable {spec : CommandSpec SquadFlag}

theorem argv_optionSettings (key : SquadFlag) (value : Option Text) :
    (optionSettings key value).flatMap (Setting.argv spec) =
      flagArgs ('-' :: '-' :: spec.longOf key) value := by
  cases value <;> rfl

theorem argv_map_value (key : SquadFlag) (values : List Text) :
    (values.map (Setting.value key)).flatMap (Setting.argv spec) =
      values.flatMap fun value => ['-' :: '-' :: spec.longOf key, value] := by
  rw [List.flatMap_map]
  rfl

theorem argv_clearedSettings (key clearKey : SquadFlag) (value : Option (Option Text)) :
    (clearedSettings key clearKey value).flatMap (Setting.argv spec) =
      setOrClear ('-' :: '-' :: spec.longOf key) ('-' :: '-' :: spec.longOf clearKey) value := by
  rcases value with _ | _ | value <;> rfl

theorem argv_replacedSettings (key clearKey : SquadFlag) (values : Option (List Text)) :
    (replacedSettings key clearKey values).flatMap (Setting.argv spec) =
      replaceOrClear ('-' :: '-' :: spec.longOf key) ('-' :: '-' :: spec.longOf clearKey)
        values := by
  rcases values with _ | _ | ⟨first, rest⟩
  · rfl
  · rfl
  · exact argv_map_value key (first :: rest)

/-- A policy is written as its settings. -/
theorem prerequisiteFlagArgs_eq (policy : PrerequisitePolicy)
    (hidentity : '-' :: '-' :: spec.longOf .prerequisiteIdentity = flagIdentity)
    (hssh : '-' :: '-' :: spec.longOf .prerequisiteSsh = flagSsh)
    (htoken : '-' :: '-' :: spec.longOf .prerequisiteToken = flagToken)
    (hunresolved : '-' :: '-' :: spec.longOf .prerequisiteUnresolved = flagUnresolved) :
    prerequisiteFlagArgs policy = policy.settings.flatMap (Setting.argv spec) := by
  simp only [PrerequisitePolicy.settings, List.flatMap_append, argv_optionSettings, hidentity, hssh,
    htoken, hunresolved]
  rfl

end argv

/-- A request to create a task is written as its settings. -/
theorem createArgs_eq (req : CreateTask) :
    createArgs req = req.settings.flatMap (Setting.argv squadAdd) := by
  have hpolicy : (req.prerequisites.map prerequisiteFlagArgs).getD [] =
      ((req.prerequisites.map PrerequisitePolicy.settings).getD []).flatMap
        (Setting.argv squadAdd) := by
    cases req.prerequisites with
    | none => rfl
    | some policy => exact prerequisiteFlagArgs_eq policy rfl rfl rfl rfl
  unfold createArgs CreateTask.settings
  rw [hpolicy]
  simp only [List.flatMap_append, argv_optionSettings, argv_map_value]
  rfl

/-- A request to edit a task is written as its name and its settings. -/
theorem updateArgs_eq (name : Text) (req : UpdateTask) :
    updateArgs name req = [name] ++ req.settings.flatMap (Setting.argv squadEdit) := by
  have hpolicy : (req.prerequisites.map prerequisiteFlagArgs).getD [] =
      ((req.prerequisites.map PrerequisitePolicy.settings).getD []).flatMap
        (Setting.argv squadEdit) := by
    cases req.prerequisites with
    | none => rfl
    | some policy => exact prerequisiteFlagArgs_eq policy rfl rfl rfl rfl
  unfold updateArgs UpdateTask.settings
  rw [hpolicy]
  simp only [List.flatMap_append, argv_optionSettings, argv_clearedSettings,
    argv_replacedSettings, List.append_assoc]
  rfl

end Awman.Squad
