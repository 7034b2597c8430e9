import Awman.SquadKeys

/-!
# Which key the stored hash belongs to

A key that is made because no hash is stored must not replace one that another process stored in
the meantime, and the endpoint of a refresh must not take an older key from the environment.  Where
this is so, whoever made a key holds the one whose hash is stored, until a refresh replaces it.
-/

namespace Awman.SquadKey

open Interleaving

variable {sha256 : String → Fin 32 → UInt8}

/-- The process reports that it made this key. -/
def Position.reports (position : Position) (key : String) : Prop :=
  position.generated = some key ∨ position.stage = .started (some key)

/-- The hash of the key was written, and it is stored or a later refresh replaced it. -/
def KeyFile.Stands (file : KeyFile) (sha256 : String → Fin 32 → UInt8) (key : String) : Prop :=
  ∃ newer mint older, file.log = newer ++ .wrote mint key :: older ∧
    (file.hash = some (hashApiKey sha256 key) ∨ ∃ note ∈ newer, note.mint = .refresh)

/-- A process that makes a key because none is stored empties the file only while there is none,
and writes only while it is still empty.  The environment of a process that has just stored a key
holds no other one. -/
structure Position.MintsAlone (position : Position) (hash : Option String) : Prop where
  /-- There is nothing to replace. -/
  emptying : ∀ {minter key}, position.stage = .emptying minter key → minter.mint = .absent →
    hash = none
  /-- Nobody else has written. -/
  writing : ∀ {minter key}, position.stage = .writing minter key → minter.mint = .absent →
    hash = some ""
  /-- The environment agrees with what was stored. -/
  provisioning : ∀ {caller key}, position.stage = .provisioning caller →
    caller.stored.isSome = true → position.squadKey = some key → caller.stored = some key

/-- Every step is taken so. -/
def MintsAlone (config : Config KeyFile Position) : Event Choice Position → Prop
  | .start _ _ => True
  | .step id choice => ∀ position, config.calls id = some position → choice = .proceed →
    position.MintsAlone config.shared.hash

/-! ## Steps -/

/-- A step empties the file, writes to it or leaves it alone. -/
theorem step_cases {old position : Position} {choice : Choice} {file after : KeyFile}
    (h : step sha256 old choice file = some (position, after)) :
    (∃ minter key, old.stage = .emptying minter key ∧ choice = .proceed ∧
      position = { old with stage := .writing minter key } ∧ after = file.emptied minter.mint) ∨
    (∃ minter key, old.stage = .writing minter key ∧ choice = .proceed ∧
      position = old.minted key minter ∧ after = file.written sha256 minter.mint key) ∨
    ∃ stage, old.goOn file old.stage choice = some stage ∧
      position = { old with stage } ∧ after = file := by
  unfold step at h
  split at h
  · next minter key hstage =>
    have hmoved := Prod.mk.inj (Option.some.inj h)
    exact Or.inl ⟨minter, key, hstage, rfl, hmoved.1.symm, hmoved.2.symm⟩
  · next minter key hstage =>
    have hmoved := Prod.mk.inj (Option.some.inj h)
    exact Or.inr (Or.inl ⟨minter, key, hstage, rfl, hmoved.1.symm, hmoved.2.symm⟩)
  · next hstage =>
    have hgone := Option.map_eq_some_iff.mp h
    obtain ⟨stage, hstage, hmoved⟩ := hgone
    have hsame := Prod.mk.inj hmoved
    exact Or.inr (Or.inr ⟨stage, hstage, hsame.1.symm, hsame.2.symm⟩)

section

variable {position : Position} {file : KeyFile}

/-- An operation starts at its entry. -/
theorem goOn_call {old stage : Stage} {operation : Operation}
    (h : position.goOn file old (.call operation) = some stage) :
    stage = operation.entry := by
  cases old <;> simp [Position.goOn] at h <;> exact h.2.symm

/-- An operation that fails has failed. -/
theorem goOn_fail {old stage : Stage} (h : position.goOn file old .fail = some stage) :
    stage = .failed := by
  cases old <;> simp [Position.goOn] at h <;> exact h.2.symm

/-- Where the file is left alone, no key is shown as made. -/
theorem goOn_not_shown {stage : Stage} {choice : Choice} {key : String} :
    position.goOn file stage choice ≠ some (.started (some key)) := by
  intro h
  cases choice with
  | call operation =>
    have hentry := goOn_call h
    cases operation <;> simp [Operation.entry] at hentry
  | fail => exact absurd (goOn_fail h) (by simp)
  | _ => cases stage <;> simp [Position.goOn] at h <;> grind

end

/-! ## The key of a refresh -/

/-- The key that was stored before the minter was called. -/
def Minter.stored : Minter → Option String
  | .provision caller => caller.stored
  | .refreshKey => none
  | .start _ => none

/-- The key a refresh has just stored is the one its supervisor made, then the one that was chosen,
then the one of the endpoint. -/
def Stage.KeepsStored (generated : Option String) : Stage → Prop
  | .guarding stored => stored.isSome = true → generated = stored
  | .provisioning caller => caller.stored.isSome = true → generated = caller.stored
  | .askingAuth caller => caller.stored = none
  | .readingHash caller => caller.stored = none
  | .generating minter => minter.stored = none
  | .emptying minter _ => minter.stored = none
  | .writing minter _ => minter.stored = none
  | .locating caller key => caller.stored.isSome = true → key = caller.stored
  | .returned caller endpoint => caller.stored.isSome = true → endpoint.key = caller.stored
  | _ => True

/-- The process keeps the key it stored. -/
def Position.KeepsStored (position : Position) : Prop :=
  position.stage.KeepsStored position.generated

/-- The key in hand is the one that was stored, unless the environment holds another. -/
theorem Position.inHand_stored {position : Position} {caller : Caller}
    (hgenerated : caller.stored.isSome = true → position.generated = caller.stored)
    (halone : ∀ {key}, caller.stored.isSome = true → position.squadKey = some key →
      caller.stored = some key)
    (hstored : caller.stored.isSome = true) : position.inHand = caller.stored := by
  unfold inHand
  cases henv : position.squadKey with
  | none => rw [hgenerated hstored]; rfl
  | some key => rw [halone hstored henv]; rfl

/-- The choice of the key keeps it. -/
theorem provisioning_keepsStored {old : Position} {file : KeyFile} {caller : Caller}
    {stage : Stage} (hkeeps : caller.stored.isSome = true → old.generated = caller.stored)
    (halone : ∀ {key}, caller.stored.isSome = true → old.squadKey = some key →
      caller.stored = some key)
    (h : old.goOn file (.provisioning caller) .proceed = some stage) :
    stage.KeepsStored old.generated := by
  have hhand := Position.inHand_stored hkeeps halone
  cases hkey : old.inHand with
  | some key =>
    have hstage : stage = .locating caller (some key) := by simpa [Position.goOn, hkey] using h.symm
    rw [hstage]
    intro hstored
    rw [← hhand hstored, hkey]
  | none =>
    have hstage : stage = .askingAuth caller := by simpa [Position.goOn, hkey] using h.symm
    rw [hstage]
    have hnone : ¬caller.stored.isSome = true := by
      intro hstored
      rw [← hhand hstored, hkey] at hstored
      cases hstored
    exact Option.not_isSome_iff_eq_none.mp hnone

/-- Going on keeps it. -/
theorem goOn_keepsStored {old : Position} {file : KeyFile} {choice : Choice} {stage : Stage}
    (hkeeps : old.KeepsStored) (halone : choice = .proceed → old.MintsAlone file.hash)
    (h : old.goOn file old.stage choice = some stage) :
    ({ old with stage } : Position).KeepsStored := by
  have hbefore : old.stage.KeepsStored old.generated := hkeeps
  change stage.KeepsStored old.generated
  cases choice with
  | call operation =>
    rw [goOn_call h]
    cases operation <;> simp [Operation.entry, Stage.KeepsStored]
  | fail =>
    rw [goOn_fail h]
    trivial
  | proceed =>
    cases hold : old.stage with
    | provisioning caller =>
      rw [hold] at h hbefore
      exact provisioning_keepsStored hbefore ((halone rfl).provisioning hold) h
    | _ =>
      rw [hold] at h hbefore
      simp [Position.goOn] at h
      all_goals grind [Stage.KeepsStored, Caller.stored, Minter.stored]
  | _ =>
    cases hold : old.stage <;> rw [hold] at h hbefore <;> simp [Position.goOn] at h
    all_goals grind [Stage.KeepsStored]

/-! ## The invariant -/

/-- What holds while processes make keys. -/
structure Minted (sha256 : String → Fin 32 → UInt8) (config : Config KeyFile Position) : Prop where
  /-- The file is as the latest note says. -/
  emptied : ∀ {mint older}, config.shared.log = .emptied mint :: older →
    config.shared.hash = some ""
  /-- The file holds the hash of the key that was written last. -/
  wrote : ∀ {mint key older}, config.shared.log = .wrote mint key :: older →
    config.shared.hash = some (hashApiKey sha256 key)
  /-- Only a refresh comes after a write. -/
  replaced : ∀ {newer mint key older}, config.shared.log = newer ++ .wrote mint key :: older →
    newer = [] ∨ ∃ note ∈ newer, note.mint = .refresh
  reported : config.Every fun position => ∀ key, position.reports key →
    ∃ mint, Note.wrote mint key ∈ config.shared.log
  stored : config.Every Position.KeepsStored

namespace Minted

variable {config : Config KeyFile Position} {id : Nat} {old position : Position}

section

variable (h : Minted sha256 config)
include h

/-- A note about a refresh, or the first one after an emptied file, replaces what was written only
by a refresh. -/
theorem replaced_cons {note : Note}
    (hnote : note.mint = .refresh ∨
      ∀ mint key older, config.shared.log ≠ .wrote mint key :: older)
    {newer older : List Note} {mint : Mint} {key : String}
    (hlog : note :: config.shared.log = newer ++ .wrote mint key :: older) :
    newer = [] ∨ ∃ note ∈ newer, note.mint = .refresh := by
  cases newer with
  | nil => exact Or.inl rfl
  | cons first rest =>
    have hfirst : note = first := (List.cons.inj hlog).1
    have hrest : config.shared.log = rest ++ .wrote mint key :: older := (List.cons.inj hlog).2
    right
    rcases hnote with hrefresh | hnone
    · exact ⟨first, List.mem_cons_self, hfirst ▸ hrefresh⟩
    · rcases h.replaced hrest with hempty | ⟨later, hlater, hrefresh⟩
      · rw [hempty] at hrest
        exact absurd hrest (hnone mint key older)
      · exact ⟨later, List.mem_cons_of_mem first hlater, hrefresh⟩

/-- The processes that did not move report what was written before. -/
theorem reported_moved {file : KeyFile} (hgrown : ∀ note ∈ config.shared.log, note ∈ file.log)
    (hmoved : ∀ key, position.reports key → ∃ mint, Note.wrote mint key ∈ file.log) :
    (config.move id position file).Every fun position => ∀ key, position.reports key →
      ∃ mint, Note.wrote mint key ∈ file.log := by
  have hbefore : config.Every fun position => ∀ key, position.reports key →
      ∃ mint, Note.wrote mint key ∈ file.log := by
    intro other standing hother key hkey
    have hwritten := h.reported other standing hother key hkey
    exact hwritten.imp fun mint hmem => hgrown _ hmem
  exact hbefore.moved hmoved

/-- The file is emptied. -/
theorem file_emptied {minter : Minter} {key : String} (hold : config.calls id = some old)
    (hstage : old.stage = .emptying minter key) (halone : old.MintsAlone config.shared.hash) :
    Minted sha256 (config.move id { old with stage := .writing minter key }
      (config.shared.emptied minter.mint)) where
  emptied _ := rfl
  wrote hlog := absurd (List.cons.inj hlog).1 (by simp)
  replaced hlog := by
    refine h.replaced_cons ?_ hlog
    cases hmint : minter.mint with
    | refresh => exact Or.inl rfl
    | absent =>
      right
      intro mint written older hwritten
      have hnone := halone.emptying hstage hmint
      rw [h.wrote hwritten] at hnone
      cases hnone
  reported := by
    refine h.reported_moved (fun note hnote => List.mem_cons_of_mem _ hnote) ?_
    intro reported hreports
    have hbefore : old.reports reported := Or.inl (hreports.resolve_right (by simp))
    have hwritten := h.reported id old hold reported hbefore
    exact hwritten.imp fun mint hmem => List.mem_cons_of_mem _ hmem
  stored := by
    refine h.stored.moved ?_
    have hkeeps : old.stage.KeepsStored old.generated := h.stored id old hold
    rw [hstage] at hkeeps
    exact hkeeps

/-- The hash of a key is written. -/
theorem file_written {minter : Minter} {key : String} (hold : config.calls id = some old)
    (hstage : old.stage = .writing minter key) (halone : old.MintsAlone config.shared.hash) :
    Minted sha256 (config.move id (old.minted key minter)
      (config.shared.written sha256 minter.mint key)) where
  emptied hlog := absurd (List.cons.inj hlog).1 (by simp)
  wrote hlog := by
    have hkey := (Note.wrote.inj (List.cons.inj hlog).1).2
    rw [← hkey]
    rfl
  replaced hlog := by
    refine h.replaced_cons ?_ hlog
    cases hmint : minter.mint with
    | refresh => exact Or.inl rfl
    | absent =>
      right
      intro mint written older hwritten
      have hempty := halone.writing hstage hmint
      rw [h.wrote hwritten] at hempty
      exact hashApiKey_ne_empty sha256 written (Option.some.inj hempty)
  reported := by
    refine h.reported_moved (fun note hnote => List.mem_cons_of_mem _ hnote) ?_
    intro reported hreports
    by_cases hsame : reported = key
    · rw [hsame]
      exact ⟨minter.mint, List.mem_cons_self⟩
    · have hbefore : old.reports reported := by
        have hother : key ≠ reported := fun heq => hsame heq.symm
        cases minter <;> simp_all [Position.minted, Position.reports]
      have hwritten := h.reported id old hold reported hbefore
      exact hwritten.imp fun mint hmem => List.mem_cons_of_mem _ hmem
  stored := by
    refine h.stored.moved ?_
    have hkeeps : old.stage.KeepsStored old.generated := h.stored id old hold
    rw [hstage] at hkeeps
    cases minter with
    | provision caller =>
      have hnone : caller.stored = none := hkeeps
      intro hstored
      rw [hnone] at hstored
      cases hstored
    | refreshKey => exact fun _ => rfl
    | start refresh => trivial

/-- The file is left alone. -/
theorem file_kept {choice : Choice} {stage : Stage} (hold : config.calls id = some old)
    (halone : choice = .proceed → old.MintsAlone config.shared.hash)
    (hstage : old.goOn config.shared old.stage choice = some stage) :
    Minted sha256 (config.move id { old with stage } config.shared) where
  emptied := h.emptied
  wrote := h.wrote
  replaced := h.replaced
  reported := by
    refine h.reported_moved (fun note hnote => hnote) ?_
    intro key hreports
    refine h.reported id old hold key (Or.inl (hreports.resolve_right ?_))
    intro hshown
    exact goOn_not_shown (hstage.trans (congrArg some hshown))
  stored := h.stored.moved (goOn_keepsStored (h.stored id old hold) halone hstage)

end

end Minted

/-- Every allowed step keeps the invariant. -/
theorem minted_preserved : (keySystem sha256).Preserves MintsAlone (Minted sha256) where
  start := by
    intro config id position h hnew hstarts
    have hfresh : position.generated = none ∧ position.stage = .idle := by
      have hboth := Bool.and_eq_true_iff.mp hstarts
      refine ⟨Option.isNone_iff_eq_none.mp hboth.1, ?_⟩
      have hidle := hboth.2
      split at hidle
      · assumption
      · cases hidle
    constructor
    · exact h.emptied
    · exact h.wrote
    · exact h.replaced
    · refine h.reported_moved (fun note hnote => hnote) ?_
      intro key hreports
      rcases hreports with hgenerated | hshown
      · cases hfresh.1.symm.trans hgenerated
      · cases hfresh.2.symm.trans hshown
    · refine h.stored.moved ?_
      rw [Position.KeepsStored, hfresh.2]
      trivial
  step := by
    intro config id choice old position shared h hallowed hold hstep
    have halone := hallowed old hold
    rcases step_cases hstep with ⟨minter, key, hstage, rfl, rfl, rfl⟩ |
      ⟨minter, key, hstage, rfl, rfl, rfl⟩ | ⟨stage, hstage, rfl, rfl⟩
    · exact h.file_emptied hold hstage (halone rfl)
    · exact h.file_written hold hstage (halone rfl)
    · exact h.file_kept hold halone hstage

/-- Where keys are only made alone, whoever reports a key holds the one whose hash is stored until a
refresh replaces it, and the endpoint of a refresh carries the key the refresh has stored. -/
theorem keySystem_oneWinner (sha256 : String → Fin 32 → UInt8) {hash : Option String}
    {events : List (Event Choice Position)}
    (hmeets : (keySystem sha256).Meets MintsAlone (Config.idle ⟨hash, []⟩) events) :
    ((keySystem sha256).run (Config.idle ⟨hash, []⟩) events).Every fun position =>
      (∀ key, position.reports key →
        ((keySystem sha256).run (Config.idle ⟨hash, []⟩) events).shared.Stands sha256 key) ∧
      ∀ caller endpoint stored, position.stage = .returned caller endpoint →
        caller.stored = some stored → endpoint.key = some stored := by
  have hstart : Minted sha256 (Config.idle ⟨hash, []⟩) := by
    constructor
    · exact fun hlog => absurd hlog (by simp [Config.idle])
    · exact fun hlog => absurd hlog (by simp [Config.idle])
    · exact fun hlog => absurd hlog (by simp [Config.idle])
    · exact fun id position hposition => absurd hposition (by simp [Config.idle])
    · exact fun id position hposition => absurd hposition (by simp [Config.idle])
  have hminted := minted_preserved.run hstart hmeets
  intro id position hposition
  constructor
  · intro key hreports
    obtain ⟨mint, hwritten⟩ := hminted.reported id position hposition key hreports
    obtain ⟨newer, older, hlog⟩ := List.append_of_mem hwritten
    refine ⟨newer, mint, older, hlog, ?_⟩
    rcases hminted.replaced hlog with hempty | hrefresh
    · rw [hempty, List.nil_append] at hlog
      exact Or.inl (hminted.wrote hlog)
    · exact Or.inr hrefresh
  · intro caller endpoint stored hstage hstored
    have hkeeps : position.stage.KeepsStored position.generated :=
      hminted.stored id position hposition
    rw [hstage] at hkeeps
    exact (hkeeps (by rw [hstored]; rfl)).trans hstored

/-! ## Runs -/

/-- A key of thirty-two times the same byte. -/
def keyOf (byte : UInt8) : String := hexEncode fun _ => byte

/-- The digests of three such keys. -/
def digestOf (key : String) : Fin 32 → UInt8 :=
  if key = keyOf 0x1f then
    fun index => [0x45, 0x58, 0x22, 0x38, 0x9e, 0xe3, 0xa5, 0xca, 0xe1, 0x77, 0xbf, 0xae, 0x06, 0x54,
      0xd9, 0x36, 0xef, 0xcc, 0xac, 0xee, 0x95, 0x36, 0x36, 0x82, 0x46, 0x9b, 0x83, 0x2c, 0xb9, 0x7c,
      0xc7, 0x12].getD index 0
  else if key = keyOf 0xa0 then
    fun index => [0xeb, 0x37, 0x4d, 0xd4, 0xb4, 0x93, 0x76, 0xee, 0xef, 0x48, 0xe9, 0x02, 0x9a, 0x75,
      0x6e, 0x55, 0xb6, 0xaf, 0xdc, 0xf7, 0x78, 0xb4, 0xd7, 0xbb, 0x79, 0x49, 0xb2, 0x12, 0x30, 0xee,
      0x52, 0x21].getD index 0
  else
    fun index => [0x09, 0x80, 0x92, 0x73, 0x37, 0x57, 0xe5, 0x81, 0x3a, 0x29, 0xb5, 0xb9, 0x53, 0x27,
      0xe3, 0xc0, 0x4f, 0xc2, 0x87, 0xa1, 0x88, 0xf7, 0x37, 0xcd, 0x47, 0xb4, 0xee, 0xbf, 0x69, 0x3a,
      0x3d, 0x65].getD index 0

/-- A process starts the daemon on a fresh root and then refreshes the key. -/
def mintedThenRefreshed : List (Event Choice Position) :=
  [.start 0 ⟨none, none, .idle⟩, .step 0 (.call .ensureRunning), .step 0 .proceed, .step 0 .proceed,
    .step 0 (.authDisabled false), .step 0 .proceed, .step 0 (.random fun _ => 0x1f),
    .step 0 .proceed, .step 0 .proceed, .step 0 (.address "http://127.0.0.1:9877"),
    .step 0 (.call .refreshKey), .step 0 .proceed, .step 0 .proceed, .step 0 .proceed,
    .step 0 (.random fun _ => 0xa0), .step 0 .proceed, .step 0 .proceed, .step 0 .proceed,
    .step 0 .proceed, .step 0 (.address "http://127.0.0.1:9877")]

/-- Nobody else makes a key meanwhile, and the environment holds none. -/
theorem mintedThenRefreshed_alone :
    (keySystem digestOf).Meets MintsAlone (Config.idle ⟨none, []⟩) mintedThenRefreshed := by
  refine ⟨trivial, ?_, ?_, ?_, ?_, ?_, ?_, ?empty, ?write, ?_, ?_, ?_, ?_, ?_, ?_, ?_, ?_, ?_, ?_, ?_,
    trivial⟩
  all_goals
    intro position hposition _
    cases hposition
    constructor <;> rintro _ _ ⟨⟩
  -- The first key is made where there is no file, and nobody else has written it.
  case empty.refl.emptying | write.refl.writing => exact fun _ => rfl
  all_goals simp [Minter.mint, Caller.stored, Position.squadKey, Position.minted]

/-- The process holds the key of the refresh, and its endpoint carries it. -/
theorem keySystem_oneWinner_mintedThenRefreshed :
    ((keySystem digestOf).run (Config.idle ⟨none, []⟩) mintedThenRefreshed).Every fun position =>
      (∀ key, position.reports key →
        ((keySystem digestOf).run (Config.idle ⟨none, []⟩) mintedThenRefreshed).shared.Stands
          digestOf key) ∧
      ∀ caller endpoint stored, position.stage = .returned caller endpoint →
        caller.stored = some stored → endpoint.key = some stored :=
  keySystem_oneWinner digestOf mintedThenRefreshed_alone

/-- Two processes start the daemon on a fresh root, and both find no hash. -/
def mintedTwice : List (Event Choice Position) :=
  [.start 0 ⟨none, none, .idle⟩, .step 0 (.call .ensureRunning), .step 0 .proceed, .step 0 .proceed,
    .step 0 (.authDisabled false), .step 0 .proceed, .step 0 (.random fun _ => 0x1f),
    .start 1 ⟨none, none, .idle⟩, .step 1 (.call .ensureRunning), .step 1 .proceed, .step 1 .proceed,
    .step 1 (.authDisabled false), .step 1 .proceed, .step 1 (.random fun _ => 0xa0),
    .step 0 .proceed, .step 0 .proceed, .step 1 .proceed, .step 1 .proceed]

/-- A process whose environment holds an older key refreshes the key. -/
def refreshedUnderOldKey : List (Event Choice Position) :=
  [.start 0 ⟨some (keyOf 0x5c), none, .idle⟩, .step 0 (.call .refreshKey), .step 0 .proceed,
    .step 0 .proceed, .step 0 .proceed, .step 0 (.random fun _ => 0x1f), .step 0 .proceed,
    .step 0 .proceed, .step 0 .proceed, .step 0 .proceed, .step 0 (.address "http://127.0.0.1:9877")]

/-- Of two processes that made a key, one reports a key whose hash is not stored; and the endpoint
of a refresh can carry another key than the one that was stored. -/
theorem mintedTwice_lost :
    (∃ position, ((keySystem digestOf).run (Config.idle ⟨none, []⟩) mintedTwice).calls 0 =
        some position ∧ position.reports (keyOf 0x1f) ∧
      ¬((keySystem digestOf).run (Config.idle ⟨none, []⟩) mintedTwice).shared.Stands digestOf
        (keyOf 0x1f)) ∧
    ∃ position caller endpoint,
      ((keySystem digestOf).run (Config.idle ⟨some (hashApiKey digestOf (keyOf 0x5c)), []⟩)
        refreshedUnderOldKey).calls 0 = some position ∧
      position.stage = .returned caller endpoint ∧ caller.stored = some (keyOf 0x1f) ∧
      endpoint.key ≠ some (keyOf 0x1f) := by
  have hkeys : keyOf 0xa0 ≠ keyOf 0x1f := by decide +kernel
  constructor
  · refine ⟨_, rfl, Or.inl rfl, ?_⟩
    rintro ⟨newer, mint, older, hlog, hstands⟩
    have hshared : ((keySystem digestOf).run (Config.idle ⟨none, []⟩) mintedTwice).shared =
      ⟨some (hashApiKey digestOf (keyOf 0xa0)), [.wrote .absent (keyOf 0xa0), .emptied .absent,
        .wrote .absent (keyOf 0x1f), .emptied .absent]⟩ := rfl
    rw [hshared] at hlog hstands
    have hhashes : hashApiKey digestOf (keyOf 0xa0) ≠ hashApiKey digestOf (keyOf 0x1f) := by
      decide +kernel
    rcases newer with _ | ⟨first, _ | ⟨second, _ | ⟨third, _ | ⟨fourth, rest⟩⟩⟩⟩ <;>
      simp [hkeys, hhashes] at hlog hstands
    rcases hlog with ⟨rfl, rfl, -⟩
    simp [Note.mint] at hstands
  · refine ⟨_, _, _, rfl, rfl, rfl, ?_⟩
    decide +kernel

end Awman.SquadKey
