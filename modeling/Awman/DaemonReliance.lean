import Awman.DaemonFiles

/-!
# What the processes rely on

Who starts a daemon holds the startup lock, and from its claim on its pidfile names it.  A step of
one process keeps what the others rely on, as long as it does not remove a lock or a pidfile that
is no longer the one it looked at, and it leaves the process with what its next stage needs.
-/

namespace Awman.Daemon

open Interleaving

/-! ## What a stage relies on -/

/-- The look belongs to `acquire`. -/
def Look.starting : Look → Bool
  | .firstCheck _ => true
  | .ownCheck _ => true
  | .secondCheck _ => true
  | _ => false

/-- The daemon whose pidfile is claimed during the look. -/
def Look.claims : Look → Option DaemonKind
  | .secondCheck kind => some kind
  | _ => none

/-- The process holds the startup lock. -/
def Stage.starting : Stage → Bool
  | .reading look => look.starting
  | .judging look _ => look.starting
  | .clearing look _ => look.starting
  | .claiming _ => true
  | .overwriting _ => true
  | .writingPid .. => true
  | .backingOff _ => true
  | .unlocking .. => true
  | _ => false

/-- The guard the process holds: it has acquired it and not released it. -/
def Stage.holds : Stage → Option DaemonKind
  | .unlocking kind true => some kind
  | .serving kind => some kind
  | .releasing => some .api
  | .published => some .squad
  | .ready => some .squad
  | .owning => some .squad
  | .clearingOwnMeta => some .squad
  | .readingOwn => some .squad
  | .removingOwn => some .squad
  | _ => none

/-- The pidfile that names the process. -/
def Stage.claims : Stage → Option DaemonKind
  | .reading look => look.claims
  | .judging look _ => look.claims
  | .clearing look _ => look.claims
  | .backingOff kind => some kind
  | stage => stage.holds

/-- The process may have installed its handler for an orderly end. -/
def Stage.mayHandle : Stage → Bool
  | .ready => true
  | .owning => true
  | .clearingOwnMeta => true
  | .readingOwn => true
  | .removingOwn => true
  | .done => true
  | _ => false

/-- The process a stop is about. -/
def Stage.target : Stage → Option Pid
  | .stopJudging _ found => some found
  | .killing _ found => some found
  | .stopRemoving _ found _ => found
  | _ => none

/-- The daemon was told to end and does so in order. -/
def Files.Told (files : Files) (pid : Pid) : Prop := pid ∈ files.handling ∧ pid ∈ files.stopped

/-- What a process relies on. -/
structure Fits (pid : Pid) (stage : Stage) (files : Files) : Prop where
  /-- It created the lock it holds. -/
  lock : stage.starting = true → files.lock = some pid
  names : ∀ {kind}, stage.claims = some kind → ¬files.Told pid → files.names kind = some pid
  absent : ∀ {kind}, stage = .overwriting kind → files.pidfile kind = none
  /-- The pidfile it opened is still there. -/
  opened : ∀ {kind creator}, stage = .writingPid kind creator →
    files.pidfile kind = some ⟨creator, none⟩
  unhandled : stage.mayHandle = false → pid ∉ files.handling
  /-- It has noted whom it stops. -/
  target : ∀ {found}, stage.target = some found → found ∈ files.spawned ∧ found ∈ files.stopped
  /-- Whom it told to end has ended, or does so in order. -/
  told : ∀ {stopper found terminated}, stage = .stopRemoving stopper (some found) terminated →
    found ∈ files.alive → found ∈ files.handling

/-- A pidfile that is there names such a process. -/
def Files.OnlyNames (files : Files) (kind : DaemonKind) (allowed : Pid → Prop) : Prop :=
  ∀ file, files.pidfile kind = some file → ∃ found, file.content = some found ∧ allowed found

/-- What is removed as stale is the lock or the pidfile of a process that is gone. -/
def Stage.ClearsStale (files : Files) : Stage → Prop
  | .breaking _ => ∀ creator, files.lock = some creator → creator ∉ files.alive
  | .clearing look _ => files.OnlyNames look.kind fun found => found ∉ files.alive
  | _ => True

/-- The pidfile a daemon that ends, or a stop, removes is still the one it read, or belongs to a
process that is gone. -/
def Stage.RemovesRead (pid : Pid) (files : Files) : Stage → Prop
  | .removingOwn => files.OnlyNames .squad fun found => found ∉ files.alive ∨ found = pid
  | .stopRemoving _ target _ =>
    files.OnlyNames .squad fun found => found ∉ files.alive ∨ target = some found
  | _ => True

/-! ## What a step does to the files -/

/-- The process removes the sidecar next, or after one more look. -/
def Stage.awaitsClearing : Stage → Bool
  | .clearingOwnMeta => true
  | .stopClearing _ => true
  | .ensureReadingMeta => true
  | .ensureClearingMeta => true
  | _ => false

/-- The pidfile the process is about to remove. -/
def Stage.removes : Stage → Option DaemonKind
  | .clearing look _ => some look.kind
  | .backingOff kind => some kind
  | .releasing => some .api
  | .removingOwn => some .squad
  | .stopRemoving .. => some .squad
  | _ => none

/-- What a step does to the files. -/
inductive Effect (pid : Pid) (stage : Stage) (choice : Choice) (files : Files) : Files → Prop where
  | kept : Effect pid stage choice files files
  | locked (hfree : files.lock = none) : Effect pid stage choice files (files.setLock (some pid))
  /-- A stale lock is removed. -/
  | broke {kind : DaemonKind} (hproceed : choice = .proceed) (hstage : stage = .breaking kind) :
      Effect pid stage choice files (files.setLock none)
  | unlocked (hstarting : stage.starting = true) : Effect pid stage choice files (files.setLock none)
  /-- A pidfile is created or written. -/
  | put {kind : DaemonKind} {file : PidFile} (hproceed : choice = .proceed)
      (hstarting : stage.starting = true)
      (hfree : stage = .claiming kind ∧ files.pidfile kind = none ∨ stage = .overwriting kind ∨
        ∃ creator, stage = .writingPid kind creator)
      (hcontent : ∀ found, file.content = some found → found = pid) :
      Effect pid stage choice files (files.setPidfile kind (some file))
  | removed {kind : DaemonKind} (hproceed : choice = .proceed) (hstage : stage.removes = some kind) :
      Effect pid stage choice files (files.setPidfile kind none)
  | published (hpublish : choice = .publish) (hstage : stage = .serving .squad) :
      Effect pid stage choice files (files.setSidecar (some pid))
  /-- The sidecar is removed. -/
  | cleared (hstage : stage.awaitsClearing = true) :
      Effect pid stage choice files (files.setSidecar none)
  | handled : Effect pid stage choice files (files.handled pid)
  | noted {stopper : Stopper} (found : Pid) (hstage : stage = .stopReading stopper) :
      Effect pid stage choice files (files.noted found)
  | ended (gone : Pid) : Effect pid stage choice files (files.ended gone)

/-- Every step that goes on does one of these. -/
theorem Stage.proceed_effect {pid : Pid} {files after : Files} {stage next : Stage}
    (h : stage.proceed pid files = some (next, after)) : Effect pid stage .proceed files after := by
  cases stage with
  | locking kind =>
    cases hlock : files.lock with
    | none =>
      have hafter : after = files.setLock (some pid) := by simp_all [proceed]
      exact hafter ▸ .locked hlock
    | some creator =>
      have hafter : after = files := by simp_all [proceed]
      exact hafter ▸ .kept
  | breaking kind =>
    have hafter : after = files.setLock none := by simp_all [proceed]
    exact hafter ▸ .broke rfl rfl
  | unlocking kind won =>
    have hafter : after = files.setLock none := by simp_all [proceed]
    exact hafter ▸ .unlocked rfl
  | claiming kind =>
    cases hfile : files.pidfile kind with
    | none =>
      have hafter : after = files.setPidfile kind (some ⟨pid, some pid⟩) := by simp_all [proceed]
      exact hafter ▸ .put rfl rfl (Or.inl ⟨rfl, hfile⟩) fun found hfound => (Option.some.inj hfound).symm
    | some file =>
      have hafter : after = files := by simp_all [proceed]
      exact hafter ▸ .kept
  | overwriting kind =>
    have hafter := (Prod.mk.inj (Option.some.inj h)).2
    rw [← hafter]
    exact .put rfl rfl (Or.inr (Or.inl rfl)) fun found hfound => absurd hfound (by simp)
  | writingPid kind creator =>
    have hafter := (Prod.mk.inj (Option.some.inj h)).2
    rw [← hafter]
    split
    · exact .put rfl rfl (Or.inr (Or.inr ⟨creator, rfl⟩)) fun found hfound =>
        (Option.some.inj hfound).symm
    · exact .kept
  | clearing | backingOff | releasing | removingOwn | stopRemoving =>
    have hafter := (Prod.mk.inj (Option.some.inj h)).2
    exact hafter ▸ .removed rfl rfl
  | published =>
    have hafter := (Prod.mk.inj (Option.some.inj h)).2
    exact hafter ▸ .handled
  | clearingOwnMeta | ensureClearingMeta =>
    have hafter := (Prod.mk.inj (Option.some.inj h)).2
    exact hafter ▸ .cleared rfl
  | stopClearing stopper =>
    have hafter : after = files.setSidecar none := by cases stopper <;> simp_all [proceed]
    exact hafter ▸ .cleared rfl
  | stopReading stopper =>
    simp only [proceed] at h
    split at h <;> have hafter := (Prod.mk.inj (Option.some.inj h)).2
    · exact hafter ▸ .kept
    · exact hafter ▸ .kept
    · exact hafter ▸ .noted _ rfl
  | killing stopper found =>
    simp only [proceed] at h
    split at h
    · exact (Prod.mk.inj (Option.some.inj h)).2 ▸ .kept
    · split at h <;> have hafter := (Prod.mk.inj (Option.some.inj h)).2
      · exact hafter ▸ .ended found
      · exact hafter ▸ .kept
  | reading look =>
    have hafter : after = files := by
      simp only [proceed] at h
      grind
    exact hafter ▸ .kept
  | serving kind =>
    have hafter : after = files := by cases kind <;> simp_all [proceed]
    exact hafter ▸ .kept
  | done => simp [proceed] at h
  | judging | lockBusy | ready | owning | readingOwn | stopJudging | ensureReadingMeta =>
    have hafter := (Prod.mk.inj (Option.some.inj h)).2
    exact hafter ▸ .kept

/-- Every step does one of these. -/
theorem Stage.step_effect {pid : Pid} {files after : Files} {stage next : Stage} {choice : Choice}
    (h : stage.step pid files choice = some (next, after)) : Effect pid stage choice files after := by
  cases choice with
  | proceed => exact proceed_effect h
  | publish =>
    simp only [step] at h
    split at h
    · next hstage => exact (Prod.mk.inj (Option.some.inj h)).2 ▸ .published rfl hstage
    · cases h
  | stale | fail =>
    obtain ⟨moved, -, hmoved⟩ := Option.map_eq_some_iff.mp h
    exact (Prod.mk.inj hmoved).2 ▸ .kept
  | crash => exact (Prod.mk.inj (Option.some.inj h)).2 ▸ .ended pid
  | spawn other => cases h

/-! ## What the other processes rely on -/

/-- Nobody else relies on a pidfile that is removed, or on a lock that is broken. -/
structure Stage.Safe (pid : Pid) (stage : Stage) (files : Files) : Prop where
  /-- The pidfile names a process that is gone, the own one, or one that was told to end. -/
  removes : ∀ {kind}, stage.removes = some kind → files.OnlyNames kind fun found =>
    found ∉ files.alive ∨ found = pid ∨ files.Told found
  /-- The lock is the one of a process that is gone. -/
  breaks : ∀ {kind creator}, stage = .breaking kind → files.lock = some creator →
    creator ∉ files.alive

namespace Fits

variable {pid other : Pid} {stage standing : Stage} {files after : Files}

/-- Two processes do not hold the startup lock. -/
theorem not_both_starting (h : Fits other standing files) (hmoved : Fits pid stage files)
    (hne : other ≠ pid) (hstarting : stage.starting = true) : standing.starting = false := by
  by_contra hboth
  have hlock := h.lock (Bool.not_eq_false _ ▸ hboth)
  rw [hmoved.lock hstarting] at hlock
  exact hne (Option.some.inj hlock).symm

/-- A pidfile that is created or written named nobody. -/
theorem unnamed (hmoved : Fits pid stage files) {kind : DaemonKind}
    (hfree : stage = .claiming kind ∧ files.pidfile kind = none ∨ stage = .overwriting kind ∨
      ∃ creator, stage = .writingPid kind creator) : files.names kind = none := by
  rcases hfree with ⟨-, hnone⟩ | hstage | ⟨creator, hstage⟩
  · rw [Files.names, hnone]
    rfl
  · rw [Files.names, hmoved.absent hstage]
    rfl
  · rw [Files.names, hmoved.opened hstage]
    rfl

section

variable (h : Fits other standing files)
include h

/-- The process that writes a pidfile disturbs nobody. -/
theorem stable_put (hmoved : Fits pid stage files)
    (hne : other ≠ pid) (hstarting : stage.starting = true) {kind : DaemonKind} {file : PidFile}
    (hfree : stage = .claiming kind ∧ files.pidfile kind = none ∨ stage = .overwriting kind ∨
      ∃ creator, stage = .writingPid kind creator) :
    Fits other standing (files.setPidfile kind (some file)) := by
  have hidle := h.not_both_starting hmoved hne hstarting
  constructor
  · exact h.lock
  · intro claimed hclaims htold
    have hnames := h.names hclaims htold
    have hother : claimed ≠ kind := by
      rintro rfl
      rw [hmoved.unnamed hfree] at hnames
      cases hnames
    rw [Files.names_setPidfile_of_ne files _ hother]
    exact hnames
  · intro claimed hstage
    rw [hstage] at hidle
    cases hidle
  · intro claimed creator hstage
    rw [hstage] at hidle
    cases hidle
  · exact h.unhandled
  · exact h.target
  · exact h.told

/-- The process that removes a pidfile disturbs nobody. -/
theorem stable_removed (hne : other ≠ pid)
    (halive : other ∈ files.alive) {kind : DaemonKind}
    (honly : files.OnlyNames kind fun found =>
      found ∉ files.alive ∨ found = pid ∨ files.Told found) :
    Fits other standing (files.setPidfile kind none) := by
  constructor
  · exact h.lock
  · intro claimed hclaims htold
    have hnames := h.names hclaims htold
    have hother : claimed ≠ kind := by
      rintro rfl
      obtain ⟨file, hfile, hcontent⟩ := Option.bind_eq_some_iff.mp hnames
      obtain ⟨found, hfound, hgone⟩ := honly file hfile
      obtain rfl := Option.some.inj (hcontent.symm.trans hfound)
      rcases hgone with hdead | hself | htoldToEnd
      · exact hdead halive
      · exact hne hself
      · exact htold htoldToEnd
    rw [Files.names_setPidfile_of_ne files _ hother]
    exact hnames
  · intro claimed hstage
    by_cases hother : claimed = kind
    · rw [hother]
      exact files.setPidfile_self kind none
    · rw [files.setPidfile_of_ne none hother]
      exact h.absent hstage
  · intro claimed creator hstage
    have hopened := h.opened hstage
    have hother : claimed ≠ kind := by
      rintro rfl
      obtain ⟨found, hfound, -⟩ := honly _ hopened
      cases hfound
    rw [files.setPidfile_of_ne none hother]
    exact hopened
  · exact h.unhandled
  · exact h.target
  · exact h.told

/-- A safe step of one process leaves what another relies on. -/
theorem stable (hmoved : Fits pid stage files) (hne : other ≠ pid) (halive : other ∈ files.alive)
    {choice : Choice} (hsafe : choice = .proceed → stage.Safe pid files)
    (heffect : Effect pid stage choice files after) : Fits other standing after := by
  cases heffect with
  | kept => exact h
  | locked hfree =>
    refine ⟨fun hstarting => ?_, h.names, h.absent, h.opened, h.unhandled, h.target, h.told⟩
    cases hfree.symm.trans (h.lock hstarting)
  | broke hproceed hstage =>
    refine ⟨fun hstarting => ?_, h.names, h.absent, h.opened, h.unhandled, h.target, h.told⟩
    exact absurd halive ((hsafe hproceed).breaks hstage (h.lock hstarting))
  | unlocked hstarting =>
    refine ⟨fun hboth => ?_, h.names, h.absent, h.opened, h.unhandled, h.target, h.told⟩
    rw [h.not_both_starting hmoved hne hstarting] at hboth
    cases hboth
  | put hproceed hstarting hfree => exact h.stable_put hmoved hne hstarting hfree
  | removed hproceed hstage => exact h.stable_removed hne halive ((hsafe hproceed).removes hstage)
  | published | cleared =>
    exact ⟨h.lock, h.names, h.absent, h.opened, h.unhandled, h.target, h.told⟩
  | handled =>
    refine ⟨h.lock, fun hclaims htold => ?_, h.absent, h.opened, fun hmay hhandled => ?_, h.target,
      fun hstage hruns => List.mem_cons_of_mem pid (h.told hstage hruns)⟩
    · refine h.names hclaims fun hbefore => htold ?_
      exact ⟨List.mem_cons_of_mem pid hbefore.1, hbefore.2⟩
    · exact h.unhandled hmay ((List.mem_cons.mp hhandled).resolve_left hne)
  | noted found =>
    refine ⟨h.lock, fun hclaims htold => ?_, h.absent, h.opened, h.unhandled, fun htarget => ?_,
      h.told⟩
    · refine h.names hclaims fun hbefore => htold ?_
      exact ⟨hbefore.1, List.mem_cons_of_mem found hbefore.2⟩
    · exact (h.target htarget).imp_right (List.mem_cons_of_mem found)
  | ended gone =>
    refine ⟨h.lock, h.names, h.absent, h.opened, h.unhandled, h.target, fun hstage hruns => ?_⟩
    exact h.told hstage (Files.mem_ended.mp hruns).1

/-- A process that starts leaves what another relies on. -/
theorem stable_started (hnew : pid ∉ files.spawned) : Fits other standing (files.started pid) := by
  refine ⟨h.lock, h.names, h.absent, h.opened, h.unhandled, fun htarget => ?_,
    fun hstage hruns => ?_⟩
  · exact (h.target htarget).imp_left (List.mem_cons_of_mem pid)
  · have htarget := (h.target (congrArg Stage.target hstage)).1
    have hother : _ ≠ pid := fun heq => hnew (heq ▸ htarget)
    exact h.told hstage ((List.mem_cons.mp hruns).resolve_left hother)

end

end Fits

/-! ## What the process itself relies on next -/

namespace Fits

variable {pid : Pid} {stage next : Stage} {files after : Files}

/-- Outside `acquire`, and without the guard, a process relies on nothing but its notes. -/
theorem of_stopping (hstarting : next.starting = false) (hclaims : next.claims = none)
    (hunhandled : next.mayHandle = false → pid ∉ files.handling)
    (htarget : ∀ {found}, next.target = some found → found ∈ files.spawned ∧ found ∈ files.stopped)
    (htold : ∀ {stopper found terminated}, next = .stopRemoving stopper (some found) terminated →
      found ∈ files.alive → found ∈ files.handling) :
    Fits pid next files := by
  refine ⟨?_, ?_, ?_, ?_, hunhandled, htarget, htold⟩
  · exact fun h => absurd (hstarting.symm.trans h) (by simp)
  · exact fun h => absurd (hclaims.symm.trans h) (by simp)
  · exact fun h => absurd (h ▸ hstarting) (by simp [Stage.starting])
  · exact fun h => absurd (h ▸ hstarting) (by simp [Stage.starting])

/-- A process that stops nobody has no such note. -/
theorem of_idle (hstarting : next.starting = false) (hclaims : next.claims = none)
    (htarget : next.target = none) (hunhandled : next.mayHandle = false → pid ∉ files.handling) :
    Fits pid next files := by
  apply of_stopping hstarting hclaims hunhandled
  · exact fun h => absurd (htarget.symm.trans h) (by simp)
  · exact fun h => absurd (h ▸ htarget) (by simp [Stage.target])

/-- The three steps of a look rely on the same. -/
theorem of_look {look : Look} (h : Fits pid stage files) (hstarting : stage.starting = look.starting)
    (hclaims : stage.claims = look.claims) (hmay : stage.mayHandle = false) :
    Fits pid (.reading look) files := by
  refine ⟨fun hlook => h.lock (hstarting.trans hlook), fun hlook => h.names (hclaims.trans hlook),
    nofun, nofun, fun _ => h.unhandled hmay, nofun, nofun⟩

section

variable {look : Look} (h : Fits pid (.reading look) files)
include h

/-- After a look that found a daemon. -/
theorem refused : Fits pid look.refused files := by
  have hunhandled := h.unhandled rfl
  cases look with
  | observe | ensure => exact of_idle rfl rfl rfl nofun
  | firstCheck kind => exact ⟨fun _ => h.lock rfl, nofun, nofun, nofun, fun _ => hunhandled, nofun, nofun⟩
  | ownCheck kind => exact ⟨fun _ => h.lock rfl, nofun, nofun, nofun, fun _ => hunhandled, nofun, nofun⟩
  | secondCheck kind =>
    exact ⟨fun _ => h.lock rfl, h.names, nofun, nofun, fun _ => hunhandled, nofun, nofun⟩

/-- After a look that found none. -/
theorem absent_look (hgone : files.pidfile look.kind = none) : Fits pid look.absent files := by
  have hunhandled := h.unhandled rfl
  cases look with
  | observe kind => exact of_idle rfl rfl rfl nofun
  | ensure => exact of_idle rfl rfl rfl fun _ => hunhandled
  | firstCheck kind => exact ⟨fun _ => h.lock rfl, nofun, nofun, nofun, fun _ => hunhandled, nofun, nofun⟩
  | ownCheck kind =>
    refine ⟨fun _ => h.lock rfl, nofun, fun hstage => ?_, nofun, fun _ => hunhandled, nofun, nofun⟩
    rw [← Stage.overwriting.inj hstage]
    exact hgone
  | secondCheck kind =>
    exact ⟨fun _ => h.lock rfl, h.names, nofun, nofun, fun _ => hunhandled, nofun, nofun⟩

/-- Removing what it looked at leaves the own pidfile of the process alone. -/
theorem cleared :
    Fits pid (.reading look) (files.setPidfile look.kind none) := by
  refine ⟨h.lock, fun {kind} hclaims htold => ?_, nofun, nofun, h.unhandled, nofun, nofun⟩
  have hother : kind ≠ look.kind := by
    cases look with
    | secondCheck claimed =>
      obtain rfl := Option.some.inj (show some claimed = some kind from hclaims)
      exact (DaemonKind.other_ne claimed).symm
    | _ => exact absurd (show none = some kind from hclaims) (by simp)
  rw [Files.names_setPidfile_of_ne files none hother]
  exact h.names hclaims htold

end

/-- After the claim on the pidfile. -/
theorem claimed {kind : DaemonKind} (hlock : files.lock = some pid) (hnames : files.names kind = some pid)
    (hunhandled : pid ∉ files.handling) :
    Fits pid (.reading (.secondCheck kind)) files := by
  refine ⟨fun _ => hlock, fun hclaims _ => ?_, nofun, nofun, fun _ => hunhandled, nofun, nofun⟩
  rw [← Option.some.inj (show some kind = _ from hclaims)]
  exact hnames

/-- A process that holds the guard relies on its pidfile. -/
theorem of_holding {kind : DaemonKind} (hnames : ¬files.Told pid → files.names kind = some pid)
    (hclaims : next.claims = some kind) (hstarting : next.starting = false) (htarget : next.target = none)
    (hunhandled : next.mayHandle = false → pid ∉ files.handling) :
    Fits pid next files := by
  constructor
  · exact fun h => absurd (hstarting.symm.trans h) (by simp)
  · intro claimed hclaimed htold
    rw [← Option.some.inj (hclaims.symm.trans hclaimed)]
    exact hnames htold
  · exact fun h => absurd (h ▸ hstarting) (by simp [Stage.starting])
  · exact fun h => absurd (h ▸ hstarting) (by simp [Stage.starting])
  · exact hunhandled
  · exact fun h => absurd (htarget.symm.trans h) (by simp)
  · exact fun h => absurd (h ▸ htarget) (by simp [Stage.target])

/-- A process that goes on relies on what its next stage needs. -/
theorem proceed (h : Fits pid stage files)
    (hknown : ∀ {kind found}, files.names kind = some found → found ∈ files.spawned)
    (hstep : stage.proceed pid files = some (next, after)) : Fits pid next after := by
  cases stage with
  | reading look =>
    simp only [Stage.proceed] at hstep
    split at hstep
    · next hnone =>
      cases hstep
      exact h.absent_look hnone
    · cases hstep
      exact h.refused
    · cases hstep
      exact ⟨h.lock, h.names, nofun, nofun, h.unhandled, nofun, nofun⟩
  | judging look found =>
    have hread : Fits pid (.reading look) files := h.of_look rfl rfl rfl
    cases hstep
    split
    · exact hread.refused
    · exact ⟨h.lock, h.names, nofun, nofun, h.unhandled, nofun, nofun⟩
  | clearing look found =>
    have hread : Fits pid (.reading look) files := h.of_look rfl rfl rfl
    cases hstep
    exact hread.cleared.absent_look (files.setPidfile_self look.kind none)
  | locking kind =>
    have hunhandled := h.unhandled rfl
    simp only [Stage.proceed] at hstep
    split at hstep <;> cases hstep
    · exact ⟨fun _ => rfl, nofun, nofun, nofun, fun _ => hunhandled, nofun, nofun⟩
    · exact of_idle rfl rfl rfl fun _ => hunhandled
  | lockBusy | breaking =>
    cases hstep
    exact of_idle rfl rfl rfl fun _ => h.unhandled rfl
  | claiming kind =>
    have hunhandled := h.unhandled rfl
    simp only [Stage.proceed] at hstep
    split at hstep <;> cases hstep
    · exact claimed (h.lock rfl) (by simp) hunhandled
    · exact ⟨fun _ => h.lock rfl, nofun, nofun, nofun, fun _ => hunhandled, nofun, nofun⟩
  | overwriting kind =>
    have hunhandled := h.unhandled rfl
    cases hstep
    refine ⟨fun _ => h.lock rfl, nofun, nofun, fun hstage => ?_, fun _ => hunhandled, nofun, nofun⟩
    cases hstage
    exact files.setPidfile_self _ _
  | writingPid kind creator =>
    have hopened := h.opened rfl
    cases hstep
    rw [if_pos (by rw [hopened]; rfl)]
    exact claimed (h.lock rfl) (by simp) (h.unhandled rfl)
  | backingOff kind =>
    have hunhandled := h.unhandled rfl
    cases hstep
    exact ⟨fun _ => h.lock rfl, nofun, nofun, nofun, fun _ => hunhandled, nofun, nofun⟩
  | unlocking kind won =>
    have hunhandled := h.unhandled rfl
    cases hstep
    cases won with
    | true => exact of_holding (h.names rfl) rfl rfl rfl fun _ => hunhandled
    | false => exact of_idle rfl rfl rfl fun _ => hunhandled
  | serving kind =>
    have hunhandled := h.unhandled rfl
    cases kind <;> cases hstep <;> exact of_holding (h.names rfl) rfl rfl rfl fun _ => hunhandled
  | published =>
    cases hstep
    refine of_holding (fun htold => h.names rfl fun hbefore => htold ?_) rfl rfl rfl nofun
    exact ⟨List.mem_cons_self, hbefore.2⟩
  | ready | clearingOwnMeta =>
    cases hstep
    exact of_holding (h.names rfl) rfl rfl rfl nofun
  | releasing | removingOwn | ensureClearingMeta =>
    cases hstep
    exact of_idle rfl rfl rfl nofun
  | owning =>
    cases hstep
    split <;> exact of_holding (h.names rfl) rfl rfl rfl nofun
  | readingOwn =>
    cases hstep
    split
    · exact of_holding (h.names rfl) rfl rfl rfl nofun
    · exact of_idle rfl rfl rfl nofun
  | stopReading stopper =>
    have hunhandled := h.unhandled rfl
    simp only [Stage.proceed] at hstep
    split at hstep
    · cases hstep
      exact of_idle rfl rfl rfl fun _ => hunhandled
    · cases hstep
      exact of_idle rfl rfl rfl nofun
    · next creator found hfile =>
      cases hstep
      refine of_stopping rfl rfl (fun _ => hunhandled) (fun htarget => ?_) nofun
      rw [← Option.some.inj (show some found = _ from htarget)]
      have hnames : files.names .squad = some found := by
        rw [Files.names, hfile]
        rfl
      exact ⟨hknown hnames, List.mem_cons_self⟩
  | stopJudging stopper found =>
    have htarget := h.target rfl
    cases hstep
    split
    · exact of_stopping rfl rfl h.unhandled h.target fun hstage => by cases hstage
    · next hgone =>
      refine of_stopping rfl rfl h.unhandled h.target fun hstage hruns => ?_
      rw [← (Option.some.inj (Stage.stopRemoving.inj hstage).2.1)] at hruns
      exact absurd hruns hgone
  | killing stopper found =>
    simp only [Stage.proceed] at hstep
    split at hstep
    · cases hstep
      exact of_idle rfl rfl rfl fun hmay => by cases hmay
    · split at hstep <;> cases hstep
      · refine of_stopping rfl rfl h.unhandled h.target fun hstage hruns => ?_
        rw [← (Option.some.inj (Stage.stopRemoving.inj hstage).2.1)] at hruns
        exact absurd rfl (Files.mem_ended.mp hruns).2
      · next hhandled =>
        refine of_stopping rfl rfl h.unhandled h.target fun hstage _ => ?_
        rw [← (Option.some.inj (Stage.stopRemoving.inj hstage).2.1)]
        exact not_not.mp hhandled
  | stopRemoving stopper found terminated =>
    have hunhandled := h.unhandled rfl
    cases hstep
    split
    · exact of_idle rfl rfl rfl fun _ => hunhandled
    · exact of_idle rfl rfl rfl fun hmay => by cases hmay
  | stopClearing stopper =>
    have hunhandled := h.unhandled rfl
    cases stopper <;> cases hstep <;> exact of_idle rfl rfl rfl fun _ => hunhandled
  | ensureReadingMeta =>
    have hunhandled := h.unhandled rfl
    cases hstep
    split <;> exact of_idle rfl rfl rfl fun _ => hunhandled
  | done => cases hstep

/-- A process whose step fails relies on what its next stage needs. -/
theorem failed (h : Fits pid stage files) (hstep : stage.failed = some next) : Fits pid next files := by
  cases stage with
  | reading look =>
    cases hstep
    exact h.refused
  | clearing look found =>
    cases hstep
    have hread : Fits pid (.reading look) files := h.of_look rfl rfl rfl
    exact hread.refused
  | claiming | overwriting | writingPid | backingOff =>
    cases hstep
    exact ⟨fun _ => h.lock rfl, nofun, nofun, nofun, fun _ => h.unhandled rfl, nofun, nofun⟩
  | published | owning | clearingOwnMeta =>
    cases hstep
    exact of_holding (h.names rfl) rfl rfl rfl nofun
  | locking | lockBusy | releasing | readingOwn | removingOwn | stopReading | killing |
    stopRemoving | stopClearing | ensureReadingMeta | ensureClearingMeta =>
    cases hstep
    exact of_idle rfl rfl rfl nofun
  | breaking kind =>
    cases hstep
    exact of_idle rfl rfl rfl fun _ => h.unhandled rfl
  | judging | unlocking | serving | ready | stopJudging | done =>
    cases hstep

/-- A process relies on what its next stage needs. -/
theorem step (h : Fits pid stage files)
    (hknown : ∀ {kind found}, files.names kind = some found → found ∈ files.spawned) {choice : Choice}
    (hstep : stage.step pid files choice = some (next, after)) (halive : pid ∈ after.alive) :
    Fits pid next after := by
  cases choice with
  | proceed => exact h.proceed hknown hstep
  | publish =>
    simp only [Stage.step] at hstep
    split at hstep
    · next hstage =>
      cases hstep
      rw [hstage] at h
      exact of_holding (h.names rfl) rfl rfl rfl fun _ => h.unhandled rfl
    · cases hstep
  | stale =>
    obtain ⟨moved, hmoved, heq⟩ := Option.map_eq_some_iff.mp hstep
    cases heq
    cases stage with
    | lockBusy kind =>
      simp only [Stage.foundStale] at hmoved
      split at hmoved
      · cases hmoved
        exact of_idle rfl rfl rfl fun _ => h.unhandled rfl
      · cases hmoved
    | _ => cases hmoved
  | fail =>
    obtain ⟨moved, hmoved, heq⟩ := Option.map_eq_some_iff.mp hstep
    cases heq
    exact h.failed hmoved
  | crash =>
    obtain ⟨-, rfl⟩ := Prod.mk.inj (Option.some.inj hstep)
    exact absurd rfl (Files.mem_ended.mp halive).2
  | spawn other => cases hstep

end Fits

end Awman.Daemon
