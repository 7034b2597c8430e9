import Awman.DaemonReliance

/-!
# At most one daemon

Where a stale lock or pidfile is removed only while it still is the one of a process that is gone,
no two processes hold the guard of a daemon, of the same or of the other one, and the pidfile names
the one that does.
-/

namespace Awman.Daemon

open Interleaving

/-! ## The invariant -/

/-- A process removes only what nobody else relies on. -/
theorem Fits.safe {pid : Pid} {stage : Stage} {files : Files} (h : Fits pid stage files)
    (hstale : stage.ClearsStale files) (hread : stage.RemovesRead pid files) :
    stage.Safe pid files where
  removes := by
    intro kind hremoves file hfile
    have hown (hclaims : stage.claims = some kind) (hmay : stage.mayHandle = false) :
        file.content = some pid := by
      have hnames := h.names hclaims fun htold => h.unhandled hmay htold.1
      rw [Files.names, hfile] at hnames
      exact hnames
    cases stage with
    | clearing look found =>
      obtain rfl := Option.some.inj (show some look.kind = some kind from hremoves)
      exact (hstale file hfile).imp fun named hnamed => hnamed.imp_right Or.inl
    | backingOff | releasing => exact ⟨pid, hown hremoves rfl, Or.inr (Or.inl rfl)⟩
    | removingOwn =>
      obtain rfl := Option.some.inj (show some DaemonKind.squad = some kind from hremoves)
      exact (hread file hfile).imp fun named hnamed => hnamed.imp_right (Or.imp_right Or.inl)
    | stopRemoving stopper target terminated =>
      obtain rfl := Option.some.inj (show some DaemonKind.squad = some kind from hremoves)
      obtain ⟨named, hnamed, hgone⟩ := hread file hfile
      refine ⟨named, hnamed, ?_⟩
      by_cases halive : named ∈ files.alive
      · obtain rfl := hgone.resolve_left (not_not.mpr halive)
        exact Or.inr (Or.inr ⟨h.told rfl halive, (h.target rfl).2⟩)
      · exact Or.inl halive
    | _ => cases hremoves
  breaks := by
    rintro kind creator rfl hlock
    exact hstale creator hlock

namespace Effect

variable {pid : Pid} {stage : Stage} {choice : Choice} {files after : Files}

section

variable (h : Effect pid stage choice files after)
include h

theorem spawned : after.spawned = files.spawned := by
  cases h <;> rfl

theorem alive {other : Pid} (halive : other ∈ after.alive) : other ∈ files.alive := by
  cases h with
  | ended gone => exact (Files.mem_ended.mp halive).1
  | _ => exact halive

theorem named {kind : DaemonKind} {found : Pid} (hnames : after.names kind = some found) :
    files.names kind = some found ∨ found = pid := by
  cases h with
  | put hproceed hstarting hfree hcontent =>
    next changed file =>
    by_cases hkind : kind = changed
    · rw [hkind, Files.names_setPidfile_self] at hnames
      exact Or.inr (hcontent found hnames)
    · rw [Files.names_setPidfile_of_ne files _ hkind] at hnames
      exact Or.inl hnames
  | removed hproceed hstage =>
    next changed =>
    by_cases hkind : kind = changed
    · rw [hkind, Files.names_setPidfile_self] at hnames
      cases hnames
    · rw [Files.names_setPidfile_of_ne files _ hkind] at hnames
      exact Or.inl hnames
  | _ => exact Or.inl hnames

theorem handlers {other : Pid} (hhandled : other ∈ after.handling) :
    other ∈ files.handling ∨ other = pid := by
  cases h with
  | handled => exact (List.mem_cons.mp hhandled).symm
  | _ => exact Or.inl hhandled

theorem told {other : Pid} (htold : files.Told other) : after.Told other := by
  cases h with
  | handled => exact ⟨List.mem_cons_of_mem pid htold.1, htold.2⟩
  | noted found => exact ⟨htold.1, List.mem_cons_of_mem found htold.2⟩
  | _ => exact htold

end

end Effect

theorem Look.absent_holds {look : Look} {kind : DaemonKind} (h : look.absent.holds = some kind) :
    look = .secondCheck kind := by
  cases look <;> simp_all [absent, Stage.holds]

theorem Look.refused_holds (look : Look) : look.refused.holds = none := by
  cases look <;> rfl

/-- Going on acquires the guard where the second look finds no other daemon. -/
theorem Stage.proceed_holds {pid : Pid} {files after : Files} {stage next : Stage} {kind : DaemonKind}
    (h : stage.proceed pid files = some (next, after)) (hholds : next.holds = some kind) :
    stage.holds = some kind ∨
      stage = .reading (.secondCheck kind) ∧ files.pidfile kind.other = none ∨
      ∃ found, stage = .clearing (.secondCheck kind) found := by
  cases stage with
  | reading look =>
    simp only [proceed] at h
    split at h
    · next hnone =>
      cases h
      obtain rfl := Look.absent_holds hholds
      exact Or.inr (Or.inl ⟨rfl, hnone⟩)
    · cases h
      cases look.refused_holds.symm.trans hholds
    · cases h
      cases hholds
  | judging look found =>
    cases h
    split at hholds
    · cases look.refused_holds.symm.trans hholds
    · cases hholds
  | clearing look found =>
    cases h
    obtain rfl := Look.absent_holds hholds
    exact Or.inr (Or.inr ⟨found, rfl⟩)
  | unlocking claimed won =>
    cases h
    cases won with
    | true => exact Or.inl hholds
    | false => cases hholds
  | serving claimed =>
    cases claimed <;> cases h <;> exact Or.inl hholds
  | published | ready | clearingOwnMeta =>
    cases h
    exact Or.inl hholds
  | owning =>
    cases h
    split at hholds <;> exact Or.inl hholds
  | readingOwn =>
    cases h
    split at hholds
    · exact Or.inl hholds
    · cases hholds
  | _ =>
    simp only [proceed] at h
    grind [holds]

/-- A step acquires the guard where the second look finds no other daemon. -/
theorem Stage.step_holds {pid : Pid} {files after : Files} {stage next : Stage} {choice : Choice}
    {kind : DaemonKind} (h : stage.step pid files choice = some (next, after))
    (hholds : next.holds = some kind) :
    stage.holds = some kind ∨
      stage = .reading (.secondCheck kind) ∧ files.pidfile kind.other = none ∨
      choice = .proceed ∧ ∃ found, stage = .clearing (.secondCheck kind) found := by
  cases choice with
  | proceed => exact (proceed_holds h hholds).imp_right (Or.imp_right fun hfound => ⟨rfl, hfound⟩)
  | publish =>
    simp only [step] at h
    split at h
    · next hstage =>
      cases h
      exact Or.inl (hstage ▸ hholds)
    · cases h
  | stale =>
    obtain ⟨moved, hmoved, heq⟩ := Option.map_eq_some_iff.mp h
    cases heq
    cases stage <;> grind [foundStale, holds]
  | fail =>
    obtain ⟨moved, hmoved, heq⟩ := Option.map_eq_some_iff.mp h
    cases heq
    cases stage with
    | reading look | clearing look found =>
      cases hmoved
      cases look.refused_holds.symm.trans hholds
    | _ => grind [failed, holds]
  | crash =>
    obtain ⟨rfl, -⟩ := Prod.mk.inj (Option.some.inj h)
    exact Or.inl hholds
  | spawn other => cases h

theorem Stage.claims_of_holds {stage : Stage} {kind : DaemonKind} (h : stage.holds = some kind) :
    stage.claims = some kind := by
  cases stage <;> first | exact h | cases h

/-- What holds of all processes. -/
structure Kept (config : Config Files Position) : Prop where
  /-- Each relies on what its stage needs. -/
  fits : ∀ {id pid stage}, config.calls id = some (.process pid stage) →
    pid ∈ config.shared.alive → Fits pid stage config.shared
  /-- Process ids are not reused. -/
  unique : ∀ {id other pid stage standing}, config.calls id = some (.process pid stage) →
    config.calls other = some (.process pid standing) → id = other
  /-- Every process was started. -/
  known : ∀ {id pid stage}, config.calls id = some (.process pid stage) →
    pid ∈ config.shared.spawned
  /-- Pidfiles name processes that were started. -/
  named : ∀ {kind found}, config.shared.names kind = some found → found ∈ config.shared.spawned
  /-- Only processes that were started end in order. -/
  handlers : ∀ {pid}, pid ∈ config.shared.handling → pid ∈ config.shared.spawned
  /-- Two processes that hold a guard and were not told to end are the same daemon. -/
  apart : ∀ {id other pid found stage standing kind held},
    config.calls id = some (.process pid stage) →
    config.calls other = some (.process found standing) →
    pid ∈ config.shared.alive → found ∈ config.shared.alive →
    ¬config.shared.Told pid → ¬config.shared.Told found →
    stage.holds = some kind → standing.holds = some held → kind = held

namespace Kept

variable {config : Config Files Position} {id other : Nat} {pid found : Pid}
  {stage next standing : Stage} {choice : Choice} {after : Files} {kind held : DaemonKind}

/-- Whoever acquires a guard sees the pidfile of a process that holds the other one. -/
theorem same_daemon (h : Kept config) (hold : config.calls id = some (.process pid stage))
    (halive : pid ∈ config.shared.alive) (htold : ¬config.shared.Told pid)
    (hother : config.calls other = some (.process found standing)) (hruns : found ∈ config.shared.alive)
    (hfree : ¬config.shared.Told found) (hstale : choice = .proceed → stage.ClearsStale config.shared)
    (hstep : stage.step pid config.shared choice = some (next, after)) (hnext : next.holds = some kind)
    (hheld : standing.holds = some held) : kind = held := by
  rcases Stage.step_holds hstep hnext with hbefore | hacquires
  · exact h.apart hold hother halive hruns htold hfree hbefore hheld
  · by_contra hdiffer
    have hheldOther : held = kind.other := DaemonKind.eq_other fun heq => hdiffer heq.symm
    have hnames := (h.fits hother hruns).names (Stage.claims_of_holds hheld) hfree
    rw [hheldOther] at hnames
    obtain ⟨file, hfile, hcontent⟩ := Option.bind_eq_some_iff.mp hnames
    rcases hacquires with ⟨-, hnone⟩ | ⟨hproceed, seen, hstage⟩
    · rw [hnone] at hfile
      cases hfile
    · have hclears := hstale hproceed
      rw [hstage] at hclears
      obtain ⟨named, hnamed, hgone⟩ := hclears file hfile
      obtain rfl := Option.some.inj (hcontent.symm.trans hnamed)
      exact hgone hruns

/-- A process takes a step. -/
theorem moved (h : Kept config) (hold : config.calls id = some (.process pid stage))
    (halive : pid ∈ config.shared.alive)
    (hallowed : choice = .proceed →
      stage.ClearsStale config.shared ∧ stage.RemovesRead pid config.shared)
    (hstep : stage.step pid config.shared choice = some (next, after)) :
    Kept (config.move id (.process pid next) after) := by
  have hfits := h.fits hold halive
  have heffect := Stage.step_effect hstep
  have hsafe (hproceed : choice = .proceed) : stage.Safe pid config.shared :=
    hfits.safe (hallowed hproceed).1 (hallowed hproceed).2
  constructor
  · intro other found standing hother hruns
    rcases Config.calls_move hother with ⟨-, hmoved⟩ | ⟨hne, hbefore⟩
    · cases hmoved
      exact hfits.step h.named hstep hruns
    · have hdiffer : found ≠ pid := by
        rintro rfl
        exact hne (h.unique hbefore hold)
      have halready := heffect.alive hruns
      exact (h.fits hbefore halready).stable hfits hdiffer halready hsafe heffect
  · intro first second found left right hfirst hsecond
    rcases Config.calls_move hfirst with ⟨rfl, hmoved⟩ | ⟨hne, hbefore⟩
    · cases hmoved
      rcases Config.calls_move hsecond with ⟨rfl, -⟩ | ⟨-, hbefore⟩
      · rfl
      · exact h.unique hold hbefore
    · rcases Config.calls_move hsecond with ⟨rfl, hmoved⟩ | ⟨-, hafter⟩
      · cases hmoved
        exact h.unique hbefore hold
      · exact h.unique hbefore hafter
  · intro other found standing hother
    rw [Config.move_shared, heffect.spawned]
    rcases Config.calls_move hother with ⟨-, hmoved⟩ | ⟨-, hbefore⟩
    · cases hmoved
      exact h.known hold
    · exact h.known hbefore
  · intro kind found hnames
    rw [Config.move_shared, heffect.spawned]
    rcases heffect.named hnames with hbefore | rfl
    · exact h.named hbefore
    · exact h.known hold
  · intro other hhandled
    rw [Config.move_shared, heffect.spawned]
    rcases heffect.handlers hhandled with hbefore | rfl
    · exact h.handlers hbefore
    · exact h.known hold
  · intro first second firstPid secondPid left right kind held hfirst hsecond hleft hright hfreeLeft
      hfreeRight hkind hheld
    have hleftBefore := heffect.alive hleft
    have hrightBefore := heffect.alive hright
    have hfreeLeftBefore := fun htold => hfreeLeft (heffect.told htold)
    have hfreeRightBefore := fun htold => hfreeRight (heffect.told htold)
    have hstale := fun hproceed => (hallowed hproceed).1
    rcases Config.calls_move hfirst with ⟨-, hmovedLeft⟩ | ⟨-, hbeforeLeft⟩ <;>
      rcases Config.calls_move hsecond with ⟨-, hmovedRight⟩ | ⟨-, hbeforeRight⟩
    · obtain ⟨-, rfl⟩ := Position.process.inj hmovedLeft
      obtain ⟨-, rfl⟩ := Position.process.inj hmovedRight
      exact Option.some.inj (hkind.symm.trans hheld)
    · cases hmovedLeft
      exact h.same_daemon hold halive hfreeLeftBefore hbeforeRight hrightBefore hfreeRightBefore
        hstale hstep hkind hheld
    · cases hmovedRight
      exact (h.same_daemon hold halive hfreeRightBefore hbeforeLeft hleftBefore hfreeLeftBefore
        hstale hstep hheld hkind).symm
    · exact h.apart hbeforeLeft hbeforeRight hleftBefore hrightBefore hfreeLeftBefore
        hfreeRightBefore hkind hheld

/-- A process that has no process id yet is about to be started. -/
theorem about_to_start (h : Kept config) {task : Task} :
    Kept (config.move id (.spawning task) config.shared) := by
  have hstands {other : Nat} {found : Pid} {standing : Stage}
      (hother : (config.move id (.spawning task) config.shared).calls other =
        some (.process found standing)) : config.calls other = some (.process found standing) := by
    rcases Config.calls_move hother with ⟨-, hmoved⟩ | ⟨-, hbefore⟩
    · cases hmoved
    · exact hbefore
  exact ⟨fun hother => h.fits (hstands hother),
    fun hfirst hsecond => h.unique (hstands hfirst) (hstands hsecond),
    fun hother => h.known (hstands hother), h.named, h.handlers,
    fun hfirst hsecond => h.apart (hstands hfirst) (hstands hsecond)⟩

/-- A process is started. -/
theorem started (h : Kept config) {task : Task} (hold : config.calls id = some (.spawning task))
    (hnew : pid ∉ config.shared.spawned) :
    Kept (config.move id (.process pid task.entry) (config.shared.started pid)) := by
  have hunhandled : pid ∉ config.shared.handling := fun hhandled => hnew (h.handlers hhandled)
  have hdiffer {other : Nat} {found : Pid} {standing : Stage}
      (hother : config.calls other = some (.process found standing)) : found ≠ pid := by
    rintro rfl
    exact hnew (h.known hother)
  constructor
  · intro other found standing hother hruns
    rcases Config.calls_move hother with ⟨-, hmoved⟩ | ⟨-, hbefore⟩
    · cases hmoved
      cases task <;> exact Fits.of_idle rfl rfl rfl fun _ => hunhandled
    · have halready := (List.mem_cons.mp hruns).resolve_left (hdiffer hbefore)
      exact (h.fits hbefore halready).stable_started hnew
  · intro first second found left right hfirst hsecond
    rcases Config.calls_move hfirst with ⟨rfl, hmoved⟩ | ⟨hne, hbefore⟩
    · cases hmoved
      rcases Config.calls_move hsecond with ⟨rfl, -⟩ | ⟨-, hbefore⟩
      · rfl
      · exact absurd rfl (hdiffer hbefore)
    · rcases Config.calls_move hsecond with ⟨rfl, hmoved⟩ | ⟨-, hafter⟩
      · cases hmoved
        exact absurd rfl (hdiffer hbefore)
      · exact h.unique hbefore hafter
  · intro other found standing hother
    rcases Config.calls_move hother with ⟨-, hmoved⟩ | ⟨-, hbefore⟩
    · cases hmoved
      exact List.mem_cons_self
    · exact List.mem_cons_of_mem pid (h.known hbefore)
  · exact fun hnames => List.mem_cons_of_mem pid (h.named hnames)
  · exact fun hhandled => List.mem_cons_of_mem pid (h.handlers hhandled)
  · intro first second firstPid secondPid left right kind held hfirst hsecond hleft hright hfreeLeft
      hfreeRight hkind hheld
    have hbefore {other : Nat} {found : Pid} {standing : Stage} {claimed : DaemonKind}
        (hother : (config.move id (.process pid task.entry)
          (config.shared.started pid)).calls other = some (.process found standing))
        (hruns : found ∈ (config.shared.started pid).alive)
        (hholds : standing.holds = some claimed) :
        config.calls other = some (.process found standing) ∧ found ∈ config.shared.alive := by
      rcases Config.calls_move hother with ⟨-, hmoved⟩ | ⟨-, hbefore⟩
      · cases hmoved
        cases task <;> cases hholds
      · exact ⟨hbefore, (List.mem_cons.mp hruns).resolve_left (hdiffer hbefore)⟩
    have hone := hbefore hfirst hleft hkind
    have htwo := hbefore hsecond hright hheld
    exact h.apart hone.1 htwo.1 hone.2 htwo.2 hfreeLeft hfreeRight hkind hheld

/-- A step that only removes what it looked at keeps the invariant. -/
theorem step (h : Kept config) {old position : Position}
    (hold : config.calls id = some old)
    (hallowed : ∀ pid stage, old = .process pid stage → pid ∈ config.shared.alive →
      choice = .proceed → stage.ClearsStale config.shared ∧ stage.RemovesRead pid config.shared)
    (hstep : Daemon.step old choice config.shared = some (position, after)) :
    Kept (config.move id position after) := by
  cases old with
  | spawning task =>
    cases choice with
    | spawn pid =>
      simp only [Daemon.step] at hstep
      split at hstep
      · cases hstep
      · next hnew =>
        cases hstep
        exact h.started hold hnew
    | _ => cases hstep
  | process pid stage =>
    simp only [Daemon.step] at hstep
    split at hstep
    · next halive =>
      obtain ⟨⟨next, files⟩, hmoved, heq⟩ := Option.map_eq_some_iff.mp hstep
      cases heq
      exact h.moved hold halive (hallowed pid stage rfl halive) hmoved
    · cases hstep

end Kept

/-! ## Starts and liveness checks -/

/-- A daemon that starts, or a liveness check. -/
def Position.isStartOrProbe : Position → Bool
  | .spawning (.daemon _) => true
  | .spawning (.probe _) => true
  | _ => false

/-- Daemons that start, and liveness checks, over the same files. -/
def exclusionSystem : System Choice Files Position :=
  { daemonSystem with starts := Position.isStartOrProbe }

/-- The process belongs to a stop. -/
def Stage.isStop : Stage → Bool
  | .stopReading _ => true
  | .stopJudging .. => true
  | .killing .. => true
  | .stopRemoving .. => true
  | .stopClearing _ => true
  | _ => false

/-- The process stops no daemon. -/
def Position.stopless : Position → Bool
  | .spawning (.stop _) => false
  | .spawning _ => true
  | .process _ stage => !stage.isStop

/-- Nothing stops a daemon. -/
structure Unstopped (config : Config Files Position) : Prop where
  /-- No process does. -/
  stopless : config.Every fun position => position.stopless = true
  /-- None did. -/
  stopped : config.shared.stopped = []

theorem Look.absent_isStop (look : Look) : look.absent.isStop = false := by
  cases look <;> rfl

theorem Look.refused_isStop (look : Look) : look.refused.isStop = false := by
  cases look <;> rfl

/-- A process that stops no daemon does not begin to. -/
theorem Stage.step_isStop {pid : Pid} {files after : Files} {stage next : Stage} {choice : Choice}
    (h : stage.step pid files choice = some (next, after)) (hstopless : stage.isStop = false) :
    next.isStop = false := by
  cases choice with
  | proceed =>
    cases stage with
    | reading look =>
      simp only [step, proceed] at h
      split at h <;> cases h
      · exact look.absent_isStop
      · exact look.refused_isStop
      · rfl
    | judging look found =>
      cases h
      split
      · exact look.refused_isStop
      · rfl
    | clearing look found =>
      cases h
      exact look.absent_isStop
    | stopReading | stopJudging | killing | stopRemoving | stopClearing =>
      cases hstopless
    | serving kind =>
      cases kind <;> cases h <;> rfl
    | _ =>
      simp only [step, proceed] at h
      grind [isStop]
  | publish => grind [step, isStop]
  | stale =>
    obtain ⟨moved, hmoved, heq⟩ := Option.map_eq_some_iff.mp h
    cases heq
    cases stage <;> grind [foundStale, isStop]
  | fail =>
    obtain ⟨moved, hmoved, heq⟩ := Option.map_eq_some_iff.mp h
    cases heq
    cases stage with
    | reading look | clearing look found =>
      cases hmoved
      exact look.refused_isStop
    | _ => grind [failed, isStop]
  | crash =>
    obtain ⟨rfl, -⟩ := Prod.mk.inj (Option.some.inj h)
    exact hstopless
  | spawn other => cases h

theorem Effect.stopped {pid : Pid} {stage : Stage} {choice : Choice} {files after : Files}
    (h : Effect pid stage choice files after) (hstopless : stage.isStop = false) :
    after.stopped = files.stopped := by
  cases h with
  | noted found hstage =>
    rw [hstage] at hstopless
    cases hstopless
  | _ => rfl

/-- Where nothing stops a daemon, no step begins to. -/
theorem Unstopped.step {config : Config Files Position} {id : Nat} {old position : Position}
    {choice : Choice} {after : Files} (h : Unstopped config) (hold : config.calls id = some old)
    (hstep : Daemon.step old choice config.shared = some (position, after)) :
    Unstopped (config.move id position after) := by
  have hstopless := h.stopless id old hold
  cases old with
  | spawning task =>
    cases choice with
    | spawn pid =>
      simp only [Daemon.step] at hstep
      split at hstep
      · cases hstep
      · cases hstep
        refine ⟨h.stopless.moved ?_, h.stopped⟩
        cases task with
        | stop stopper => cases hstopless
        | _ => rfl
    | _ => cases hstep
  | process pid stage =>
    have hplain : stage.isStop = false := by simpa [Position.stopless] using hstopless
    simp only [Daemon.step] at hstep
    split at hstep
    · obtain ⟨⟨next, files⟩, hmoved, heq⟩ := Option.map_eq_some_iff.mp hstep
      cases heq
      refine ⟨h.stopless.moved ?_, ?_⟩
      · simpa [Position.stopless] using Stage.step_isStop hmoved hplain
      · rw [Config.move_shared, (Stage.step_effect hmoved).stopped hplain]
        exact h.stopped
    · cases hstep

/-- A stale lock or pidfile is removed only while it still is the one of a process that is gone. -/
def ClearsStale (config : Config Files Position) : Event Choice Position → Prop
  | .start _ _ => True
  | .step id choice => ∀ pid stage, config.calls id = some (.process pid stage) →
    pid ∈ config.shared.alive → choice = .proceed → stage.ClearsStale config.shared

/-- Where nothing stops a daemon, one that ends removes its own pidfile. -/
theorem Kept.removesRead {config : Config Files Position} {id : Nat} {pid : Pid} {stage : Stage}
    (h : Kept config) (hunstopped : Unstopped config) (hold : config.calls id = some (.process pid stage))
    (halive : pid ∈ config.shared.alive) :
    stage.RemovesRead pid config.shared := by
  cases stage with
  | removingOwn =>
    intro file hfile
    have hfree : ¬config.shared.Told pid := by
      intro htold
      rw [Files.Told, hunstopped.stopped] at htold
      exact absurd htold.2 (by simp)
    have hnames := (h.fits hold halive).names rfl hfree
    rw [Files.names, hfile] at hnames
    exact ⟨pid, hnames, Or.inr rfl⟩
  | stopRemoving =>
    exact absurd (hunstopped.stopless id _ hold) (by simp [Position.stopless, Stage.isStop])
  | _ => trivial

/-- Every allowed step keeps both invariants. -/
theorem exclusion_preserved :
    exclusionSystem.Preserves ClearsStale fun config => Kept config ∧ Unstopped config where
  start := by
    intro config id position h _ hstarts
    cases position with
    | spawning task =>
      refine ⟨h.1.about_to_start, h.2.stopless.moved ?_, h.2.stopped⟩
      cases task <;> first | rfl | exact absurd hstarts Bool.false_ne_true
    | process pid stage => exact absurd hstarts Bool.false_ne_true
  step := by
    intro config id choice old position shared h hallowed hold hstep
    refine ⟨h.1.step hold ?_ hstep, h.2.step hold hstep⟩
    rintro pid stage rfl halive hproceed
    exact ⟨hallowed pid stage hold halive hproceed, h.1.removesRead h.2 hold halive⟩

theorem Kept.empty : Kept (Config.idle Files.empty) := by
  constructor <;> intros <;> simp_all [Config.idle, Files.empty, Files.names]

/-- The process runs, has acquired the guard of a daemon and not released it. -/
def Holds (config : Config Files Position) (id : Nat) (pid : Pid) (kind : DaemonKind) : Prop :=
  pid ∈ config.shared.alive ∧
    ∃ stage, config.calls id = some (.process pid stage) ∧ stage.holds = some kind

/-- Where stale files are removed only while they are stale, at most one process holds the guard of
a daemon, of the same or of the other one, and the pidfile names it as long as it does. -/
theorem exclusionSystem_oneHolder {events : List (Event Choice Position)}
    (hmeets : exclusionSystem.Meets ClearsStale (Config.idle .empty) events) :
    (∀ id other pid found kind held,
      Holds (exclusionSystem.run (Config.idle .empty) events) id pid kind →
      Holds (exclusionSystem.run (Config.idle .empty) events) other found held →
      id = other ∧ pid = found ∧ kind = held) ∧
    ∀ id pid kind, Holds (exclusionSystem.run (Config.idle .empty) events) id pid kind →
      (exclusionSystem.run (Config.idle .empty) events).shared.names kind = some pid := by
  have hstart : Unstopped (Config.idle Files.empty) :=
    ⟨fun id position hposition => absurd hposition (by simp [Config.idle]), rfl⟩
  obtain ⟨hkept, hunstopped⟩ := exclusion_preserved.run ⟨Kept.empty, hstart⟩ hmeets
  have hfree (pid : Pid) : ¬(exclusionSystem.run (Config.idle .empty) events).shared.Told pid := by
    intro htold
    rw [Files.Told, hunstopped.stopped] at htold
    exact absurd htold.2 (by simp)
  have hnames : ∀ id pid kind, Holds (exclusionSystem.run (Config.idle .empty) events) id pid kind →
      (exclusionSystem.run (Config.idle .empty) events).shared.names kind = some pid := by
    rintro id pid kind ⟨halive, stage, hstage, hholds⟩
    exact (hkept.fits hstage halive).names (Stage.claims_of_holds hholds) (hfree pid)
  refine ⟨?_, hnames⟩
  intro id other pid found kind held hone htwo
  have hnamesOne := hnames id pid kind hone
  have hnamesTwo := hnames other found held htwo
  obtain ⟨halive, stage, hstage, hholds⟩ := hone
  obtain ⟨hruns, standing, hstanding, hheld⟩ := htwo
  obtain rfl := hkept.apart hstage hstanding halive hruns (hfree pid) (hfree found) hholds hheld
  obtain rfl := Option.some.inj (hnamesOne.symm.trans hnamesTwo)
  exact ⟨hkept.unique hstage hstanding, rfl, rfl⟩

/-! ## Runs -/

/-- A squad daemon starts on an empty root and crashes while it serves. -/
def daemonCrashes : List (Event Choice Position) :=
  [.start 0 (.spawning (.daemon .squad)), .step 0 (.spawn 10), .step 0 .proceed, .step 0 .proceed,
    .step 0 .proceed, .step 0 .proceed, .step 0 .proceed, .step 0 .crash]

/-- Another one finds the pidfile of the first and takes it over. -/
def daemonTakesOver : List (Event Choice Position) :=
  [.start 2 (.spawning (.daemon .squad)), .step 2 (.spawn 12), .step 2 .proceed, .step 2 .proceed,
    .step 2 .proceed, .step 2 .proceed, .step 2 .proceed, .step 2 .proceed, .step 2 .proceed,
    .step 2 .proceed, .step 2 .proceed, .step 2 .proceed]

/-- The pidfile that is removed names the daemon that crashed. -/
theorem daemonTakesOver_clearsStale :
    exclusionSystem.Meets ClearsStale (Config.idle .empty) (daemonCrashes ++ daemonTakesOver) := by
  refine ⟨trivial, ?_, ?_, ?_, ?_, ?_, ?_, ?_, trivial, ?_, ?_, ?_, ?_, ?_, ?_, ?clear, ?_, ?_, ?_,
    ?_, trivial⟩
  case clear =>
    intro pid stage hstage _ _
    cases hstage
    intro file hfile
    cases hfile
    exact ⟨10, rfl, by decide⟩
  all_goals
    intro pid stage hstage _ _
    first
      | exact Position.noConfusion (Option.some.inj hstage)
      | obtain ⟨rfl, rfl⟩ := Position.process.inj (Option.some.inj hstage)
        trivial

/-- The daemon that took over is the only one, and the pidfile names it. -/
theorem exclusionSystem_oneHolder_daemonTakesOver :
    (exclusionSystem.run (Config.idle .empty) (daemonCrashes ++ daemonTakesOver)).shared.names
      .squad = some 12 :=
  (exclusionSystem_oneHolder daemonTakesOver_clearsStale).2 2 12 .squad
    ⟨by decide, .serving .squad, rfl, rfl⟩

/-- A liveness check that has found the pidfile of the daemon that crashed removes the one of the
daemon that took over, and a third daemon starts. -/
def pidfileRemovedLate : List (Event Choice Position) :=
  daemonCrashes ++
  [.start 1 (.spawning (.probe .squad)), .step 1 (.spawn 11), .step 1 .proceed, .step 1 .proceed] ++
  daemonTakesOver ++
  [.step 1 .proceed, .start 3 (.spawning (.daemon .squad)), .step 3 (.spawn 13), .step 3 .proceed,
    .step 3 .proceed, .step 3 .proceed, .step 3 .proceed, .step 3 .proceed]

/-- Two squad daemons can hold the guard at the same time, one of them without a pidfile. -/
theorem pidfileRemovedLate_two :
    Holds (exclusionSystem.run (Config.idle .empty) pidfileRemovedLate) 2 12 .squad ∧
    Holds (exclusionSystem.run (Config.idle .empty) pidfileRemovedLate) 3 13 .squad ∧
    (exclusionSystem.run (Config.idle .empty) pidfileRemovedLate).shared.names .squad ≠ some 12 :=
  ⟨⟨by decide, .serving .squad, rfl, rfl⟩, ⟨by decide, .serving .squad, rfl, rfl⟩, by decide⟩

end Awman.Daemon
