import Awman.DaemonExclusion

/-!
# Stopping a daemon and starting its successor

A stop, a refresh of the key, and a daemon that ends, look at a file first and remove it later.
Where no daemon claims the pidfile or publishes its sidecar in between, a daemon that serves keeps
both, until it is stopped itself or ends.
-/

namespace Awman.Daemon

open Interleaving

/-! ## The condition -/

/-- The process has read the pidfile of the squad daemon and is about to remove it. -/
def Stage.awaitsRemoval : Stage → Bool
  | .stopJudging .. => true
  | .killing .. => true
  | .stopRemoving .. => true
  | .removingOwn => true
  | _ => false

/-- The step creates the pidfile of the squad daemon, or empties it. -/
def Stage.claimsSquad (files : Files) : Stage → Bool
  | .claiming .squad => (files.pidfile .squad).isNone
  | .overwriting .squad => true
  | _ => false

/-- No process that runs is at such a stage. -/
def NoneAt (config : Config Files Position) (stands : Stage → Bool) : Prop :=
  ∀ {id pid stage}, config.calls id = some (.process pid stage) → pid ∈ config.shared.alive →
    stands stage = false

/-- Stale files are removed only while they are stale, no squad daemon claims its pidfile while
another process is about to remove what it read, and none publishes its sidecar while another
process is about to remove the sidecar. -/
structure StartsAfterStops (config : Config Files Position) (stage : Stage) (choice : Choice) :
    Prop where
  clearsStale : choice = .proceed → stage.ClearsStale config.shared
  /-- No removal of the pidfile is pending. -/
  claims : choice = .proceed → stage.claimsSquad config.shared = true →
    NoneAt config Stage.awaitsRemoval
  /-- No removal of the sidecar is pending. -/
  publishes : choice = .publish → NoneAt config Stage.awaitsClearing

/-- Every step of a process that runs is taken so. -/
def SuccessorsWait (config : Config Files Position) : Event Choice Position → Prop
  | .start _ _ => True
  | .step id choice => ∀ pid stage, config.calls id = some (.process pid stage) →
    pid ∈ config.shared.alive → StartsAfterStops config stage choice

/-! ## The invariant -/

/-- The process a removal is about. -/
def Stage.readPid (pid : Pid) : Stage → Option Pid
  | .stopJudging _ found => some found
  | .killing _ found => some found
  | .stopRemoving _ found _ => found
  | .removingOwn => some pid
  | _ => none

/-- The squad daemon has published its sidecar and has not begun to end. -/
def Stage.hasPublished : Stage → Bool
  | .published => true
  | .ready => true
  | _ => false

/-- What holds of the pending removals. -/
structure Pending (config : Config Files Position) : Prop where
  /-- The pidfile is still the one that was read. -/
  pidfile : ∀ {id pid stage}, config.calls id = some (.process pid stage) →
    pid ∈ config.shared.alive → stage.awaitsRemoval = true →
    config.shared.OnlyNames .squad fun found => stage.readPid pid = some found
  /-- No daemon that was not stopped serves while the sidecar is about to be removed. -/
  sidecar : ∀ {id other pid found stage standing}, config.calls id = some (.process pid stage) →
    config.calls other = some (.process found standing) → pid ∈ config.shared.alive →
    found ∈ config.shared.alive → stage.awaitsClearing = true → standing.hasPublished = true →
    found ∈ config.shared.stopped
  /-- The sidecar is the one of the daemon that serves. -/
  published : ∀ {id pid stage}, config.calls id = some (.process pid stage) →
    pid ∈ config.shared.alive → stage.hasPublished = true → pid ∉ config.shared.stopped →
    config.shared.sidecar = some pid

theorem Stage.claims_of_hasPublished {stage : Stage} (h : stage.hasPublished = true) :
    stage.claims = some .squad := by
  cases stage <;> first | rfl | cases h

/-- The pidfile names a daemon that serves and was not stopped. -/
theorem Kept.names_published {config : Config Files Position} {id : Nat} {pid : Pid} {stage : Stage}
    (h : Kept config) (hold : config.calls id = some (.process pid stage))
    (halive : pid ∈ config.shared.alive) (hpublished : stage.hasPublished = true)
    (hfree : pid ∉ config.shared.stopped) : config.shared.names .squad = some pid :=
  (h.fits hold halive).names (Stage.claims_of_hasPublished hpublished) fun htold => hfree htold.2

/-- The removal of what was read is what the invariant of the others allows. -/
theorem Pending.removesRead {config : Config Files Position} {id : Nat} {pid : Pid} {stage : Stage}
    (h : Pending config) (hold : config.calls id = some (.process pid stage))
    (halive : pid ∈ config.shared.alive) : stage.RemovesRead pid config.shared := by
  cases stage with
  | removingOwn =>
    intro file hfile
    have hread := h.pidfile hold halive rfl file hfile
    exact hread.imp fun found hfound => hfound.imp_right fun hown => Or.inr (Option.some.inj hown).symm
  | stopRemoving stopper target terminated =>
    intro file hfile
    have hread := h.pidfile hold halive rfl file hfile
    exact hread.imp fun found hfound => hfound.imp_right Or.inr
  | _ => trivial

/-! ## Where a removal becomes pending -/

variable {pid : Pid} {files after : Files} {stage next : Stage} {choice : Choice}

theorem Look.absent_awaitsRemoval (look : Look) : look.absent.awaitsRemoval = false := by
  cases look <;> rfl

theorem Look.refused_awaitsRemoval (look : Look) : look.refused.awaitsRemoval = false := by
  cases look <;> rfl

theorem Look.refused_awaitsClearing (look : Look) : look.refused.awaitsClearing = false := by
  cases look <;> rfl

theorem Look.absent_awaitsClearing {look : Look} (h : look.absent.awaitsClearing = true) :
    look = .ensure := by
  cases look <;> first | rfl | cases h

/-- A step that fails leaves no removal pending. -/
theorem Stage.failed_awaitsRemoval (h : stage.failed = some next) : next.awaitsRemoval = false := by
  cases stage with
  | reading look | clearing look found =>
    cases h
    exact look.refused_awaitsRemoval
  | _ => grind [failed, awaitsRemoval]

theorem Stage.foundStale_eq (h : stage.foundStale files = some next) : ∃ kind, next = .breaking kind := by
  cases stage <;> grind [foundStale]

/-- A removal of the pidfile becomes pending with what was read, or stays so. -/
theorem Stage.step_awaitsRemoval (h : stage.step pid files choice = some (next, after))
    (hawaits : next.awaitsRemoval = true) :
    (stage.awaitsRemoval = true ∧ next.readPid pid = stage.readPid pid ∨
      files.OnlyNames .squad fun found => next.readPid pid = some found) ∧
      after.pidfile = files.pidfile := by
  cases choice with
  | proceed =>
    cases stage with
    | reading look =>
      simp only [step, proceed] at h
      split at h <;> cases h
      · cases look.absent_awaitsRemoval.symm.trans hawaits
      · cases look.refused_awaitsRemoval.symm.trans hawaits
      · cases hawaits
    | judging look found =>
      cases h
      split at hawaits
      · cases look.refused_awaitsRemoval.symm.trans hawaits
      · cases hawaits
    | clearing look found =>
      cases h
      cases look.absent_awaitsRemoval.symm.trans hawaits
    | serving kind =>
      cases kind <;> cases h <;> cases hawaits
    | stopReading stopper =>
      simp only [step, proceed] at h
      split at h
      · next hnone =>
        cases h
        exact ⟨Or.inr fun file hfile => absurd (hnone.symm.trans hfile) (by simp), rfl⟩
      · cases h
        cases hawaits
      · next creator found hsome =>
        cases h
        refine ⟨Or.inr fun file hfile => ⟨found, ?_, rfl⟩, rfl⟩
        rw [← Option.some.inj (hsome.symm.trans hfile)]
    | stopJudging stopper found =>
      cases h
      refine ⟨Or.inl ⟨rfl, ?_⟩, rfl⟩
      split <;> rfl
    | killing stopper found =>
      simp only [step, proceed] at h
      split at h
      · cases h
        cases hawaits
      · split at h <;> cases h <;> exact ⟨Or.inl ⟨rfl, rfl⟩, rfl⟩
    | readingOwn =>
      cases h
      split at hawaits
      · next hnames =>
        rw [if_pos hnames]
        refine ⟨Or.inr fun file hfile => ⟨pid, ?_, rfl⟩, rfl⟩
        rw [Files.names, hfile] at hnames
        exact hnames
      · cases hawaits
    | stopClearing stopper =>
      cases stopper <;> cases h <;> cases hawaits
    | _ =>
      simp only [step, proceed] at h
      grind [awaitsRemoval]
  | publish =>
    simp only [step] at h
    split at h
    · cases h
      cases hawaits
    · cases h
  | stale =>
    obtain ⟨moved, hmoved, heq⟩ := Option.map_eq_some_iff.mp h
    cases heq
    obtain ⟨kind, rfl⟩ := foundStale_eq hmoved
    cases hawaits
  | fail =>
    obtain ⟨moved, hmoved, heq⟩ := Option.map_eq_some_iff.mp h
    cases heq
    cases (failed_awaitsRemoval hmoved).symm.trans hawaits
  | crash =>
    cases h
    exact ⟨Or.inl ⟨hawaits, rfl⟩, rfl⟩
  | spawn other => cases h

/-- A removal of the sidecar becomes pending where no squad daemon has a pidfile, or one that was
stopped. -/
theorem Stage.step_awaitsClearing (h : stage.step pid files choice = some (next, after))
    (hawaits : next.awaitsClearing = true) :
    stage.awaitsClearing = true ∨ stage = .reading .ensure ∧ files.pidfile .squad = none ∨
      choice = .proceed ∧ (∃ found, stage = .clearing .ensure found) ∨
      (∃ stopper found terminated, stage = .stopRemoving stopper found terminated) ∨
      stage = .owning ∧ files.names .squad = some pid := by
  cases choice with
  | proceed =>
    cases stage with
    | reading look =>
      simp only [step, proceed] at h
      split at h
      · next hnone =>
        cases h
        obtain rfl := Look.absent_awaitsClearing hawaits
        exact Or.inr (Or.inl ⟨rfl, hnone⟩)
      · cases h
        cases look.refused_awaitsClearing.symm.trans hawaits
      · cases h
        cases hawaits
    | judging look found =>
      cases h
      split at hawaits
      · cases look.refused_awaitsClearing.symm.trans hawaits
      · cases hawaits
    | clearing look found =>
      cases h
      obtain rfl := Look.absent_awaitsClearing hawaits
      exact Or.inr (Or.inr (Or.inl ⟨rfl, found, rfl⟩))
    | stopRemoving stopper found terminated =>
      exact Or.inr (Or.inr (Or.inr (Or.inl ⟨stopper, found, terminated, rfl⟩)))
    | owning =>
      cases h
      split at hawaits
      · next hnames => exact Or.inr (Or.inr (Or.inr (Or.inr ⟨rfl, hnames⟩)))
      · cases hawaits
    | clearingOwnMeta | stopClearing | ensureReadingMeta | ensureClearingMeta => exact Or.inl rfl
    | serving kind =>
      cases kind <;> cases h <;> cases hawaits
    | _ =>
      simp only [step, proceed] at h
      grind [awaitsClearing]
  | publish =>
    simp only [step] at h
    split at h
    · cases h
      cases hawaits
    · cases h
  | stale =>
    obtain ⟨moved, hmoved, heq⟩ := Option.map_eq_some_iff.mp h
    cases heq
    obtain ⟨kind, rfl⟩ := foundStale_eq hmoved
    cases hawaits
  | fail =>
    obtain ⟨moved, hmoved, heq⟩ := Option.map_eq_some_iff.mp h
    cases heq
    cases stage with
    | reading look | clearing look found =>
      cases hmoved
      cases look.refused_awaitsClearing.symm.trans hawaits
    | _ => grind [failed, awaitsClearing]
  | crash =>
    cases h
    exact Or.inl hawaits
  | spawn other => cases h

theorem Look.absent_hasPublished (look : Look) : look.absent.hasPublished = false := by
  cases look <;> rfl

theorem Look.refused_hasPublished (look : Look) : look.refused.hasPublished = false := by
  cases look <;> rfl

/-- A daemon serves once it has published its sidecar. -/
theorem Stage.step_hasPublished (h : stage.step pid files choice = some (next, after))
    (hpublished : next.hasPublished = true) :
    (stage.hasPublished = true ∧ after.sidecar = files.sidecar) ∨
      choice = .publish ∧ stage = .serving .squad ∧ after.sidecar = some pid := by
  cases choice with
  | proceed =>
    cases stage with
    | reading look =>
      simp only [step, proceed] at h
      split at h <;> cases h
      · cases look.absent_hasPublished.symm.trans hpublished
      · cases look.refused_hasPublished.symm.trans hpublished
      · cases hpublished
    | judging look found =>
      cases h
      split at hpublished
      · cases look.refused_hasPublished.symm.trans hpublished
      · cases hpublished
    | clearing look found =>
      cases h
      cases look.absent_hasPublished.symm.trans hpublished
    | published =>
      cases h
      exact Or.inl ⟨rfl, rfl⟩
    | serving kind =>
      cases kind <;> cases h <;> cases hpublished
    | stopClearing stopper =>
      cases stopper <;> cases h <;> cases hpublished
    | _ =>
      simp only [step, proceed] at h
      grind [hasPublished]
  | publish =>
    simp only [step] at h
    split at h
    · next hstage =>
      cases h
      exact Or.inr ⟨rfl, hstage, rfl⟩
    · cases h
  | stale =>
    obtain ⟨moved, hmoved, heq⟩ := Option.map_eq_some_iff.mp h
    cases heq
    obtain ⟨kind, rfl⟩ := foundStale_eq hmoved
    cases hpublished
  | fail =>
    obtain ⟨moved, hmoved, heq⟩ := Option.map_eq_some_iff.mp h
    cases heq
    cases stage with
    | reading look | clearing look found =>
      cases hmoved
      cases look.refused_hasPublished.symm.trans hpublished
    | _ => grind [failed, hasPublished]
  | crash =>
    cases h
    exact Or.inl ⟨hpublished, rfl⟩
  | spawn other => cases h

/-! ## Steps -/

section

variable (h : Effect pid stage choice files after)
include h

theorem Effect.stopped_mem {other : Pid} (hstopped : other ∈ files.stopped) : other ∈ after.stopped := by
  cases h with
  | noted found hstage => exact List.mem_cons_of_mem found hstopped
  | _ => exact hstopped

/-- The pidfile of the squad daemon is left alone, removed, created by a claim, or written after
that. -/
theorem Effect.squad (hfits : Fits pid stage files) :
    after.pidfile .squad = files.pidfile .squad ∨ after.pidfile .squad = none ∨
      (choice = .proceed ∧ stage.claimsSquad files = true) ∨
      ∃ creator, files.pidfile .squad = some ⟨creator, none⟩ := by
  cases h with
  | put hproceed hstarting hfree hcontent =>
    next kind file =>
    cases kind with
    | api => exact Or.inl (files.setPidfile_of_ne _ (by simp))
    | squad =>
      right
      right
      rcases hfree with ⟨rfl, hnone⟩ | rfl | ⟨creator, hstage⟩
      · exact Or.inl ⟨hproceed, by rw [Stage.claimsSquad, hnone]; rfl⟩
      · exact Or.inl ⟨hproceed, rfl⟩
      · exact Or.inr ⟨creator, hfits.opened hstage⟩
  | removed hproceed hstage =>
    next kind =>
    cases kind with
    | api => exact Or.inl (files.setPidfile_of_ne _ (by simp))
    | squad => exact Or.inr (Or.inl (files.setPidfile_self _ _))
  | _ => exact Or.inl rfl

/-- The sidecar is left alone, published, or removed by a process that was about to. -/
theorem Effect.sidecar_cases :
    after.sidecar = files.sidecar ∨ stage = .serving .squad ∨ stage.awaitsClearing = true := by
  cases h with
  | published hpublish hstage => exact Or.inr (Or.inl hstage)
  | cleared hstage => exact Or.inr (Or.inr hstage)
  | _ => exact Or.inl rfl

end

namespace Pending

variable {config : Config Files Position} {id : Nat}

section

variable (h : Pending config) (hkept : Kept config) (hold : config.calls id = some (.process pid stage))
  (halive : pid ∈ config.shared.alive)
include h hkept hold halive

variable {found : Pid} {standing : Stage}

/-- No daemon that was not stopped serves where the removal of the sidecar becomes pending. -/
theorem stopped_of_awaitsClearing (hallowed : StartsAfterStops config stage choice)
    (hstep : stage.step pid config.shared choice = some (next, after))
    (hawaits : next.awaitsClearing = true) {other : Nat}
    (hother : config.calls other = some (.process found standing)) (hruns : found ∈ config.shared.alive)
    (hpublished : standing.hasPublished = true) :
    found ∈ config.shared.stopped := by
  by_contra hfree
  have hnames := hkept.names_published hother hruns hpublished hfree
  obtain ⟨file, hfile, hcontent⟩ := Option.bind_eq_some_iff.mp hnames
  rcases Stage.step_awaitsClearing hstep hawaits with hbefore | ⟨-, hnone⟩ |
    ⟨hproceed, seen, rfl⟩ | ⟨stopper, target, terminated, rfl⟩ | ⟨rfl, hown⟩
  · exact hfree (h.sidecar hold hother halive hruns hbefore hpublished)
  · cases hnone.symm.trans hfile
  · obtain ⟨named, hnamed, hgone⟩ := hallowed.clearsStale hproceed file hfile
    obtain rfl := Option.some.inj (hcontent.symm.trans hnamed)
    exact hgone hruns
  · obtain ⟨named, hnamed, htarget⟩ := h.pidfile hold halive rfl file hfile
    obtain rfl := Option.some.inj (hcontent.symm.trans hnamed)
    exact hfree ((hkept.fits hold halive).target htarget).2
  · obtain rfl := Option.some.inj (hown.symm.trans hnames)
    obtain rfl := hkept.unique hold hother
    obtain ⟨-, rfl⟩ := Position.process.inj (Option.some.inj (hold.symm.trans hother))
    cases hpublished

/-- What a pending removal has read stays in the pidfile. -/
theorem pidfile_moved (hallowed : StartsAfterStops config stage choice)
    (hstep : stage.step pid config.shared choice = some (next, after)) {other : Nat}
    (hother : config.calls other = some (.process found standing)) (hruns : found ∈ config.shared.alive)
    (hawaits : standing.awaitsRemoval = true) :
    after.OnlyNames .squad fun named => standing.readPid found = some named := by
  have hbefore := h.pidfile hother hruns hawaits
  rcases (Stage.step_effect hstep).squad (hkept.fits hold halive) with hsame | hnone |
    ⟨hproceed, hclaims⟩ | ⟨creator, hopened⟩
  · intro file hfile
    exact hbefore file (hsame.symm.trans hfile)
  · intro file hfile
    cases hnone.symm.trans hfile
  · have hnone := hallowed.claims hproceed hclaims hother hruns
    cases hawaits.symm.trans hnone
  · obtain ⟨named, hnamed, -⟩ := hbefore _ hopened
    cases hnamed

/-- The sidecar of a daemon that serves stays. -/
theorem sidecar_moved (hstep : stage.step pid config.shared choice = some (next, after)) {other : Nat}
    (hother : config.calls other = some (.process found standing)) (hne : other ≠ id)
    (hruns : found ∈ config.shared.alive) (hpublished : standing.hasPublished = true)
    (hfree : found ∉ config.shared.stopped) :
    after.sidecar = some found := by
  have hbefore := h.published hother hruns hpublished hfree
  rcases (Stage.step_effect hstep).sidecar_cases with hsame | rfl | hclears
  · exact hsame.trans hbefore
  · -- Two daemons that serve would both be named by the pidfile.
    have hfits := hkept.fits hold halive
    have hown := hfits.names rfl fun htold => hfits.unhandled rfl htold.1
    have hnames := hkept.names_published hother hruns hpublished hfree
    obtain rfl := Option.some.inj (hown.symm.trans hnames)
    exact absurd (hkept.unique hother hold) hne
  · exact absurd (h.sidecar hold hother halive hruns hclears hpublished) hfree

/-- A process takes a step. -/
theorem moved (hallowed : StartsAfterStops config stage choice)
    (hstep : stage.step pid config.shared choice = some (next, after)) :
    Pending (config.move id (.process pid next) after) := by
  have heffect := Stage.step_effect hstep
  constructor
  · intro other found standing hother hruns hawaits
    rcases Config.calls_move hother with ⟨-, hmoved⟩ | ⟨-, hbefore⟩
    · cases hmoved
      obtain ⟨hread, hsame⟩ := Stage.step_awaitsRemoval hstep hawaits
      rw [Config.move_shared, Files.OnlyNames, hsame]
      rcases hread with ⟨hawaited, hpid⟩ | hnow
      · rw [hpid]
        exact h.pidfile hold halive hawaited
      · exact hnow
    · exact h.pidfile_moved hkept hold halive hallowed hstep hbefore (heffect.alive hruns) hawaits
  · intro first second found other left right hfirst hsecond hleft hright hawaits hpublished
    have hrightBefore := heffect.alive hright
    have hleftBefore := heffect.alive hleft
    rcases Config.calls_move hsecond with ⟨rfl, hmoved⟩ | ⟨-, hsecondBefore⟩
    · cases hmoved
      rcases Config.calls_move hfirst with ⟨rfl, hmoved⟩ | ⟨-, hfirstBefore⟩
      · obtain ⟨-, rfl⟩ := Position.process.inj hmoved
        cases left <;> simp [Stage.awaitsClearing, Stage.hasPublished] at hawaits hpublished
      · rcases Stage.step_hasPublished hstep hpublished with ⟨hbefore, -⟩ | ⟨hpublish, -, -⟩
        · exact heffect.stopped_mem
            (h.sidecar hfirstBefore hold hleftBefore halive hawaits hbefore)
        · have hnone := hallowed.publishes hpublish hfirstBefore hleftBefore
          cases hawaits.symm.trans hnone
    · rcases Config.calls_move hfirst with ⟨rfl, hmoved⟩ | ⟨-, hfirstBefore⟩
      · cases hmoved
        exact heffect.stopped_mem (h.stopped_of_awaitsClearing hkept hold halive hallowed hstep
          hawaits hsecondBefore hrightBefore hpublished)
      · exact heffect.stopped_mem
          (h.sidecar hfirstBefore hsecondBefore hleftBefore hrightBefore hawaits hpublished)
  · intro other found standing hother hruns hpublished hfree
    have hfreeBefore : found ∉ config.shared.stopped := fun hstopped =>
      hfree (heffect.stopped_mem hstopped)
    rcases Config.calls_move hother with ⟨-, hmoved⟩ | ⟨hne, hbefore⟩
    · cases hmoved
      rcases Stage.step_hasPublished hstep hpublished with ⟨hbefore, hsame⟩ | ⟨-, -, hown⟩
      · exact hsame.trans (h.published hold halive hbefore hfreeBefore)
      · exact hown
    · exact h.sidecar_moved hkept hold halive hstep hbefore hne (heffect.alive hruns) hpublished
        hfreeBefore

end

/-- A process that was not about to do anything changes nothing. -/
theorem appeared (h : Pending config) {position : Position} {files : Files}
    (hpidfile : files.pidfile = config.shared.pidfile)
    (hsidecar : files.sidecar = config.shared.sidecar)
    (hstopped : files.stopped = config.shared.stopped)
    (halive : ∀ {other found standing}, config.calls other = some (.process found standing) →
      found ∈ files.alive → found ∈ config.shared.alive)
    (hquiet : ∀ {found standing}, position = .process found standing →
      standing.awaitsRemoval = false ∧ standing.awaitsClearing = false ∧
        standing.hasPublished = false) :
    Pending (config.move id position files) := by
  constructor
  · intro other found standing hother hruns hawaits
    rw [Config.move_shared, Files.OnlyNames, hpidfile]
    rcases Config.calls_move hother with ⟨-, hmoved⟩ | ⟨-, hbefore⟩
    · cases hawaits.symm.trans (hquiet hmoved.symm).1
    · exact h.pidfile hbefore (halive hbefore hruns) hawaits
  · intro first second found other left right hfirst hsecond hleft hright hawaits hpublished
    rw [Config.move_shared, hstopped]
    rcases Config.calls_move hfirst with ⟨-, hmoved⟩ | ⟨-, hfirstBefore⟩
    · cases hawaits.symm.trans (hquiet hmoved.symm).2.1
    · rcases Config.calls_move hsecond with ⟨-, hmoved⟩ | ⟨-, hsecondBefore⟩
      · cases hpublished.symm.trans (hquiet hmoved.symm).2.2
      · exact h.sidecar hfirstBefore hsecondBefore (halive hfirstBefore hleft)
          (halive hsecondBefore hright) hawaits hpublished
  · intro other found standing hother hruns hpublished hfree
    rw [Config.move_shared, hsidecar]
    rw [Config.move_shared, hstopped] at hfree
    rcases Config.calls_move hother with ⟨-, hmoved⟩ | ⟨-, hbefore⟩
    · cases hpublished.symm.trans (hquiet hmoved.symm).2.2
    · exact h.published hbefore (halive hbefore hruns) hpublished hfree

end Pending

/-- Every allowed step keeps both invariants. -/
theorem succession_preserved :
    daemonSystem.Preserves SuccessorsWait fun config => Kept config ∧ Pending config where
  start := by
    intro config id position h _ hstarts
    cases position with
    | spawning task =>
      refine ⟨h.1.about_to_start, h.2.appeared rfl rfl rfl (fun _ hruns => hruns) fun hmoved => ?_⟩
      cases hmoved
    | process pid stage => exact absurd hstarts Bool.false_ne_true
  step := by
    intro config id choice old position shared h hallowed hold hstep
    have hkept : Kept (config.move id position shared) := by
      refine h.1.step hold ?_ hstep
      rintro pid stage rfl halive hproceed
      exact ⟨(hallowed pid stage hold halive).clearsStale hproceed, h.2.removesRead hold halive⟩
    refine ⟨hkept, ?_⟩
    cases old with
    | spawning task =>
      cases choice with
      | spawn pid =>
        simp only [daemonSystem, Daemon.step] at hstep
        split at hstep
        · cases hstep
        · next hnew =>
          cases hstep
          refine h.2.appeared rfl rfl rfl (fun hother hruns => ?_) fun hmoved => ?_
          · apply (List.mem_cons.mp hruns).resolve_left
            rintro rfl
            exact hnew (h.1.known hother)
          · obtain ⟨-, rfl⟩ := Position.process.inj hmoved
            cases task <;> exact ⟨rfl, rfl, rfl⟩
      | _ => cases hstep
    | process pid stage =>
      simp only [daemonSystem, Daemon.step] at hstep
      split at hstep
      · next halive =>
        obtain ⟨⟨next, files⟩, hmoved, heq⟩ := Option.map_eq_some_iff.mp hstep
        cases heq
        exact h.2.moved h.1 hold halive (hallowed pid stage hold halive) hmoved
      · cases hstep

/-- The squad daemon runs, has written its pidfile and its sidecar, and has not begun to end. -/
def Serves (config : Config Files Position) (id : Nat) (pid : Pid) : Prop :=
  pid ∈ config.shared.alive ∧
    ∃ stage, config.calls id = some (.process pid stage) ∧ stage.hasPublished = true

/-- Where no daemon claims its pidfile or publishes its sidecar between the look of another process
and the removal it leads to, a squad daemon that serves keeps both until a stop finds it. -/
theorem daemonSystem_survives {events : List (Event Choice Position)}
    (hmeets : daemonSystem.Meets SuccessorsWait (Config.idle .empty) events) :
    ∀ id pid, Serves (daemonSystem.run (Config.idle .empty) events) id pid →
      pid ∉ (daemonSystem.run (Config.idle .empty) events).shared.stopped →
      (daemonSystem.run (Config.idle .empty) events).shared.names .squad = some pid ∧
      (daemonSystem.run (Config.idle .empty) events).shared.sidecar = some pid := by
  have hstart : Pending (.idle Files.empty) := by
    constructor <;> intros <;> simp_all [Config.idle]
  obtain ⟨hkept, hpending⟩ := succession_preserved.run ⟨Kept.empty, hstart⟩ hmeets
  rintro id pid ⟨halive, stage, hstage, hpublished⟩ hfree
  exact ⟨hkept.names_published hstage halive hpublished hfree,
    hpending.published hstage halive hpublished hfree⟩

/-! ## Runs -/

/-- A squad daemon starts and serves. -/
def startsServing (id : Nat) (pid : Pid) : List (Event Choice Position) :=
  [.start id (.spawning (.daemon .squad)), .step id (.spawn pid), .step id .proceed,
    .step id .proceed, .step id .proceed, .step id .proceed, .step id .proceed, .step id .publish,
    .step id .proceed]

/-- `squad stop` finds a daemon, tells it to end and removes the pidfile. -/
def stops (id : Nat) (pid : Pid) : List (Event Choice Position) :=
  [.start id (.spawning (.stop .stop)), .step id (.spawn pid), .step id .proceed, .step id .proceed,
    .step id .proceed, .step id .proceed]

/-- A daemon is stopped and ends, and then its successor starts. -/
def stoppedThenStarted : List (Event Choice Position) :=
  startsServing 0 10 ++ stops 1 11 ++ [.step 1 .proceed] ++
  [.step 0 .proceed, .step 0 .proceed, .step 0 .proceed] ++ startsServing 2 12

/-- The process is gone or not at such a stage. -/
def Position.clearOf (stands : Stage → Bool) (files : Files) : Position → Bool
  | .spawning _ => true
  | .process pid stage => decide (pid ∈ files.alive) → stands stage = false

/-- After a schedule no process is at such a stage, if none of the schedule is. -/
theorem noneAt_run (events : List (Event Choice Position)) {stands : Stage → Bool} {files : Files}
    (hfiles : (daemonSystem.run (Config.idle .empty) events).shared = files)
    (h : (events.all fun event => ((daemonSystem.run (Config.idle .empty) events).calls
      event.id).all (Position.clearOf stands files)) = true) :
    NoneAt (daemonSystem.run (Config.idle .empty) events) stands := by
  intro id pid stage hstage halive
  have hclear := System.every_run_idle h id _ hstage
  rw [hfiles] at halive
  simpa [Position.clearOf, halive] using hclear

/-- The successor claims the pidfile and publishes its sidecar when both removals are over. -/
theorem stoppedThenStarted_waits :
    daemonSystem.Meets SuccessorsWait (Config.idle .empty) stoppedThenStarted := by
  refine ⟨trivial, ?_, ?_, ?_, ?claim, ?_, ?_, ?publish, ?_, trivial, ?_, ?_, ?_, ?_, ?_, ?_, ?_,
    ?_, ?_, trivial, ?_, ?_, ?_, ?claimAgain, ?_, ?_, ?publishAgain, ?_, trivial⟩
  case claim =>
    intro pid stage hstage _
    cases hstage
    refine ⟨fun _ => trivial, fun _ _ => ?_, nofun⟩
    exact noneAt_run (stoppedThenStarted.take 4) rfl (by decide)
  case publish =>
    intro pid stage hstage _
    cases hstage
    refine ⟨fun _ => trivial, nofun, fun _ => ?_⟩
    exact noneAt_run (stoppedThenStarted.take 7) rfl (by decide)
  case claimAgain =>
    intro pid stage hstage _
    cases hstage
    refine ⟨fun _ => trivial, fun _ _ => ?_, nofun⟩
    exact noneAt_run (stoppedThenStarted.take 23) rfl (by decide)
  case publishAgain =>
    intro pid stage hstage _
    cases hstage
    refine ⟨fun _ => trivial, nofun, fun _ => ?_⟩
    exact noneAt_run (stoppedThenStarted.take 26) rfl (by decide)
  all_goals
    intro pid stage hstage _
    first
      | exact Position.noConfusion (Option.some.inj hstage)
      | obtain ⟨rfl, rfl⟩ := Position.process.inj (Option.some.inj hstage)
        exact ⟨fun _ => trivial, fun _ hclaims => absurd hclaims (by decide), nofun⟩

/-- The successor keeps its pidfile and its sidecar. -/
theorem daemonSystem_survives_stoppedThenStarted :
    (daemonSystem.run (Config.idle .empty) stoppedThenStarted).shared.names .squad = some 12 ∧
    (daemonSystem.run (Config.idle .empty) stoppedThenStarted).shared.sidecar = some 12 :=
  daemonSystem_survives stoppedThenStarted_waits 2 12 ⟨by decide, .ready, rfl, rfl⟩ (by decide)

/-- A stop removes the sidecar after the successor has published its own. -/
def sidecarRemovedLate : List (Event Choice Position) :=
  startsServing 0 10 ++ stops 1 11 ++ startsServing 2 12 ++ [.step 1 .proceed]

/-- A stop removes the pidfile after the daemon it has told to end did so and the successor has
claimed its own. -/
def stopRemovesLate : List (Event Choice Position) :=
  startsServing 0 10 ++ (stops 1 11).dropLast ++
  [.step 0 .proceed, .step 0 .proceed, .step 0 .proceed, .step 0 .proceed, .step 0 .proceed] ++
  startsServing 2 12 ++ [.step 1 .proceed]

/-- A successor that serves and that no stop has found can lose its sidecar, and its pidfile. -/
theorem sidecarRemovedLate_evicted :
    (Serves (daemonSystem.run (Config.idle .empty) sidecarRemovedLate) 2 12 ∧
      12 ∉ (daemonSystem.run (Config.idle .empty) sidecarRemovedLate).shared.stopped ∧
      (daemonSystem.run (Config.idle .empty) sidecarRemovedLate).shared.sidecar = none) ∧
    Serves (daemonSystem.run (Config.idle .empty) stopRemovesLate) 2 12 ∧
      12 ∉ (daemonSystem.run (Config.idle .empty) stopRemovesLate).shared.stopped ∧
      (daemonSystem.run (Config.idle .empty) stopRemovesLate).shared.pidfile .squad = none :=
  ⟨⟨⟨by decide, .ready, rfl, rfl⟩, by decide, rfl⟩, ⟨by decide, .ready, rfl, rfl⟩, by decide, rfl⟩

end Awman.Daemon
