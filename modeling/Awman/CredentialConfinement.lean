import Awman.CredentialRefresh

/-!
# What refreshes write

The gate belongs to the one refresh that is between it and its return, so what the monitor writes to
a staged file never goes back to an earlier read of the host.  The file was first staged by its own
launch, which takes no gate: a refresh that reads the host, waits for the ping and keeps what it has
read writes over what a launch read meanwhile.
-/

namespace Awman.Credentials

open Interleaving

variable {β : Type} {monitor : Monitor β} {spec : RefreshableCredentialSpec β} {threshold : Nat}
  {call : Refresh} {shared after : Shared β} {choice : Choice} {phase next : RefreshPhase β}
  {position moved : Position β} {config : Config (Shared β) (Position β)} {agent : String}
  {value : β} {snapshot : Snapshot β} {lease : Lease} {pass : Pass β} {todo : List Lease}

/-! ## Where a refresh is -/

namespace RefreshPhase

/-- The refresh is past the gate and has not returned. -/
def holdsGate : RefreshPhase β → Bool
  | .waiting | .returned _ _ | .timedOut => false
  | _ => true

/-- What the refresh brings the leases up to. -/
def source : RefreshPhase β → Option (Snapshot β)
  | .looking snapshot | .readingBefore snapshot | .pinging snapshot _ | .readingAfter snapshot _
  | .listing snapshot _ => some snapshot
  | .rewriting pass _ | .opening pass _ _ | .rechecking pass _ _ | .writing pass _ _ _ =>
    some pass.snapshot
  | .returned _ (some pass) => some pass.snapshot
  | _ => none

/-- The lease it is at. -/
def target : RefreshPhase β → Option Lease
  | .opening _ lease _ | .rechecking _ lease _ | .writing _ lease _ _ => some lease
  | _ => none

/-- What it has done, and the leases it has not done with. -/
def pending : RefreshPhase β → Option (Pass β × List Lease)
  | .rewriting pass todo => some (pass, todo)
  | .opening pass lease todo | .rechecking pass lease todo | .writing pass lease todo _ =>
    some (pass, lease :: todo)
  | .returned _ (some pass) => some (pass, [])
  | _ => none

/-- It has returned that every staged file is up to date. -/
def reports : RefreshPhase β → Bool
  | .returned outcome _ => outcome.current
  | _ => false

end RefreshPhase

/-- A call is past the gate. -/
def Position.holdsGate : Position β → Prop
  | .refresh _ phase => phase.holdsGate = true
  | _ => False

/-- The staged file of the lease with this generation was missing, or found or made to hold what the
refresh brings the files up to. -/
def Pass.Settled (spec : RefreshableCredentialSpec β) (pass : Pass β) (generation : Nat) : Prop :=
  ∃ contents, (generation, contents) ∈ pass.reconciled ∧
    (contents = none ∨ contents = some (pass.file spec))

/-- Every lease of the agent that is live since the refresh was called is settled, is still to do,
or some write failed. -/
def Pass.Covers (spec : RefreshableCredentialSpec β) (shared : Shared β) (call : Refresh)
    (pass : Pass β) (todo : List Lease) : Prop :=
  0 < pass.failures ∨ ∀ lease ∈ shared.entries, lease.generation ∈ call.liveAtStart →
    lease.agent = call.agent → lease ∈ todo ∨ pass.Settled spec lease.generation

/-! ## What the calls share -/

/-- A snapshot is what that read of the host found. -/
def Shared.Reads (shared : Shared β) (agent : String) (snapshot : Snapshot β) : Prop :=
  shared.reads[snapshot.read]? = some (agent, snapshot.value)

/-- A staged file was written with the materialisation of what that read of the host found. -/
def Shared.Materialises (monitor : Monitor β) (shared : Shared β) (write : Write) : Prop :=
  ∃ agent value spec, shared.Reads agent ⟨value, write.read⟩ ∧
    monitor.refreshableSpecFor agent = some spec ∧ write.contents = spec.materialize value

/-- Generations are never given twice, and everything staged is from a read of the host. -/
structure Shared.Sound (monitor : Monitor β) (shared : Shared β) : Prop where
  entries : ∀ lease ∈ shared.entries,
    lease.generation < shared.nextGeneration ∧ lease.generation ∉ shared.dropped
  dropped : ∀ generation ∈ shared.dropped, generation < shared.nextGeneration
  materialised : ∀ path, ∀ write ∈ (shared.files path).writes, shared.Materialises monitor write
  /-- The monitor never goes back to an earlier read. -/
  ordered : ∀ path, (shared.files path).rewrites.Pairwise
    fun later earlier => earlier.read ≤ later.read

/-- What was read, and which generations were given, stays so. -/
structure Shared.Grows (shared after : Shared β) : Prop where
  reads : shared.reads <+: after.reads
  nextGeneration : shared.nextGeneration ≤ after.nextGeneration
  entries : ∀ lease ∈ after.entries, lease ∈ shared.entries ∨
    shared.nextGeneration ≤ lease.generation

theorem Shared.Reads.grows (h : shared.Reads agent snapshot) (hgrows : shared.Grows after) :
    after.Reads agent snapshot := by
  have hbound : snapshot.read < shared.reads.length := (List.getElem?_eq_some_iff.mp h).1
  obtain ⟨later, hlater⟩ := hgrows.reads
  rw [Shared.Reads, ← hlater, List.getElem?_append_left hbound]
  exact h

variable {write : Write} {dropped : List Nat}

theorem Shared.Materialises.grows (h : shared.Materialises monitor write) (hgrows : shared.Grows after) :
    after.Materialises monitor write := by
  obtain ⟨agent, value, spec, hread, hspec, hcontents⟩ := h
  exact ⟨agent, value, spec, hread.grows hgrows, hspec, hcontents⟩

/-- What a read of the host adds is what it found. -/
theorem Shared.reads_noteRead (shared : Shared β) (agent : String) (value : β) :
    (shared.noteRead agent value).Reads agent ⟨value, shared.reads.length⟩ :=
  List.getElem?_concat_length

theorem Shared.grows_noteRead (shared : Shared β) (agent : String) (value : β) :
    shared.Grows (shared.noteRead agent value) :=
  ⟨List.prefix_append _ _, Nat.le_refl _, fun _ hlease => Or.inl hlease⟩

@[simp] theorem Shared.files_setFile_self (shared : Shared β) (path : Nat) (file : StagedFile) :
    (shared.setFile path file).files path = file :=
  Function.update_self ..

theorem Shared.files_setFile (shared : Shared β) (path other : Nat) (file : StagedFile) :
    path = other ∧ (shared.setFile other file).files path = file ∨
      path ≠ other ∧ (shared.setFile other file).files path = shared.files path := by
  by_cases hpath : path = other
  · subst hpath
    exact Or.inl ⟨rfl, shared.files_setFile_self ..⟩
  · exact Or.inr ⟨hpath, Function.update_of_ne hpath ..⟩

theorem Pass.Covers.grows (h : pass.Covers spec shared call todo) (hgrows : shared.Grows after)
    (hstarted : ∀ generation ∈ call.liveAtStart, generation < shared.nextGeneration) :
    pass.Covers spec after call todo := by
  rcases h with hfailed | hall
  · exact Or.inl hfailed
  · right
    intro lease hlease hlive hagent
    have hbound := hstarted lease.generation hlive
    rcases hgrows.entries lease hlease with hbefore | hnew
    · exact hall lease hbefore hlive hagent
    · omega

/-! ## What a step does -/

/-- A refresh still brings the leases up to what it did, or does no more. -/
def RefreshPhase.Continues (phase next : RefreshPhase β) : Prop :=
  ∀ snapshot, next.source = some snapshot → phase.source = some snapshot

/-- What a step of a refresh with a descriptor does to what the calls share. -/
inductive RefreshEffect (spec : RefreshableCredentialSpec β) (call : Refresh)
    (phase next : RefreshPhase β) (shared after : Shared β) : Prop where
  | stays (hgate : next.holdsGate = phase.holdsGate) (hsource : phase.Continues next)
      (hshared : after = shared)
  | leaves (hheld : phase.holdsGate = true) (hnext : next.holdsGate = false)
      (hsource : phase.Continues next) (hshared : after = { shared with gate := false })
  | reads (value : β) (hgate : next.holdsGate = phase.holdsGate)
      (hsource : phase.Continues next ∨ next.source = some ⟨value, shared.reads.length⟩)
      (hshared : after = shared.noteRead call.agent value)
  | rewrites (pass : Pass β) (lease : Lease) (todo : List Lease) (dropped : List Nat)
      (hphase : phase = .writing pass lease todo dropped) (hnext : next.holdsGate = true)
      (hsource : phase.Continues next)
      (hdirectory : (shared.files lease.stagedPath).directory = true)
      (hshared : after = shared.setFile lease.stagedPath { shared.files lease.stagedPath with
        contents := some (pass.file spec)
        rewrites := ⟨pass.file spec, pass.snapshot.read⟩ ::
          (shared.files lease.stagedPath).rewrites })

namespace RefreshPhase

section

variable (h : phase.step spec threshold call shared choice = some (next, after))
include h

theorem effect :
    RefreshEffect spec call phase next shared after := by
  cases phase <;> cases choice
  case reading.proceed | rereading.proceed =>
    simp only [step] at h
    split at h <;> cases h
    · exact .leaves rfl rfl nofun rfl
    · exact .reads _ rfl (Or.inr rfl) rfl
  case readingBefore.proceed =>
    simp only [step] at h
    split at h <;> cases h
    · exact .stays rfl (fun _ => id) rfl
    · exact .reads _ rfl (Or.inl fun _ => id) rfl
  case readingAfter.proceed =>
    simp only [step] at h
    split at h <;> cases h
    · exact .stays rfl (fun _ => id) rfl
    · split_ifs
      · exact .reads _ rfl (Or.inl nofun) rfl
      · exact .reads _ rfl (Or.inl fun _ => id) rfl
  case reading.fails | rereading.fails | pinging.timeout =>
    cases h
    exact .leaves rfl rfl nofun rfl
  case readingBefore.fails | readingAfter.fails | opening.fails | writing.fails =>
    cases h
    exact .stays rfl (fun _ => id) rfl
  case pinging.pinged ok => cases ok <;> cases h <;> exact .stays rfl (fun _ => id) rfl
  case looking.now | rechecking.proceed =>
    cases h
    split_ifs <;> exact .stays rfl (fun _ => id) rfl
  case listing.listed =>
    simp only [step] at h
    split_ifs at h
    cases h
    exact .stays rfl (fun _ => id) rfl
  case rewriting.proceed pass todo =>
    cases todo with
    | nil =>
      cases h
      exact .leaves rfl rfl (fun _ => id) rfl
    | cons lease todo =>
      cases h
      split_ifs <;> exact .stays rfl (fun _ => id) rfl
  case opening.proceed =>
    simp only [step] at h
    split at h <;> cases h
    · exact .stays rfl (fun _ => id) rfl
    · split_ifs <;> exact .stays rfl (fun _ => id) rfl
  case writing.proceed =>
    simp only [step] at h
    split_ifs at h with hdirectory <;> cases h
    · exact .rewrites _ _ _ _ rfl rfl (fun _ => id) hdirectory rfl
    · exact .stays rfl (fun _ => id) rfl
  all_goals simp [step] at h

theorem held_step (hholds : next.holdsGate = true) : phase.holdsGate = true := by
  cases effect h with
  | stays hgate hsource hshared | reads value hgate hsource hshared => rw [← hgate, hholds]
  | leaves hheld hnext hsource hshared => exact hheld
  | rewrites pass lease todo dropped hphase hnext hsource hdirectory hshared =>
    rw [hphase]
    rfl

/-- What a refresh brings the leases up to is what it did, or was read just now. -/
theorem source_step (hnext : next.source = some snapshot) :
    phase.source = some snapshot ∨
      snapshot.read = shared.reads.length ∧ after.Reads call.agent snapshot := by
  cases effect h with
  | stays hgate hsource hshared | leaves hheld hleft hsource hshared
  | rewrites pass lease todo dropped hphase hheld hsource hdirectory hshared =>
    exact Or.inl (hsource snapshot hnext)
  | reads value hgate hsource hshared =>
    rcases hsource with hsource | hread
    · exact Or.inl (hsource snapshot hnext)
    · cases hread.symm.trans hnext
      rw [hshared]
      exact Or.inr ⟨rfl, shared.reads_noteRead _ _⟩

end

end RefreshPhase

/-- What a step of a refresh does about the leases. -/
inductive Progress (spec : RefreshableCredentialSpec β) (call : Refresh)
    (phase next : RefreshPhase β) (shared : Shared β) : Prop where
  | apart (hpending : next.pending = none) (htarget : next.target = none)
      (hreports : next.reports = false)
  | lists (snapshot : Snapshot β) (stale : Bool) (leases : List Lease)
      (hleases : leases.Perm shared.entries)
      (hnext : next = .rewriting ⟨snapshot, stale, 0, 0, []⟩ leases)
  | returns (pass : Pass β) (hphase : phase = .rewriting pass [])
      (hnext : next = .returned pass.outcome (some pass))
  | skips (pass : Pass β) (lease : Lease) (todo : List Lease)
      (hphase : phase.pending = some (pass, lease :: todo))
      (hskipped : ¬(lease.agent = call.agent ∧ shared.isLive lease.generation = true))
      (hnext : next = .rewriting pass todo)
  | opens (pass : Pass β) (lease : Lease) (todo : List Lease)
      (hphase : phase = .rewriting pass (lease :: todo)) (hagent : lease.agent = call.agent)
      (hnext : next = .opening pass lease todo)
  | settles (pass : Pass β) (lease : Lease) (todo : List Lease) (contents : Option (List UInt8))
      (written : Nat) (hphase : phase.pending = some (pass, lease :: todo))
      (hcontents : contents = none ∨ contents = some (pass.file spec))
      (hnext : next = .rewriting { pass.reconcile lease contents with written } todo)
  | differs (pass : Pass β) (lease : Lease) (todo : List Lease)
      (hphase : phase = .opening pass lease todo) (hnext : next = .rechecking pass lease todo)
  | checks (pass : Pass β) (lease : Lease) (todo : List Lease)
      (hphase : phase = .rechecking pass lease todo)
      (hlive : shared.isLive lease.generation = true)
      (hnext : next = .writing pass lease todo shared.dropped)
  | fails (pass : Pass β) (lease : Lease) (todo : List Lease)
      (hphase : phase.pending = some (pass, lease :: todo))
      (hnext : next = .rewriting { pass with failures := pass.failures + 1 } todo)

namespace RefreshPhase

theorem progress (h : phase.step spec threshold call shared choice = some (next, after)) :
    Progress spec call phase next shared := by
  cases phase <;> cases choice
  case reading.proceed | readingBefore.proceed | rereading.proceed =>
    simp only [step] at h
    split at h <;> cases h <;> exact .apart rfl rfl rfl
  case readingAfter.proceed =>
    simp only [step] at h
    split at h <;> cases h
    · exact .apart rfl rfl rfl
    · split_ifs <;> exact .apart rfl rfl rfl
  case reading.fails | readingBefore.fails | readingAfter.fails | rereading.fails
      | pinging.timeout =>
    cases h
    exact .apart rfl rfl rfl
  case pinging.pinged ok => cases ok <;> cases h <;> exact .apart rfl rfl rfl
  case looking.now =>
    cases h
    split_ifs <;> exact .apart rfl rfl rfl
  case listing.listed =>
    simp only [step] at h
    split_ifs at h with hleases
    cases h
    exact .lists _ _ _ hleases rfl
  case rewriting.proceed pass todo =>
    cases todo with
    | nil =>
      cases h
      exact .returns _ rfl rfl
    | cons lease todo =>
      cases h
      split_ifs with hlive
      · exact .opens _ _ _ rfl hlive.1 rfl
      · exact .skips _ _ _ rfl hlive rfl
  case opening.proceed =>
    simp only [step] at h
    split at h <;> cases h
    · exact .settles _ _ _ none _ rfl (Or.inl rfl) rfl
    · split_ifs with hequal
      · exact .settles _ _ _ _ _ rfl (Or.inr (congrArg some hequal)) rfl
      · exact .differs _ _ _ rfl rfl
  case opening.fails =>
    cases h
    exact .differs _ _ _ rfl rfl
  case rechecking.proceed =>
    cases h
    split_ifs with hlive
    · exact .checks _ _ _ rfl hlive rfl
    · exact .skips _ _ _ rfl (fun hboth => hlive hboth.2) rfl
  case writing.proceed =>
    simp only [step] at h
    split_ifs at h <;> cases h
    · exact .settles _ _ _ _ _ rfl (Or.inr rfl) rfl
    · exact .settles _ _ _ none _ rfl (Or.inl rfl) rfl
  case writing.fails =>
    cases h
    exact .fails _ _ _ rfl rfl
  all_goals simp [step] at h

end RefreshPhase

/-! ## What is known of a refresh -/

theorem Pass.outcome_current (h : pass.outcome.current = true) : pass.failures = 0 := by
  unfold Pass.outcome at h
  split_ifs at h with hstale hfailed
  all_goals first | omega | cases h

theorem Shared.isLive_of_mem (h : lease ∈ shared.entries) : shared.isLive lease.generation = true := by
  rw [Shared.isLive, List.any_eq_true]
  exact ⟨lease, h, by simp⟩

theorem Shared.Sound.not_dropped (h : shared.Sound monitor) {generation : Nat}
    (hlive : shared.isLive generation = true) : generation ∉ shared.dropped := by
  rw [Shared.isLive, List.any_eq_true] at hlive
  obtain ⟨lease, hlease, hsame⟩ := hlive
  have hkept := (h.entries lease hlease).2
  rw [of_decide_eq_true hsame] at hkept
  exact hkept

/-- A lease that is not to be settled leaves the rest to do. -/
theorem Pass.Covers.skip (h : pass.Covers spec shared call (lease :: todo))
    (hskipped : ¬(lease.agent = call.agent ∧ shared.isLive lease.generation = true)) :
    pass.Covers spec shared call todo := by
  rcases h with hfailed | hall
  · exact Or.inl hfailed
  · right
    intro other hother hlive hagent
    rcases hall other hother hlive hagent with htodo | hsettled
    · rcases List.mem_cons.mp htodo with rfl | htodo
      · exact absurd ⟨hagent, Shared.isLive_of_mem hother⟩ hskipped
      · exact Or.inl htodo
    · exact Or.inr hsettled

theorem Pass.Covers.settle {contents : Option (List UInt8)} {written : Nat}
    (h : pass.Covers spec shared call (lease :: todo))
    (hcontents : contents = none ∨ contents = some (pass.file spec)) :
    Pass.Covers spec shared call { pass.reconcile lease contents with written } todo := by
  rcases h with hfailed | hall
  · exact Or.inl hfailed
  · right
    intro other hother hlive hagent
    rcases hall other hother hlive hagent with htodo | ⟨found, hfound, hsettled⟩
    · rcases List.mem_cons.mp htodo with rfl | htodo
      · exact Or.inr ⟨contents, List.mem_cons_self, hcontents⟩
      · exact Or.inl htodo
    · exact Or.inr ⟨found, List.mem_cons_of_mem _ hfound, hsettled⟩

/-- What is known of a refresh at its phase. -/
structure RefreshPhase.Fits (monitor : Monitor β) (call : Refresh) (shared : Shared β)
    (phase : RefreshPhase β) : Prop where
  started : ∀ generation ∈ call.liveAtStart, generation < shared.nextGeneration
  known : ∀ snapshot, phase.source = some snapshot → shared.Reads call.agent snapshot
  described : phase.source.isSome → (monitor.refreshableSpecFor call.agent).isSome
  covers : ∀ spec pass todo, monitor.refreshableSpecFor call.agent = some spec →
    phase.pending = some (pass, todo) → pass.Covers spec shared call todo
  target : ∀ lease, phase.target = some lease → lease.agent = call.agent
  checked : ∀ pass lease todo dropped, phase = .writing pass lease todo dropped →
    lease.generation ∉ dropped
  complete : phase.reports = true → ∃ pass, phase.pending = some (pass, []) ∧ pass.failures = 0 ∧
    phase.source = some pass.snapshot

theorem RefreshPhase.Fits.grows (h : phase.Fits monitor call shared) (hgrows : shared.Grows after) :
    phase.Fits monitor call after where
  started := by
    intro generation hgeneration
    have hbound := h.started generation hgeneration
    have hmore := hgrows.nextGeneration
    omega
  known := fun snapshot hsource => (h.known snapshot hsource).grows hgrows
  described := h.described
  covers := fun spec pass todo hspec hpending =>
    (h.covers spec pass todo hspec hpending).grows hgrows h.started
  target := h.target
  checked := h.checked
  complete := h.complete

/-- Of a refresh that has read nothing, nothing more is known. -/
theorem RefreshPhase.Fits.unread
    (hstarted : ∀ generation ∈ call.liveAtStart, generation < shared.nextGeneration)
    (hsource : phase.source = none) (hpending : phase.pending = none) (htarget : phase.target = none)
    (hreports : phase.reports = false) :
    phase.Fits monitor call shared where
  started := hstarted
  known := by
    intro snapshot hsome
    rw [hsource] at hsome
    cases hsome
  described := by
    intro hsome
    rw [hsource] at hsome
    cases hsome
  covers := by
    intro spec pass todo hspec hsome
    rw [hpending] at hsome
    cases hsome
  target := by
    intro lease hsome
    rw [htarget] at hsome
    cases hsome
  checked := by
    intro pass lease todo dropped hwriting
    rw [hwriting] at hsource
    cases hsource
  complete := by
    intro hreported
    rw [hreports] at hreported
    cases hreported

section

variable (h : Progress spec call phase next shared)
include h

/-- A step leaves no live lease of the agent out. -/
theorem Progress.covers
    (hcovers : ∀ pass todo, phase.pending = some (pass, todo) → pass.Covers spec shared call todo)
    (hnext : next.pending = some (pass, todo)) : pass.Covers spec shared call todo := by
  cases h with
  | apart hpending htarget hreports =>
    rw [hpending] at hnext
    cases hnext
  | lists snapshot stale leases hleases heq =>
    subst heq
    cases hnext
    exact Or.inr fun lease hlease hlive hagent => Or.inl (hleases.mem_iff.mpr hlease)
  | returns done hphase heq | opens _ lease rest hphase hagent heq | differs _ lease rest hphase heq
  | checks _ lease rest hphase hlive heq =>
    subst hphase heq
    cases hnext
    exact hcovers _ _ rfl
  | skips _ lease rest hphase hskipped heq =>
    subst heq
    cases hnext
    exact (hcovers _ _ hphase).skip hskipped
  | settles _ lease rest contents written hphase hcontents heq =>
    subst heq
    cases hnext
    exact (hcovers _ _ hphase).settle hcontents
  | fails _ lease rest hphase heq =>
    subst heq
    cases hnext
    exact Or.inl (Nat.succ_pos _)

/-- A refresh comes to a lease of its agent only. -/
theorem Progress.target (hnext : next.target = some lease) :
    lease.agent = call.agent ∨ phase.target = some lease := by
  cases h with
  | apart hpending htarget hreports =>
    rw [htarget] at hnext
    cases hnext
  | opens pass lease todo hphase hagent heq =>
    subst heq
    cases hnext
    exact Or.inl hagent
  | differs pass lease todo hphase heq | checks pass lease todo hphase hlive heq =>
    subst hphase heq
    exact Or.inr hnext
  | _ =>
    subst_vars
    cases hnext

/-- The lease a refresh is about to write for was live when it last looked. -/
theorem Progress.checked (hsound : shared.Sound monitor)
    (hnext : next = .writing pass lease todo dropped) :
    lease.generation ∉ dropped := by
  cases h with
  | apart hpending htarget hreports =>
    rw [hnext] at hpending
    cases hpending
  | checks _ lease rest hphase hlive heq =>
    rw [heq] at hnext
    cases hnext
    exact hsound.not_dropped hlive
  | _ =>
    subst_vars
    contradiction

/-- A refresh that says the files are up to date is done with all leases. -/
theorem Progress.complete (hnext : next.reports = true) :
    ∃ pass, next.pending = some (pass, []) ∧ pass.failures = 0 ∧
      next.source = some pass.snapshot := by
  cases h with
  | apart hpending htarget hreports =>
    rw [hreports] at hnext
    cases hnext
  | returns done hphase heq =>
    subst heq
    exact ⟨done, rfl, Pass.outcome_current hnext, rfl⟩
  | _ =>
    subst_vars
    cases hnext

end

/-- A step of a refresh keeps what is known of it. -/
theorem RefreshPhase.Fits.step (h : phase.Fits monitor call shared) (hsound : shared.Sound monitor)
    (hgrows : shared.Grows after) (hspec : monitor.refreshableSpecFor call.agent = some spec)
    (hstep : phase.step spec threshold call shared choice = some (next, after)) :
    next.Fits monitor call after where
  started := (h.grows hgrows).started
  known := by
    intro snapshot hnext
    rcases source_step hstep hnext with hsame | ⟨-, hread⟩
    · exact (h.known snapshot hsame).grows hgrows
    · exact hread
  described := fun _ => by rw [hspec]; rfl
  covers := by
    intro spec' pass todo hspec' hnext
    have hsame : spec = spec' := Option.some.inj (hspec ▸ hspec')
    subst hsame
    have hnow : pass.Covers spec shared call todo :=
      (progress hstep).covers (fun pass todo => h.covers spec pass todo hspec) hnext
    exact hnow.grows hgrows h.started
  target := by
    intro lease hnext
    rcases (progress hstep).target hnext with hagent | hsame
    · exact hagent
    · exact h.target lease hsame
  checked := fun _ _ _ _ hnext => (progress hstep).checked hsound hnext
  complete := (progress hstep).complete

/-- What is known of a call at its position. -/
def Position.Fits (monitor : Monitor β) (shared : Shared β) : Position β → Prop
  | .refresh call phase => phase.Fits monitor call shared
  | .launch agent (.planting snapshot) => shared.Reads agent snapshot
  | .launch _ (.leased generation) => generation < shared.nextGeneration
  | _ => True

theorem Position.Fits.grows (h : position.Fits monitor shared) (hgrows : shared.Grows after) :
    position.Fits monitor after := by
  cases position with
  | refresh call phase => exact .grows h hgrows
  | launch agent phase =>
    cases phase with
    | planting snapshot => exact Shared.Reads.grows h hgrows
    | leased generation => exact Nat.lt_of_lt_of_le h hgrows.nextGeneration
    | _ => trivial
  | _ => trivial

/-! ## What a step of any call changes -/

/-- What a step does to what the calls share. -/
inductive Change (monitor : Monitor β) (position moved : Position β) (shared after : Shared β) :
    Prop where
  | stays (hgate : moved.holdsGate ↔ position.holdsGate) (hshared : after = shared)
  | enters (hfree : shared.gate = false) (hmoved : moved.holdsGate)
      (hshared : after = { shared with gate := true })
  | leaves (hheld : position.holdsGate) (hmoved : ¬moved.holdsGate)
      (hshared : after = { shared with gate := false })
  | reads (agent : String) (value : β) (hgate : moved.holdsGate ↔ position.holdsGate)
      (hshared : after = shared.noteRead agent value)
  | rewrites (call : Refresh) (pass : Pass β) (lease : Lease) (todo : List Lease)
      (dropped : List Nat) (spec : RefreshableCredentialSpec β)
      (hposition : position = .refresh call (.writing pass lease todo dropped))
      (hspec : monitor.refreshableSpecFor call.agent = some spec) (hmoved : moved.holdsGate)
      (hdirectory : (shared.files lease.stagedPath).directory = true)
      (hshared : after = shared.setFile lease.stagedPath { shared.files lease.stagedPath with
        contents := some (pass.file spec)
        rewrites := ⟨pass.file spec, pass.snapshot.read⟩ ::
          (shared.files lease.stagedPath).rewrites })
  | plants (agent : String) (snapshot : Snapshot β) (spec : RefreshableCredentialSpec β)
      (hposition : position = .launch agent (.planting snapshot)) (hmoved : ¬moved.holdsGate)
      (hspec : monitor.refreshableSpecFor agent = some spec)
      (hshared : after = { shared with nextPath := shared.nextPath + 1 }.setFile shared.nextPath {
        directory := true
        contents := some (spec.materialize snapshot.value)
        planted := some ⟨spec.materialize snapshot.value, snapshot.read⟩
        rewrites := [] })
  | registers (agent : String) (stagedPath : Nat) (hposition : ¬position.holdsGate)
      (hmoved : ¬moved.holdsGate) (hshared : after = shared.register agent stagedPath)
  | drops (agent : String) (generation : Nat)
      (hposition : position = .launch agent (.leased generation)) (hmoved : ¬moved.holdsGate)
      (hshared : after = shared.deregister generation)
  | rotates (agent : String) (value : Option β) (hposition : ¬position.holdsGate)
      (hmoved : ¬moved.holdsGate)
      (hshared : after = { shared with host := Function.update shared.host agent value })
  | tampers (path : Nat) (change : Tampering) (hposition : ¬position.holdsGate)
      (hmoved : ¬moved.holdsGate)
      (hshared : after = shared.setFile path (change.apply (shared.files path)))

theorem LaunchPhase.change {phase next : LaunchPhase β}
    (hspec : monitor.refreshableSpecFor agent = some spec)
    (h : phase.step spec agent shared choice = some (next, after)) :
    Change monitor (.launch agent phase) (.launch agent next) shared after := by
  have hnot : ∀ phase : LaunchPhase β, ¬(Position.launch agent phase).holdsGate := fun _ => id
  cases phase <;> cases choice
  case staging.proceed =>
    simp only [step] at h
    split at h <;> cases h
    · exact .stays Iff.rfl rfl
    · exact .reads _ _ Iff.rfl rfl
  case planting.proceed =>
    cases h
    exact .plants _ _ _ rfl (hnot _) hspec rfl
  case registering.proceed =>
    cases h
    exact .registers _ _ (hnot _) (hnot _) rfl
  case leased.proceed =>
    cases h
    exact .drops _ _ rfl (hnot _) rfl
  case planting.fails | registering.fails =>
    cases h
    exact .stays Iff.rfl rfl
  all_goals cases h

theorem RefreshEffect.change (h : RefreshEffect spec call phase next shared after)
    (hspec : monitor.refreshableSpecFor call.agent = some spec) :
    Change monitor (.refresh call phase) (.refresh call next) shared after := by
  have hiff : next.holdsGate = phase.holdsGate →
      ((Position.refresh call next).holdsGate ↔ (Position.refresh call phase).holdsGate) :=
    fun hsame => Eq.congr_left hsame
  have hnot : next.holdsGate = false → ¬(Position.refresh call next).holdsGate :=
    fun hnext => Bool.not_eq_true _ |>.mpr hnext
  cases h with
  | stays hgate hsource hshared => exact .stays (hiff hgate) hshared
  | leaves hheld hnext hsource hshared => exact .leaves hheld (hnot hnext) hshared
  | reads value hgate hsource hshared => exact .reads call.agent value (hiff hgate) hshared
  | rewrites pass lease todo dropped hphase hnext hsource hdirectory hshared =>
    subst hphase
    exact .rewrites call pass lease todo dropped spec rfl hspec hnext hdirectory hshared

/-- The ways in which a call takes a step. -/
inductive Position.Stepped (monitor : Monitor β) (choice : Choice) (shared : Shared β) :
    Position β → Position β → Shared β → Prop where
  | begins (agent : String) : Stepped monitor choice shared (.refreshCalled agent)
      (.refresh ⟨agent, shared.entries.map (·.generation)⟩ .waiting) shared
  | enters (call : Refresh) (hfree : shared.gate = false) :
      Stepped monitor choice shared (.refresh call .waiting) (.refresh call .reading)
        { shared with gate := true }
  | gives (call : Refresh) :
      Stepped monitor choice shared (.refresh call .waiting) (.refresh call .timedOut) shared
  /-- The agent has no descriptor. -/
  | unspecified (call : Refresh) : Stepped monitor choice shared (.refresh call .reading)
      (.refresh call (leave shared .unavailable none).1) (leave shared .unavailable none).2
  | refreshes (call : Refresh) {spec : RefreshableCredentialSpec β} {phase next : RefreshPhase β}
      {after : Shared β} (hspec : monitor.refreshableSpecFor call.agent = some spec)
      (hstep : phase.step spec monitor.refreshThreshold call shared choice = some (next, after)) :
      Stepped monitor choice shared (.refresh call phase) (.refresh call next) after
  | launches (agent : String) {spec : RefreshableCredentialSpec β} {phase next : LaunchPhase β}
      {after : Shared β} (hspec : monitor.refreshableSpecFor agent = some spec)
      (hstep : phase.step spec agent shared choice = some (next, after)) :
      Stepped monitor choice shared (.launch agent phase) (.launch agent next) after
  | rotates (agent : String) (value : Option β) :
      Stepped monitor choice shared (.rotating agent value) .over
        { shared with host := Function.update shared.host agent value }
  | tampers (path : Nat) (change : Tampering) :
      Stepped monitor choice shared (.tampering path change) .over
        (shared.setFile path (change.apply (shared.files path)))

theorem Position.stepped (h : position.step monitor choice shared = some (moved, after)) :
    Stepped monitor choice shared position moved after := by
  -- The arms of the step in their order.
  unfold step at h
  split at h
  · cases h
    exact .begins _
  · split_ifs at h with hgate
    cases h
    exact .enters _ (Bool.not_eq_true _ |>.mp hgate)
  · cases h
    exact .gives _
  · split at h
    · split at h <;> cases h
      exact .unspecified _
    · rename_i hspec
      obtain ⟨next, hstep, heq⟩ := Option.map_eq_some_iff.mp h
      cases heq
      exact .refreshes _ hspec hstep
  · obtain ⟨spec, hspec, hsome⟩ := Option.bind_eq_some_iff.mp h
    obtain ⟨next, hstep, heq⟩ := Option.map_eq_some_iff.mp hsome
    cases heq
    exact .launches _ hspec hstep
  · cases h
    exact .rotates _ _
  · cases h
    exact .tampers _ _
  · cases h

theorem Position.change (h : position.step monitor choice shared = some (moved, after)) :
    Change monitor position moved shared after := by
  cases stepped h with
  | begins | gives => exact .stays (by simp [holdsGate, RefreshPhase.holdsGate]) rfl
  | enters call hfree => exact .enters hfree rfl rfl
  | unspecified call =>
    exact .leaves rfl (by simp [holdsGate, RefreshPhase.holdsGate, leave]) rfl
  | refreshes call hspec hstep => exact (RefreshPhase.effect hstep).change hspec
  | launches agent hspec hstep => exact LaunchPhase.change hspec hstep
  | rotates agent value => exact .rotates _ _ id id rfl
  | tampers path change => exact .tampers _ _ id id rfl

namespace Change

section

variable (h : Change monitor position moved shared after)
include h

theorem grows : shared.Grows after := by
  cases h with
  | reads agent value hgate hshared =>
    subst hshared
    exact shared.grows_noteRead agent value
  | registers agent stagedPath hposition hmoved hshared =>
    subst hshared
    refine ⟨List.prefix_refl _, Nat.le_succ _, ?_⟩
    intro lease hlease
    rcases List.mem_append.mp hlease with hbefore | hnew
    · exact Or.inl hbefore
    · obtain rfl := List.mem_singleton.mp hnew
      exact Or.inr (Nat.le_refl _)
  | drops agent generation hposition hmoved hshared =>
    subst hshared
    exact ⟨List.prefix_refl _, Nat.le_refl _, fun _ hlease =>
      Or.inl (List.mem_filter.mp hlease).1⟩
  | _ =>
    subst_vars
    exact ⟨List.prefix_refl _, Nat.le_refl _, fun _ hlease => Or.inl hlease⟩

/-- What a step does to the gate. -/
theorem taken {id : Nat}
    (hold : config.calls id = some position)
    (htaken : Taken config Position.holdsGate (shared.gate = true) False) :
    Taken (config.move id moved after) Position.holdsGate (after.gate = true) False := by
  have hapart : ¬position.holdsGate → ¬moved.holdsGate →
      (moved.holdsGate ↔ position.holdsGate) :=
    fun hposition hmoved => iff_of_false hmoved hposition
  cases h with
  | stays hgate hshared | reads _ _ hgate hshared =>
    subst hshared
    exact htaken.stays hold hgate Iff.rfl Iff.rfl
  | enters hfree hmoved hshared =>
    subst hshared
    exact htaken.takes hold (by simp [hfree]) hmoved rfl Iff.rfl
  | leaves hheld hmoved hshared =>
    subst hshared
    exact htaken.gives hold hheld hmoved (by simp) Iff.rfl
  | rewrites call pass lease todo dropped spec hposition hspec hmoved hdirectory hshared =>
    subst hposition hshared
    exact htaken.stays hold (iff_of_true hmoved rfl) Iff.rfl Iff.rfl
  | plants agent snapshot spec hposition hmoved hspec hshared
  | drops agent generation hposition hmoved hshared =>
    subst hposition hshared
    exact htaken.stays hold (hapart (fun hholds => hholds) hmoved) Iff.rfl Iff.rfl
  | registers _ _ hposition hmoved hshared | rotates _ _ hposition hmoved hshared
  | tampers _ _ hposition hmoved hshared =>
    subst hshared
    exact htaken.stays hold (hapart hposition hmoved) Iff.rfl Iff.rfl

/-- What was ever written to the staged files, after a step. -/
theorem writes {path : Nat}
    (hfits : position.Fits monitor shared) (hwrite : write ∈ (after.files path).writes) :
    write ∈ (shared.files path).writes ∨ after.Materialises monitor write := by
  have hgrows : shared.Grows after := h.grows
  cases h with
  | rewrites call pass lease todo dropped spec hposition hspec hmoved hdirectory hshared =>
    subst hposition hshared
    rcases shared.files_setFile path lease.stagedPath _ with ⟨rfl, hfile⟩ | ⟨-, hfile⟩
    · rw [hfile] at hwrite
      rcases List.mem_cons.mp hwrite with rfl | hbefore
      · have hread : shared.Reads call.agent pass.snapshot := hfits.known _ rfl
        exact Or.inr ⟨call.agent, pass.snapshot.value, spec, hread, hspec, rfl⟩
      · exact Or.inl hbefore
    · rw [hfile] at hwrite
      exact Or.inl hwrite
  | plants agent snapshot spec hposition hmoved hspec hshared =>
    subst hposition hshared
    rcases Shared.files_setFile _ path shared.nextPath _ with ⟨rfl, hfile⟩ | ⟨-, hfile⟩
    · rw [hfile] at hwrite
      obtain rfl := List.mem_singleton.mp hwrite
      exact Or.inr ⟨agent, snapshot.value, spec, hfits, hspec, rfl⟩
    · rw [hfile] at hwrite
      exact Or.inl hwrite
  | tampers other change hposition hmoved hshared =>
    subst hshared
    left
    rcases shared.files_setFile path other
        (change.apply (shared.files other)) with ⟨rfl, hfile⟩ | ⟨-, hfile⟩
    · rw [hfile] at hwrite
      cases change <;> exact hwrite
    · rw [hfile] at hwrite
      exact hwrite
  | _ =>
    subst_vars
    exact Or.inl hwrite

/-- What the monitor wrote to a staged file, after a step: nothing, if it is a new one, or what it
had written, and at most one write more, by a refresh. -/
theorem rewritten (path : Nat) :
    (after.files path).rewrites = [] ∨
    (after.files path).planted = (shared.files path).planted ∧
      ((after.files path).rewrites = (shared.files path).rewrites ∨
      ∃ call pass lease todo dropped spec,
        position = .refresh call (.writing pass lease todo dropped) ∧ path = lease.stagedPath ∧
        (shared.files path).directory = true ∧
        (after.files path).rewrites =
          ⟨pass.file spec, pass.snapshot.read⟩ :: (shared.files path).rewrites) := by
  cases h with
  | rewrites call pass lease todo dropped spec hposition hspec hmoved hdirectory hshared =>
    subst hshared
    right
    rcases shared.files_setFile path lease.stagedPath _ with ⟨rfl, hfile⟩ | ⟨-, hfile⟩
    · rw [hfile]
      exact ⟨rfl, Or.inr ⟨call, pass, lease, todo, dropped, spec, hposition, rfl, hdirectory, rfl⟩⟩
    · rw [hfile]
      exact ⟨rfl, Or.inl rfl⟩
  | plants agent snapshot spec hposition hmoved hspec hshared =>
    subst hshared
    rcases Shared.files_setFile _ path shared.nextPath _ with ⟨rfl, hfile⟩ | ⟨-, hfile⟩
    · rw [hfile]
      exact Or.inl rfl
    · rw [hfile]
      exact Or.inr ⟨rfl, Or.inl rfl⟩
  | tampers other change hposition hmoved hshared =>
    subst hshared
    right
    rcases shared.files_setFile path other
        (change.apply (shared.files other)) with ⟨rfl, hfile⟩ | ⟨-, hfile⟩
    · rw [hfile]
      cases change <;> exact ⟨rfl, Or.inl rfl⟩
    · rw [hfile]
      exact ⟨rfl, Or.inl rfl⟩
  | _ =>
    subst_vars
    exact Or.inr ⟨rfl, Or.inl rfl⟩

theorem rewritten_mem {path : Nat}
    (hwrite : write ∈ (after.files path).rewrites) :
    write ∈ (shared.files path).rewrites ∨ ∃ call pass lease todo dropped,
      position = .refresh call (.writing pass lease todo dropped) ∧
      write.read = pass.snapshot.read := by
  rcases h.rewritten path with hnone | ⟨-, hsame | ⟨call, pass, lease, todo, dropped, spec,
    hposition, -, -, hmore⟩⟩
  · rw [hnone] at hwrite
    cases hwrite
  · rw [hsame] at hwrite
    exact Or.inl hwrite
  · rw [hmore] at hwrite
    rcases List.mem_cons.mp hwrite with rfl | hbefore
    · exact Or.inr ⟨call, pass, lease, todo, dropped, hposition, rfl⟩
    · exact Or.inl hbefore

/-- A generation is given once and dropped once. -/
theorem entries (hfits : position.Fits monitor shared)
    (hsound : shared.Sound monitor) :
    (∀ lease ∈ after.entries,
      lease.generation < after.nextGeneration ∧ lease.generation ∉ after.dropped) ∧
    ∀ generation ∈ after.dropped, generation < after.nextGeneration := by
  cases h with
  | registers agent stagedPath hposition hmoved hshared =>
    subst hshared
    constructor
    · intro lease hlease
      rcases List.mem_append.mp hlease with hbefore | hnew
      · have hgiven := hsound.entries lease hbefore
        exact ⟨Nat.lt_succ_of_lt hgiven.1, hgiven.2⟩
      · obtain rfl := List.mem_singleton.mp hnew
        refine ⟨Nat.lt_succ_self _, ?_⟩
        intro hdropped
        have hless : shared.nextGeneration < shared.nextGeneration := hsound.dropped _ hdropped
        omega
    · intro generation hgeneration
      exact Nat.lt_succ_of_lt (hsound.dropped generation hgeneration)
  | drops agent generation hposition hmoved hshared =>
    subst hposition hshared
    constructor
    · intro lease hlease
      obtain ⟨hbefore, hother⟩ := List.mem_filter.mp hlease
      have hgiven := hsound.entries lease hbefore
      refine ⟨hgiven.1, ?_⟩
      intro hdropped
      rcases List.mem_cons.mp hdropped with hsame | hdropped
      · exact of_decide_eq_true hother hsame
      · exact hgiven.2 hdropped
    · intro other hother
      rcases List.mem_cons.mp hother with rfl | hbefore
      · exact hfits
      · exact hsound.dropped other hbefore
  | _ =>
    subst_vars
    exact ⟨hsound.entries, hsound.dropped⟩

end

end Change

/-! ## Every run -/

/-- What holds of the calls and of what they share. -/
structure Inv (monitor : Monitor β) (config : Config (Shared β) (Position β)) : Prop where
  taken : Taken config Position.holdsGate (config.shared.gate = true) False
  sound : config.shared.Sound monitor
  fits : config.Every (Position.Fits monitor config.shared)
  /-- The refresh past the gate has read the host after all that was written. -/
  latest : ∀ id call phase snapshot, config.calls id = some (.refresh call phase) →
    phase.holdsGate = true → phase.source = some snapshot →
    ∀ path, ∀ write ∈ (config.shared.files path).rewrites, write.read ≤ snapshot.read

theorem Shared.Sound.read_lt {path : Nat} (h : shared.Sound monitor)
    (hwrite : write ∈ (shared.files path).rewrites) : write.read < shared.reads.length := by
  obtain ⟨agent, value, spec, hread, -⟩ :=
    h.materialised path write (List.mem_append_left _ hwrite)
  exact (List.getElem?_eq_some_iff.mp hread).1

theorem LaunchPhase.fits_step {phase next : LaunchPhase β}
    (h : phase.step spec agent shared choice = some (next, after)) :
    (Position.launch agent next).Fits monitor after := by
  cases phase <;> cases choice
  case staging.proceed =>
    simp only [step] at h
    split at h <;> cases h
    · trivial
    · exact shared.reads_noteRead agent _
  case registering.proceed =>
    cases h
    exact Nat.lt_succ_self shared.nextGeneration
  case planting.proceed | planting.fails | registering.fails | leased.proceed =>
    cases h
    trivial
  all_goals cases h

/-- What is known of a call that took a step. -/
theorem Position.Fits.step (h : position.Fits monitor shared) (hsound : shared.Sound monitor)
    (hstep : position.step monitor choice shared = some (moved, after)) :
    moved.Fits monitor after := by
  have hgrows : shared.Grows after := (change hstep).grows
  cases stepped hstep with
  | begins agent =>
    refine .unread ?_ rfl rfl rfl rfl
    intro generation hgeneration
    obtain ⟨lease, hlease, rfl⟩ := List.mem_map.mp hgeneration
    exact (hsound.entries lease hlease).1
  | enters | gives | unspecified =>
    exact RefreshPhase.Fits.unread (RefreshPhase.Fits.grows h hgrows).started rfl rfl rfl rfl
  | refreshes call hspec hnext => exact RefreshPhase.Fits.step h hsound hgrows hspec hnext
  | launches agent hspec hnext => exact LaunchPhase.fits_step hnext
  | rotates | tampers => trivial

/-- What a refresh past the gate brings the leases up to is what it did, or was read just now. -/
theorem Position.source_step (h : position.step monitor choice shared = some (.refresh call phase, after))
    (hholds : phase.holdsGate = true) (hsource : phase.source = some snapshot) :
    (∃ before, position = .refresh call before ∧ before.holdsGate = true ∧
      before.source = some snapshot) ∨ snapshot.read = shared.reads.length := by
  cases stepped h with
  | begins | enters | gives | unspecified => cases hsource
  | refreshes call hspec hstep =>
    rcases RefreshPhase.source_step hstep hsource with hsame | ⟨hnow, -⟩
    · exact Or.inl ⟨_, rfl, RefreshPhase.held_step hstep hholds, hsame⟩
    · exact Or.inr hnow

namespace Inv

theorem idle (host : String → Option β) :
    Inv monitor (Config.idle (Shared.initial host) : Config (Shared β) (Position β)) where
  taken := Taken.idle (by simp [Config.idle, Shared.initial]) id
  sound :=
    { entries := fun lease hlease => absurd hlease List.not_mem_nil
      dropped := fun generation hgeneration => absurd hgeneration List.not_mem_nil
      materialised := fun path write hwrite => absurd hwrite List.not_mem_nil
      ordered := fun path => List.Pairwise.nil }
  fits := fun id position hposition => absurd hposition (by simp [Config.idle])
  latest := fun id call phase snapshot hposition => absurd hposition (by simp [Config.idle])

/-- What is written goes back to no earlier read. -/
theorem sound_step {id : Nat} (h : Inv monitor config) (hold : config.calls id = some position)
    (hstep : position.step monitor choice config.shared = some (moved, after)) :
    after.Sound monitor := by
  have hchange : Change monitor position moved config.shared after := Position.change hstep
  have hfits : position.Fits monitor config.shared := h.fits id position hold
  obtain ⟨hentries, hdropped⟩ := hchange.entries hfits h.sound
  refine ⟨hentries, hdropped, ?_, ?_⟩
  · intro path write hwrite
    rcases hchange.writes hfits hwrite with hbefore | hnew
    · exact (h.sound.materialised path write hbefore).grows hchange.grows
    · exact hnew
  · intro path
    rcases hchange.rewritten path with hnone | ⟨-, hsame | ⟨call, pass, lease, todo, dropped, spec,
      rfl, rfl, -, hmore⟩⟩
    · rw [hnone]
      exact List.Pairwise.nil
    · rw [hsame]
      exact h.sound.ordered path
    · rw [hmore]
      refine List.Pairwise.cons ?_ (h.sound.ordered _)
      intro earlier hearlier
      exact h.latest id call _ pass.snapshot hold rfl rfl _ earlier hearlier

/-- The refresh past the gate still has read the host after all that was written. -/
theorem latest_step {id other : Nat} {path : Nat} (h : Inv monitor config)
    (hold : config.calls id = some position)
    (hstep : position.step monitor choice config.shared = some (moved, after))
    (hother : (config.move id moved after).calls other = some (.refresh call phase))
    (hholds : phase.holdsGate = true) (hsource : phase.source = some snapshot)
    (hwrite : write ∈ (after.files path).rewrites) : write.read ≤ snapshot.read := by
  have hchange : Change monitor position moved config.shared after := Position.change hstep
  have hbefore := hchange.rewritten_mem hwrite
  rcases Config.calls_move hother with ⟨-, rfl⟩ | ⟨hne, hother⟩
  · rcases Position.source_step hstep hholds hsource with ⟨before, rfl, hheld, hsame⟩ | hnow
    · rcases hbefore with hbefore | ⟨_, pass, lease, todo, dropped, hposition, hread⟩
      · exact h.latest id call before snapshot hold hheld hsame path write hbefore
      · cases hposition
        cases hsame
        exact Nat.le_of_eq hread
    · rcases hbefore with hbefore | ⟨_, pass, lease, todo, dropped, rfl, hread⟩
      · have hless := h.sound.read_lt hbefore
        omega
      · have hknown := RefreshPhase.Fits.known (h.fits id _ hold) pass.snapshot rfl
        have hless : pass.snapshot.read < config.shared.reads.length :=
          (List.getElem?_eq_some_iff.mp hknown).1
        omega
  · rcases hbefore with hbefore | ⟨_, pass, lease, todo, dropped, rfl, hread⟩
    · exact h.latest other call phase snapshot hother hholds hsource path write hbefore
    · exact absurd (h.taken.alone other id _ _ hother hold hholds rfl) hne

theorem preserves : (process monitor).Preserves (fun _ _ => True) (Inv monitor) where
  start := by
    intro config id position h hnew hstarts
    have hplain : ¬position.holdsGate ∧ position.Fits monitor config.shared := by
      unfold process at hstarts
      dsimp only at hstarts
      split at hstarts
      all_goals first | exact ⟨fun hholds => hholds, trivial⟩ | cases hstarts
    constructor
    · exact h.taken.started hnew hplain.1 Iff.rfl
    · exact h.sound
    · exact Config.Every.moved h.fits hplain.2
    · intro other call phase snapshot hother hholds hsource path write hwrite
      rcases Config.calls_move hother with ⟨-, rfl⟩ | ⟨-, hother⟩
      · exact absurd hholds hplain.1
      · exact h.latest other call phase snapshot hother hholds hsource path write hwrite
  step := by
    intro config id choice old position shared h hallowed hold hstep
    have hchange : Change monitor old position config.shared shared := Position.change hstep
    constructor
    · exact hchange.taken hold h.taken
    · exact h.sound_step hold hstep
    · refine Config.Every.moved ?_ (Position.Fits.step (h.fits id old hold) h.sound hstep)
      intro other at_ hother
      exact (h.fits other at_ hother).grows hchange.grows
    · intro other call phase snapshot hother hholds hsource path write hwrite
      exact h.latest_step hold hstep hother hholds hsource hwrite

end Inv

/-- What the refreshes of a process are confined to. -/
structure Confined (monitor : Monitor β) (config : Config (Shared β) (Position β)) : Prop where
  /-- At most one host refresh runs at a time. -/
  alone : config.Alone fun position => ∃ call snapshot before,
    position = .refresh call (.pinging snapshot before)
  /-- What was written to a staged file is the materialisation of a read of the host. -/
  materialised : ∀ path, ∀ write ∈ (config.shared.files path).writes,
    config.shared.Materialises monitor write
  /-- Each read is no earlier than the one behind any previous write. -/
  monotone : ∀ path, (config.shared.files path).writes.Pairwise
    fun later earlier => earlier.read ≤ later.read
  /-- A write is begun for no lease of another agent, nor for one dropped before it was last looked
  at. -/
  live : ∀ id call pass lease todo dropped,
    config.calls id = some (.refresh call (.writing pass lease todo dropped)) →
    lease.agent = call.agent ∧ lease.generation ∉ dropped
  /-- A refresh that says the staged files are up to date has found or made each file of its agent
  so, or found it missing, whose lease is live since it was called. -/
  settled : ∀ id call outcome pass,
    config.calls id = some (.refresh call (.returned outcome pass)) → outcome.current = true →
    ∃ done spec, pass = some done ∧ monitor.refreshableSpecFor call.agent = some spec ∧
      config.shared.Reads call.agent done.snapshot ∧
      ∀ lease ∈ config.shared.entries, lease.generation ∈ call.liveAtStart →
        lease.agent = call.agent → done.Settled spec lease.generation

/-- A refresh writes to a file that was staged from a later read of the host. -/
def Regresses (config : Config (Shared β) (Position β)) : Event Choice (Position β) → Prop
  | .step id .proceed => ∃ call pass lease todo dropped planted,
    config.calls id = some (.refresh call (.writing pass lease todo dropped)) ∧
    (config.shared.files lease.stagedPath).directory = true ∧
    (config.shared.files lease.stagedPath).planted = some planted ∧
    pass.snapshot.read < planted.read
  | _ => False

/-- No rewrite is from an earlier read than what the launch staged. -/
def Shared.Forward (shared : Shared β) : Prop :=
  ∀ path planted, (shared.files path).planted = some planted →
    ∀ write ∈ (shared.files path).rewrites, planted.read ≤ write.read

/-- A refresh about to write writes when it goes on, and otherwise nothing. -/
theorem Position.proceeds_of_writing
    (h : (Position.refresh call (.writing pass lease todo dropped)).step monitor choice shared =
      some (moved, after)) (hmore : after ≠ shared) : choice = .proceed := by
  cases hspec : monitor.refreshableSpecFor call.agent with
  | none => cases choice <;> simp [Position.step, hspec] at h
  | some spec =>
    cases choice with
    | proceed => rfl
    | fails =>
      simp only [Position.step, hspec, RefreshPhase.step, Option.map_some, Option.some.injEq,
        Prod.mk.injEq] at h
      exact absurd h.2.symm hmore
    | _ => simp [Position.step, hspec, RefreshPhase.step] at h

/-- What a refresh writes when its file's directory is there. -/
theorem Position.step_writing (hspec : monitor.refreshableSpecFor call.agent = some spec)
    (hdirectory : (shared.files lease.stagedPath).directory = true) :
    (Position.refresh call (.writing pass lease todo dropped)).step monitor .proceed shared =
      some (.refresh call (.rewriting { pass.reconcile lease (some (pass.file spec)) with
          written := pass.written + 1 } todo),
        shared.setFile lease.stagedPath { shared.files lease.stagedPath with
          contents := some (pass.file spec)
          rewrites := ⟨pass.file spec, pass.snapshot.read⟩ ::
            (shared.files lease.stagedPath).rewrites }) := by
  simp only [Position.step, hspec, RefreshPhase.step, hdirectory, if_true, Option.map_some]

/-- Without such a write, no file goes back behind what was staged. -/
theorem Shared.Forward.preserves : (process monitor).Preserves
    (fun config event => ¬Regresses config event) fun config => config.shared.Forward where
  start := fun h _ _ => h
  step := by
    intro config id choice old position shared h hallowed hold hstep
    have hchange : Change monitor old position config.shared shared := Position.change hstep
    intro path planted hplanted write hwrite
    rcases hchange.rewritten path with hnone | ⟨hsame, hkept | ⟨call, pass, lease, todo, dropped,
      spec, rfl, rfl, hdirectory, hmore⟩⟩
    · have hwrite : write ∈ (shared.files path).rewrites := hwrite
      rw [hnone] at hwrite
      cases hwrite
    · have hbefore : write ∈ (config.shared.files path).rewrites := hkept ▸ hwrite
      exact h path planted (hsame ▸ hplanted) write hbefore
    · have hstaged : (config.shared.files lease.stagedPath).planted = some planted :=
        hsame ▸ hplanted
      have hwrite : write ∈ (shared.files lease.stagedPath).rewrites := hwrite
      rw [hmore] at hwrite
      rcases List.mem_cons.mp hwrite with rfl | hbefore
      · have hproceeds : choice = .proceed := by
          apply Position.proceeds_of_writing hstep
          rintro rfl
          have hlength := congrArg List.length hmore
          rw [List.length_cons] at hlength
          omega
        subst hproceeds
        by_contra hless
        exact hallowed ⟨call, pass, lease, todo, dropped, planted, hold, hdirectory, hstaged,
          Nat.lt_of_not_le hless⟩
      · exact h _ planted hstaged write hbefore

theorem Inv.confined (h : Inv monitor config) (hforward : config.shared.Forward) :
    Confined monitor config where
  alone := by
    intro first second at_ other hfirst hsecond hat hother
    obtain ⟨call, snapshot, before, rfl⟩ := hat
    obtain ⟨call', snapshot', before', rfl⟩ := hother
    exact h.taken.alone first second _ _ hfirst hsecond rfl rfl
  materialised := h.sound.materialised
  monotone := by
    intro path
    refine List.pairwise_append.mpr ⟨h.sound.ordered path, ?_, ?_⟩
    · cases (config.shared.files path).planted with
      | none => exact List.Pairwise.nil
      | some planted => exact List.pairwise_singleton ..
    · intro later hlater earlier hearlier
      exact hforward path earlier (Option.mem_toList.mp hearlier) later hlater
  live := by
    intro id call pass lease todo dropped hposition
    have hfits : RefreshPhase.Fits monitor call config.shared _ := h.fits id _ hposition
    exact ⟨hfits.target lease rfl, hfits.checked pass lease todo dropped rfl⟩
  settled := by
    intro id call outcome pass hposition hcurrent
    have hfits : RefreshPhase.Fits monitor call config.shared _ := h.fits id _ hposition
    obtain ⟨done, hpending, hfailures, hsource⟩ := hfits.complete hcurrent
    have hdescribed := hfits.described (by rw [hsource]; rfl)
    obtain ⟨spec, hspec⟩ := Option.isSome_iff_exists.mp hdescribed
    have hpass : pass = some done := by
      cases pass with
      | none => cases hpending
      | some found =>
        cases hpending
        rfl
    refine ⟨done, spec, hpass, hspec, hfits.known done.snapshot hsource, ?_⟩
    intro lease hlease hlive hagent
    rcases hfits.covers spec done [] hspec hpending with hfailed | hall
    · omega
    · rcases hall lease hlease hlive hagent with htodo | hsettled
      · cases htodo
      · exact hsettled

/-- A write over what was staged from a later read goes back. -/
theorem Regresses.not_confined {event : Event Choice (Position β)} (hinv : Inv monitor config)
    (h : Regresses config event) : ¬Confined monitor ((process monitor).next config event) := by
  cases event with
  | start id position => exact h.elim
  | step id choice =>
    cases choice with
    | proceed =>
      obtain ⟨call, pass, lease, todo, dropped, planted, hold, hdirectory, hplanted, hless⟩ := h
      have hfits : RefreshPhase.Fits monitor call config.shared _ := hinv.fits id _ hold
      obtain ⟨spec, hspec⟩ := Option.isSome_iff_exists.mp (hfits.described rfl)
      rw [System.next_step hold (Position.step_writing hspec hdirectory)]
      intro hconfined
      have hordered := hconfined.monotone lease.stagedPath
      rw [Config.move_shared, Shared.files_setFile_self] at hordered
      have hstaged : planted ∈ (config.shared.files lease.stagedPath).writes :=
        List.mem_append_right _ (Option.mem_toList.mpr hplanted)
      have hlate : planted.read ≤ pass.snapshot.read :=
        (List.pairwise_cons.mp hordered).1 planted hstaged
      omega
    | _ => exact h.elim

/-- **The refreshes are confined in every state of a run if and only if none of them writes over
what a launch staged from a later read of the host.** -/
theorem confined_iff (monitor : Monitor β) (host : String → Option β)
    (events : List (Event Choice (Position β))) :
    (∀ count, Confined monitor ((process monitor).run (Config.idle (Shared.initial host))
      (events.take count))) ↔
    (process monitor).Meets (fun config event => ¬Regresses config event)
      (Config.idle (Shared.initial host)) events := by
  have hinv : ∀ count, Inv monitor ((process monitor).run (.idle (.initial host))
      (events.take count)) :=
    fun count => Inv.preserves.run (Inv.idle host) (System.meets_of_always (fun _ _ => trivial) _)
  constructor
  · intro hall
    rw [System.meets_iff]
    intro count event hevent hregresses
    have hnext := hall (count + 1)
    rw [System.run_take_succ hevent] at hnext
    exact hregresses.not_confined (hinv count) hnext
  · intro hmeets count
    apply (hinv count).confined
    refine Shared.Forward.preserves.run ?_ (hmeets.take count)
    intro path planted hplanted
    cases hplanted

/-- A monitor of one agent, whose credential is its expiry. -/
def oneAgent : Monitor Nat where
  refreshThreshold := 10
  refreshableSpecFor agent :=
    if agent = "claude" then some ⟨some, fun value => [UInt8.ofNat value]⟩ else none

/-- A refresh reads a credential about to expire and pings.  The host is rotated, and a launch stages
the new credential and registers its lease.  The ping fails, and the refresh goes on with what it had
read. -/
def outdatedRefresh : List (Event Choice (Position Nat)) :=
  [.start 0 (.refreshCalled "claude"), .step 0 .proceed, .step 0 .proceed, .step 0 .proceed,
    .step 0 (.now 0), .step 0 .proceed,
    .start 1 (.rotating "claude" (some 90)), .step 1 .proceed,
    .start 2 (.launch "claude" .staging), .step 2 .proceed, .step 2 .proceed, .step 2 .proceed,
    .step 0 (.pinged false), .step 0 (.listed [⟨0, "claude", 0⟩]), .step 0 .proceed,
    .step 0 .proceed, .step 0 .proceed, .step 0 .proceed]

/-- A launch stages the rotated credential, and a refresh replaces it by the one before the
rotation. -/
theorem outdated_refresh :
    (((process oneAgent).run (Config.idle (Shared.initial fun _ => some 5))
      outdatedRefresh).shared.files 0).writes = [⟨[5], 0⟩, ⟨[90], 2⟩] ∧
    ¬∀ count, Confined oneAgent ((process oneAgent).run
      (Config.idle (Shared.initial fun _ => some 5)) (outdatedRefresh.take count)) := by
  have hwrites : (((process oneAgent).run (.idle (.initial fun _ => some 5))
      outdatedRefresh).shared.files 0).writes = [⟨[5], 0⟩, ⟨[90], 2⟩] := by
    rfl
  refine ⟨hwrites, ?_⟩
  intro hall
  have hordered := (hall outdatedRefresh.length).monotone 0
  rw [List.take_length, hwrites] at hordered
  have hlate : 2 ≤ 0 := (List.pairwise_cons.mp hordered).1 ⟨[90], 2⟩ List.mem_cons_self
  omega

end Awman.Credentials
