import Awman.LayerReplay

/-!
# Symlinks of a replayed image

The record of symlinks that the layer pass keeps, against the symlinks that are really there while
the layers of an accepted image are replayed.  The record is kept under decoded names and forgets
what any whiteout of a layer hides before the first entry of the layer, so it can lose a symlink in
two ways; where it loses none, nothing is written through a symlink.
-/

namespace Awman.Oci

open Awman.Utf8Text Awman.FileTrees

/-- The decoded path. -/
abbrev decodedPath (path : List (List UInt8)) : LayerPath :=
  path.map fromUtf8Lossy

/-- Under the decoded names a change takes away no other symlink than under the raw ones. -/
def Apart (tree : FileTree (List UInt8)) (change : Change (List UInt8)) : Prop :=
  ∀ path, tree path = some .symlink → (decoded change).Ends (decodedPath path) → change.Ends path

/-- No change of the layer is confused with another: a removal with one of what was there before
the layer, an entry with one of what is there when it is made. -/
structure LayerApart (tree : FileTree (List UInt8)) (order : RemovalOrder)
    (changes : List (Change (List UInt8))) : Prop where
  removals : ∀ change ∈ changes, change.isRemoval = true → Apart tree change
  entries : ∀ before change after, order.arrange changes = before ++ change :: after →
    change.isRemoval = false → Apart (tree.run before) change

/-- Every symlink of the tree is in the set. -/
def Recorded (tree : FileTree (List UInt8)) (symlinks : Finset LayerPath) : Prop :=
  ∀ path, path ≠ [] → tree path = some .symlink → decodedPath path ∈ symlinks

section Graph

variable {symlinks after : Finset LayerPath} {change : Change Text} {path : LayerPath}

theorem mem_ancestors {ancestor : LayerPath} :
    ancestor ∈ ancestors path ↔ ancestor <+: path ∧ ancestor ≠ [] ∧ ancestor ≠ path := by
  simp [ancestors]

theorem symlinkPrefix_eq_none :
    symlinkPrefix symlinks path = none ↔ ∀ ancestor ∈ ancestors path, ancestor ∉ symlinks := by
  simp [symlinkPrefix]

theorem mem_hideLower (hroot : path ≠ []) :
    path ∈ hideLower symlinks (.ofChange change) ↔
      path ∈ symlinks ∧ ¬ (change.isRemoval = true ∧ change.Ends path) := by
  cases change with
  | create at' kind => cases kind <;> simp [PathOp.ofChange, hideLower, Change.isRemoval]
  | link at' target => simp [PathOp.ofChange, hideLower, Change.isRemoval]
  | remove at' =>
    simp [PathOp.ofChange, hideLower, removeTree, Change.isRemoval, Change.Ends]
  | clear dir =>
    cases dir with
    | nil => simp [PathOp.ofChange, hideLower, Change.isRemoval, Change.Ends, hroot]
    | cons first rest =>
      simp only [PathOp.ofChange, hideLower, Change.isRemoval, Change.Ends, true_and]
      split
      · rename_i hmem
        by_cases heq : path = first :: rest
        · simp [heq, hmem]
        · simp [heq, removeTree]
      · rename_i hmem
        by_cases heq : path = first :: rest
        · simp [heq, hmem, removeTree]
        · simp [heq, removeTree]

/-- What is left when the whiteouts of a layer have acted. -/
theorem mem_foldl_hideLower {changes : List (Change Text)} (hroot : path ≠ []) :
    path ∈ (changes.map PathOp.ofChange).foldl hideLower symlinks ↔
      path ∈ symlinks ∧ ∀ other ∈ changes, ¬ (other.isRemoval = true ∧ other.Ends path) := by
  induction changes generalizing symlinks with
  | nil => simp
  | cons first rest ih =>
    rw [List.map_cons, List.foldl_cons, ih, mem_hideLower hroot]
    simp only [List.forall_mem_cons, and_assoc]

theorem PathOp.written_below (hroot : path ≠ []) (hbelow : change.Below path) :
    ∃ target, (PathOp.ofChange change).written = some target ∧ path ∈ ancestors target := by
  cases change with
  | create at' kind =>
    refine ⟨at', ?_, mem_ancestors.mpr ⟨hbelow.1, hroot, hbelow.2⟩⟩
    cases kind <;> rfl
  | link at' target | remove at' => exact ⟨at', rfl, mem_ancestors.mpr ⟨hbelow.1, hroot, hbelow.2⟩⟩
  | clear dir =>
    have hwithin : path <+: dir := hbelow
    cases dir with
    | nil => exact absurd (List.prefix_nil.mp hwithin) hroot
    | cons first rest =>
      refine ⟨_, rfl, mem_ancestors.mpr ⟨hwithin.trans (List.prefix_append _ _), hroot, ?_⟩⟩
      intro heq
      have hlength := hwithin.length_le
      rw [heq, List.length_append] at hlength
      simp only [List.length_singleton] at hlength
      omega

theorem applyOp_eq_ok {op : PathOp} (h : applyOp symlinks op = .ok after) :
    (∀ target, op.written = some target → ∀ ancestor ∈ ancestors target, ancestor ∉ symlinks) ∧
      after = match op with
        | .symlink path => insert path symlinks
        | .plain path => symlinks.erase path
        | _ => symlinks := by
  unfold applyOp at h
  cases hwritten : op.written with
  | none =>
    rw [hwritten] at h
    cases h
    refine ⟨fun target htarget => (nomatch htarget), ?_⟩
    cases op with
    | symlink | plain => cases hwritten
    | whiteout | opaqueDir => rfl
  | some target =>
    rw [hwritten] at h
    cases hwithin : symlinkPrefix symlinks target with
    | some link =>
      simp only [hwithin, reduceCtorEq] at h
    | none =>
      simp only [hwithin] at h
      constructor
      · intro other hother
        cases hother
        exact symlinkPrefix_eq_none.mp hwithin
      · cases op with
        | symlink | plain | whiteout | opaqueDir => exact (Except.ok.inj h).symm

/-- A replayed change is below no recorded symlink. -/
theorem applyOp_below (h : applyOp symlinks (.ofChange change) = .ok after) (hroot : path ≠ [])
    (hbelow : change.Below path) : path ∉ symlinks := by
  obtain ⟨target, hwritten, hancestor⟩ := PathOp.written_below hroot hbelow
  exact (applyOp_eq_ok h).1 target hwritten path hancestor

/-- The record keeps a symlink that no entry ends. -/
theorem applyOp_kept (h : applyOp symlinks (.ofChange change) = .ok after) (hmem : path ∈ symlinks)
    (hkept : change.isRemoval = true ∨ ¬ change.Ends path) :
    path ∈ after := by
  rw [(applyOp_eq_ok h).2]
  cases change with
  | create at' kind =>
    have hends : ¬ (Change.create at' kind).Ends path := by simpa [Change.isRemoval] using hkept
    cases kind with
    | symlink => exact Finset.mem_insert_of_mem hmem
    | directory | file => exact Finset.mem_erase.mpr ⟨hends, hmem⟩
  | link at' target =>
    have hends : ¬ (Change.link at' target).Ends path := by simpa [Change.isRemoval] using hkept
    exact Finset.mem_erase.mpr ⟨hends, hmem⟩
  | remove | clear => exact hmem

theorem applyOp_symlink (h : applyOp symlinks (.ofChange (.create path .symlink)) = .ok after) :
    path ∈ after := by
  rw [(applyOp_eq_ok h).2]
  exact Finset.mem_insert_self path symlinks

theorem applyOp_removal (h : applyOp symlinks (.ofChange change) = .ok after)
    (hremoval : change.isRemoval = true) : after = symlinks := by
  rw [(applyOp_eq_ok h).2]
  cases change with
  | create | link => cases hremoval
  | remove | clear => rfl

end Graph

section Layer

variable {tree : FileTree (List UInt8)} {sets : LayerSets} {symlinks after : Finset LayerPath}
  {change : Change (List UInt8)} {changes : List (Change (List UInt8))}
  {path : List (List UInt8)}

theorem decoded_below (h : change.Below path) : (decoded change).Below (decodedPath path) := by
  have hne : ∀ {at' : List (List UInt8)}, path <+: at' → path ≠ at' →
      decodedPath path ≠ decodedPath at' := by
    intro at' hwithin hne heq
    have hlength := congrArg List.length heq
    simp only [List.length_map] at hlength
    exact hne (hwithin.eq_of_length hlength)
  cases change with
  | create | link | remove => exact ⟨h.1.map _, hne h.1 h.2⟩
  | clear dir => exact List.IsPrefix.map _ h

theorem decoded_isRemoval : (decoded change).isRemoval = change.isRemoval := by
  cases change <;> rfl

theorem decodedPath_ne_nil (h : path ≠ []) : decodedPath path ≠ [] := by
  simpa using h

/-- No symlink can be the target of a hardlink of the layer. -/
def PlainFiles (sets : LayerSets) (tree : FileTree (List UInt8)) : Prop :=
  ∀ path, tree path = some .symlink → decodedPath path ∈ sets.files →
    decodedPath path ∈ sets.symlinks

/-- A symlink is there because it was before and is not replaced, or because the change put it
there: no hardlink is made to a symlink. -/
theorem PlainFiles.apply_symlink (h : PlainFiles sets tree) (hallows : sets.Allows (decoded change))
    (hlink : tree.apply change path = some .symlink) :
    tree path = some .symlink ∧ ¬ change.Replaces path ∨ change = .create path .symlink := by
  rcases apply_eq_symlink hlink with hkept | hput | ⟨target, rfl, htarget⟩
  · exact Or.inl hkept
  · exact Or.inr hput
  · exact absurd (h target htarget hallows.1) hallows.2

/-- An entry that is noted leaves no other symlink that can be a target. -/
theorem PlainFiles.apply (h : PlainFiles sets tree) (hallows : sets.Allows (decoded change))
    (hapart : change.isRemoval = false → Apart tree change) :
    PlainFiles (sets.note (decoded change)) (tree.apply change) := by
  intro path hlink
  rcases h.apply_symlink hallows hlink with ⟨hbefore, hkept⟩ | rfl
  · have hsame := h path hbefore
    have hends : change.isRemoval = false → ¬ (decoded change).Ends (decodedPath path) :=
      fun hentry hends => hkept (hapart hentry path hbefore hends).replaces
    cases change with
    | create at' kind =>
      cases kind with
      | directory =>
        have hne : decodedPath path ≠ decodedPath at' := hends rfl
        simp only [decoded, Change.map, LayerSets.note, Finset.mem_erase]
        exact fun hfile => ⟨hne, hsame hfile.2⟩
      | file =>
        have hne : decodedPath path ≠ decodedPath at' := hends rfl
        simp only [decoded, Change.map, LayerSets.note, Finset.mem_erase, Finset.mem_insert]
        exact fun hfile => ⟨hne, hsame (hfile.resolve_left hne)⟩
      | symlink =>
        simp only [decoded, Change.map, LayerSets.note, Finset.mem_insert]
        exact fun hfile => hfile.imp_right hsame
    | link at' target =>
      have hne : decodedPath path ≠ decodedPath at' := hends rfl
      simp only [decoded, Change.map, LayerSets.note, Finset.mem_erase, Finset.mem_insert]
      exact fun hfile => ⟨hne, hsame (hfile.resolve_left hne)⟩
    | remove | clear => exact hsame
  · intro _
    exact Finset.mem_insert_self _ _

/-- An entry keeps the record complete. -/
theorem Recorded.apply (h : Recorded tree symlinks) (hplain : PlainFiles sets tree)
    (hallows : sets.Allows (decoded change)) (hapart : Apart tree change)
    (hop : applyOp symlinks (.ofChange (decoded change)) = .ok after) :
    Recorded (tree.apply change) after := by
  intro path hroot hlink
  rcases hplain.apply_symlink hallows hlink with ⟨hbefore, hkept⟩ | rfl
  · refine applyOp_kept hop (h path hroot hbefore) (Or.inr fun hends => ?_)
    exact hkept (hapart path hbefore hends).replaces
  · exact applyOp_symlink hop

/-- Nothing is replayed below a recorded symlink. -/
theorem Recorded.not_through (h : Recorded tree symlinks)
    (hop : applyOp symlinks (.ofChange (decoded change)) = .ok after) : ¬ Through tree change := by
  rintro ⟨path, hroot, hlink, hbelow⟩
  exact applyOp_below hop (decodedPath_ne_nil hroot) (decoded_below hbelow) (h path hroot hlink)

theorem foldlM_applyOp_cons {ops : List PathOp} {op : PathOp}
    (h : (op :: ops).foldlM applyOp symlinks = .ok after) :
    ∃ next, applyOp symlinks op = .ok next ∧ ops.foldlM applyOp next = .ok after := by
  rw [List.foldlM_cons] at h
  exact Checks.bind_eq_ok.mp h

/-- While the entries are made after the removals, the record stays complete, no entry is below a
symlink, and neither is a removal where it stands between the entries. -/
theorem entries_replayed (hrecorded : Recorded tree symlinks) (hplain : PlainFiles sets tree)
    (hallows : sets.AllowsAll (changes.map decoded))
    (hops : (changes.map fun change => PathOp.ofChange (decoded change)).foldlM applyOp symlinks =
      .ok after)
    (hapart : ∀ before change later, changes.filter (! ·.isRemoval) = before ++ change :: later →
      Apart (tree.run before) change) :
    Recorded (tree.run (changes.filter (! ·.isRemoval))) after ∧
      NeverThrough tree (changes.filter (! ·.isRemoval)) ∧
      ∀ before removal later, changes = before ++ removal :: later →
        ¬ Through (tree.run (before.filter (! ·.isRemoval))) removal := by
  induction changes generalizing tree sets symlinks with
  | nil =>
    cases hops
    refine ⟨hrecorded, ?_, ?_⟩
    · intro before change later hsplit
      simp at hsplit
    · intro before removal later hsplit
      simp at hsplit
  | cons first rest ih =>
    obtain ⟨next, hop, hrest⟩ := foldlM_applyOp_cons hops
    obtain ⟨hallow, hallowed⟩ := hallows
    have hfirst := hrecorded.not_through hop
    cases hremoval : first.isRemoval with
    | true =>
      have hsame : next = symlinks := applyOp_removal hop (by rwa [decoded_isRemoval])
      have hsets : sets.note (decoded first) = sets := by
        cases first with
        | create | link => cases hremoval
        | remove | clear => rfl
      rw [hsame] at hrest
      rw [hsets] at hallowed
      have hskip : (first :: rest).filter (! ·.isRemoval) = rest.filter (! ·.isRemoval) := by
        simp [hremoval]
      rw [hskip] at hapart ⊢
      obtain ⟨hend, hnever, hplaces⟩ := ih hrecorded hplain hallowed hrest hapart
      refine ⟨hend, hnever, ?_⟩
      intro before removal later hsplit
      cases before with
      | nil =>
        obtain ⟨rfl, _⟩ := List.cons.inj hsplit
        exact hfirst
      | cons head before =>
        obtain ⟨rfl, hlater⟩ := List.cons.inj hsplit
        have hfilter : (first :: before).filter (! ·.isRemoval) =
            before.filter (! ·.isRemoval) := by
          simp [hremoval]
        rw [hfilter]
        exact hplaces before removal later hlater
    | false =>
      have htake : (first :: rest).filter (! ·.isRemoval) =
          first :: rest.filter (! ·.isRemoval) := by
        simp [hremoval]
      rw [htake] at hapart ⊢
      have happart := hapart [] first _ rfl
      have hrecorded' := hrecorded.apply hplain hallow happart hop
      have hplain' := hplain.apply hallow fun _ => happart
      obtain ⟨hend, hnever, hplaces⟩ := ih hrecorded' hplain' hallowed hrest
        fun before change later hsplit => hapart (first :: before) change later
          (by rw [hsplit, List.cons_append])
      refine ⟨hend, ?_, ?_⟩
      · intro before change later hsplit
        cases before with
        | nil =>
          obtain ⟨rfl, _⟩ := List.cons.inj hsplit
          exact hfirst
        | cons head before =>
          obtain ⟨rfl, hlater⟩ := List.cons.inj hsplit
          exact hnever before change later hlater
      · intro before removal later hsplit
        cases before with
        | nil =>
          obtain ⟨rfl, _⟩ := List.cons.inj hsplit
          exact hfirst
        | cons head before =>
          obtain ⟨rfl, hlater⟩ := List.cons.inj hsplit
          have hfilter : (first :: before).filter (! ·.isRemoval) =
              first :: before.filter (! ·.isRemoval) := by
            simp [hremoval]
          rw [hfilter]
          exact hplaces before removal later hlater

/-- In the middle of a layer whose removals are made at their place, every symlink is recorded but
those of the lower layers that are still to be removed. -/
def Tracked (tree : FileTree (List UInt8)) (symlinks : Finset LayerPath)
    (done todo : List (Change (List UInt8))) : Prop :=
  ∀ path, path ≠ [] → tree.run done path = some .symlink →
    decodedPath path ∈ symlinks ∨
      tree path = some .symlink ∧ (∀ change ∈ done, ¬ change.Replaces path) ∧
        ∃ change ∈ todo, change.isRemoval = true ∧ (decoded change).Ends (decodedPath path)

section

variable {done todo : List (Change (List UInt8))}

/-- One change of such a layer. -/
theorem Tracked.step (h : Tracked tree symlinks done (change :: todo))
    (hplain : PlainFiles sets (tree.run done)) (hallows : sets.Allows (decoded change))
    (hop : applyOp symlinks (.ofChange (decoded change)) = .ok after)
    (hremoval : change.isRemoval = true → Apart tree change)
    (hentry : change.isRemoval = false → Apart (tree.run done) change) :
    Tracked tree after (done ++ [change]) todo := by
  intro path hroot hlink
  rw [FileTree.run_append, FileTree.run_cons, FileTree.run_nil] at hlink
  rcases hplain.apply_symlink hallows hlink with ⟨hbefore, hkept⟩ | rfl
  · rcases h path hroot hbefore with hmem | ⟨hlower, hdone, later, hlater, hremoves, hends⟩
    · refine Or.inl (applyOp_kept hop hmem ?_)
      cases hkind : change.isRemoval with
      | true => exact Or.inl (by rwa [decoded_isRemoval])
      | false => exact Or.inr fun hends => hkept (hentry hkind path hbefore hends).replaces
    · refine Or.inr ⟨hlower, ?_, ?_⟩
      · intro other hother
        rcases List.mem_append.mp hother with hold | hnew
        · exact hdone other hold
        · obtain rfl := List.mem_singleton.mp hnew
          exact hkept
      · rcases List.mem_cons.mp hlater with rfl | hlater
        · exact absurd (hremoval hremoves path hlower hends).replaces hkept
        · exact ⟨later, hlater, hremoves, hends⟩
  · exact Or.inl (applyOp_symlink hop)

/-- In time, such a change is below no symlink. -/
theorem Tracked.not_through (h : Tracked tree symlinks done (change :: todo))
    (hop : applyOp symlinks (.ofChange (decoded change)) = .ok after)
    (hapart : ∀ other ∈ change :: todo, other.isRemoval = true → Apart tree other)
    (htime : InTime tree (done ++ change :: todo)) : ¬ Through (tree.run done) change := by
  rintro ⟨path, hroot, hlink, hbelow⟩
  rcases h path hroot hlink with hmem | ⟨hlower, hdone, later, hlater, hremoves, hends⟩
  · exact applyOp_below hop (decodedPath_ne_nil hroot) (decoded_below hbelow) hmem
  · have hreplaces := (hapart later hlater hremoves path hlower hends).replaces
    obtain ⟨other, hother, hreplaced⟩ := htime done change todo path rfl hroot hlower hbelow
      ⟨later, List.mem_append_right done hlater, hreplaces⟩
    exact hdone other hother hreplaced

/-- A layer whose removals are made at their place. -/
theorem inPlace_replayed
    (htracked : Tracked tree symlinks done todo) (hplain : PlainFiles sets (tree.run done))
    (hallows : sets.AllowsAll (todo.map decoded))
    (hops : (todo.map fun change => PathOp.ofChange (decoded change)).foldlM applyOp symlinks =
      .ok after)
    (hremovals : ∀ change ∈ todo, change.isRemoval = true → Apart tree change)
    (hentries : ∀ before change later, todo = before ++ change :: later →
      change.isRemoval = false → Apart (tree.run (done ++ before)) change) :
    Recorded (tree.run (done ++ todo)) after ∧
      (InTime tree (done ++ todo) → NeverThrough (tree.run done) todo) := by
  induction todo generalizing done sets symlinks with
  | nil =>
    cases hops
    constructor
    · intro path hroot hlink
      rw [List.append_nil] at hlink
      rcases htracked path hroot hlink with hmem | ⟨_, _, later, hlater, _⟩
      · exact hmem
      · cases hlater
    · intro _ before change later hsplit
      simp at hsplit
  | cons first rest ih =>
    obtain ⟨next, hop, hrest⟩ := foldlM_applyOp_cons hops
    obtain ⟨hallow, hallowed⟩ := hallows
    have hentry : first.isRemoval = false → Apart (tree.run done) first := by
      intro hkind
      have happart := hentries [] first rest rfl hkind
      rwa [List.append_nil] at happart
    have hrun : tree.run (done ++ [first]) = (tree.run done).apply first := by
      rw [FileTree.run_append, FileTree.run_cons, FileTree.run_nil]
    have hstep := htracked.step hplain hallow hop
      (hremovals first List.mem_cons_self) hentry
    have hplain' : PlainFiles (sets.note (decoded first)) (tree.run (done ++ [first])) := by
      rw [hrun]
      exact hplain.apply hallow hentry
    have hsplit : done ++ first :: rest = (done ++ [first]) ++ rest := by
      rw [List.append_assoc, List.singleton_append]
    obtain ⟨hend, hnever⟩ := ih hstep hplain' hallowed hrest
      (fun change hchange => hremovals change (List.mem_cons_of_mem _ hchange))
      (fun before change later hcut hkind => by
        have happart := hentries (first :: before) change later
          (by rw [hcut, List.cons_append]) hkind
        rwa [List.append_assoc, List.singleton_append])
    constructor
    · rw [hsplit]
      exact hend
    · intro htime before change later hcut
      cases before with
      | nil =>
        obtain ⟨rfl, _⟩ := List.cons.inj hcut
        exact htracked.not_through hop hremovals htime
      | cons head before =>
        obtain ⟨rfl, hlater⟩ := List.cons.inj hcut
        rw [hsplit] at htime
        have hthrough := hnever htime before change later hlater
        rwa [hrun] at hthrough

end

theorem apply_ok {graph next : SymlinkGraph} {ops : List PathOp} (h : graph.apply ops = .ok next) :
    ops.foldlM applyOp (ops.foldl hideLower graph.symlinks) = .ok next.symlinks := by
  simp only [SymlinkGraph.apply, Checks.bind_eq_ok] at h
  obtain ⟨symlinks, hsymlinks, heq⟩ := h
  cases heq
  exact hsymlinks

/-- Where the removals of a layer come first, those that are in time are below no symlink, since no
change of the layer ever replaces it. -/
theorem removals_replayed (hplaces : ∀ before removal later, changes = before ++ removal :: later →
      ¬ Through ((tree.run (changes.filter (·.isRemoval))).run
        (before.filter (! ·.isRemoval))) removal)
    (htime : InTime tree (RemovalOrder.removalsFirst.arrange changes)) :
    NeverThrough tree (changes.filter (·.isRemoval)) := by
  rintro before removal later hsplit ⟨path, hroot, hlink, hbelow⟩
  have hremovals : ∀ other ∈ changes.filter (·.isRemoval), other.isRemoval = true :=
    fun other hother => (List.mem_filter.mp hother).2
  have hbefore : ∀ other ∈ before, other.isRemoval = true := by
    intro other hother
    exact hremovals other (by rw [hsplit]; exact List.mem_append_left _ hother)
  obtain ⟨hlower, hkept⟩ := run_removals hbefore hlink
  -- No change of the layer replaces the symlink.
  have hnone : ∀ other ∈ changes, ¬ other.Replaces path := by
    intro other hother hreplaces
    have harranged : RemovalOrder.removalsFirst.arrange changes =
        before ++ removal :: (later ++ changes.filter (! ·.isRemoval)) := by
      rw [RemovalOrder.arrange, hsplit, List.append_assoc, List.cons_append]
    obtain ⟨earlier, hearlier, hreplaced⟩ := htime before removal _ path harranged hroot hlower
      hbelow ⟨other, mem_arrange.mpr hother, hreplaces⟩
    exact hkept earlier hearlier hreplaced
  have hmem : removal ∈ changes := by
    have hfiltered : removal ∈ changes.filter (·.isRemoval) := by
      rw [hsplit]
      exact List.mem_append_right before List.mem_cons_self
    exact (List.mem_filter.mp hfiltered).1
  obtain ⟨front, back, hplace⟩ := List.append_of_mem hmem
  refine hplaces front removal back hplace ⟨path, hroot, ?_, hbelow⟩
  rw [← FileTree.run_append]
  refine run_symlink hlower fun other hother => hnone other ?_
  rcases List.mem_append.mp hother with hfirst | hentry
  · exact (List.mem_filter.mp hfirst).1
  · rw [hplace]
    exact List.mem_append_left _ (List.mem_filter.mp hentry).1

/-- An accepted layer none of whose changes is confused with another goes through no symlink
exactly when its changes are in time; the record is complete again after it. -/
theorem layer_replayed {graph next : SymlinkGraph} {order : RemovalOrder}
    (hrecorded : Recorded tree graph.symlinks)
    (hallows : (⟨∅, ∅⟩ : LayerSets).AllowsAll (changes.map decoded))
    (happly : graph.apply ((changes.map decoded).map .ofChange) = .ok next)
    (hapart : LayerApart tree order changes) :
    Recorded (tree.run (order.arrange changes)) next.symlinks ∧
      (NeverThrough tree (order.arrange changes) ↔ InTime tree (order.arrange changes)) := by
  have hops := apply_ok happly
  rw [List.map_map] at hops
  have hplain : ∀ other : FileTree (List UInt8), PlainFiles ⟨∅, ∅⟩ other :=
    fun other path _ hfile => absurd hfile (Finset.notMem_empty _)
  have hhidden : ∀ path, path ≠ [] → tree path = some .symlink →
      decodedPath path ∈ ((changes.map decoded).map PathOp.ofChange).foldl hideLower
        graph.symlinks ∨ ∃ change ∈ changes, change.isRemoval = true ∧
          (decoded change).Ends (decodedPath path) := by
    intro path hroot hlink
    by_contra hnone
    push Not at hnone
    refine hnone.1 ((mem_foldl_hideLower (decodedPath_ne_nil hroot)).mpr
      ⟨hrecorded path hroot hlink, ?_⟩)
    rintro _ hother ⟨hremoves, hends⟩
    obtain ⟨change, hchange, rfl⟩ := List.mem_map.mp hother
    rw [decoded_isRemoval] at hremoves
    exact hnone.2 change hchange hremoves hends
  rw [List.map_map] at hhidden
  generalize (changes.map (PathOp.ofChange ∘ decoded)).foldl hideLower graph.symlinks = hidden
    at hops hhidden
  cases order with
  | inPlace =>
    have htracked : Tracked tree hidden [] changes := fun path hroot hlink =>
      (hhidden path hroot hlink).imp_right fun hremoved =>
        ⟨hlink, fun _ hmem => (nomatch hmem), hremoved⟩
    obtain ⟨hend, hnever⟩ := inPlace_replayed htracked (hplain _) hallows hops hapart.removals
      (fun before change later hsplit hkind => hapart.entries before change later hsplit hkind)
    exact ⟨hend, NeverThrough.inTime, hnever⟩
  | removalsFirst =>
    have hfirst : Recorded (tree.run (changes.filter (·.isRemoval))) hidden := by
      intro path hroot hlink
      have hremovals : ∀ other ∈ changes.filter (·.isRemoval), other.isRemoval = true :=
        fun other hother => (List.mem_filter.mp hother).2
      obtain ⟨hlower, hkept⟩ := run_removals hremovals hlink
      rcases hhidden path hroot hlower with hmem | ⟨change, hchange, hremoves, hends⟩
      · exact hmem
      · have hreplaces := (hapart.removals change hchange hremoves path hlower hends).replaces
        exact absurd hreplaces (hkept change (List.mem_filter.mpr ⟨hchange, hremoves⟩))
    obtain ⟨hend, hentries, hplaces⟩ := entries_replayed hfirst (hplain _) hallows hops
      (fun before change later hsplit => by
        have hkind : change.isRemoval = false := by
          have hmem : change ∈ changes.filter (! ·.isRemoval) := by
            rw [hsplit]
            exact List.mem_append_right before List.mem_cons_self
          simpa using (List.mem_filter.mp hmem).2
        have happart := hapart.entries (changes.filter (·.isRemoval) ++ before) change later
          (by rw [RemovalOrder.arrange, hsplit, List.append_assoc]) hkind
        rwa [FileTree.run_append] at happart)
    refine ⟨?_, NeverThrough.inTime, fun htime => ?_⟩
    · rw [RemovalOrder.arrange, FileTree.run_append]
      exact hend
    · exact neverThrough_append.mpr ⟨removals_replayed hplaces htime, hentries⟩

end Layer

end Awman.Oci
