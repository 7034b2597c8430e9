import Awman.Library.JsonTrees

/-!
# Reading and writing a document at a path of texts

A segment of a path names a member of an object or, where an array is met, an item of it.  A write goes
through objects only: what stands in its way is replaced by an object.  The effect of a write on any
other path is told by whether the path passes something that is replaced.
-/

namespace Awman.Json

variable {ν : Type} {asIndex : Text → Option Nat} {doc : Doc ν} {segment : Text}
  {path other : List Text}

/-- The member of an object under a key. -/
def Doc.get (key : Text) : Doc ν → Option (Doc ν)
  | .object entries => lookupLast key entries
  | _ => none

/-- The object with a member put under a key; nothing else has members. -/
def Doc.insert (doc : Doc ν) (key : Text) (part : Doc ν) : Doc ν :=
  match doc with
  | .object entries => .object (SortedMap.upsertEntries key (fun _ => part) entries)
  | rest => rest

/-- Whether it is an object. -/
def Doc.isObject : Doc ν → Bool
  | .object _ => true
  | _ => false

/-- Whether it is an array. -/
def Doc.isArray : Doc ν → Bool
  | .array _ => true
  | _ => false

/-- What a segment names: a member, or an item where an array is met. -/
def Doc.step (asIndex : Text → Option Nat) (segment : Text) : Doc ν → Option (Doc ν)
  | .array items => (asIndex segment).bind fun index => items[index]?
  | rest => rest.get segment

/-- What a path names. -/
def Doc.follow (asIndex : Text → Option Nat) : List Text → Doc ν → Option (Doc ν)
  | [], doc => some doc
  | segment :: path, doc => (doc.step asIndex segment).bind (Doc.follow asIndex path)

/-- The object under a key, or an empty one. -/
def Doc.objectUnder (key : Text) (doc : Doc ν) : Doc ν :=
  match doc.get key with
  | some (.object entries) => .object entries
  | _ => .object []

/-- What is met at the end of a path that goes through objects only. -/
def Doc.met : List Text → Doc ν → Option (Doc ν)
  | [], doc => some doc
  | [key], doc => doc.get key
  | key :: path, doc => (doc.objectUnder key).met path

/-- Rewrites what is met at the end of a path, with objects on the way. -/
def Doc.rewrite (change : Option (Doc ν) → Doc ν) : List Text → Doc ν → Doc ν
  | [], doc => doc
  | [key], doc => doc.insert key (change (doc.get key))
  | key :: path, doc => doc.insert key ((doc.objectUnder key).rewrite change path)

/-- The other path passes an array where the first one needs an object. -/
def Doc.Displaces (asIndex : Text → Option Nat) (path other : List Text) (doc : Doc ν) : Prop :=
  ∃ passed items, passed <+: other ∧ passed <+: path ∧ passed ≠ path ∧
    doc.follow asIndex passed = some (.array items)

/-! ## One step -/

section

variable {entries : List (Text × Doc ν)} (h : (entries.map Prod.fst).Pairwise (· < ·)) (key : Text)
include h

theorem Doc.get_insert (part : Doc ν) (other : Text) :
    ((Doc.object entries).insert key part).get other =
      if key = other then some part else (Doc.object entries).get other :=
  lookupLast_upsertEntries h key part other

theorem Doc.step_insert (part : Doc ν) (other : Text) :
    ((Doc.object entries).insert key part).step asIndex other =
      if key = other then some part else (Doc.object entries).step asIndex other :=
  lookupLast_upsertEntries h key part other

theorem Doc.insert_insert (first second : Doc ν) :
    ((Doc.object entries).insert key first).insert key second =
      (Doc.object entries).insert key second :=
  congrArg Doc.object (upsertEntries_upsertEntries h key first second)

end

theorem Doc.IsValue.keys_increasing {entries : List (Text × Doc ν)} (h : (Doc.object entries).IsValue) :
    (entries.map Prod.fst).Pairwise (· < ·) := by
  cases h with
  | object hkeys hmembers => exact hkeys

theorem Doc.IsValue.get {part : Doc ν} (h : doc.IsValue) (hpart : doc.get segment = some part) :
    part.IsValue := by
  cases h with
  | null | bool | number | string | array => cases hpart
  | object hkeys hmembers => exact hmembers _ (mem_of_lookupLast hpart)

theorem Doc.IsValue.insert {part : Doc ν} (h : doc.IsValue) (hpart : part.IsValue) (key : Text) :
    (doc.insert key part).IsValue := by
  cases h with
  | null => exact .null
  | bool value => exact .bool value
  | number value => exact .number value
  | string value => exact .string value
  | array hitems => exact .array hitems
  | object hkeys hmembers =>
    refine .object (SortedMap.upsertEntries_increasing key _ hkeys) fun entry hentry => ?_
    rcases (@mem_upsertEntries_iff _ _ hkeys (key, part) entry).mp hentry with rfl | ⟨hold, -⟩
    · exact hpart
    · exact hmembers entry hold

theorem Doc.isValue_empty : (Doc.object [] : Doc ν).IsValue :=
  .object List.Pairwise.nil fun _ h => absurd h (by simp)

theorem Doc.IsValue.objectUnder (h : doc.IsValue) (key : Text) : (doc.objectUnder key).IsValue := by
  unfold Doc.objectUnder
  split
  · rename_i entries hget
    exact h.get hget
  · exact isValue_empty

theorem Doc.objectUnder_object (doc : Doc ν) (key : Text) :
    ∃ entries, doc.objectUnder key = .object entries := by
  unfold Doc.objectUnder
  split
  · exact ⟨_, rfl⟩
  · exact ⟨[], rfl⟩

theorem Doc.follow_cons_object (entries : List (Text × Doc ν)) :
    (Doc.object entries).follow asIndex (segment :: path) =
      ((Doc.object entries).get segment).bind (Doc.follow asIndex path) := rfl

theorem Doc.follow_append (first second : List Text) (doc : Doc ν) :
    doc.follow asIndex (first ++ second) =
      (doc.follow asIndex first).bind (Doc.follow asIndex second) := by
  induction first generalizing doc with
  | nil => rfl
  | cons segment rest ih =>
    rw [List.cons_append, Doc.follow, Doc.follow, Option.bind_assoc]
    congr 1
    exact funext ih

theorem Doc.follow_empty (hpath : path ≠ []) : (Doc.object [] : Doc ν).follow asIndex path = none := by
  cases path with
  | nil => exact absurd rfl hpath
  | cons segment rest => rfl

/-! ## What a write does to what paths name -/

variable {change : Option (Doc ν) → Doc ν} {entries : List (Text × Doc ν)} {rest : List Text}

theorem Doc.rewrite_cons_cons (key second : Text) (rest : List Text) (doc : Doc ν) :
    doc.rewrite change (key :: second :: rest) =
      doc.insert key ((doc.objectUnder key).rewrite change (second :: rest)) := rfl

theorem Doc.met_cons_cons (key second : Text) (rest : List Text) (doc : Doc ν) :
    doc.met (key :: second :: rest) = (doc.objectUnder key).met (second :: rest) := rfl

theorem Doc.rewrite_object (path : List Text) (entries : List (Text × Doc ν)) :
    ∃ others, (Doc.object entries).rewrite change path = .object others := by
  cases path with
  | nil => exact ⟨entries, rfl⟩
  | cons key rest =>
    cases rest with
    | nil | cons => exact ⟨_, rfl⟩

/-- A rewritten value is a value. -/
theorem Doc.IsValue.rewrite (h : doc.IsValue)
    (hchange : ∀ old : Option (Doc ν), (∀ part, old = some part → part.IsValue) →
      (change old).IsValue) (path : List Text) : (doc.rewrite change path).IsValue := by
  induction path generalizing doc with
  | nil => exact h
  | cons key rest ih =>
    cases rest with
    | nil => exact h.insert (hchange _ fun part hpart => h.get hpart) key
    | cons second rest => exact h.insert (ih (h.objectUnder key)) key

/-- Behind the path stands what was put there. -/
theorem Doc.follow_rewrite_append (h : (Doc.object entries).IsValue) (hpath : path ≠ [])
    (rest : List Text) :
    ((Doc.object entries).rewrite change path).follow asIndex (path ++ rest) =
      (change ((Doc.object entries).met path)).follow asIndex rest := by
  induction path generalizing entries with
  | nil => exact absurd rfl hpath
  | cons key path ih =>
    cases path with
    | nil =>
      rw [Doc.rewrite, List.singleton_append, Doc.follow, Doc.step_insert h.keys_increasing,
        if_pos rfl]
      rfl
    | cons second path =>
      obtain ⟨inner, hinner⟩ := (Doc.object entries).objectUnder_object key
      have hvalue := h.objectUnder key
      rw [hinner] at hvalue
      rw [Doc.rewrite_cons_cons, List.cons_append, Doc.follow, Doc.step_insert h.keys_increasing,
        if_pos rfl, Option.bind_some, hinner, ih hvalue (by simp), Doc.met_cons_cons, hinner]

theorem Doc.met_empty (hpath : path ≠ []) : (Doc.object [] : Doc ν).met path = none := by
  induction path with
  | nil => exact absurd rfl hpath
  | cons key rest ih =>
    cases rest with
    | nil => rfl
    | cons second rest => exact ih (by simp)

/-- Nothing is replaced under an empty object. -/
theorem Doc.not_displaces_empty : ¬ (Doc.object [] : Doc ν).Displaces asIndex path other := by
  rintro ⟨passed, items, -, -, -, hpassed⟩
  cases passed with
  | nil | cons => cases hpassed

/-- What a key leads a write to. -/
theorem Doc.objectUnder_cases (doc : Doc ν) (key : Text) :
    (∃ inner, doc.get key = some (.object inner) ∧ doc.objectUnder key = .object inner) ∨
      (∀ inner, doc.get key ≠ some (.object inner)) ∧ doc.objectUnder key = .object [] := by
  unfold Doc.objectUnder
  split
  · rename_i entries hget
    exact Or.inl ⟨entries, hget, rfl⟩
  · rename_i hnone
    exact Or.inr ⟨hnone, rfl⟩

theorem Doc.displaces_of_get {part : Doc ν} {key : Text} (hget : (Doc.object entries).get key = some part)
    (h : part.Displaces asIndex path other) :
    (Doc.object entries).Displaces asIndex (key :: path) (key :: other) := by
  obtain ⟨passed, items, hother, hpath, hne, hitems⟩ := h
  refine ⟨key :: passed, items, ?_, ?_, by simpa using hne, ?_⟩
  · exact List.cons_prefix_cons.mpr ⟨rfl, hother⟩
  · exact List.cons_prefix_cons.mpr ⟨rfl, hpath⟩
  · rw [Doc.follow_cons_object, hget]
    exact hitems

theorem Doc.displaces_of_array {items : List (Doc ν)} {key : Text}
    (hget : (Doc.object entries).get key = some (.array items)) (hpath : path ≠ []) :
    (Doc.object entries).Displaces asIndex (key :: path) (key :: other) :=
  displaces_of_get hget ⟨[], items, List.nil_prefix, List.nil_prefix, hpath.symm, rfl⟩

/-- Where an array is replaced, both paths begin with one key, and the array is under it or further on. -/
theorem Doc.Displaces.cases {key : Text}
    (h : (Doc.object entries).Displaces asIndex (key :: path) other) :
    path ≠ [] ∧ ∃ rest part, other = key :: rest ∧ (Doc.object entries).get key = some part ∧
      ((∃ items, part = .array items) ∨ (∃ inner, part = .object inner) ∧
        part.Displaces asIndex path rest) := by
  obtain ⟨passed, items, hother, hpath, hne, hitems⟩ := h
  cases passed with
  | nil => cases hitems
  | cons first passed =>
    obtain ⟨rfl, hfront⟩ := List.cons_prefix_cons.mp hpath
    have hproper : passed ≠ path := fun hsame => hne (by rw [hsame])
    have hnonempty : path ≠ [] := by
      intro hnil
      rw [hnil] at hfront hproper
      exact hproper (List.prefix_nil.mp hfront)
    obtain ⟨tail, rfl⟩ := hother
    rw [Doc.follow_cons_object] at hitems
    obtain ⟨part, hget, hitems⟩ := Option.bind_eq_some_iff.mp hitems
    refine ⟨hnonempty, passed ++ tail, part, rfl, hget, ?_⟩
    cases passed with
    | nil => exact Or.inl ⟨items, Option.some.inj hitems⟩
    | cons second passed =>
      cases part with
      | null | bool | number | string => cases hitems
      | array others => exact Or.inl ⟨others, rfl⟩
      | object inner =>
        exact Or.inr ⟨⟨inner, rfl⟩, second :: passed, items, List.prefix_append _ _, hfront, hproper,
          hitems⟩

/-- What is neither an object nor an array has no parts. -/
theorem Doc.follow_of_scalar (hobject : ∀ inner, doc ≠ .object inner)
    (harray : ∀ items, doc ≠ .array items) (hpath : path ≠ []) : doc.follow asIndex path = none := by
  cases path with
  | nil => exact absurd rfl hpath
  | cons segment rest =>
    cases doc with
    | null | bool | number | string => rfl
    | array items => exact absurd rfl (harray items)
    | object inner => exact absurd rfl (hobject inner)

/-- Behind a key without an object nothing is named, unless an array there is replaced. -/
theorem Doc.follow_under_none {key : Text}
    (hnone : ∀ inner, (Doc.object entries).get key ≠ some (.object inner)) (hpath : path ≠ [])
    (hother : other ≠ [])
    (hkept : ¬ (Doc.object entries).Displaces asIndex (key :: path) (key :: other)) :
    (Doc.object entries).follow asIndex (key :: other) = none := by
  rw [Doc.follow_cons_object]
  cases hget : (Doc.object entries).get key with
  | none => rfl
  | some part =>
    refine Doc.follow_of_scalar (fun inner hinner => ?_) (fun items hitems => ?_) hother
    · exact hnone inner (by rw [hget, hinner])
    · rw [hitems] at hget
      exact hkept (displaces_of_array hget hpath)

/-- When no array is replaced on the way, a path names what a write meets there. -/
theorem Doc.follow_eq_met (hpath : path ≠ [])
    (hkept : ¬ (Doc.object entries).Displaces asIndex path path) :
    (Doc.object entries).follow asIndex path = (Doc.object entries).met path := by
  induction path generalizing entries with
  | nil => exact absurd rfl hpath
  | cons key path ih =>
    cases path with
    | nil =>
      rw [Doc.follow_cons_object]
      exact Option.bind_fun_some _
    | cons second path =>
      rw [Doc.met_cons_cons]
      rcases (Doc.object entries).objectUnder_cases key with ⟨inner, hget, hunder⟩ | ⟨hnone, hunder⟩
      · rw [hunder, Doc.follow_cons_object, hget, Option.bind_some]
        exact ih (by simp) fun hinner => hkept (displaces_of_get hget hinner)
      · rw [hunder, Doc.met_empty (by simp)]
        exact Doc.follow_under_none hnone (by simp) (by simp) hkept

/-- A path that leads on from another one passes the same of it. -/
theorem Doc.displaces_of_prefix (hbeginning : path <+: other) :
    doc.Displaces asIndex path other ↔ doc.Displaces asIndex path path := by
  constructor
  · rintro ⟨passed, items, -, hpath, hrest⟩
    exact ⟨passed, items, hpath, hpath, hrest⟩
  · rintro ⟨passed, items, -, hpath, hrest⟩
    exact ⟨passed, items, hpath.trans hbeginning, hpath, hrest⟩

/-- Behind an array that is replaced a write meets nothing. -/
theorem Doc.met_displaced (hdisplaced : (Doc.object entries).Displaces asIndex path path) :
    (Doc.object entries).met path = none := by
  induction path generalizing entries with
  | nil =>
    obtain ⟨passed, items, -, hpath, hne, -⟩ := hdisplaced
    exact absurd (List.prefix_nil.mp hpath) hne
  | cons key path ih =>
    obtain ⟨hnonempty, rest, part, hsame, hget, hpart⟩ := hdisplaced.cases
    rw [← (List.cons.inj hsame).2] at hpart
    cases path with
    | nil => exact absurd rfl hnonempty
    | cons second path =>
      rw [Doc.met_cons_cons, Doc.objectUnder, hget]
      rcases hpart with ⟨items, rfl⟩ | ⟨⟨inner, rfl⟩, hinner⟩
      · exact Doc.met_empty (by simp)
      · exact ih hinner

/-- A write leaves what another path names, when neither path leads on to the other and nothing the
other one passes is replaced. -/
theorem Doc.follow_rewrite (h : (Doc.object entries).IsValue) (hpath : ¬ path <+: other)
    (hother : ¬ other <+: path) (hkept : ¬ (Doc.object entries).Displaces asIndex path other) :
    ((Doc.object entries).rewrite change path).follow asIndex other =
      (Doc.object entries).follow asIndex other := by
  induction path generalizing entries other with
  | nil => exact absurd List.nil_prefix hpath
  | cons key path ih =>
    cases other with
    | nil => exact absurd List.nil_prefix hother
    | cons segment other =>
      cases path with
      | nil =>
        have hne : key ≠ segment := fun hsame =>
          hpath (List.cons_prefix_cons.mpr ⟨hsame, List.nil_prefix⟩)
        rw [Doc.rewrite, Doc.follow, Doc.step_insert h.keys_increasing, if_neg hne]
        rfl
      | cons second path =>
        rw [Doc.rewrite_cons_cons, Doc.follow, Doc.step_insert h.keys_increasing]
        by_cases hsame : key = segment
        · subst hsame
          have hpath' : ¬ second :: path <+: other := fun hbeginning =>
            hpath (List.cons_prefix_cons.mpr ⟨rfl, hbeginning⟩)
          have hother' : ¬ other <+: second :: path := fun hbeginning =>
            hother (List.cons_prefix_cons.mpr ⟨rfl, hbeginning⟩)
          have hnonempty : other ≠ [] := fun hnil => hother' (hnil ▸ List.nil_prefix)
          rw [if_pos rfl, Option.bind_some]
          have hvalue := h.objectUnder key
          rcases (Doc.object entries).objectUnder_cases key with
            ⟨inner, hget, hunder⟩ | ⟨hnone, hunder⟩
          · rw [hunder] at hvalue
            rw [hunder, ih hvalue hpath' hother' fun hinner => hkept (displaces_of_get hget hinner),
              Doc.follow_cons_object, hget]
            rfl
          · rw [hunder, ih isValue_empty hpath' hother' not_displaces_empty,
              Doc.follow_empty hnonempty,
              Doc.follow_under_none hnone (by simp) hnonempty hkept]
        · rw [if_neg hsame]
          rfl

/-- Where a write replaces an array, no other path names anything behind it any more. -/
theorem Doc.follow_rewrite_displaced (h : (Doc.object entries).IsValue) (hpath : ¬ path <+: other)
    (hother : ¬ other <+: path) (hdisplaced : (Doc.object entries).Displaces asIndex path other) :
    ((Doc.object entries).rewrite change path).follow asIndex other = none := by
  induction path generalizing entries other with
  | nil => exact absurd List.nil_prefix hpath
  | cons key path ih =>
    obtain ⟨hnonempty, rest, part, rfl, hget, hpart⟩ := hdisplaced.cases
    have hpath' : ¬ path <+: rest := fun hbeginning =>
      hpath (List.cons_prefix_cons.mpr ⟨rfl, hbeginning⟩)
    have hother' : ¬ rest <+: path := fun hbeginning =>
      hother (List.cons_prefix_cons.mpr ⟨rfl, hbeginning⟩)
    have hrest : rest ≠ [] := fun hnil => hother' (hnil ▸ List.nil_prefix)
    cases path with
    | nil => exact absurd rfl hnonempty
    | cons second path =>
      have hvalue := h.objectUnder key
      rw [Doc.rewrite_cons_cons, Doc.follow, Doc.step_insert h.keys_increasing, if_pos rfl,
        Option.bind_some]
      rcases hpart with ⟨items, rfl⟩ | ⟨⟨inner, rfl⟩, hinner⟩
      · have hunder : (Doc.object entries).objectUnder key = .object [] := by
          rw [Doc.objectUnder, hget]
        rw [hunder, Doc.follow_rewrite isValue_empty hpath' hother' not_displaces_empty,
          Doc.follow_empty hrest]
      · have hunder : (Doc.object entries).objectUnder key = .object inner := by
          rw [Doc.objectUnder, hget]
        rw [hunder] at hvalue
        rw [hunder]
        exact ih hvalue hpath' hother' hinner

end Awman.Json
