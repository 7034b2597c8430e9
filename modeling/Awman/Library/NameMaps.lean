import Mathlib.Data.List.AList

/-!
# Maps with finitely many entries

Operations on association lists without repeated keys that keep or rewrite the entries one by one.
Two such maps hold the same values when they agree on every key.
-/

namespace Awman

/-- A map with finitely many entries. -/
abbrev NameMap (κ β : Type) : Type := AList fun _ : κ => β

namespace NameMap

variable {κ β γ : Type} [DecidableEq κ] {map other : NameMap κ β} {key : κ} {value : β}

/-- The entries that meet a condition. -/
def retain (keep : κ → β → Bool) (map : NameMap κ β) : NameMap κ β :=
  ⟨map.entries.filter fun entry => keep entry.1 entry.2,
    (List.filter_sublist.map Sigma.fst).nodup map.nodupKeys⟩

/-- Rewrite the value of every entry. -/
def mapEntries (rewrite : κ → β → γ) (map : NameMap κ β) : NameMap κ γ :=
  ⟨map.entries.map fun entry => ⟨entry.1, rewrite entry.1 entry.2⟩, by
    have hkeys : (map.entries.map fun entry =>
        (⟨entry.1, rewrite entry.1 entry.2⟩ : Sigma fun _ : κ => γ)).keys = map.entries.keys := by
      simp [List.keys, Function.comp_def]
    rw [List.NodupKeys, hkeys]
    exact map.nodupKeys⟩

/-- Whether the map has no entries. -/
def isEmpty (map : NameMap κ β) : Bool := map.entries.isEmpty

/-- A value merged into what an entry held before. -/
def mergeValue (merge : β → β → β) (old : Option β) (value : β) : Option β :=
  some ((old.map (merge · value)).getD value)

/-- Merge a value into the entry with its key, or add it as a new one. -/
def mergeInto (keyOf : β → κ) (merge : β → β → β) (map : NameMap κ β) (value : β) : NameMap κ β :=
  map.insert (keyOf value) (((map.lookup (keyOf value)).map (merge · value)).getD value)

/-- The maps hold the same values. -/
def SameValues (map other : NameMap κ β) : Prop := ∀ key, map.lookup key = other.lookup key

@[simp] theorem lookup_retain (keep : κ → β → Bool) :
    (map.retain keep).lookup key = (map.lookup key).filter (keep key) := by
  ext value
  have hentry := AList.mem_lookup_iff (a := key) (b := value) (s := map)
  have hkept := AList.mem_lookup_iff (a := key) (b := value) (s := map.retain keep)
  rw [Option.mem_def] at hentry hkept
  rw [hkept, Option.filter_eq_some_iff, hentry]
  simp [retain]

@[simp] theorem lookup_mapEntries (rewrite : κ → β → γ) :
    (map.mapEntries rewrite).lookup key = (map.lookup key).map (rewrite key) :=
  List.dlookup_map₂ key

theorem lookup_mergeInto (keyOf : β → κ) (merge : β → β → β) :
    (map.mergeInto keyOf merge value).lookup key =
      if keyOf value = key then mergeValue merge (map.lookup key) value else map.lookup key := by
  unfold mergeInto mergeValue
  by_cases hkey : keyOf value = key
  · rw [if_pos hkey, hkey, AList.lookup_insert]
  · rw [if_neg hkey, AList.lookup_insert_ne (Ne.symm hkey)]

/-- After many merges an entry holds what the values with its key merge to, in their order. -/
theorem lookup_foldl_mergeInto (keyOf : β → κ) (merge : β → β → β) (values : List β) :
    (values.foldl (mergeInto keyOf merge) map).lookup key =
      (values.filter (keyOf · = key)).foldl (mergeValue merge) (map.lookup key) := by
  induction values generalizing map with
  | nil => rfl
  | cons value rest ih =>
    rw [List.foldl_cons, ih, lookup_mergeInto]
    by_cases hkey : keyOf value = key
    · rw [if_pos hkey, List.filter_cons_of_pos (by simpa using hkey), List.foldl_cons]
    · rw [if_neg hkey, List.filter_cons_of_neg (by simpa using hkey)]

section mergeValue

variable {merge : β → β → β} {values : List β} {old : Option β} {entry : β} (Holds : β → Prop)

/-- What holds of every value and is kept by a merge holds of the entry. -/
theorem foldl_mergeValue_holds
    (hmerge : ∀ first second, Holds first → Holds second → Holds (merge first second))
    (hvalues : ∀ value ∈ values, Holds value) (hold : ∀ first, old = some first → Holds first)
    (hentry : values.foldl (mergeValue merge) old = some entry) : Holds entry := by
  induction values generalizing old with
  | nil => exact hold entry hentry
  | cons value rest ih =>
    have hvalue : Holds value := hvalues value List.mem_cons_self
    refine ih (fun other hother => hvalues other (List.mem_cons_of_mem value hother)) ?_ hentry
    intro merged hmerged
    cases old with
    | none =>
      have hsame : value = merged := Option.some.inj hmerged
      rw [← hsame]
      exact hvalue
    | some first =>
      have hsame : merge first value = merged := Option.some.inj hmerged
      rw [← hsame]
      exact hmerge first value (hold first rfl) hvalue

/-- What a merge takes over from the older side still holds after many merges. -/
theorem foldl_mergeValue_kept (hmerge : ∀ first second, Holds first → Holds (merge first second))
    {first : β} (hfirst : Holds first)
    (hentry : values.foldl (mergeValue merge) (some first) = some entry) :
    Holds entry := by
  induction values generalizing first with
  | nil =>
    have hsame : first = entry := Option.some.inj hentry
    rw [← hsame]
    exact hfirst
  | cons value rest ih => exact ih (hmerge first value hfirst) hentry

/-- What a merge takes over from either side holds of the entry once it holds of one value. -/
theorem foldl_mergeValue_of_mem
    (hmerge : ∀ first second, Holds first ∨ Holds second → Holds (merge first second)) {value : β}
    (hmem : value ∈ values) (hvalue : Holds value)
    (hentry : values.foldl (mergeValue merge) old = some entry) : Holds entry := by
  have hkeep : ∀ first second, Holds first → Holds (merge first second) :=
    fun first second hfirst => hmerge first second (.inl hfirst)
  induction values generalizing old with
  | nil => cases hmem
  | cons other rest ih =>
    rw [List.foldl_cons] at hentry
    rcases List.mem_cons.mp hmem with hhere | hrest
    · subst hhere
      cases old with
      | none => exact foldl_mergeValue_kept Holds hkeep hvalue hentry
      | some first =>
        have hmerged : Holds (merge first value) := hmerge first value (.inr hvalue)
        exact foldl_mergeValue_kept Holds hkeep hmerged hentry
    · exact ih hrest hentry

/-- An entry is there once a value was merged into it. -/
theorem exists_foldl_mergeValue (first : β) :
    ∃ entry, values.foldl (mergeValue merge) (some first) = some entry := by
  induction values generalizing first with
  | nil => exact ⟨first, rfl⟩
  | cons value rest ih => exact ih (merge first value)

end mergeValue

/-- A value that is merged into a map leaves an entry with its key. -/
theorem exists_lookup_foldl_mergeInto {keyOf : β → κ} {merge : β → β → β} {values : List β}
    (hvalue : value ∈ values) :
    ∃ entry, (values.foldl (mergeInto keyOf merge) map).lookup (keyOf value) = some entry := by
  rw [lookup_foldl_mergeInto]
  have hmem : value ∈ values.filter (keyOf · = keyOf value) := by
    simpa using hvalue
  cases hvalues : values.filter (keyOf · = keyOf value) with
  | nil =>
    rw [hvalues] at hmem
    cases hmem
  | cons first rest => exact exists_foldl_mergeValue _

/-- Under a key there is only what the key belongs to. -/
theorem keyOf_eq_of_lookup_foldl {keyOf : β → κ} {merge : β → β → β}
    (hmerge : ∀ first second, keyOf (merge first second) = keyOf first) {values : List β}
    (hlookup : (values.foldl (mergeInto keyOf merge) ∅).lookup key = some value) :
    keyOf value = key := by
  rw [lookup_foldl_mergeInto] at hlookup
  refine foldl_mergeValue_holds (fun entry => keyOf entry = key) ?_ ?_ ?_ hlookup
  · intro first second hfirst _
    rw [hmerge]
    exact hfirst
  · intro other hother
    simpa using List.of_mem_filter hother
  · intro first hfirst
    cases hfirst

/-- The entries of the first map come first. -/
@[simp] theorem lookup_union : (map ∪ other).lookup key = (map.lookup key).or (other.lookup key) := by
  by_cases hkey : key ∈ map
  · obtain ⟨value, hvalue⟩ := Option.isSome_iff_exists.mp (AList.lookup_isSome.mpr hkey)
    rw [AList.lookup_union_left hkey, hvalue, Option.some_or]
  · rw [AList.lookup_union_right hkey, AList.lookup_eq_none.mpr hkey, Option.none_or]

theorem mem_iff_lookup : key ∈ map ↔ ∃ value, map.lookup key = some value := by
  rw [← AList.lookup_isSome, Option.isSome_iff_exists]

/-- The values of a map are what its keys lead to. -/
theorem mem_values_iff : value ∈ map.entries.map (·.2) ↔ ∃ key, map.lookup key = some value := by
  rw [List.mem_map]
  constructor
  · rintro ⟨entry, hentry, hvalue⟩
    have hlookup : entry.2 ∈ map.lookup entry.1 := AList.mem_lookup_iff.mpr hentry
    rw [hvalue] at hlookup
    exact ⟨entry.1, hlookup⟩
  · rintro ⟨key, hlookup⟩
    exact ⟨⟨key, value⟩, AList.mem_lookup_iff.mp hlookup, rfl⟩

theorem mem_retain {keep : κ → β → Bool} :
    key ∈ map.retain keep ↔ ∃ value, map.lookup key = some value ∧ keep key value = true := by
  rw [mem_iff_lookup]
  simp [Option.filter_eq_some_iff]

theorem mem_mapEntries {rewrite : κ → β → γ} : key ∈ map.mapEntries rewrite ↔ key ∈ map := by
  rw [← AList.lookup_isSome, ← AList.lookup_isSome, lookup_mapEntries, Option.isSome_map]

theorem isEmpty_iff : map.isEmpty = true ↔ ∀ key, map.lookup key = none := by
  unfold isEmpty
  constructor
  · intro hempty key
    rw [List.isEmpty_iff] at hempty
    rw [AList.lookup, hempty]
    rfl
  · intro hnone
    cases hentries : map.entries with
    | nil => rfl
    | cons entry rest =>
      have hfirst : map.lookup entry.1 = some entry.2 := by
        rw [AList.lookup, hentries]
        exact List.dlookup_cons_eq rest entry.1 entry.2
      rw [hnone] at hfirst
      cases hfirst

end NameMap

end Awman
