import Awman.Library.SortedMaps
import Mathlib.Data.Char
import Mathlib.Data.List.Induction
import Mathlib.Data.List.Lex
import Mathlib.Data.List.Nodup
import Mathlib.Data.List.Perm.Basic

/-!
# JSON documents and JSON values

A document is what a JSON text says, with the members of each object in the order of the text; a key
may come twice.  A value is what a program keeps of it: each object is a map in increasing order of its
keys, in which the last member of a key stays.  A path leads to a part of a document through keys and
indexes.
-/

namespace Awman.Json

/-- A text. -/
abbrev Text := List Char

/-- A JSON document with numbers of some type. -/
inductive Doc (ν : Type) where
  | null
  | bool (value : Bool)
  | number (value : ν)
  | string (value : Text)
  | array (items : List (Doc ν))
  | object (entries : List (Text × Doc ν))

/-! ## Members by their keys -/

section Members

variable {β γ : Type} {key : Text} {value : β} {entries others : List (Text × β)}

/-- The value of the last member with a key. -/
def lookupLast (key : Text) (entries : List (Text × β)) : Option β :=
  (entries.reverse.find? (·.1 = key)).map (·.2)

/-- The members without those that a later one replaces, in the order in which they then stand. -/
def lastEntries (entries : List (Text × β)) : List (Text × β) :=
  entries.foldl (fun kept entry => kept.filter (fun old => old.1 ≠ entry.1) ++ [entry]) []

/-- The map of some members; the last member of a key stays. -/
def collect (entries : List (Text × β)) : List (Text × β) :=
  entries.foldl (fun map entry => SortedMap.upsertEntries entry.1 (fun _ => entry.2) map) []

theorem lookupLast_concat (entry : Text × β) :
    lookupLast key (entries ++ [entry]) =
      if entry.1 = key then some entry.2 else lookupLast key entries := by
  rw [lookupLast, List.reverse_append, List.reverse_singleton, List.singleton_append,
    List.find?_cons]
  by_cases hkey : entry.1 = key
  · simp [hkey]
  · simp [hkey, lookupLast]

theorem lookupLast_map (f : Text → β → γ) :
    lookupLast key (entries.map fun entry => (entry.1, f entry.1 entry.2)) =
      (lookupLast key entries).map (f key) := by
  induction entries using List.reverseRecOn with
  | nil => rfl
  | append_singleton rest entry ih =>
    rw [List.map_append, List.map_singleton, lookupLast_concat, lookupLast_concat]
    by_cases hkey : entry.1 = key
    · rw [if_pos hkey, if_pos hkey, hkey]
      rfl
    · rw [if_neg hkey, if_neg hkey]
      exact ih

theorem mem_of_lookupLast (h : lookupLast key entries = some value) : (key, value) ∈ entries := by
  obtain ⟨entry, hfound, rfl⟩ := Option.map_eq_some_iff.mp h
  have hmem := List.mem_reverse.mp (List.mem_of_find?_eq_some hfound)
  have hkey := List.find?_some hfound
  rw [decide_eq_true_eq] at hkey
  rw [← hkey]
  exact hmem

theorem lookupLast_isSome_iff :
    (lookupLast key entries).isSome = true ↔ key ∈ entries.map Prod.fst := by
  rw [lookupLast, Option.isSome_map, List.find?_isSome, List.mem_map]
  simp

/-- Where no key comes twice, a member is found by its key. -/
theorem lookupLast_eq_some_iff (hnodup : (entries.map Prod.fst).Nodup) :
    lookupLast key entries = some value ↔ (key, value) ∈ entries := by
  constructor
  · exact mem_of_lookupLast
  · intro hmem
    have hsome : (lookupLast key entries).isSome = true :=
      lookupLast_isSome_iff.mpr (List.mem_map_of_mem hmem)
    obtain ⟨found, hfound⟩ := Option.isSome_iff_exists.mp hsome
    have hsame := List.inj_on_of_nodup_map hnodup (mem_of_lookupLast hfound) hmem rfl
    rw [hfound, (Prod.mk.inj hsame).2]

/-- Where no key comes twice, the first member of a key is the last one. -/
theorem find?_eq_lookupLast (hnodup : (entries.map Prod.fst).Nodup) (key : Text) :
    (entries.find? (·.1 = key)).map (·.2) = lookupLast key entries := by
  ext value
  rw [lookupLast_eq_some_iff hnodup]
  constructor
  · intro hfound
    obtain ⟨entry, hentry, rfl⟩ := Option.map_eq_some_iff.mp hfound
    have hkey := List.find?_some hentry
    rw [decide_eq_true_eq] at hkey
    rw [← hkey]
    exact List.mem_of_find?_eq_some hentry
  · intro hmem
    have hsome : (entries.find? (·.1 = key)).isSome = true :=
      List.find?_isSome.mpr ⟨_, hmem, by simp⟩
    obtain ⟨found, hfound⟩ := Option.isSome_iff_exists.mp hsome
    have hkey := List.find?_some hfound
    rw [decide_eq_true_eq] at hkey
    have hsame := List.inj_on_of_nodup_map hnodup (List.mem_of_find?_eq_some hfound) hmem hkey
    rw [hfound, hsame]
    rfl

/-! ### The members that stay -/

theorem lastEntries_concat (entry : Text × β) :
    lastEntries (entries ++ [entry]) =
      (lastEntries entries).filter (fun old => old.1 ≠ entry.1) ++ [entry] := by
  rw [lastEntries, List.foldl_append]
  rfl

theorem lastEntries_nodup (entries : List (Text × β)) : ((lastEntries entries).map Prod.fst).Nodup := by
  induction entries using List.reverseRecOn with
  | nil => exact List.nodup_nil
  | append_singleton rest entry ih =>
    rw [lastEntries_concat, List.map_append, List.map_singleton]
    apply (ih.sublist (List.filter_sublist.map Prod.fst)).append (List.nodup_singleton _)
    intro key hkey hsame
    obtain ⟨old, hold, rfl⟩ := List.mem_map.mp hkey
    rw [List.mem_singleton] at hsame
    exact of_decide_eq_true (List.mem_filter.mp hold).2 hsame

theorem mem_lastEntries_iff :
    (key, value) ∈ lastEntries entries ↔ lookupLast key entries = some value := by
  induction entries using List.reverseRecOn with
  | nil => simp [lastEntries, lookupLast]
  | append_singleton rest entry ih =>
    rw [lastEntries_concat, lookupLast_concat, List.mem_append, List.mem_singleton, List.mem_filter,
      ih]
    by_cases hkey : entry.1 = key
    · rw [if_pos hkey, ← hkey]
      constructor
      · rintro (⟨-, hnot⟩ | hsame)
        · simp at hnot
        · rw [← hsame]
      · intro hvalue
        rw [← Option.some.inj hvalue]
        exact Or.inr rfl
    · rw [if_neg hkey]
      constructor
      · rintro (⟨hfound, -⟩ | hsame)
        · exact hfound
        · exact absurd (congrArg Prod.fst hsame).symm hkey
      · intro hfound
        exact Or.inl ⟨hfound, by simpa using Ne.symm hkey⟩

theorem lookupLast_lastEntries : lookupLast key (lastEntries entries) = lookupLast key entries := by
  ext value
  rw [lookupLast_eq_some_iff (lastEntries_nodup entries), mem_lastEntries_iff]

theorem mem_keys_lastEntries :
    key ∈ (lastEntries entries).map Prod.fst ↔ key ∈ entries.map Prod.fst := by
  rw [← lookupLast_isSome_iff, ← lookupLast_isSome_iff, lookupLast_lastEntries]

theorem lastEntries_map (f : Text → β → γ) :
    lastEntries (entries.map fun entry => (entry.1, f entry.1 entry.2)) =
      (lastEntries entries).map fun entry => (entry.1, f entry.1 entry.2) := by
  induction entries using List.reverseRecOn with
  | nil => rfl
  | append_singleton rest entry ih =>
    rw [List.map_append, List.map_singleton, lastEntries_concat, lastEntries_concat, ih,
      List.map_append, List.map_singleton, List.filter_map]
    rfl

/-! ### The map of some members -/

theorem collect_concat (entry : Text × β) :
    collect (entries ++ [entry]) =
      SortedMap.upsertEntries entry.1 (fun _ => entry.2) (collect entries) := by
  rw [collect, List.foldl_append]
  rfl

theorem collect_increasing (entries : List (Text × β)) :
    ((collect entries).map Prod.fst).Pairwise (· < ·) := by
  induction entries using List.reverseRecOn with
  | nil => exact List.Pairwise.nil
  | append_singleton rest entry ih =>
    rw [collect_concat]
    exact SortedMap.upsertEntries_increasing entry.1 _ ih

theorem nodup_of_increasing (h : (entries.map Prod.fst).Pairwise (· < ·)) :
    (entries.map Prod.fst).Nodup := h.imp fun hless => ne_of_lt hless

/-- Two maps with the same members are the same. -/
theorem eq_of_increasing (hentries : (entries.map Prod.fst).Pairwise (· < ·))
    (hothers : (others.map Prod.fst).Pairwise (· < ·))
    (hsame : ∀ key, lookupLast key entries = lookupLast key others) : entries = others := by
  have hperm : entries.Perm others := by
    refine (List.perm_ext_iff_of_nodup (nodup_of_increasing hentries).of_map
      (nodup_of_increasing hothers).of_map).mpr ?_
    rintro ⟨key, value⟩
    rw [← lookupLast_eq_some_iff (nodup_of_increasing hentries),
      ← lookupLast_eq_some_iff (nodup_of_increasing hothers), hsame]
  rw [List.pairwise_map] at hentries hothers
  refine hperm.eq_of_pairwise ?_ hentries hothers
  intro first second _ _ hless hgreater
  exact absurd hless (lt_asymm hgreater)

section

variable (h : (entries.map Prod.fst).Pairwise (· < ·))
include h

/-- The value of a key after an entry was put into a map. -/
theorem mem_upsertEntries_iff {new : Text × β} {entry : Text × β} :
    entry ∈ SortedMap.upsertEntries new.1 (fun _ => new.2) entries ↔
      entry = new ∨ entry ∈ entries ∧ entry.1 ≠ new.1 := by
  induction entries with
  | nil => simp [SortedMap.upsertEntries]
  | cons first rest ih =>
    obtain ⟨hfirst, hrest⟩ := List.pairwise_cons.mp h
    have hlater : ∀ other ∈ rest, first.1 < other.1 := fun other hother =>
      hfirst other.1 (List.mem_map_of_mem hother)
    rw [SortedMap.upsertEntries]
    split_ifs with hless hequal
    · rw [List.mem_cons]
      constructor
      · rintro (hnew | hold)
        · exact Or.inl hnew
        · refine Or.inr ⟨hold, ?_⟩
          rcases List.mem_cons.mp hold with rfl | hmem
          · exact ne_of_gt hless
          · exact ne_of_gt (hless.trans (hlater entry hmem))
      · rintro (hnew | ⟨hold, -⟩)
        · exact Or.inl hnew
        · exact Or.inr hold
    · rw [List.mem_cons, List.mem_cons]
      constructor
      · rintro (hnew | hmem)
        · exact Or.inl (hnew.trans (by rw [← hequal]))
        · exact Or.inr ⟨Or.inr hmem, by rw [hequal]; exact ne_of_gt (hlater entry hmem)⟩
      · rintro (hnew | ⟨rfl | hmem, hne⟩)
        · exact Or.inl (hnew.trans (by rw [← hequal]))
        · exact absurd hequal.symm hne
        · exact Or.inr hmem
    · rw [List.mem_cons, ih hrest, List.mem_cons]
      constructor
      · rintro (rfl | hnew | ⟨hmem, hne⟩)
        · exact Or.inr ⟨Or.inl rfl, Ne.symm hequal⟩
        · exact Or.inl hnew
        · exact Or.inr ⟨Or.inr hmem, hne⟩
      · rintro (hnew | ⟨rfl | hmem, hne⟩)
        · exact Or.inr (Or.inl hnew)
        · exact Or.inl rfl
        · exact Or.inr (Or.inr ⟨hmem, hne⟩)

/-- What a key has after an entry was put into a map. -/
theorem lookupLast_upsertEntries (new : Text) (value : β) (key : Text) :
    lookupLast key (SortedMap.upsertEntries new (fun _ => value) entries) =
      if new = key then some value else lookupLast key entries := by
  ext found
  have hnodup := nodup_of_increasing (SortedMap.upsertEntries_increasing new (fun _ => value) h)
  rw [lookupLast_eq_some_iff hnodup]
  have hmem := @mem_upsertEntries_iff _ entries h (new, value) (key, found)
  rw [hmem]
  by_cases hkey : new = key
  · rw [if_pos hkey, ← hkey]
    constructor
    · rintro (hnew | ⟨-, hne⟩)
      · rw [(Prod.mk.inj hnew).2]
      · exact absurd rfl hne
    · intro hvalue
      rw [← Option.some.inj hvalue]
      exact Or.inl rfl
  · rw [if_neg hkey, lookupLast_eq_some_iff (nodup_of_increasing h)]
    constructor
    · rintro (hnew | ⟨hold, -⟩)
      · exact absurd (congrArg Prod.fst hnew).symm hkey
      · exact hold
    · intro hold
      exact Or.inr ⟨hold, Ne.symm hkey⟩

/-- Of two entries put into a map under one key the second stays. -/
theorem upsertEntries_upsertEntries (key : Text) (first second : β) :
    SortedMap.upsertEntries key (fun _ => second)
        (SortedMap.upsertEntries key (fun _ => first) entries) =
      SortedMap.upsertEntries key (fun _ => second) entries := by
  have hfirst := SortedMap.upsertEntries_increasing key (fun _ => first) h
  refine eq_of_increasing (SortedMap.upsertEntries_increasing key _ hfirst)
    (SortedMap.upsertEntries_increasing key _ h) fun other => ?_
  rw [lookupLast_upsertEntries hfirst, lookupLast_upsertEntries h, lookupLast_upsertEntries h]
  by_cases hkey : key = other
  · rw [if_pos hkey, if_pos hkey]
  · rw [if_neg hkey, if_neg hkey, if_neg hkey]

end

theorem lookupLast_collect : lookupLast key (collect entries) = lookupLast key entries := by
  induction entries using List.reverseRecOn with
  | nil => rfl
  | append_singleton rest entry ih =>
    rw [collect_concat, lookupLast_upsertEntries (collect_increasing rest), lookupLast_concat, ih]

/-- The order of the members does not change their map when no key comes twice. -/
theorem lookupLast_of_perm (hperm : entries.Perm others) (hnodup : (entries.map Prod.fst).Nodup)
    (key : Text) : lookupLast key entries = lookupLast key others := by
  ext value
  rw [lookupLast_eq_some_iff hnodup,
    lookupLast_eq_some_iff ((hperm.map Prod.fst).nodup_iff.mp hnodup), hperm.mem_iff]

theorem collect_of_perm (hperm : entries.Perm others) (hnodup : (entries.map Prod.fst).Nodup) :
    collect entries = collect others := by
  refine eq_of_increasing (collect_increasing _) (collect_increasing _) fun key => ?_
  rw [lookupLast_collect, lookupLast_collect, lookupLast_of_perm hperm hnodup]

/-- Members that are a map already are its map. -/
theorem collect_of_increasing (h : (entries.map Prod.fst).Pairwise (· < ·)) :
    collect entries = entries :=
  eq_of_increasing (collect_increasing entries) h fun _ => lookupLast_collect

end Members

/-! ## Documents and values -/

variable {ν : Type} {doc : Doc ν}

/-- What holds of the parts of a document and is passed on to the whole holds of it. -/
@[elab_as_elim]
theorem Doc.parts {motive : Doc ν → Prop} (null : motive .null) (bool : ∀ value, motive (.bool value))
    (number : ∀ value, motive (.number value)) (string : ∀ value, motive (.string value))
    (array : ∀ items, (∀ item ∈ items, motive item) → motive (.array items))
    (object : ∀ entries, (∀ entry ∈ entries, motive entry.2) → motive (.object entries)) (doc : Doc ν) :
    motive doc := by
  refine @Doc.rec ν motive (fun items => ∀ item ∈ items, motive item)
    (fun entries => ∀ entry ∈ entries, motive entry.2) (fun entry => motive entry.2)
    null bool number string array object ?_ ?_ ?_ ?_ ?_ doc
  · exact fun _ h => absurd h (by simp)
  · intro first rest hfirst hrest item hitem
    rcases List.mem_cons.mp hitem with rfl | hmem
    · exact hfirst
    · exact hrest item hmem
  · exact fun _ h => absurd h (by simp)
  · intro first rest hfirst hrest entry hentry
    rcases List.mem_cons.mp hentry with rfl | hmem
    · exact hfirst
    · exact hrest entry hmem
  · exact fun _ _ h => h

mutual

/-- The value that a reader keeps of a document. -/
def Doc.toValue : Doc ν → Doc ν
  | .array items => .array (valuesOf items)
  | .object entries => .object (collect (memberValues entries))
  | scalar => scalar

/-- The values of the items of an array. -/
def valuesOf : List (Doc ν) → List (Doc ν)
  | [] => []
  | item :: rest => item.toValue :: valuesOf rest

/-- The values of the members of an object. -/
def memberValues : List (Text × Doc ν) → List (Text × Doc ν)
  | [] => []
  | (key, doc) :: rest => (key, doc.toValue) :: memberValues rest

end

mutual

/-- The document without the members that a later one replaces. -/
def Doc.lastWins : Doc ν → Doc ν
  | .array items => .array (lastWinsItems items)
  | .object entries => .object (lastEntries (lastWinsMembers entries))
  | scalar => scalar

/-- The items of an array without replaced members. -/
def lastWinsItems : List (Doc ν) → List (Doc ν)
  | [] => []
  | item :: rest => item.lastWins :: lastWinsItems rest

/-- The members of an object without replaced members in them. -/
def lastWinsMembers : List (Text × Doc ν) → List (Text × Doc ν)
  | [] => []
  | (key, doc) :: rest => (key, doc.lastWins) :: lastWinsMembers rest

end

theorem valuesOf_eq (items : List (Doc ν)) : valuesOf items = items.map Doc.toValue := by
  induction items with
  | nil => rfl
  | cons item rest ih => rw [valuesOf, ih, List.map_cons]

theorem memberValues_eq (entries : List (Text × Doc ν)) :
    memberValues entries = entries.map fun entry => (entry.1, entry.2.toValue) := by
  induction entries with
  | nil => rfl
  | cons entry rest ih => rw [memberValues, ih, List.map_cons]

theorem lastWinsItems_eq (items : List (Doc ν)) : lastWinsItems items = items.map Doc.lastWins := by
  induction items with
  | nil => rfl
  | cons item rest ih => rw [lastWinsItems, ih, List.map_cons]

theorem lastWinsMembers_eq (entries : List (Text × Doc ν)) :
    lastWinsMembers entries = entries.map fun entry => (entry.1, entry.2.lastWins) := by
  induction entries with
  | nil => rfl
  | cons entry rest ih => rw [lastWinsMembers, ih, List.map_cons]

/-- Every object in the document is a map. -/
inductive Doc.IsValue : Doc ν → Prop where
  | null : IsValue .null
  | bool (value : Bool) : IsValue (.bool value)
  | number (value : ν) : IsValue (.number value)
  | string (value : Text) : IsValue (.string value)
  | array {items : List (Doc ν)} (hitems : ∀ item ∈ items, item.IsValue) : IsValue (.array items)
  | object {entries : List (Text × Doc ν)} (hkeys : (entries.map Prod.fst).Pairwise (· < ·))
      (hmembers : ∀ entry ∈ entries, entry.2.IsValue) : IsValue (.object entries)

/-- No object in the document has two members of one key. -/
inductive Doc.Distinct : Doc ν → Prop where
  | null : Distinct .null
  | bool (value : Bool) : Distinct (.bool value)
  | number (value : ν) : Distinct (.number value)
  | string (value : Text) : Distinct (.string value)
  | array {items : List (Doc ν)} (hitems : ∀ item ∈ items, item.Distinct) : Distinct (.array items)
  | object {entries : List (Text × Doc ν)} (hkeys : (entries.map Prod.fst).Nodup)
      (hmembers : ∀ entry ∈ entries, entry.2.Distinct) : Distinct (.object entries)

theorem Doc.toValue_isValue (doc : Doc ν) : doc.toValue.IsValue := by
  induction doc using Doc.parts with
  | null => exact .null
  | bool value => exact .bool value
  | number value => exact .number value
  | string value => exact .string value
  | array items ih =>
    rw [toValue, valuesOf_eq]
    refine .array fun item hitem => ?_
    obtain ⟨old, hold, rfl⟩ := List.mem_map.mp hitem
    exact ih old hold
  | object entries ih =>
    rw [toValue, memberValues_eq]
    refine .object (collect_increasing _) ?_
    rintro ⟨key, member⟩ hentry
    have hfound := (lookupLast_eq_some_iff (nodup_of_increasing (collect_increasing _))).mpr hentry
    rw [lookupLast_collect] at hfound
    obtain ⟨old, hold, hsame⟩ := List.mem_map.mp (mem_of_lookupLast hfound)
    rw [← (Prod.mk.inj hsame).2]
    exact ih old hold

/-- A value in the sense of a reader: a document whose objects are maps. -/
structure Value (ν : Type) where
  doc : Doc ν
  /-- Its objects are maps. -/
  isValue : doc.IsValue

theorem Value.ext {first second : Value ν} (h : first.doc = second.doc) : first = second := by
  cases first
  cases second
  cases h
  rfl

/-! ## Paths -/

/-- One step into a document. -/
inductive Step where
  | key (key : Text)
  | index (index : Nat)

/-- The part of a document one step away; of the members of a key it is the last one. -/
def Doc.child : Step → Doc ν → Option (Doc ν)
  | .key key, .object entries => lookupLast key entries
  | .index index, .array items => items[index]?
  | _, _ => none

/-- The part of a document at the end of a path. -/
def Doc.at (doc : Doc ν) : List Step → Option (Doc ν)
  | [] => some doc
  | step :: path => (doc.child step).bind fun child => child.at path

/-- The parts of a value are values. -/
theorem Doc.IsValue.child {part : Doc ν} {step : Step} (h : doc.IsValue)
    (hpart : doc.child step = some part) : part.IsValue := by
  cases h with
  | null | bool | number | string => cases step <;> cases hpart
  | array hitems =>
    cases step with
    | key key => cases hpart
    | index index => exact hitems part (List.mem_of_getElem? hpart)
  | object hkeys hmembers =>
    cases step with
    | index index => cases hpart
    | key key => exact hmembers (key, part) (mem_of_lookupLast hpart)

end Awman.Json
