import Awman.Library.TextCuts
import Awman.Library.JsonTrees
import Mathlib.Data.List.Perm.Lattice

/-!
# Rewriting a configuration file in its own key order

A migration edits the value of a file and writes it back with the keys of each object in the order of
the file.  Keys of the file keep their places, new keys take the place of the first key that is gone, or
come last.  What is written holds the edited value, and an unedited file keeps its order at every depth.
-/

namespace Awman.Config

open Awman.Json

variable {ν : Type}

/-- The key order of one parsed JSON value. -/
inductive KeyOrder where
  | mk (keys : List (Text × KeyOrder)) (items : List KeyOrder)

namespace KeyOrder

/-- The keys in their order, each with the order of its value. -/
def keys : KeyOrder → List (Text × KeyOrder)
  | .mk keys _ => keys

/-- The orders of the items. -/
def items : KeyOrder → List KeyOrder
  | .mk _ items => items

/-- The order of a value without keys and items. -/
def default : KeyOrder := .mk [] []

/-- The order below a key. -/
def child (order : KeyOrder) (key : Text) : Option KeyOrder :=
  (order.keys.find? (·.1 = key)).map (·.2)

end KeyOrder

/-- Adds a key that was read; of two members with one key the last one wins. -/
def visitEntry (keys : List (Text × KeyOrder)) (entry : Text × KeyOrder) : List (Text × KeyOrder) :=
  keys.filter (fun old => old.1 ≠ entry.1) ++ [entry]

mutual

/-- The order of a document. -/
def keyOrder : Doc ν → KeyOrder
  | .array items => .mk [] (itemOrders items)
  | .object entries => .mk ((memberOrders entries).foldl visitEntry []) []
  | _ => .default

/-- The orders of the items of an array. -/
def itemOrders : List (Doc ν) → List KeyOrder
  | [] => []
  | item :: rest => keyOrder item :: itemOrders rest

/-- The orders of the members of an object. -/
def memberOrders : List (Text × Doc ν) → List (Text × KeyOrder)
  | [] => []
  | (key, doc) :: rest => (key, keyOrder doc) :: memberOrders rest

end

/-- The text form of JSON documents: what is written for one and what a text is read as. -/
structure JsonText (ν : Type) where
  write : Doc ν → Text
  /-- The document that a text says, when it says one. -/
  read : Text → Option (Doc ν)

/-- The document is read from its text. -/
def JsonText.ReadsBack (json : JsonText ν) (doc : Doc ν) : Prop := json.read (json.write doc) = some doc

/-- The value of a text. -/
def JsonText.parse (json : JsonText ν) (content : Text) : Option (Value ν) :=
  (json.read content).map fun doc => ⟨doc.toValue, doc.toValue_isValue⟩

/-- The order of the keys of a text, or none when it does not parse. -/
def KeyOrder.of (json : JsonText ν) (content : Text) : KeyOrder :=
  ((json.read content).map keyOrder).getD .default

/-- A key of the original is pushed when it is present; otherwise the added keys take its place. -/
def placeKey (present : List Text) (state : List Text × List Text) (original : Text × KeyOrder) :
    List Text × List Text :=
  if original.1 ∈ present then (state.1 ++ [original.1], state.2) else (state.1 ++ state.2, [])

/-- The keys of an object in the order in which they are written. -/
def orderedKeys (order : Option KeyOrder) (present : List Text) : List Text :=
  let original := order.elim [] KeyOrder.keys
  let added := present.filter fun key => !original.any (·.1 = key)
  let placed := original.foldl (placeKey present) ([], added)
  placed.1 ++ placed.2

mutual

/-- The document that is written for a value in an order. -/
def ordered : Doc ν → Option KeyOrder → Doc ν
  | .object map, order =>
    .object ((orderedKeys order (map.map Prod.fst)).filterMap fun key =>
      (lookupLast key (orderedMembers map order)).map fun doc => (key, doc))
  | .array items, order => .array (orderedItems items 0 order)
  | scalar, _ => scalar

/-- The items of an array from an index on, each in its order. -/
def orderedItems : List (Doc ν) → Nat → Option KeyOrder → List (Doc ν)
  | [], _, _ => []
  | item :: rest, index, order =>
    ordered item (order.bind fun order => order.items[index]?) :: orderedItems rest (index + 1) order

/-- The members of an object, each in its order. -/
def orderedMembers : List (Text × Doc ν) → Option KeyOrder → List (Text × Doc ν)
  | [], _ => []
  | (key, value) :: rest, order =>
    (key, ordered value (order.bind fun order => order.child key)) :: orderedMembers rest order

end

/-! ## The orders of the parts -/

theorem memberOrders_eq (entries : List (Text × Doc ν)) :
    memberOrders entries = entries.map fun entry => (entry.1, keyOrder entry.2) := by
  induction entries with
  | nil => rfl
  | cons entry rest ih => rw [memberOrders, ih, List.map_cons]

theorem itemOrders_eq (items : List (Doc ν)) : itemOrders items = items.map keyOrder := by
  induction items with
  | nil => rfl
  | cons item rest ih => rw [itemOrders, ih, List.map_cons]

theorem orderedMembers_eq (entries : List (Text × Doc ν)) (order : Option KeyOrder) :
    orderedMembers entries order = entries.map fun entry =>
      (entry.1, ordered entry.2 (order.bind fun order => order.child entry.1)) := by
  induction entries with
  | nil => rfl
  | cons entry rest ih => rw [orderedMembers, ih, List.map_cons]

theorem getElem?_orderedItems (items : List (Doc ν)) (start index : Nat) (order : Option KeyOrder) :
    (orderedItems items start order)[index]? = items[index]?.map fun item =>
      ordered item (order.bind fun order => order.items[start + index]?) := by
  induction items generalizing start index with
  | nil => rfl
  | cons item rest ih =>
    rw [orderedItems]
    cases index with
    | zero => rfl
    | succ index =>
      rw [List.getElem?_cons_succ, List.getElem?_cons_succ, ih, Nat.add_right_comm, Nat.add_assoc]

theorem keys_keyOrder (entries : List (Text × Doc ν)) :
    (keyOrder (.object entries)).keys =
      (lastEntries entries).map fun entry => (entry.1, keyOrder entry.2) := by
  have hread : (memberOrders entries).foldl visitEntry [] = lastEntries (memberOrders entries) := rfl
  rw [keyOrder, KeyOrder.keys, hread, memberOrders_eq, lastEntries_map fun _ doc => keyOrder doc]

/-- The keys that a document orders. -/
def keyNames : Option (Doc ν) → List Text
  | some (.object entries) => (lastEntries entries).map Prod.fst
  | _ => []

section

variable (original : Option (Doc ν))

theorem keyNames_nodup : (keyNames original).Nodup := by
  unfold keyNames
  split
  · exact lastEntries_nodup _
  · exact List.nodup_nil

theorem keys_names :
    ((original.map keyOrder).elim [] KeyOrder.keys).map Prod.fst = keyNames original := by
  cases original with
  | none => rfl
  | some doc =>
    cases doc with
    | null | bool | number | string | array => rfl
    | object entries =>
      rw [Option.map_some, Option.elim_some, keys_keyOrder, List.map_map]
      rfl

/-- The order below a key is that of the value below it. -/
theorem child_keyOrder (key : Text) :
    ((original.map keyOrder).bind fun order => order.child key) =
      (original.bind (Doc.child (.key key))).map keyOrder := by
  cases original with
  | none => rfl
  | some doc =>
    cases doc with
    | null | bool | number | string | array => rfl
    | object entries =>
      have hkeys : ((keyOrder (.object entries)).keys.map Prod.fst).Nodup := by
        rw [keys_keyOrder, List.map_map]
        exact lastEntries_nodup entries
      rw [Option.map_some, Option.bind_some, Option.bind_some, KeyOrder.child,
        find?_eq_lookupLast hkeys, keys_keyOrder, lookupLast_map fun _ doc => keyOrder doc,
        lookupLast_lastEntries]
      rfl

theorem item_keyOrder (index : Nat) :
    ((original.map keyOrder).bind fun order => order.items[index]?) =
      (original.bind (Doc.child (.index index))).map keyOrder := by
  cases original with
  | none => rfl
  | some doc =>
    cases doc with
    | null | bool | number | string | object => rfl
    | array items =>
      rw [Option.map_some, Option.bind_some, keyOrder, KeyOrder.items, itemOrders_eq,
        List.getElem?_map]
      rfl

end

/-! ## The keys of one object -/

/-- The keys that remain to be placed: those of the original, with the added ones in the first gap. -/
def placeRest (present : List Text) : List Text → List Text → List Text
  | [], added => added
  | name :: rest, added =>
    if name ∈ present then name :: placeRest present rest added
    else added ++ placeRest present rest []

theorem placeKey_foldl (present : List Text) (original : List (Text × KeyOrder))
    (keys added : List Text) :
    (original.foldl (placeKey present) (keys, added)).1 ++
        (original.foldl (placeKey present) (keys, added)).2 =
      keys ++ placeRest present (original.map Prod.fst) added := by
  induction original generalizing keys added with
  | nil => rfl
  | cons first rest ih =>
    rw [List.foldl_cons, List.map_cons, placeRest, placeKey]
    by_cases hpresent : first.1 ∈ present
    · rw [if_pos hpresent, if_pos hpresent, ih, List.append_assoc, List.singleton_append]
    · rw [if_neg hpresent, if_neg hpresent, ih, List.append_assoc]

theorem orderedKeys_eq (original : Option (Doc ν)) (present : List Text) :
    orderedKeys (original.map keyOrder) present =
      placeRest present (keyNames original) (present.filter (· ∉ keyNames original)) := by
  have hadded : ∀ key, (!((original.map keyOrder).elim [] KeyOrder.keys).any (·.1 = key)) =
      decide (key ∉ keyNames original) := by
    intro key
    rw [← keys_names, Bool.eq_iff_iff]
    simp only [Bool.not_eq_true', List.any_eq_false, decide_eq_true_eq, List.mem_map, not_exists,
      not_and]
  rw [orderedKeys]
  simp only [hadded]
  rw [placeKey_foldl, keys_names, List.nil_append]

variable {present names added known : List Text}

/-- The placed keys are the original ones that are present and the added ones. -/
theorem placeRest_perm (present names added : List Text) :
    (placeRest present names added).Perm (names.filter (· ∈ present) ++ added) := by
  induction names generalizing added with
  | nil => exact List.Perm.refl _
  | cons name rest ih =>
    rw [placeRest, List.filter_cons]
    by_cases hpresent : name ∈ present
    · rw [if_pos hpresent, if_pos (decide_eq_true hpresent), List.cons_append]
      exact (ih added).cons name
    · rw [if_neg hpresent, if_neg (by simpa using hpresent)]
      have hrest := ih []
      rw [List.append_nil] at hrest
      exact (hrest.append_left added).trans List.perm_append_comm

/-- Among the placed keys the original ones stand in their order. -/
theorem placeRest_filter (hnames : ∀ name ∈ names, name ∈ known) (hadded : ∀ key ∈ added, key ∉ known) :
    (placeRest present names added).filter (· ∈ known) = names.filter (· ∈ present) := by
  have hnone : added.filter (· ∈ known) = [] :=
    List.filter_eq_nil_iff.mpr fun key hkey => by simpa using hadded key hkey
  induction names generalizing added with
  | nil => exact hnone
  | cons name rest ih =>
    have hrest : ∀ name ∈ rest, name ∈ known := fun other hother =>
      hnames other (List.mem_cons_of_mem _ hother)
    have hname : name ∈ known := hnames name List.mem_cons_self
    rw [placeRest, List.filter_cons]
    by_cases hpresent : name ∈ present
    · rw [if_pos hpresent, if_pos (decide_eq_true hpresent), List.filter_cons,
        if_pos (decide_eq_true hname), ih hrest hadded hnone]
    · rw [if_neg hpresent, if_neg (by simpa using hpresent), List.filter_append, hnone,
        List.nil_append]
      exact ih hrest (by simp) rfl

/-- When every original key is present and none is added, the keys stay as they are. -/
theorem placeRest_of_present (hpresent : ∀ name ∈ names, name ∈ present) :
    placeRest present names [] = names := by
  induction names with
  | nil => rfl
  | cons name rest ih =>
    rw [placeRest, if_pos (hpresent name List.mem_cons_self),
      ih fun other hother => hpresent other (List.mem_cons_of_mem _ hother)]

/-- No key is lost and none comes twice. -/
theorem orderedKeys_perm (original : Option (Doc ν)) (hpresent : present.Nodup) :
    (orderedKeys (original.map keyOrder) present).Perm present := by
  rw [orderedKeys_eq]
  apply (placeRest_perm _ _ _).trans
  have hkept : ((keyNames original).filter (· ∈ present)).Perm
      (present.filter (· ∈ keyNames original)) := by
    refine (List.perm_ext_iff_of_nodup ((keyNames_nodup original).filter _)
      (hpresent.filter _)).mpr fun key => ?_
    simp [and_comm]
  apply (hkept.append_right _).trans
  have hsplit := List.filter_append_perm (fun key => decide (key ∈ keyNames original)) present
  simpa using hsplit

/-- Keys of the original stand in their order. -/
theorem orderedKeys_filter (original : Option (Doc ν)) (present : List Text) :
    (orderedKeys (original.map keyOrder) present).filter (· ∈ keyNames original) =
      (keyNames original).filter (· ∈ present) := by
  rw [orderedKeys_eq]
  refine placeRest_filter (fun _ h => h) fun key hkey => ?_
  simpa using (List.mem_filter.mp hkey).2

theorem orderedKeys_unedited (original : Option (Doc ν))
    (hsame : ∀ key, key ∈ present ↔ key ∈ keyNames original) :
    orderedKeys (original.map keyOrder) present = keyNames original := by
  have hadded : present.filter (· ∉ keyNames original) = [] :=
    List.filter_eq_nil_iff.mpr fun key hkey => by simpa using (hsame key).mp hkey
  rw [orderedKeys_eq, hadded, placeRest_of_present fun name hname => (hsame name).mpr hname]

/-! ## What is written -/

variable {value : Doc ν} {original : Option (Doc ν)}

/-- The members that are written for a map, in the order of the map. -/
def writtenMembers (original : Option (Doc ν)) (map : List (Text × Doc ν)) : List (Text × Doc ν) :=
  map.map fun entry =>
    (entry.1, ordered entry.2 ((original.bind (Doc.child (.key entry.1))).map keyOrder))

theorem writtenMembers_keys (original : Option (Doc ν)) (map : List (Text × Doc ν)) :
    (writtenMembers original map).map Prod.fst = map.map Prod.fst := by
  rw [writtenMembers, List.map_map]
  rfl

/-- The members of a list of keys, in the order of the list. -/
def membersFor (keys : List Text) (members : List (Text × Doc ν)) : List (Text × Doc ν) :=
  keys.filterMap fun key => (lookupLast key members).map fun doc => (key, doc)

theorem ordered_object (original : Option (Doc ν)) (map : List (Text × Doc ν)) :
    ordered (.object map) (original.map keyOrder) =
      .object (membersFor (orderedKeys (original.map keyOrder) (map.map Prod.fst))
        (writtenMembers original map)) := by
  rw [ordered, membersFor, orderedMembers_eq, writtenMembers]
  simp only [child_keyOrder]

theorem ordered_array (original : Option (Doc ν)) (items : List (Doc ν)) :
    ∃ writtens : List (Doc ν), ordered (.array items) (original.map keyOrder) = .array writtens ∧
      ∀ index : Nat, writtens[index]? = items[index]?.map fun item =>
        ordered item ((original.bind (Doc.child (.index index))).map keyOrder) := by
  refine ⟨orderedItems items 0 (original.map keyOrder), rfl, fun index => ?_⟩
  rw [getElem?_orderedItems, Nat.zero_add, item_keyOrder]

variable {members : List (Text × Doc ν)}

theorem membersFor_keys {keys : List Text} (hkeys : ∀ key ∈ keys, key ∈ members.map Prod.fst) :
    (membersFor keys members).map Prod.fst = keys := by
  induction keys with
  | nil => rfl
  | cons key rest ih =>
    have hsome := lookupLast_isSome_iff.mpr (hkeys key List.mem_cons_self)
    obtain ⟨doc, hdoc⟩ := Option.isSome_iff_exists.mp hsome
    have hrest := ih fun other hother => hkeys other (List.mem_cons_of_mem _ hother)
    rw [membersFor, List.filterMap_cons, hdoc, Option.map_some, List.map_cons]
    rw [membersFor] at hrest
    rw [hrest]

/-- All members, picked by their keys, are the members. -/
theorem membersFor_self (hnodup : (members.map Prod.fst).Nodup) :
    membersFor (members.map Prod.fst) members = members := by
  rw [membersFor, List.filterMap_map]
  refine (List.filterMap_congr fun entry hentry => ?_).trans (List.filterMap_some)
  have hfound := (lookupLast_eq_some_iff hnodup).mpr hentry
  rw [Function.comp_apply, hfound]
  rfl

theorem membersFor_perm {keys : List Text} (hnodup : (members.map Prod.fst).Nodup)
    (hkeys : keys.Perm (members.map Prod.fst)) :
    (membersFor keys members).Perm members := by
  have hsame := hkeys.filterMap fun key => (lookupLast key members).map fun doc => (key, doc)
  have hself := membersFor_self hnodup
  rw [membersFor] at hself
  rw [hself] at hsame
  exact hsame

/-- The members of an object are written once each, in another order. -/
theorem ordered_object_perm {map : List (Text × Doc ν)} (original : Option (Doc ν))
    (hnodup : (map.map Prod.fst).Nodup) :
    ∃ writtens : List (Text × Doc ν),
      ordered (.object map) (original.map keyOrder) = .object writtens ∧
        writtens.Perm (writtenMembers original map) ∧
          writtens.map Prod.fst = orderedKeys (original.map keyOrder) (map.map Prod.fst) := by
  have hkeys := orderedKeys_perm original hnodup
  rw [← writtenMembers_keys original] at hkeys hnodup
  rw [← writtenMembers_keys original]
  refine ⟨_, ?_, membersFor_perm hnodup hkeys, membersFor_keys fun key hkey => ?_⟩
  · rw [writtenMembers_keys, ordered_object]
  · exact hkeys.mem_iff.mp hkey

/-- What is written holds the value: no key is lost, comes twice or changes. -/
theorem ordered_toValue (hvalue : value.IsValue) (original : Option (Doc ν)) :
    (ordered value (original.map keyOrder)).Distinct ∧
      (ordered value (original.map keyOrder)).toValue = value := by
  induction value using Doc.parts generalizing original with
  | null => exact ⟨.null, rfl⟩
  | bool value => exact ⟨.bool value, rfl⟩
  | number value => exact ⟨.number value, rfl⟩
  | string value => exact ⟨.string value, rfl⟩
  | array items ih =>
    cases hvalue with
    | array hitems =>
      obtain ⟨writtens, heq, hwrittens⟩ := ordered_array original items
      rw [heq, Doc.toValue, valuesOf_eq]
      constructor
      · refine .array fun written hwritten => ?_
        obtain ⟨index, hindex⟩ := List.mem_iff_getElem?.mp hwritten
        rw [hwrittens] at hindex
        obtain ⟨item, hitem, rfl⟩ := Option.map_eq_some_iff.mp hindex
        have hmem := List.mem_of_getElem? hitem
        exact (ih item hmem (hitems item hmem) _).1
      · congr 1
        refine List.ext_getElem? fun index => ?_
        rw [List.getElem?_map, hwrittens]
        cases hitem : items[index]? with
        | none => rfl
        | some item =>
          have hmem := List.mem_of_getElem? hitem
          rw [Option.map_some, Option.map_some, (ih item hmem (hitems item hmem) _).2]
  | object map ih =>
    cases hvalue with
    | object hkeys hmembers =>
      have hnodup := nodup_of_increasing hkeys
      obtain ⟨writtens, heq, hperm, -⟩ := ordered_object_perm original hnodup
      have hwritten : ((writtenMembers original map).map Prod.fst).Nodup := by
        rw [writtenMembers_keys]
        exact hnodup
      have hdistinct : (writtens.map Prod.fst).Nodup :=
        ((hperm.map Prod.fst).nodup_iff).mpr hwritten
      rw [heq, Doc.toValue, memberValues_eq]
      constructor
      · refine .object hdistinct fun entry hentry => ?_
        obtain ⟨old, hold, rfl⟩ := List.mem_map.mp (hperm.mem_iff.mp hentry)
        exact (ih old hold (hmembers old hold) _).1
      · have hvalues : (writtenMembers original map).map (fun entry => (entry.1, entry.2.toValue)) =
            map := by
          rw [writtenMembers, List.map_map]
          refine (List.map_congr_left fun entry hentry => ?_).trans (List.map_id' map)
          rw [Function.comp_apply, (ih entry hentry (hmembers entry hentry) _).2]
        have hsame := hperm.map fun entry => (entry.1, entry.2.toValue)
        rw [hvalues] at hsame
        congr 1
        rw [collect_of_perm hsame, collect_of_increasing hkeys]
        rw [(hsame.map Prod.fst).nodup_iff]
        exact hnodup

/-- One step into what is written leads to what is written for the part there. -/
theorem child_ordered (hvalue : value.IsValue) (original : Option (Doc ν)) (step : Step) :
    (ordered value (original.map keyOrder)).child step =
      (value.child step).map fun part =>
        ordered part ((original.bind (Doc.child step)).map keyOrder) := by
  cases hvalue with
  | null | bool | number | string => cases step <;> rfl
  | @array items hitems =>
    obtain ⟨writtens, heq, hwrittens⟩ := ordered_array original items
    rw [heq]
    cases step with
    | key key => rfl
    | index index => exact hwrittens index
  | @object map hkeys hmembers =>
    have hnodup := nodup_of_increasing hkeys
    obtain ⟨writtens, heq, hperm, -⟩ := ordered_object_perm original hnodup
    have hdistinct : (writtens.map Prod.fst).Nodup := by
      rw [(hperm.map Prod.fst).nodup_iff, writtenMembers_keys]
      exact hnodup
    rw [heq]
    cases step with
    | index index => rfl
    | key key =>
      rw [Doc.child, Doc.child, lookupLast_of_perm hperm hdistinct, writtenMembers,
        lookupLast_map fun key part =>
          ordered part ((original.bind (Doc.child (.key key))).map keyOrder)]

/-- At every depth the keys of both stand in the order of the original. -/
theorem ordered_keys {doc : Doc ν} {path : List Step} {originals writtens : List (Text × Doc ν)}
    (hvalue : value.IsValue) (horiginal : doc.at path = some (.object originals))
    (hwritten : (ordered value (some (keyOrder doc))).at path = some (.object writtens)) :
    (writtens.map Prod.fst).filter (· ∈ originals.map Prod.fst) =
      ((lastEntries originals).map Prod.fst).filter (· ∈ writtens.map Prod.fst) := by
  induction path generalizing doc value with
  | nil =>
    rw [Doc.at, Option.some.injEq] at horiginal hwritten
    subst horiginal
    cases hvalue with
    | null | bool | number | string | array => cases hwritten
    | @object map hkeys hmembers =>
      have hnodup := nodup_of_increasing hkeys
      obtain ⟨others, heq, hperm, hnames⟩ :=
        ordered_object_perm (some (.object originals)) hnodup
      have hsame : others = writtens := Doc.object.inj (heq.symm.trans hwritten)
      have hfilter := orderedKeys_filter (some (.object originals)) (map.map Prod.fst)
      have hmem : ∀ key, key ∈ writtens.map Prod.fst ↔ key ∈ map.map Prod.fst := by
        intro key
        rw [← hsame, (hperm.map Prod.fst).mem_iff, writtenMembers_keys]
      have horiginals : ∀ key, key ∈ originals.map Prod.fst ↔
          key ∈ keyNames (some (.object originals)) := fun key => mem_keys_lastEntries.symm
      rw [← hnames, hsame] at hfilter
      simp only [hmem, horiginals]
      exact hfilter
  | cons step path ih =>
    rw [Doc.at] at horiginal hwritten
    obtain ⟨inner, hinner, horiginal⟩ := Option.bind_eq_some_iff.mp horiginal
    obtain ⟨written, hchild, hwritten⟩ := Option.bind_eq_some_iff.mp hwritten
    have hstep := child_ordered hvalue (some doc) step
    rw [Option.map_some, hchild, Option.bind_some, hinner] at hstep
    obtain ⟨part, hpart, rfl⟩ := Option.map_eq_some_iff.mp hstep.symm
    exact ih (hvalue.child hpart) horiginal hwritten

/-- An unedited document is written as it stands, without the members that were replaced. -/
theorem ordered_unedited (doc : Doc ν) : ordered doc.toValue (some (keyOrder doc)) = doc.lastWins := by
  induction doc using Doc.parts with
  | null | bool | number | string => rfl
  | array items ih =>
    obtain ⟨writtens, heq, hwrittens⟩ := ordered_array (some (.array items)) (items.map Doc.toValue)
    rw [Doc.toValue, valuesOf_eq, Doc.lastWins, lastWinsItems_eq]
    refine heq.trans (congrArg Doc.array (List.ext_getElem? fun index => ?_))
    rw [hwrittens, List.getElem?_map, List.getElem?_map, Option.bind_some, Doc.child]
    cases hitem : items[index]? with
    | none => rfl
    | some item =>
      rw [Option.map_some, Option.map_some, Option.map_some, Option.map_some,
        ih item (List.mem_of_getElem? hitem)]
  | object entries ih =>
    have hnodup := nodup_of_increasing (collect_increasing (entries.map fun entry =>
      (entry.1, entry.2.toValue)))
    have hsame : ∀ key, key ∈ (collect (entries.map fun entry =>
        (entry.1, entry.2.toValue))).map Prod.fst ↔ key ∈ keyNames (some (.object entries)) := by
      intro key
      rw [← lookupLast_isSome_iff, lookupLast_collect, lookupLast_isSome_iff, List.map_map]
      exact mem_keys_lastEntries.symm
    rw [Doc.toValue, memberValues_eq, Doc.lastWins, lastWinsMembers_eq]
    refine (ordered_object (some (.object entries)) _).trans (congrArg Doc.object ?_)
    rw [orderedKeys_unedited _ hsame]
    have hlookup : ∀ key, lookupLast key (writtenMembers (some (.object entries))
        (collect (entries.map fun entry => (entry.1, entry.2.toValue)))) =
          lookupLast key (lastEntries (entries.map fun entry => (entry.1, entry.2.lastWins))) := by
      intro key
      rw [writtenMembers, lookupLast_map fun key part =>
          ordered part (((some (.object entries)).bind (Doc.child (.key key))).map keyOrder),
        lookupLast_collect, lookupLast_map fun _ (doc : Doc ν) => doc.toValue, lookupLast_lastEntries,
        lookupLast_map fun _ (doc : Doc ν) => doc.lastWins, Option.bind_some, Doc.child]
      cases hfound : lookupLast key entries with
      | none => rfl
      | some part =>
        rw [Option.map_some, Option.map_some, Option.map_some, Option.map_some,
          ih (key, part) (mem_of_lookupLast hfound)]
    have hnames : keyNames (some (.object entries)) =
        (lastEntries (entries.map fun entry => (entry.1, entry.2.lastWins))).map Prod.fst := by
      rw [lastEntries_map fun _ (doc : Doc ν) => doc.lastWins, List.map_map]
      rfl
    rw [hnames, membersFor]
    simp only [hlookup]
    exact membersFor_self (lastEntries_nodup _)

/-- Whatever a text says, its keys are in the order of some document. -/
theorem KeyOrder.of_eq (json : JsonText ν) (content : Text) :
    KeyOrder.of json content = keyOrder ((json.read content).getD .null) := by
  rw [KeyOrder.of]
  cases json.read content with
  | none | some => rfl

/-- Rewriting a file in its own key order: parsing what is written gives the edited value, no object
of it has a key twice, keys of both stand in the order of the file at every depth, and an unedited file
is written as it stands. -/
theorem ordered_write (json : JsonText ν) (content : Text) (edited : Value ν)
    (hjson : json.ReadsBack (ordered edited.doc (some (KeyOrder.of json content)))) :
    json.parse (json.write (ordered edited.doc (some (KeyOrder.of json content)))) = some edited ∧
      (ordered edited.doc (some (KeyOrder.of json content))).Distinct ∧
      ∀ doc, json.read content = some doc →
        (∀ path originals writtens, doc.at path = some (.object originals) →
          (ordered edited.doc (some (KeyOrder.of json content))).at path = some (.object writtens) →
            (writtens.map Prod.fst).filter (· ∈ originals.map Prod.fst) =
              ((lastEntries originals).map Prod.fst).filter (· ∈ writtens.map Prod.fst)) ∧
        (json.parse content = some edited →
          ordered edited.doc (some (KeyOrder.of json content)) = doc.lastWins) := by
  have hwritten := ordered_toValue edited.isValue (some ((json.read content).getD .null))
  rw [Option.map_some, ← KeyOrder.of_eq] at hwritten
  refine ⟨?_, hwritten.1, fun doc hdoc => ⟨fun path originals writtens horiginal hpath => ?_, ?_⟩⟩
  · rw [JsonText.parse, hjson, Option.map_some]
    exact congrArg some (Value.ext hwritten.2)
  · rw [KeyOrder.of_eq, hdoc] at hpath
    exact ordered_keys edited.isValue horiginal hpath
  · intro hparse
    rw [JsonText.parse, hdoc, Option.map_some] at hparse
    rw [KeyOrder.of_eq, hdoc, ← Option.some.inj hparse]
    exact ordered_unedited doc

/-- A file with three settings. -/
def sampleDocument : Doc Nat :=
  .object [("z".toList, .number 1), ("old".toList, .number 2), ("a".toList, .number 3)]

/-- The value of the file after `old` was renamed. -/
def renamedValue : Value Nat where
  doc := .object [("a".toList, .number 3), ("new".toList, .number 2), ("z".toList, .number 1)]
  isValue := .object (by decide) (by
    intro entry hentry
    rw [List.mem_cons, List.mem_cons, List.mem_singleton] at hentry
    rcases hentry with rfl | rfl | rfl
    · exact .number 3
    · exact .number 2
    · exact .number 1)

/-- The file with the new name in the place of the old one. -/
def renamedDocument : Doc Nat :=
  .object [("z".toList, .number 1), ("new".toList, .number 2), ("a".toList, .number 3)]

/-- The text form on the two files. -/
def sampleJson : JsonText Nat where
  write
    | .object [_, (['o', 'l', 'd'], _), _] => "\x7b\"z\":1,\"old\":2,\"a\":3\x7d".toList
    | _ => "\x7b\"z\":1,\"new\":2,\"a\":3\x7d".toList
  read text :=
    if text = "\x7b\"z\":1,\"old\":2,\"a\":3\x7d".toList then some sampleDocument
    else if text = "\x7b\"z\":1,\"new\":2,\"a\":3\x7d".toList then some renamedDocument
    else none

theorem ordered_write_renamed :
    sampleJson.parse (sampleJson.write (ordered renamedValue.doc
      (some (KeyOrder.of sampleJson (sampleJson.write sampleDocument))))) = some renamedValue :=
  (ordered_write sampleJson (sampleJson.write sampleDocument) renamedValue rfl).1

end Awman.Config
