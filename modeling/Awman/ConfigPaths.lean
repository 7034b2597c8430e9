import Awman.Library.JsonPaths
import Awman.NumberTexts

/-!
# Configuration fields by dotted paths

`awman config get|set` reads and writes a field by its dotted name.  Reading takes a segment as a key, or
as an index where an array is met; writing goes through objects, makes them where they are missing, and
takes an index at the end for an item of an array, which grows when the index is past its end.
-/

namespace Awman.Config

open Awman.Json
open Awman.RawArgs (parseUnsigned)

variable {ν : Type}

/-- How the serializer shows numbers and compact values. -/
structure Shows (ν : Type) where
  number : ν → Text
  compact : Doc ν → Text

/-- The segments of a dotted path. -/
def segments (field : Text) : List Text := field.splitOn '.'

/-- A segment read as an index of an array. -/
def asIndex (segment : Text) : Option Nat := parseUnsigned (2 ^ 64) segment

/-- A text item. -/
def asStr : Doc ν → Option Text
  | .string text => some text
  | _ => none

/-- The way a value is shown; null is not. -/
def display (shows : Shows ν) : Doc ν → Option Text
  | .string text => some text
  | .bool value => some (if value then "true".toList else "false".toList)
  | .number value => some (shows.number value)
  | .null => none
  | .array items =>
    if items.all fun item => (asStr item).isSome then
      some ((items.filterMap asStr).intersperse ", ".toList).flatten
    else some (shows.compact (.array items))
  | .object entries => some (shows.compact (.object entries))

/-- Looks up a field by its dotted path. -/
def configFieldValue (shows : Shows ν) (json : Doc ν) (field : Text) : Option Text :=
  (json.follow asIndex (segments field)).bind (display shows)

/-- The part under a key, when it is there, changed; nothing when a key on the way is missing. -/
def removeIn (remove : Doc ν → Doc ν) : List Text → Doc ν → Doc ν
  | [], current => remove current
  | part :: rest, current =>
    match current.get part with
    | none => current
    | some inner => current.insert part (removeIn remove rest inner)

/-- Removes an item of an array. -/
def removeItem (index : Nat) : Doc ν → Doc ν
  | .array items => .array (if index < items.length then items.eraseIdx index else items)
  | current => current

/-- Removes a member of an object. -/
def removeMember (key : Text) : Doc ν → Doc ν
  | .object entries => .object (entries.filter fun entry => entry.1 ≠ key)
  | current => current

/-- Removes a field. -/
def removeConfigField (json : Doc ν) (field : Text) : Doc ν :=
  let parts := segments field
  let last := parts.getLastD []
  match asIndex last with
  | some index =>
    if 2 ≤ parts.length then removeIn (removeItem index) parts.dropLast json
    else removeIn (removeMember last) parts.dropLast json
  | none => removeIn (removeMember last) parts.dropLast json

/-- Sets or appends an item. -/
def setItem (index : Nat) (value : Doc ν) (items : List (Doc ν)) : List (Doc ν) :=
  if index < items.length then items.set index value else items ++ [value]

/-- Goes on in the part under a key, which must be there; nothing stands for a panic. -/
def descend (part : Text) (current : Doc ν) (next : Doc ν → Option (Doc ν)) : Option (Doc ν) :=
  match current.get part with
  | none => none
  | some inner => (next inner).map (current.insert part)

/-- Whether the part under a key is of a kind. -/
def isUnder (kind : Doc ν → Bool) (part : Text) (current : Doc ν) : Bool :=
  ((current.get part).map kind).getD false

/-- Sets or appends an item of the array at a path, with the objects and the array made on demand. -/
def setArrayElement (index : Nat) (value : Doc ν) : List Text → Doc ν → Option (Doc ν)
  | [], current => some current
  | [arrayField], current =>
    let set (current : Doc ν) : Option (Doc ν) :=
      match current.get arrayField with
      | some (.array items) => some (current.insert arrayField (.array (setItem index value items)))
      | _ => some current
    if isUnder Doc.isArray arrayField current then set current
    else if current.isObject then set (current.insert arrayField (.array []))
    else some current
  | part :: rest, current =>
    if isUnder Doc.isObject part current then descend part current (setArrayElement index value rest)
    else if current.isObject then
      descend part (current.insert part (.object [])) (setArrayElement index value rest)
    else some current

/-- Inserts a value under the last part, with objects made on the way. -/
def setNested (value : Doc ν) : List Text → Doc ν → Option (Doc ν)
  | [], current => some current
  | [last], current => some (current.insert last value)
  | part :: rest, current =>
    if isUnder Doc.isObject part current then descend part current (setNested value rest)
    else descend part (current.insert part (.object [])) (setNested value rest)

/-- The array path and the index of a path that addresses an item. -/
def itemTarget (parts : List Text) : Option (List Text × Nat) :=
  match parts.getLast?.bind asIndex with
  | some index => if 2 ≤ parts.length then some (parts.dropLast, index) else none
  | none => none

/-- Sets a field. -/
def setConfigField (json : Doc ν) (field : Text) (value : Doc ν) : Option (Doc ν) :=
  let parts := segments field
  match itemTarget parts with
  | some (arrayPath, index) => setArrayElement index value arrayPath json
  | none =>
    if parts.length = 1 then some (json.insert field value) else setNested value parts json

/-- Writes a value into a configuration; null removes the field. -/
def applyConfigField (json : Doc ν) (field : Text) (value : Doc ν) : Option (Doc ν) :=
  match value with
  | .null => some (removeConfigField json field)
  | value => setConfigField json field value

/-! ## Writing as rewriting at a path -/

variable {entries : List (Text × Doc ν)} {part : Text} {index : Nat} {value : Doc ν}
  {parts : List Text}

/-- What is put at an array path: the array met there, or an empty one, with the item set. -/
def withItem (index : Nat) (value : Doc ν) : Option (Doc ν) → Doc ν
  | some (.array items) => .array (setItem index value items)
  | _ => .array (setItem index value [])

/-- Going on in an object that is there, or was made, rewrites it. -/
theorem descend_object (h : (Doc.object entries).IsValue) {next : Doc ν → Option (Doc ν)}
    {after : Doc ν → Doc ν}
    (hnext : ∀ inner, (Doc.object inner).IsValue → next (.object inner) = some (after (.object inner))) :
    (if isUnder Doc.isObject part (Doc.object entries) then descend part (Doc.object entries) next
      else descend part ((Doc.object entries).insert part (.object [])) next) =
      some ((Doc.object entries).insert part (after ((Doc.object entries).objectUnder part))) := by
  rcases (Doc.object entries).objectUnder_cases part with ⟨inner, hget, hunder⟩ | ⟨hnone, hunder⟩
  · have hkind : isUnder Doc.isObject part (Doc.object entries) = true := by
      rw [isUnder, hget]
      rfl
    rw [if_pos hkind, descend, hget]
    dsimp only
    rw [hnext inner (h.get hget), hunder]
    rfl
  · have hkind : ¬ isUnder Doc.isObject part (.object entries) = true := by
      rw [isUnder]
      cases hget : (Doc.object entries).get part with
      | none => simp
      | some found =>
        cases found with
        | null | bool | number | string | array => simp [Doc.isObject]
        | object inner => exact absurd hget (hnone inner)
    have hmade : ((Doc.object entries).insert part (.object [])).get part = some (.object []) := by
      rw [Doc.get_insert h.keys_increasing, if_pos rfl]
    rw [if_neg hkind, descend, hmade]
    dsimp only
    rw [hnext [] Doc.isValue_empty, hunder, Option.map_some,
      Doc.insert_insert h.keys_increasing]

theorem setNested_eq (hparts : parts ≠ []) (h : (Doc.object entries).IsValue) :
    setNested value parts (.object entries) =
      some ((Doc.object entries).rewrite (fun _ => value) parts) := by
  induction parts generalizing entries with
  | nil => exact absurd rfl hparts
  | cons part rest ih =>
    cases rest with
    | nil => rfl
    | cons second rest =>
      rw [setNested, Doc.rewrite_cons_cons]
      · exact descend_object h fun inner hinner => ih (by simp) hinner
      · simp

/-- The array is the one that is there, or was made. -/
theorem setArrayElement_last (h : (Doc.object entries).IsValue) :
    setArrayElement index value [part] (.object entries) =
      some ((Doc.object entries).insert part
        (withItem index value ((Doc.object entries).get part))) := by
  rw [setArrayElement]
  have hmade : ((Doc.object entries).insert part (.array [])).get part = some (.array []) := by
    rw [Doc.get_insert h.keys_increasing, if_pos rfl]
  have hobject : (Doc.object entries).isObject = true := rfl
  cases hget : (Doc.object entries).get part with
  | none =>
    rw [if_neg (by simp [isUnder, hget]), if_pos hobject]
    dsimp only
    rw [hmade]
    dsimp only
    rw [Doc.insert_insert h.keys_increasing]
    rfl
  | some found =>
    cases found with
    | array items =>
      rw [if_pos (by simp [isUnder, hget, Doc.isArray])]
      dsimp only
      rw [hget]
      rfl
    | null | bool | number | string | object =>
      rw [if_neg (by simp [isUnder, hget, Doc.isArray]), if_pos hobject]
      dsimp only
      rw [hmade]
      dsimp only
      rw [Doc.insert_insert h.keys_increasing]
      rfl

theorem setArrayElement_eq (hparts : parts ≠ []) (h : (Doc.object entries).IsValue) :
    setArrayElement index value parts (.object entries) =
      some ((Doc.object entries).rewrite (withItem index value) parts) := by
  induction parts generalizing entries with
  | nil => exact absurd rfl hparts
  | cons part rest ih =>
    cases rest with
    | nil => exact setArrayElement_last h
    | cons second rest =>
      rw [setArrayElement, Doc.rewrite_cons_cons]
      · exact descend_object h fun inner hinner => ih (by simp) hinner
      · simp

/-! ## Items of an array -/

theorem setItem_getElem? (index : Nat) (value : Doc ν) (items : List (Doc ν)) (other : Nat) :
    (setItem index value items)[other]? =
      if other = min index items.length then some value else items[other]? := by
  rw [setItem]
  by_cases hindex : index < items.length
  · rw [if_pos hindex, Nat.min_eq_left hindex.le, List.getElem?_set]
    by_cases hsame : other = index
    · rw [if_pos hsame, if_pos hsame.symm, if_pos hindex]
    · rw [if_neg hsame, if_neg (Ne.symm hsame)]
  · rw [if_neg hindex, Nat.min_eq_right (by omega), List.getElem?_append]
    by_cases hsame : other = items.length
    · rw [if_pos hsame, hsame, if_neg (by omega), Nat.sub_self, List.getElem?_cons_zero]
    · rw [if_neg hsame]
      by_cases hless : other < items.length
      · rw [if_pos hless]
      · have hsingle : [value].length ≤ other - items.length := by
          rw [List.length_singleton]
          omega
        rw [if_neg hless, List.getElem?_eq_none hsingle, List.getElem?_eq_none (by omega)]

theorem display_ne_none (shows : Shows ν) (hvalue : value ≠ .null) : display shows value ≠ none := by
  cases value with
  | null => exact absurd rfl hvalue
  | bool | number | string | object => simp [display]
  | array items =>
    rw [display]
    split <;> simp

theorem itemTarget_eq_some {arrayPath : List Text} (h : itemTarget parts = some (arrayPath, index)) :
    arrayPath ≠ [] ∧ ∃ last, parts = arrayPath ++ [last] ∧ asIndex last = some index := by
  rw [itemTarget] at h
  cases htarget : parts.getLast?.bind asIndex with
  | none =>
    rw [htarget] at h
    cases h
  | some found =>
    rw [htarget] at h
    dsimp only at h
    obtain ⟨last, hlast, hindex⟩ := Option.bind_eq_some_iff.mp htarget
    by_cases hlength : 2 ≤ parts.length
    · rw [if_pos hlength] at h
      cases h
      refine ⟨?_, last, (List.dropLast_append_getLast? last hlast).symm, hindex⟩
      intro hnil
      have hdrop := @List.length_dropLast _ parts
      rw [hnil, List.length_nil] at hdrop
      omega
    · rw [if_neg hlength] at h
      cases h

/-! ## The effect of a write -/

/-- The items of the array that a write meets at a path; none where there is no array. -/
def heldItems (json : Doc ν) (arrayPath : List Text) : List (Doc ν) :=
  match json.met arrayPath with
  | some (.array items) => items
  | _ => []

/-- The path ends in an index past the end of the array before it. -/
def PastEnd (json : Doc ν) (parts : List Text) : Prop :=
  ∃ arrayPath index, itemTarget parts = some (arrayPath, index) ∧
    (heldItems json arrayPath).length < index

/-- The other path passes a value that the write replaces: an array where an object is needed, or an
object where the array of an item is needed. -/
def Replaced (json : Doc ν) (parts other : List Text) : Prop :=
  match itemTarget parts with
  | some (arrayPath, _) =>
    json.Displaces asIndex arrayPath other ∨
      arrayPath <+: other ∧ ∃ members, json.follow asIndex arrayPath = some (.object members)
  | none => json.Displaces asIndex parts other

/-- The other path names, with a spelling of its own, the item that is written, and goes on from it. -/
def NamesItem (json : Doc ν) (parts other rest : List Text) : Prop :=
  ∃ arrayPath index segment, itemTarget parts = some (arrayPath, index) ∧
    other = arrayPath ++ segment :: rest ∧
      asIndex segment = some (min index (heldItems json arrayPath).length)

theorem withItem_met (index : Nat) (value json : Doc ν) (arrayPath : List Text) :
    withItem index value (json.met arrayPath) =
      .array (setItem index value (heldItems json arrayPath)) := by
  unfold heldItems withItem
  split
  · rfl
  · rfl

theorem setConfigField_eq (field : Text) (h : (Doc.object entries).IsValue) :
    setConfigField (.object entries) field value =
      some (match itemTarget (segments field) with
        | some (arrayPath, index) => (Doc.object entries).rewrite (withItem index value) arrayPath
        | none => (Doc.object entries).rewrite (fun _ => value) (segments field)) := by
  rw [setConfigField]
  split
  · rename_i arrayPath index htarget
    exact setArrayElement_eq (itemTarget_eq_some htarget).1 h
  · rename_i hnone
    have hparts : segments field ≠ [] := List.splitOn_ne_nil '.' field
    by_cases hsingle : (segments field).length = 1
    · rw [if_pos hsingle]
      obtain ⟨part, hpart⟩ := List.length_eq_one_iff.mp hsingle
      have hfield : part = field := by
        have hjoin : ['.'].intercalate (field.splitOn '.') = field := List.intercalate_splitOn '.'
        rw [segments] at hpart
        rw [hpart, List.intercalate_singleton] at hjoin
        exact hjoin
      rw [hpart, hfield]
      rfl
    · rw [if_neg hsingle, setNested_eq hparts h]

/-! ### What is read afterwards -/

variable {other rest : List Text} {arrayPath : List Text}

/-- What a path names in an array whose item was set. -/
theorem follow_setItem (index : Nat) (value : Doc ν) (items : List (Doc ν)) (segment : Text)
    (rest : List Text) :
    (Doc.array (setItem index value items)).follow asIndex (segment :: rest) =
      if asIndex segment = some (min index items.length) then value.follow asIndex rest
      else (Doc.array items).follow asIndex (segment :: rest) := by
  rw [Doc.follow, Doc.follow, Doc.step, Doc.step]
  cases hindex : asIndex segment with
  | none => rfl
  | some found =>
    rw [Option.bind_some, Option.bind_some, setItem_getElem?]
    by_cases hsame : found = min index items.length
    · rw [if_pos hsame, if_pos (congrArg some hsame), Option.bind_some]
    · rw [if_neg hsame, if_neg fun heq => hsame (Option.some.inj heq)]

theorem follow_no_items (segment : Text) (rest : List Text) :
    (Doc.array [] : Doc ν).follow asIndex (segment :: rest) = none := by
  rw [Doc.follow, Doc.step]
  cases asIndex segment with
  | none | some => rfl

/-- The items at an array path, as a path behind it names them. -/
theorem follow_held (harray : arrayPath ≠ []) (segment : Text) (rest : List Text)
    (hkept : ¬ (Doc.object entries).Displaces asIndex arrayPath arrayPath)
    (hobject : ∀ members, (Doc.object entries).follow asIndex arrayPath ≠ some (.object members)) :
    (Doc.array (heldItems (.object entries) arrayPath)).follow asIndex (segment :: rest) =
      (Doc.object entries).follow asIndex (arrayPath ++ segment :: rest) := by
  rw [Doc.follow_append, heldItems]
  rw [Doc.follow_eq_met harray hkept] at hobject ⊢
  cases hmet : (Doc.object entries).met arrayPath with
  | none => exact follow_no_items segment rest
  | some found =>
    cases found with
    | array items => rfl
    | object members => exact absurd hmet (hobject members)
    | null | bool | number | string => exact follow_no_items segment rest

/-- Where something is replaced on the way to the array, the array is new. -/
theorem heldItems_replaced (harray : arrayPath ≠ [])
    (hreplaced : (Doc.object entries).Displaces asIndex arrayPath arrayPath ∨
      ∃ members, (Doc.object entries).follow asIndex arrayPath = some (.object members)) :
    heldItems (.object entries) arrayPath = [] := by
  rw [heldItems]
  by_cases hdisplaced : (Doc.object entries).Displaces asIndex arrayPath arrayPath
  · rw [Doc.met_displaced hdisplaced]
  · obtain ⟨members, hmembers⟩ := hreplaced.resolve_left hdisplaced
    rw [Doc.follow_eq_met harray hdisplaced] at hmembers
    rw [hmembers]

/-- What a write of an item does to a path that neither leads to the item nor comes from it. -/
theorem follow_item (h : (Doc.object entries).IsValue)
    (htarget : itemTarget parts = some (arrayPath, index)) (hpath : ¬ parts <+: other)
    (hother : ¬ other <+: parts) :
    (¬ Replaced (.object entries) parts other →
      (∀ rest, ¬ NamesItem (.object entries) parts other rest) →
        ((Doc.object entries).rewrite (withItem index value) arrayPath).follow asIndex other =
          (Doc.object entries).follow asIndex other) ∧
      (Replaced (.object entries) parts other →
        (∀ rest, ¬ NamesItem (.object entries) parts other rest) →
          ((Doc.object entries).rewrite (withItem index value) arrayPath).follow asIndex other = none) ∧
      ∀ rest, NamesItem (.object entries) parts other rest →
        ((Doc.object entries).rewrite (withItem index value) arrayPath).follow asIndex other =
          value.follow asIndex rest := by
  obtain ⟨harray, last, hparts, hlast⟩ := itemTarget_eq_some htarget
  by_cases hpasses : arrayPath <+: other
  · have hreplaced : Replaced (.object entries) parts other ↔
        (Doc.object entries).Displaces asIndex arrayPath arrayPath ∨
          ∃ members, (Doc.object entries).follow asIndex arrayPath = some (.object members) := by
      rw [Replaced, htarget]
      simp only [hpasses, true_and, Doc.displaces_of_prefix hpasses]
    obtain ⟨behind, rfl⟩ := hpasses
    cases behind with
    | nil =>
      rw [List.append_nil, hparts] at hother
      exact absurd (List.prefix_append _ _) hother
    | cons segment behind =>
      have hnames : ∀ rest, NamesItem (.object entries) parts (arrayPath ++ segment :: behind) rest ↔
          behind = rest ∧
            asIndex segment = some (min index (heldItems (.object entries) arrayPath).length) := by
        intro rest
        constructor
        · rintro ⟨path, found, first, hfound, hsame, hindex⟩
          rw [htarget] at hfound
          cases hfound
          obtain ⟨rfl, rfl⟩ := List.cons.inj (List.append_cancel_left hsame)
          exact ⟨rfl, hindex⟩
        · rintro ⟨rfl, hindex⟩
          exact ⟨arrayPath, index, segment, htarget, rfl, hindex⟩
      rw [hreplaced, Doc.follow_rewrite_append h harray, withItem_met, follow_setItem]
      refine ⟨fun hkept hnone => ?_, fun hgone hnone => ?_, fun rest hrest => ?_⟩
      · rw [not_or] at hkept
        rw [if_neg fun hindex => hnone behind ((hnames behind).mpr ⟨rfl, hindex⟩)]
        exact follow_held harray segment behind hkept.1 fun members hmembers =>
          hkept.2 ⟨members, hmembers⟩
      · rw [if_neg fun hindex => hnone behind ((hnames behind).mpr ⟨rfl, hindex⟩),
          heldItems_replaced harray hgone]
        exact follow_no_items segment behind
      · obtain ⟨rfl, hindex⟩ := (hnames rest).mp hrest
        rw [if_pos hindex]
  · have hbefore : ¬ other <+: arrayPath := fun hbeginning =>
      hother (hbeginning.trans (by rw [hparts]; exact List.prefix_append _ _))
    have hnames : ∀ rest, ¬ NamesItem (.object entries) parts other rest := by
      rintro rest ⟨path, found, segment, hfound, rfl, -⟩
      rw [htarget] at hfound
      cases hfound
      exact hpasses (List.prefix_append _ _)
    have hreplaced : Replaced (.object entries) parts other ↔
        (Doc.object entries).Displaces asIndex arrayPath other := by
      rw [Replaced, htarget]
      simp only [hpasses, false_and, or_false]
    rw [hreplaced]
    refine ⟨fun hkept _ => ?_, fun hdisplaced _ => ?_, fun rest hrest => ?_⟩
    · exact Doc.follow_rewrite h hpasses hbefore hkept
    · exact Doc.follow_rewrite_displaced h hpasses hbefore hdisplaced
    · exact absurd hrest (hnames rest)

/-- What is read at the path itself: what was written, unless its index is past the end. -/
theorem follow_own (h : (Doc.object entries).IsValue)
    (htarget : itemTarget parts = some (arrayPath, index)) :
    ((Doc.object entries).rewrite (withItem index value) arrayPath).follow asIndex parts =
      if (heldItems (.object entries) arrayPath).length < index then none else some value := by
  obtain ⟨harray, last, rfl, hlast⟩ := itemTarget_eq_some htarget
  rw [Doc.follow_rewrite_append h harray, withItem_met, follow_setItem, hlast]
  by_cases hpast : (heldItems (.object entries) arrayPath).length < index
  · have hne : some index ≠ some (min index (heldItems (.object entries) arrayPath).length) := by
      intro hsame
      have hindex := Option.some.inj hsame
      omega
    rw [if_neg hne, if_pos hpast, Doc.follow, Doc.step, hlast, Option.bind_some,
      List.getElem?_eq_none hpast.le, Option.bind_none]
  · rw [Nat.min_eq_left (by omega), if_pos rfl, if_neg hpast, Doc.follow]

theorem setItem_isValue (hvalue : value.IsValue) {items : List (Doc ν)}
    (hitems : ∀ item ∈ items, item.IsValue) : (Doc.array (setItem index value items)).IsValue := by
  refine .array fun item hitem => ?_
  rw [setItem] at hitem
  by_cases hindex : index < items.length
  · rw [if_pos hindex] at hitem
    rcases List.mem_or_eq_of_mem_set hitem with hmem | rfl
    · exact hitems item hmem
    · exact hvalue
  · rw [if_neg hindex, List.mem_append, List.mem_singleton] at hitem
    rcases hitem with hmem | rfl
    · exact hitems item hmem
    · exact hvalue

theorem withItem_isValue (hvalue : value.IsValue) (old : Option (Doc ν))
    (hold : ∀ part, old = some part → part.IsValue) : (withItem index value old).IsValue := by
  unfold withItem
  split
  · rename_i items
    cases hold _ rfl with
    | array hitems => exact setItem_isValue hvalue hitems
  · exact setItem_isValue hvalue fun item hitem => absurd hitem (by simp)

theorem isObject_rewrite (change : Option (Doc ν) → Doc ν) (path : List Text) :
    ((Doc.object entries).rewrite change path).isObject = true := by
  obtain ⟨members, hmembers⟩ := @Doc.rewrite_object _ change path entries
  rw [hmembers]
  rfl

theorem pastEnd_iff {json : Doc ν} (htarget : itemTarget parts = some (arrayPath, index)) :
    PastEnd json parts ↔ (heldItems json arrayPath).length < index := by
  constructor
  · rintro ⟨path, found, hfound, hless⟩
    rw [htarget] at hfound
    cases hfound
    exact hless
  · intro hless
    exact ⟨arrayPath, index, htarget, hless⟩

/-- Writing a field of an object.  The write returns an object.  The field is then read as the value,
exactly unless the path ends in an index past the end of the array, which appends.  A field whose path
neither leads to the written one nor comes from it is read as before, unless its path passes a value
that is replaced, behind which nothing is left, or spells the index of the written item in its own way,
behind which the written value is read. -/
theorem applyConfigField_spec (shows : Shows ν) (document : Value ν)
    (hobject : document.doc.isObject = true) (field : Text) (value : Value ν)
    (hvalue : value.doc ≠ .null) :
    ∃ after : Value ν, after.doc.isObject = true ∧
      applyConfigField document.doc field value.doc = some after.doc ∧
      (configFieldValue shows after.doc field = display shows value.doc ↔
        ¬ PastEnd document.doc (segments field)) ∧
      ∀ other, ¬ segments field <+: segments other → ¬ segments other <+: segments field →
        (¬ Replaced document.doc (segments field) (segments other) →
          (∀ rest, ¬ NamesItem document.doc (segments field) (segments other) rest) →
            configFieldValue shows after.doc other = configFieldValue shows document.doc other) ∧
        (Replaced document.doc (segments field) (segments other) →
          (∀ rest, ¬ NamesItem document.doc (segments field) (segments other) rest) →
            configFieldValue shows after.doc other = none) ∧
        ∀ rest, NamesItem document.doc (segments field) (segments other) rest →
          configFieldValue shows after.doc other =
            (value.doc.follow asIndex rest).bind (display shows) := by
  obtain ⟨document, hdocument⟩ := document
  obtain ⟨value, hisValue⟩ := value
  cases document with
  | null | bool | number | string | array => cases hobject
  | object entries =>
    have hset : applyConfigField (.object entries) field value =
        setConfigField (.object entries) field value := by
      cases value with
      | null => exact absurd rfl hvalue
      | bool | number | string | array | object => rfl
    have hdisplay := display_ne_none shows hvalue
    rw [hset, setConfigField_eq field hdocument]
    cases htarget : itemTarget (segments field) with
    | some target =>
      obtain ⟨arrayPath, index⟩ := target
      refine ⟨⟨_, hdocument.rewrite (withItem_isValue hisValue) arrayPath⟩, isObject_rewrite _ _, rfl,
        ?_, fun other hpath hother => ?_⟩
      · rw [configFieldValue, follow_own hdocument htarget, pastEnd_iff htarget]
        by_cases hpast : (heldItems (.object entries) arrayPath).length < index
        · rw [if_pos hpast, Option.bind_none]
          exact ⟨fun hnone => absurd hnone.symm hdisplay, fun hnot => absurd hpast hnot⟩
        · rw [if_neg hpast, Option.bind_some]
          exact ⟨fun _ => hpast, fun _ => rfl⟩
      · obtain ⟨hkept, hgone, hnames⟩ := @follow_item _ _ index value _ _ _ hdocument htarget hpath hother
        refine ⟨fun hreplaced hnone => ?_, fun hreplaced hnone => ?_, fun rest hrest => ?_⟩
        · rw [configFieldValue, hkept hreplaced hnone, configFieldValue]
        · rw [configFieldValue, hgone hreplaced hnone, Option.bind_none]
        · rw [configFieldValue, hnames rest hrest]
    | none =>
      have hparts : segments field ≠ [] := List.splitOn_ne_nil '.' field
      have hreplaced : ∀ other, Replaced (.object entries) (segments field) other ↔
          (Doc.object entries).Displaces asIndex (segments field) other := by
        intro other
        rw [Replaced, htarget]
      have hnone : ∀ other rest, ¬ NamesItem (.object entries) (segments field) other rest := by
        rintro other rest ⟨arrayPath, index, segment, hfound, -⟩
        rw [htarget] at hfound
        cases hfound
      refine ⟨⟨_, hdocument.rewrite (fun _ _ => hisValue) (segments field)⟩, isObject_rewrite _ _, rfl,
        ?_, fun other hpath hother => ⟨fun hkept _ => ?_, fun hgone _ => ?_, fun rest hrest => ?_⟩⟩
      · have hown := @Doc.follow_rewrite_append _ asIndex _ (fun _ => value) _ hdocument hparts []
        rw [List.append_nil] at hown
        rw [configFieldValue, hown, Doc.follow, Option.bind_some]
        refine ⟨?_, fun _ => rfl⟩
        rintro - ⟨arrayPath, index, hfound, -⟩
        rw [htarget] at hfound
        cases hfound
      · rw [configFieldValue, Doc.follow_rewrite hdocument hpath hother ((hreplaced _).not.mp hkept),
          configFieldValue]
      · rw [configFieldValue,
          Doc.follow_rewrite_displaced hdocument hpath hother ((hreplaced _).mp hgone),
          Option.bind_none]
      · exact absurd hrest (hnone _ rest)

/-- A list with one entry. -/
def sampleList : Value Nat where
  doc := .object [("a".toList, .array [.string "x".toList])]
  isValue := .object (List.pairwise_singleton _ _) (by
    intro entry hentry
    rw [List.mem_singleton] at hentry
    rw [hentry]
    refine .array fun item hitem => ?_
    rw [List.mem_singleton] at hitem
    rw [hitem]
    exact .string _)

/-- Texts for numbers and compact values. -/
def sampleShows : Shows Nat where
  number := Nat.toDigits 10
  compact _ := []

theorem applyConfigField_sample :
    ∃ after : Value Nat,
      applyConfigField sampleList.doc "a.1".toList (.string "y".toList) = some after.doc ∧
        configFieldValue sampleShows after.doc "a.1".toList = some "y".toList := by
  obtain ⟨after, -, happly, hread, -⟩ := applyConfigField_spec sampleShows sampleList rfl "a.1".toList
    ⟨.string "y".toList, .string _⟩ (by simp)
  refine ⟨after, happly, hread.mpr ?_⟩
  have htarget : itemTarget (segments "a.1".toList) = some (["a".toList], 1) := by decide
  rw [pastEnd_iff htarget]
  exact Nat.lt_irrefl 1

/-- An index past the end appends, so that nothing is read at it, and an item is lost when a member is
written where an array stands. -/
theorem written_not_read :
    (applyConfigField sampleList.doc "a.2".toList (.string "y".toList)).map
        (fun after => configFieldValue sampleShows after "a.2".toList) = some none ∧
      configFieldValue sampleShows sampleList.doc "a.0".toList = some "x".toList ∧
      (applyConfigField sampleList.doc "a.b".toList (.string "y".toList)).map
        (fun after => configFieldValue sampleShows after "a.0".toList) = some none := by
  decide

end Awman.Config
