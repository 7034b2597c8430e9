import Awman.Library.HexPairs
import Awman.Library.TextCuts

/-!
# Names of squad containers

A background agent of the squad runs in a container named after its task, and the task is read back
from the name.  The reader counts bytes from the end of the name, so a name from elsewhere may be
cut inside a character.
-/

namespace Awman.Naming

open Awman.TextCuts Awman.HexPairs

/-- A text as its characters. -/
abbrev Text := List Char

/-- The prefix on every squad container name. -/
def squadNamePrefix : Text := "awman-squad-".toList

/-- The most bytes of a task slug. -/
def taskSlugMaxLen : Nat := 48

/-- The length of the token that ends a squad name. -/
def squadUniqueHexLen : Nat := 8

/-- A random identifier. -/
abbrev Uuid := BitVec 128

/-- The identifier as 32 lowercase hexadecimal digits. -/
def Uuid.simple (uuid : Uuid) : Text :=
  (List.range 32).map fun index => Nat.digitChar (uuid.toNat / 16 ^ (31 - index) % 16)

/-- The name of a new squad container for the task. -/
def generateSquadContainerName (taskSlug : Text) (uuid : Uuid) : Text :=
  squadNamePrefix ++ taskSlug ++ '-' :: uuid.simple.take squadUniqueHexLen

/-- Recover the task slug from a container name; an error is a panic. -/
def parseSquadTaskSlug (containerName : Text) : Except String (Option Text) :=
  match stripPrefix squadNamePrefix containerName with
  | none => .ok none
  | some rest =>
    if byteLength rest ≤ squadUniqueHexLen then .ok none
    else
      match cutAt Char.utf8Size rest (byteLength rest - squadUniqueHexLen - 1) with
      | none => .error "failed to slice string"
      | some (_, []) => .ok none
      | some (slug, first :: tailChars) =>
        if first ≠ '-' then .ok none
        else if ¬ tailChars.all isLowerHex then .ok none
        else if slug = [] then .ok none
        else .ok (some slug)

/-- A character that may start and end a slug. -/
def isLowerAlnum (character : Char) : Bool := character.isLower || character.isDigit

/-- Check the name of a task. -/
def validateTaskSlug (debug : Text → String) (slug : Text) : Except String Unit :=
  let invalid (reason : String) : Except String Unit :=
    .error (s!"invalid task name {debug slug}: {reason}; names must match " ++
      s!"[a-z0-9]([a-z0-9-]*[a-z0-9])? and be 1..={taskSlugMaxLen} chars")
  if slug.isEmpty then invalid "must not be empty"
  else if taskSlugMaxLen < byteLength slug then invalid "too long"
  else if !slug.all (fun character => isLowerAlnum character || character == '-') then
    invalid "may only contain lowercase letters, digits, and hyphens"
  else if !(slug.head?.any isLowerAlnum && slug.getLast?.any isLowerAlnum) then
    invalid "must start and end with a letter or digit"
  else .ok ()

/-- The name is the squad prefix, the slug, a dash and eight lowercase hexadecimal digits. -/
def WellFormed (containerName slug : Text) : Prop :=
  slug ≠ [] ∧ ∃ token, containerName = squadNamePrefix ++ (slug ++ '-' :: token) ∧
    token.length = squadUniqueHexLen ∧ ∀ digit ∈ token, isLowerHex digit = true

/-- The name was generated for the slug, which is a valid one, however the errors quote it. -/
def GeneratedFor (containerName slug : Text) : Prop :=
  (∃ debug, validateTaskSlug debug slug = .ok ()) ∧
    ∃ uuid, containerName = generateSquadContainerName slug uuid

/-- What the reader makes of one name. -/
structure ParsesBack (containerName : Text) : Prop where
  /-- It does not panic. -/
  returns : ∃ result, parseSquadTaskSlug containerName = .ok result
  exact : ∀ slug, parseSquadTaskSlug containerName = .ok (some slug) ↔
    WellFormed containerName slug
  generated : ∀ slug, GeneratedFor containerName slug →
    parseSquadTaskSlug containerName = .ok (some slug)
  ofOne : ∀ slug other, GeneratedFor containerName slug → GeneratedFor containerName other →
    slug = other

/-- If more than eight bytes follow the squad prefix, the ninth byte from the end starts a
character. -/
def CutsBetweenCharacters (containerName : Text) : Prop :=
  ∀ rest, containerName = squadNamePrefix ++ rest → squadUniqueHexLen < byteLength rest →
    ∃ front back, rest = front ++ back ∧ byteLength back = squadUniqueHexLen + 1

theorem len_append (front back : Text) : byteLength (front ++ back) = byteLength front + byteLength back :=
  units_append front back

theorem len_cons (character : Char) (rest : Text) :
    byteLength (character :: rest) = character.utf8Size + byteLength rest :=
  units_cons character rest

theorem len_dash (rest : Text) : byteLength ('-' :: rest) = byteLength rest + 1 := by
  have hdash : Char.utf8Size '-' = 1 := rfl
  rw [len_cons, hdash, Nat.add_comm]

theorem cut_eq_some {text front back : Text} {offset : Nat} :
    cutAt Char.utf8Size text offset = some (front, back) ↔
      text = front ++ back ∧ byteLength front = offset :=
  cutAt_eq_some Char.utf8Size_pos

theorem cut_eq_none {text : Text} {offset : Nat} :
    cutAt Char.utf8Size text offset = none ↔
      ∀ front back, text = front ++ back → byteLength front ≠ offset :=
  cutAt_eq_none Char.utf8Size_pos

theorem utf8Size_of_lowerHex {character : Char} (h : isLowerHex character = true) :
    character.utf8Size = 1 := by
  have hcode : character.val ≤ 127 := by
    simp only [isLowerHex, Char.isDigit, Bool.or_eq_true, Bool.and_eq_true, decide_eq_true_eq] at h
    cases h with
    | inl hdigit =>
      have hnine : character.val ≤ 57 := hdigit.2
      exact UInt32.le_trans hnine (by decide)
    | inr hletter =>
      have hf : character.val ≤ 102 := hletter.2
      exact UInt32.le_trans hf (by decide)
  exact Char.utf8Size_eq_one_iff.mpr hcode

theorem len_of_lowerHex {token : Text} (h : ∀ digit ∈ token, isLowerHex digit = true) :
    byteLength token = token.length := by
  induction token with
  | nil => rfl
  | cons digit rest ih =>
    have hdigit := utf8Size_of_lowerHex (h digit List.mem_cons_self)
    have hrest := ih fun other hother => h other (List.mem_cons_of_mem digit hother)
    rw [len_cons, hdigit, hrest, List.length_cons]
    omega

/-- A well-formed name is cut before its dash. -/
theorem parse_of_wellFormed {containerName slug : Text} (h : WellFormed containerName slug) :
    parseSquadTaskSlug containerName = .ok (some slug) := by
  obtain ⟨hslug, token, hname, hlength, hhex⟩ := h
  have htoken : byteLength ('-' :: token) = 9 := by
    rw [len_dash, len_of_lowerHex hhex, hlength, squadUniqueHexLen]
  have hrest : byteLength (slug ++ '-' :: token) = byteLength slug + 9 := by
    rw [len_append, htoken]
  have hlong : ¬ byteLength (slug ++ '-' :: token) ≤ squadUniqueHexLen := by
    rw [hrest, squadUniqueHexLen]
    omega
  have hcut : cutAt Char.utf8Size (slug ++ '-' :: token)
      (byteLength (slug ++ '-' :: token) - squadUniqueHexLen - 1) = some (slug, '-' :: token) := by
    have hoffset : byteLength slug = byteLength (slug ++ '-' :: token) - squadUniqueHexLen - 1 := by
      rw [hrest, squadUniqueHexLen]
      omega
    exact cut_eq_some.mpr ⟨rfl, hoffset⟩
  have hall : token.all isLowerHex = true := List.all_eq_true.mpr hhex
  rw [parseSquadTaskSlug, hname, stripPrefix_append]
  simp only [if_neg hlong, hcut]
  simp [hall, hslug]

/-- A slug is found only before a dash and eight digits. -/
theorem wellFormed_of_parse {containerName slug : Text}
    (h : parseSquadTaskSlug containerName = .ok (some slug)) : WellFormed containerName slug := by
  unfold parseSquadTaskSlug at h
  cases hstrip : stripPrefix squadNamePrefix containerName with
  | none => simp [hstrip] at h
  | some rest =>
    have hname := stripPrefix_eq_some.mp hstrip
    rw [hstrip] at h
    dsimp only at h
    split at h
    · cases h
    · rename_i hlong
      split at h
      · cases h
      · cases h
      · rename_i front first tailChars hcut
        split at h
        · cases h
        · rename_i hfirst
          split at h
          · cases h
          · rename_i hall
            split at h
            · cases h
            · rename_i hslug
              have hfound : front = slug := Option.some.inj (Except.ok.inj h)
              have hdash : first = '-' := by simpa using hfirst
              have hhex : ∀ digit ∈ tailChars, isLowerHex digit = true := by simpa using hall
              obtain ⟨hrest, hfront⟩ := cut_eq_some.mp hcut
              have htail := len_of_lowerHex hhex
              have htotal : byteLength rest = byteLength front + (byteLength tailChars + 1) := by
                rw [hrest, hdash, len_append, len_dash]
              have hlength : tailChars.length = squadUniqueHexLen := by
                rw [squadUniqueHexLen] at hlong hfront ⊢
                omega
              have hwhole : containerName = squadNamePrefix ++ (front ++ '-' :: tailChars) := by
                rw [hname, hrest, hdash]
              rw [← hfound]
              exact ⟨hslug, tailChars, hwhole, hlength, hhex⟩

/-- The reader panics exactly when it cuts inside a character. -/
theorem parse_returns_iff (containerName : Text) :
    (∃ result, parseSquadTaskSlug containerName = .ok result) ↔
      CutsBetweenCharacters containerName := by
  cases hstrip : stripPrefix squadNamePrefix containerName with
  | none =>
    have hreturns : parseSquadTaskSlug containerName = .ok none := by
      simp [parseSquadTaskSlug, hstrip]
    have hcuts : CutsBetweenCharacters containerName := by
      intro rest hname
      have hsome := stripPrefix_eq_some.mpr hname
      rw [hstrip] at hsome
      cases hsome
    exact ⟨fun _ => hcuts, fun _ => ⟨none, hreturns⟩⟩
  | some rest =>
    have hname := stripPrefix_eq_some.mp hstrip
    by_cases hlong : byteLength rest ≤ squadUniqueHexLen
    · have hreturns : parseSquadTaskSlug containerName = .ok none := by
        simp [parseSquadTaskSlug, hstrip, hlong]
      have hcuts : CutsBetweenCharacters containerName := by
        intro other hother hlonger
        have heq : rest = other := List.append_cancel_left (hname.symm.trans hother)
        rw [← heq] at hlonger
        omega
      exact ⟨fun _ => hcuts, fun _ => ⟨none, hreturns⟩⟩
    · cases hcut : cutAt Char.utf8Size rest (byteLength rest - squadUniqueHexLen - 1) with
      | none =>
        have hno := cut_eq_none.mp hcut
        constructor
        · intro h
          obtain ⟨result, hresult⟩ := h
          simp [parseSquadTaskSlug, hstrip, hlong, hcut] at hresult
        · intro h
          obtain ⟨front, back, hrest, hback⟩ := h rest hname (by omega)
          have htotal : byteLength rest = byteLength front + byteLength back := by rw [hrest, len_append]
          have hoffset : byteLength front = byteLength rest - squadUniqueHexLen - 1 := by omega
          exact absurd hoffset (hno front back hrest)
      | some parts =>
        obtain ⟨slug, tail⟩ := parts
        obtain ⟨hrest, hfront⟩ := cut_eq_some.mp hcut
        have hreturns : ∃ result, parseSquadTaskSlug containerName = .ok result := by
          unfold parseSquadTaskSlug
          rw [hstrip]
          dsimp only
          rw [if_neg hlong, hcut]
          cases tail with
          | nil => exact ⟨none, rfl⟩
          | cons first tailChars =>
            dsimp only
            split_ifs
            all_goals exact ⟨_, rfl⟩
        have hcuts : CutsBetweenCharacters containerName := by
          intro other hother hlonger
          have heq : rest = other := List.append_cancel_left (hname.symm.trans hother)
          have htotal : byteLength rest = byteLength slug + byteLength tail := by rw [hrest, len_append]
          have htail : byteLength tail = squadUniqueHexLen + 1 := by omega
          rw [← heq]
          exact ⟨slug, tail, hrest, htail⟩
        exact ⟨fun _ => hcuts, fun _ => hreturns⟩

theorem isLowerHex_digitChar (number : Nat) : isLowerHex (Nat.digitChar (number % 16)) = true := by
  have hsmall : ∀ digit < 16, isLowerHex (Nat.digitChar digit) = true := by decide
  exact hsmall (number % 16) (Nat.mod_lt number (by omega))

/-- A name generated for a valid slug is well formed. -/
theorem GeneratedFor.wellFormed {containerName slug : Text} (h : GeneratedFor containerName slug) :
    WellFormed containerName slug := by
  obtain ⟨⟨debug, hvalid⟩, uuid, hname⟩ := h
  have hslug : slug ≠ [] := by
    intro hempty
    rw [hempty] at hvalid
    cases hvalid
  refine ⟨hslug, uuid.simple.take squadUniqueHexLen, ?_, ?_, ?_⟩
  · rw [hname, generateSquadContainerName, List.append_assoc]
  · simp [Uuid.simple, squadUniqueHexLen]
  · intro digit hdigit
    have hmem := List.mem_of_mem_take hdigit
    obtain ⟨index, -, hindex⟩ := List.mem_map.mp hmem
    rw [← hindex]
    exact isLowerHex_digitChar _

/-- The names are read back exactly when the reader does not cut inside a character. -/
theorem parsesBack_iff (containerName : Text) :
    ParsesBack containerName ↔ CutsBetweenCharacters containerName := by
  constructor
  · intro h
    exact (parse_returns_iff containerName).mp h.returns
  · intro h
    have hexact : ∀ slug, parseSquadTaskSlug containerName = .ok (some slug) ↔
        WellFormed containerName slug :=
      fun slug => ⟨wellFormed_of_parse, parse_of_wellFormed⟩
    have hgenerated : ∀ slug, GeneratedFor containerName slug →
        parseSquadTaskSlug containerName = .ok (some slug) :=
      fun slug hslug => (hexact slug).mpr hslug.wellFormed
    refine ⟨(parse_returns_iff containerName).mpr h, hexact, hgenerated, ?_⟩
    intro slug other hslug hother
    have hfirst := hgenerated slug hslug
    rw [hgenerated other hother] at hfirst
    exact (Option.some.inj (Except.ok.inj hfirst)).symm

/-- A name with a letter of two bytes in the place of slug and dash cannot be read. -/
theorem accented_panics : ¬ ParsesBack "awman-squad-é12345678".toList := by
  intro h
  obtain ⟨result, hresult⟩ := h.returns
  have hpanics : parseSquadTaskSlug "awman-squad-é12345678".toList =
      .error "failed to slice string" := by decide
  rw [hpanics] at hresult
  cases hresult

end Awman.Naming
