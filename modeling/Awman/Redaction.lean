import Awman.Library.Replacement
import Awman.Library.TextCuts
import Awman.Library.Utf8Text

/-!
# Redacting secrets

Every secret that enters a run is registered, and all text that leaves the run has the registered
secrets replaced by a mark.  Replacing one secret can build another one out of the mark, unless the
secrets keep clear of it.
-/

namespace Awman.Redaction

open Awman.Replacement Awman.Utf8Text
open Awman.TextCuts (byteLength)

/-- A text as its characters. -/
abbrev Text := List Char

/-- The bytes of a text. -/
def encode (text : Text) : List UInt8 := text.flatMap String.utf8EncodeChar

/-- What a secret is replaced by. -/
def mark : Text := "***".toList

/-- Shorter secrets are not registered. -/
def minLen : Nat := 1

/-- Register a secret, with the longest in front. -/
def add (secrets : List Text) (secret : Text) : List Text :=
  if secret.length < minLen then secrets
  else if secrets.any (· == secret) then secrets
  else (secrets ++ [secret]).mergeSort fun first second => byteLength second ≤ byteLength first

/-- The secrets registered after some calls. -/
def register (added : List Text) : List Text := added.foldl add []

/-- Replace every occurrence of a registered secret by the mark. -/
def redact (secrets : List Text) (text : Text) : Text :=
  secrets.foldl (fun out secret =>
    if secret <:+: out then replaceAll secret mark out else out) text

/-- Replace every occurrence of some bytes. -/
def replaceBytes (haystack needle replacement : List UInt8) : List UInt8 :=
  if needle = [] ∨ haystack.length < needle.length then haystack
  else replaceAll needle replacement haystack

/-- Redact output that may not be UTF-8. -/
def redactBytes (secrets : List Text) (bytes : List UInt8) : List UInt8 :=
  secrets.foldl (fun out secret => replaceBytes out (encode secret) (encode mark)) bytes

/-- A text is redacted completely: no secret is left in it, redacting it again changes nothing, and
the same is done to its bytes. -/
structure Complete (added : List Text) (text : Text) : Prop where
  hidden : ∀ secret ∈ added, secret ≠ [] → ¬ secret <:+: redact (register added) text
  idempotent : redact (register added) (redact (register added) text) =
    redact (register added) text
  bytes : redactBytes (register added) (encode text) = encode (redact (register added) text)

/-! ## The registered secrets -/

section Registering

variable {secrets added : List Text} {secret text : Text}

theorem mem_add : text ∈ add secrets secret ↔ text ∈ secrets ∨ (text = secret ∧ secret ≠ []) := by
  unfold add minLen
  split
  · rename_i hshort
    have hempty : secret = [] := List.length_eq_zero_iff.mp (by omega)
    simp [hempty]
  · rename_i hlong
    have hne : secret ≠ [] := by
      intro hempty
      rw [hempty] at hlong
      exact hlong (by decide)
    split
    · rename_i hany
      have hmem : secret ∈ secrets := by simpa using hany
      constructor
      · exact Or.inl
      · intro h
        cases h with
        | inl hin => exact hin
        | inr heq =>
          rw [heq.1]
          exact hmem
    · rw [List.mem_mergeSort, List.mem_append, List.mem_singleton]
      simp [hne]

/-- Every secret that is not empty is registered, in whatever order they come. -/
theorem mem_register : secret ∈ register added ↔ secret ∈ added ∧ secret ≠ [] := by
  have hfold : ∀ secrets, secret ∈ added.foldl add secrets ↔
      secret ∈ secrets ∨ (secret ∈ added ∧ secret ≠ []) := by
    induction added with
    | nil => simp
    | cons first rest ih =>
      intro secrets
      rw [List.foldl_cons, ih, mem_add, List.mem_cons]
      constructor
      · intro h
        cases h with
        | inl hin =>
          cases hin with
          | inl hbefore => exact Or.inl hbefore
          | inr hfirst => exact Or.inr ⟨Or.inl hfirst.1, by rw [hfirst.1]; exact hfirst.2⟩
        | inr hrest => exact Or.inr ⟨Or.inr hrest.1, hrest.2⟩
      · intro h
        cases h with
        | inl hbefore => exact Or.inl (Or.inl hbefore)
        | inr hin =>
          cases hin.1 with
          | inl hfirst => exact Or.inl (Or.inr ⟨hfirst, by rw [← hfirst]; exact hin.2⟩)
          | inr hrest => exact Or.inr ⟨hrest, hin.2⟩
  rw [register, hfold]
  simp

theorem redact_eq_replaceEach (secrets : List Text) (text : Text) :
    redact secrets text = replaceEach mark secrets text := by
  have hstep : (fun out secret => if secret <:+: out then replaceAll secret mark out else out) =
      fun out secret => replaceAll secret mark out := by
    funext out secret
    split
    · rfl
    · rename_i hnone
      rw [replaceAll_eq_self hnone]
  rw [redact, hstep, replaceEach]

end Registering

/-! ## Texts and their bytes -/

theorem continuation_of_tail (character : Char) :
    ∀ byte ∈ (String.utf8EncodeChar character).tail, 0x80 ≤ byte.toNat ∧ byte.toNat < 0xC0 := by
  intro byte hmem
  unfold String.utf8EncodeChar at hmem
  dsimp only at hmem
  have hbound : ∀ number, number % 0x40 + 0x80 < 0x100 := fun number => by omega
  split at hmem
  · cases hmem
  · split at hmem
    · simp only [List.tail_cons, List.mem_singleton] at hmem
      rw [hmem, toNat_ofNat_byte (hbound _)]
      omega
    · split at hmem
      · simp only [List.tail_cons, List.mem_cons, List.not_mem_nil, or_false] at hmem
        cases hmem with
        | inl h | inr h => rw [h, toNat_ofNat_byte (hbound _)]; omega
      · simp only [List.tail_cons, List.mem_cons, List.not_mem_nil, or_false] at hmem
        cases hmem with
        | inl h => rw [h, toNat_ofNat_byte (hbound _)]; omega
        | inr h =>
          cases h with
          | inl h | inr h => rw [h, toNat_ofNat_byte (hbound _)]; omega

/-- UTF-8 is read from the first byte of any character. -/
theorem utf8_synchronizing : Synchronizing String.utf8EncodeChar where
  ne_nil := fun character => by
    intro hempty
    have hdecode := decodeFrom_utf8EncodeChar character []
    rw [hempty] at hdecode
    cases hdecode
  inner := by
    intro character other byte hmem hhead
    have hrange := continuation_of_tail character byte hmem
    cases hother : String.utf8EncodeChar other with
    | nil =>
      rw [hother] at hhead
      cases hhead
    | cons first rest =>
      rw [hother, List.head?_cons, Option.some.injEq] at hhead
      have hdecode := decodeFrom_utf8EncodeChar other []
      -- A continuation byte starts nothing that can be read.
      have hstart : start byte = .done none := by
        unfold start
        simp only [UInt8.lt_iff_toNat_lt, UInt8.le_iff_toNat_le, ← UInt8.toNat_inj,
          UInt8.reduceToNat]
        grind
      rw [hother, hhead, List.append_nil] at hdecode
      change decodeFrom (byte :: rest) none = [some other] at hdecode
      rw [decodeFrom, hstart] at hdecode
      cases hdecode
  unique := by
    intro first second front back heq
    have hfirst := decodeFrom_utf8EncodeChar first front
    rw [heq, decodeFrom_utf8EncodeChar, List.cons.injEq, Option.some.injEq] at hfirst
    exact hfirst.1.symm

theorem replaceBytes_eq_replaceAll {haystack needle replacement : List UInt8} (hne : needle ≠ []) :
    replaceBytes haystack needle replacement = replaceAll needle replacement haystack := by
  unfold replaceBytes
  split
  · rename_i hshort
    cases hshort with
    | inl hempty => exact absurd hempty hne
    | inr hlength =>
      rw [replaceAll_eq_self]
      intro hinside
      have hle := hinside.length_le
      omega
  · rfl

/-- Redacting the bytes of a text is redacting the text. -/
theorem redactBytes_encode {secrets : List Text} (hsecrets : ∀ secret ∈ secrets, secret ≠ [])
    (text : Text) : redactBytes secrets (encode text) = encode (redact secrets text) := by
  rw [redact_eq_replaceEach]
  induction secrets generalizing text with
  | nil => rfl
  | cons secret rest ih =>
    have hne := hsecrets secret (List.mem_cons_self ..)
    have hstep : replaceBytes (encode text) (encode secret) (encode mark) =
        encode (replaceAll secret mark text) := by
      have hencoded : encode secret ≠ [] := utf8_synchronizing.flatMap_ne_nil hne
      rw [replaceBytes_eq_replaceAll hencoded]
      exact utf8_synchronizing.replaceAll_flatMap hne text
    rw [redactBytes, List.foldl_cons, hstep, replaceEach, List.foldl_cons]
    exact ih (fun later hmem => hsecrets later (List.mem_cons_of_mem _ hmem)) _

/-! ## Secrets that keep clear of the mark -/

theorem mem_mark {character : Char} : character ∈ mark ↔ character = '*' := by
  have hmark : mark = ['*', '*', '*'] := rfl
  simp [hmark]

/-- Secrets that keep clear of the mark are redacted completely. -/
theorem complete_of_clear {added : List Text} (clear : ∀ secret ∈ added, secret ≠ [] → Clear mark secret)
    (text : Text) :
    Complete added text := by
  have hne : ∀ secret ∈ register added, secret ≠ [] := fun secret hmem => (mem_register.mp hmem).2
  have hclear : ∀ secret ∈ register added, Clear mark secret := by
    intro secret hmem
    have hadded := mem_register.mp hmem
    exact clear secret hadded.1 hadded.2
  have hgone : ∀ secret ∈ register added, ¬ secret <:+: redact (register added) text := by
    rw [redact_eq_replaceEach]
    exact replaceEach_gone hne hclear
  refine ⟨?_, ?_, redactBytes_encode hne text⟩
  · intro secret hmem hsecret
    exact hgone secret (mem_register.mpr ⟨hmem, hsecret⟩)
  · rw [redact_eq_replaceEach _ (redact (register added) text)]
    exact replaceEach_eq_self hgone

section Single

variable {secret front back : Text}

section

variable (hne : secret ≠ [])
include hne

theorem redact_single (text : Text) : redact (register [secret]) text = replaceAll secret mark text := by
  have hregister : register [secret] = [secret] := by
    have hlength : ¬ secret.length < minLen := by
      have hpositive := List.length_pos_iff.mpr hne
      unfold minLen
      omega
    simp [register, add, hlength]
  rw [hregister, redact_eq_replaceEach]
  rfl

/-- A secret that a redacted text contains between two parts of it is not hidden. -/
theorem not_complete_of_first (hback : back.length < secret.length)
    (hfirst : ∀ before after, front = before ++ after → after ≠ [] →
      ¬ secret <+: after ++ (secret ++ back))
    (hinside : secret <:+: front ++ (mark ++ back)) :
    ¬ Complete [secret] (front ++ (secret ++ back)) := by
  intro complete
  have hkeep : replaceAll secret mark back = back := by
    rw [replaceAll_eq_self]
    intro hin
    have hle := hin.length_le
    omega
  have hhidden := complete.hidden secret (List.mem_singleton_self _) hne
  rw [redact_single hne, replaceAll_append front hfirst, replaceAll_append_pattern hne, hkeep]
    at hhidden
  exact hhidden hinside

/-- A secret that begins in the mark comes up at the end of it. -/
theorem not_complete_of_head (hhead : secret.head hne ∈ mark) :
    ¬ Complete [secret] (secret ++ secret.tail) := by
  have hpositive := List.length_pos_iff.mpr hne
  have hinside : secret <:+: [] ++ (mark ++ secret.tail) := by
    refine ⟨['*', '*'], [], ?_⟩
    have hsecret := List.cons_head_tail hne
    rw [mem_mark.mp hhead] at hsecret
    rw [List.append_nil, ← hsecret]
    rfl
  refine not_complete_of_first hne ?_ ?_ hinside
  · rw [List.length_tail]
    omega
  · intro before after hempty hafter
    exact absurd (List.append_eq_nil_iff.mp hempty.symm).2 hafter

/-- A secret that ends in the mark comes up at the beginning of it. -/
theorem not_complete_of_last (hhead : secret.head hne ∉ mark) (hlast : secret.getLast hne ∈ mark) :
    ¬ Complete [secret] (secret.dropLast ++ secret) := by
  have hstar := mem_mark.mp hlast
  have hsecret := List.dropLast_append_getLast hne
  rw [hstar] at hsecret
  have hinside : secret <:+: secret.dropLast ++ (mark ++ []) := by
    refine ⟨[], ['*', '*'], ?_⟩
    rw [List.nil_append]
    nth_rewrite 1 [← hsecret]
    rw [List.append_assoc]
    rfl
  have hfirst : ∀ before after, secret.dropLast = before ++ after → after ≠ [] →
      ¬ secret <+: after ++ (secret ++ []) := by
    intro before after hinit hafter hoccurs
    obtain ⟨beyond, hbeyond⟩ := hoccurs
    rw [List.append_nil] at hbeyond
    have hparts : secret = before ++ after ++ ['*'] := by rw [← hinit, hsecret]
    have hlength : secret.length = before.length + after.length + 1 := by
      rw [hparts, List.length_append, List.length_append, List.length_singleton]
    have hafterLength := List.length_pos_iff.mpr hafter
    -- The secret starts like the part before the second copy, which is inside the first one.
    have hstart : secret[0]? = after[0]? := by
      have hget : (secret ++ beyond)[0]? = (after ++ secret)[0]? := by rw [hbeyond]
      rw [List.getElem?_append_left (by omega), List.getElem?_append_left hafterLength] at hget
      exact hget
    have hcopy : secret[before.length]? = after[0]? := by
      rw [hparts, List.append_assoc, List.getElem?_append_right (Nat.le_refl _), Nat.sub_self,
        List.getElem?_append_left hafterLength]
    -- The last character of the first copy is inside the second one.
    have hend : secret[before.length]? = some '*' := by
      have hget : (secret ++ beyond)[before.length + after.length]? =
          (after ++ secret)[before.length + after.length]? := by rw [hbeyond]
      rw [List.getElem?_append_left (by omega), List.getElem?_append_right (by omega),
        Nat.add_sub_cancel] at hget
      rw [← hget]
      nth_rewrite 1 [hparts]
      rw [List.getElem?_append_right (by rw [List.length_append]), List.length_append, Nat.sub_self]
      rfl
    have hheadStar : secret.head? = some '*' := by
      rw [List.head?_eq_getElem?, hstart, ← hcopy, hend]
    rw [List.head?_eq_some_head hne, Option.some.injEq] at hheadStar
    exact hhead (mem_mark.mpr hheadStar)
  have hpositive := List.length_pos_iff.mpr hne
  have hnot := not_complete_of_first hne (by simpa using hpositive) hfirst hinside
  rw [List.append_nil] at hnot
  exact hnot

/-- A secret that contains the mark comes up around it. -/
theorem not_complete_of_contains (hhead : secret.head hne ∉ mark) (hcontains : mark <:+: secret) :
    ∃ text, ¬ Complete [secret] text := by
  -- In front of the first mark there is another character.
  obtain ⟨front, back, hparts, hnone⟩ := exists_first hcontains
  have hlast : ∀ character ∈ front.getLast?, character ∉ mark := by
    intro character hcharacter hmem
    rw [mem_mark] at hmem
    rw [hmem] at hcharacter
    obtain ⟨init, hinit⟩ := List.getLast?_eq_some_iff.mp hcharacter
    exact hnone init ['*'] hinit (List.cons_ne_nil _ _) ⟨'*' :: back, rfl⟩
  have hlength : secret.length = front.length + (3 + back.length) := by
    rw [hparts, List.length_append, List.length_append]
    rfl
  have hfront : front ≠ [] := by
    intro hempty
    have hstar : secret.head? = some '*' := by
      rw [hparts, hempty]
      rfl
    rw [List.head?_eq_some_head hne, Option.some.injEq] at hstar
    exact hhead (mem_mark.mpr hstar)
  refine ⟨front ++ (secret ++ back), not_complete_of_first hne (by omega) ?_ ?_⟩
  · intro before after hbefore hafter hoccurs
    have hmark : mark <+: after ++ (mark ++ (back ++ back)) := by
      obtain ⟨beyond, hbeyond⟩ := hoccurs
      have hdrop := congrArg (List.drop front.length) hbeyond
      have hright : after ++ (secret ++ back) =
          (after ++ before) ++ (after ++ (mark ++ (back ++ back))) := by
        rw [hparts, hbefore]
        simp
      have hcount : front.length = (after ++ before).length := by
        rw [hbefore, List.length_append, List.length_append, Nat.add_comm]
      rw [hright, hparts, List.append_assoc, List.drop_left, hcount, List.drop_left] at hdrop
      exact ⟨back ++ beyond, by rw [← hdrop, List.append_assoc]⟩
    obtain ⟨beyond, hbeyond⟩ := hmark
    cases List.append_eq_append_iff.mp hbeyond with
    | inl hlonger =>
      obtain ⟨others, hothers, -⟩ := hlonger
      refine hnone before after hbefore hafter ?_
      rw [hothers, List.append_assoc]
      exact List.prefix_append _ _
    | inr hshorter =>
      obtain ⟨others, hothers, -⟩ := hshorter
      have hend : front.getLast? = some (after.getLast hafter) := by
        rw [hbefore, List.getLast?_append_of_ne_nil _ hafter, List.getLast?_eq_some_getLast hafter]
      refine hlast _ hend ?_
      rw [hothers]
      exact List.mem_append_left _ (List.getLast_mem hafter)
  · rw [hparts]

end

end Single

/-- A secret that does not keep clear of the mark is not hidden in every text. -/
theorem exists_not_complete {secret : Text} (hne : secret ≠ []) (h : ¬ Clear mark secret) :
    ∃ text, ¬ Complete [secret] text := by
  by_cases hhead : secret.head hne ∈ mark
  · exact ⟨_, not_complete_of_head hne hhead⟩
  · by_cases hlast : secret.getLast hne ∈ mark
    · exact ⟨_, not_complete_of_last hne hhead hlast⟩
    · refine not_complete_of_contains hne hhead ?_
      by_contra hcontains
      refine h ⟨?_, ?_, hcontains⟩
      · intro character hmem
        rw [List.head?_eq_some_head hne, Option.mem_some_iff] at hmem
        rw [← hmem]
        exact hhead
      · intro character hmem
        rw [List.getLast?_eq_some_getLast hne, Option.mem_some_iff] at hmem
        rw [← hmem]
        exact hlast

/-- Over a pool of secrets: texts are redacted completely, whichever secrets of the pool are registered
and in whatever order, exactly when every secret of the pool keeps clear of the mark.  One list of
secrets may hide a text by luck although one of them does not. -/
theorem complete_iff_clear (pool : Text → Prop) :
    (∀ added : List Text, (∀ secret ∈ added, pool secret) → ∀ text, Complete added text) ↔
      ∀ secret, pool secret → secret ≠ [] → Clear mark secret := by
  constructor
  · intro hcomplete secret hpool hne
    by_contra hclear
    obtain ⟨text, hnot⟩ := exists_not_complete hne hclear
    refine hnot (hcomplete [secret] ?_ text)
    intro other hmem
    rw [List.mem_singleton.mp hmem]
    exact hpool
  · intro hclear added hadded text
    exact complete_of_clear (fun secret hmem hne => hclear secret (hadded secret hmem) hne) text

/-- A star is redacted to a text with three stars in it. -/
theorem star_not_hidden : ¬ ∀ added text, Complete added text := by
  intro hall
  have hcomplete := hall [['*']] ['*']
  have hhidden := hcomplete.hidden ['*'] (List.mem_singleton_self _) (List.cons_ne_nil _ _)
  rw [redact_single (List.cons_ne_nil _ _)] at hhidden
  exact hhidden ⟨[], ['*', '*'], rfl⟩

end Awman.Redaction
