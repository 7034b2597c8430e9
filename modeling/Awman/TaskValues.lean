import Awman.NumberTexts
import Awman.TaskRequests

/-!
# Values written as texts

Every value of a task request is read back from the text it is written as: numbers, pools of agents,
and the decisions about credentials.
-/

namespace Awman.Squad

open Awman.Network (trim isWhiteSpace Trimmed trimmed_trim mem_of_mem_trim trim_trim trimmed_of_forall
  not_isWhiteSpace isAlpha_eq isAlphanum_range)
open Awman.Overlay (HostPath textBytes)
open Awman.TextCuts (stripSuffix)
open Awman.Utf8Text (fromUtf8Lossy fromUtf8Lossy_encode)
open Awman.RawArgs
open Awman.TextCuts (splitOnce splitOnce_append splitOnce_eq_some)

/-! ## Numbers -/

/-- An interval is read back from its digits. -/
theorem parseSquadInterval_digits {command : List Text} {number : Nat} (hbound : number < 2 ^ 64) :
    parseSquadInterval command (Nat.toDigits 10 number) = .ok number := by
  have hrange := digits_range number
  have htrim : trim (Nat.toDigits 10 number) = Nat.toDigits 10 number := by
    apply Trimmed.trim_eq
    apply trimmed_of_forall
    intro character hmem
    have hcharacter := hrange character hmem
    exact not_isWhiteSpace (by omega)
  have hunit : ∀ unit : Char, 57 < unit.toNat →
      stripSuffix [unit] (Nat.toDigits 10 number) = none := by
    intro unit hunit
    unfold stripSuffix
    rw [if_neg]
    intro hends
    have hcharacter := hrange unit (hends.subset List.mem_cons_self)
    omega
  unfold parseSquadInterval
  simp only [htrim, hunit 's' (by decide), hunit 'm' (by decide), hunit 'h' (by decide),
    parseUnsigned_digits hbound, Nat.mul_one]
  rw [Option.filter_some, if_pos (by simpa using hbound)]

/-! ## Pools -/

variable {separator : Char} {debug : Text → String} {raw : Text}

/-- Models that a spec can list: each once, without commas and outer blanks. -/
def WrittenModels (models : List Text) : Prop :=
  models.Nodup ∧ ∀ model ∈ models, trim model = model ∧ ',' ∉ model

theorem addModels_eq {models entry : List Text} (hwritten : ∀ model ∈ models,
    trim model = model ∧ model ≠ []) (hnodup : (entry ++ models).Nodup) :
    addModels models entry = entry ++ models := by
  unfold addModels
  induction models generalizing entry with
  | nil => simp
  | cons model rest ih =>
    obtain ⟨htrim, hnonempty⟩ := hwritten model List.mem_cons_self
    have hnew : model ∉ entry := by
      intro hmem
      rw [List.nodup_append] at hnodup
      exact hnodup.2.2 model hmem model List.mem_cons_self rfl
    rw [List.foldl_cons, htrim, if_neg (by simp [hnonempty, hnew])]
    have hmoved : entry ++ model :: rest = entry ++ [model] ++ rest := by simp
    rw [hmoved] at hnodup ⊢
    exact ih (fun other hother => hwritten other (List.mem_cons_of_mem model hother)) hnodup

theorem isAgentName_spec {agent : Text} (hagent : isAgentName agent = true) :
    agent ≠ [] ∧ (∀ character ∈ agent, isWhiteSpace character = false) ∧ '=' ∉ agent := by
  unfold isAgentName at hagent
  rw [Bool.and_eq_true, Bool.and_eq_true, List.all_eq_true] at hagent
  obtain ⟨⟨hnonempty, -⟩, hall⟩ := hagent
  have hcharacter : ∀ character ∈ agent, isWhiteSpace character = false ∧ character ≠ '=' := by
    intro character hmem
    have hkind := hall character hmem
    simp only [Bool.or_eq_true, beq_iff_eq] at hkind
    rcases hkind with (halphanum | hdash) | hunderscore
    · have hrange := isAlphanum_range halphanum
      refine ⟨not_isWhiteSpace (by omega), ?_⟩
      rintro rfl
      exact absurd hrange (by decide)
    · rw [hdash]
      decide
    · rw [hunderscore]
      decide
  refine ⟨by simpa using hnonempty, fun character hmem => (hcharacter character hmem).1, ?_⟩
  intro hmem
  exact (hcharacter '=' hmem).2 rfl

/-- An agent with its models, as a pool holds them, can be written as a spec. -/
structure WrittenEntry (entry : Text × List Text) : Prop where
  agent : isAgentName entry.1 = true
  /-- There are models, none of them blank. -/
  models : entry.2 ≠ [] ∧ ∀ model ∈ entry.2, (trim model).isEmpty = false
  /-- The models can be listed. -/
  written : WrittenModels entry.2

theorem getLast?_intercalate {parts : List Text} {last : Text} (hlast : parts.getLast? = some last)
    (hnonempty : last ≠ []) :
    (List.intercalate [separator] parts).getLast? = last.getLast? := by
  induction parts with
  | nil => cases hlast
  | cons part rest ih =>
    cases rest with
    | nil =>
      have hsame : part = last := Option.some.inj hlast
      rw [hsame, List.intercalate_singleton]
    | cons next others =>
      have hrest := ih hlast
      have hend : (List.intercalate [separator] (next :: others)).getLast? ≠ none := by
        rw [hrest]
        simpa using hnonempty
      rw [List.intercalate_cons_cons, List.getLast?_append_of_ne_nil, hrest]
      simpa using hend

/-- A spec is read back as the entry it was written from. -/
theorem addAgentModelsSpec_eq {pool : AgentPool} {agent : Text} {models : List Text}
    (hentry : WrittenEntry (agent, models)) :
    addAgentModelsSpec debug pool (agent ++ '=' :: List.intercalate [','] models) =
      .ok (pool.upsert agent fun entry => addModels models (entry.getD [])) := by
  obtain ⟨hnonempty, hblank, hequals⟩ := isAgentName_spec hentry.agent
  obtain ⟨hmodels, hvisible⟩ := hentry.models
  have hagent : Trimmed agent := trimmed_of_forall hblank
  have hmodel : ∀ model ∈ models, Trimmed model ∧ model ≠ [] := by
    intro model hmem
    have htrim : trim model = model := (hentry.written.2 model hmem).1
    have hvisible := hvisible model hmem
    rw [htrim] at hvisible
    refine ⟨?_, by simpa using hvisible⟩
    rw [← htrim]
    exact trimmed_trim model
  have hspec : Trimmed (agent ++ '=' :: List.intercalate [','] models) := by
    constructor
    · intro character hhead
      rw [List.head?_append_of_ne_nil _ hnonempty] at hhead
      exact hagent.1 character hhead
    · intro character hlast
      obtain ⟨last, hfinal⟩ := Option.ne_none_iff_exists'.mp
        (show models.getLast? ≠ none by simpa using hmodels)
      obtain ⟨hlastTrimmed, hlastNonempty⟩ := hmodel last (List.mem_of_mem_getLast? hfinal)
      have hlist : (List.intercalate [','] models).getLast? = last.getLast? :=
        getLast?_intercalate hfinal hlastNonempty
      have hlistNonempty : List.intercalate [','] models ≠ [] := by
        intro hempty
        rw [hempty] at hlist
        simp [eq_comm] at hlist
        exact hlastNonempty hlist
      rw [List.getLast?_append_of_ne_nil _ (by simp),
        List.getLast?_cons_of_ne_nil hlistNonempty, hlist] at hlast
      exact hlastTrimmed.2 character hlast
  have hsplit : (List.intercalate [','] models).splitOn ',' = models :=
    List.splitOn_intercalate ',' (fun model hmem => (hentry.written.2 model hmem).2) hmodels
  unfold addAgentModelsSpec
  rw [hspec.trim_eq]
  simp only [splitOnce_append hequals, hagent.trim_eq, hsplit]
  rw [if_neg (by simp), if_neg (by simpa using hnonempty)]

/-- The specs of the entries behind those of a pool add exactly these entries. -/
theorem foldlM_addAgentModelsSpec {entries : List (Text × List Text)}
    (hentries : ∀ entry ∈ entries, WrittenEntry entry) (pool : AgentPool)
    (hsorted : ((pool.entries ++ entries).map Prod.fst).Pairwise (· < ·)) :
    (entries.map fun (agent, models) => agent ++ '=' :: List.intercalate [','] models).foldlM
      (addAgentModelsSpec debug) pool = .ok ⟨pool.entries ++ entries, hsorted⟩ := by
  induction entries generalizing pool with
  | nil =>
    have hsame : pool = ⟨pool.entries ++ [], hsorted⟩ := by
      ext1
      simp
    rw [List.map_nil, List.foldlM_nil, ← hsame]
    rfl
  | cons entry rest ih =>
    obtain ⟨agent, models⟩ := entry
    have hentry := hentries (agent, models) List.mem_cons_self
    have hmodels : addModels models [] = models := by
      have hadded := @addModels_eq models [] (fun model hmem => ⟨(hentry.written.2 model hmem).1, by
        have hvisible := hentry.models.2 model hmem
        rw [(hentry.written.2 model hmem).1] at hvisible
        simpa using hvisible⟩) hentry.written.1
      exact hadded
    have hlater : ∀ other ∈ pool.entries, other.1 < agent := by
      intro other hother
      rw [List.map_append, List.pairwise_append] at hsorted
      exact hsorted.2.2 other.1 (List.mem_map_of_mem hother) agent (by simp)
    have hnext : (pool.upsert agent fun entry => addModels models (entry.getD [])).entries =
        pool.entries ++ [(agent, models)] := by
      rw [SortedMap.entries_upsert, SortedMap.upsertEntries_eq_append _ hlater, Option.getD_none,
        hmodels]
    have hmoved : pool.entries ++ (agent, models) :: rest =
        (pool.upsert agent fun entry => addModels models (entry.getD [])).entries ++ rest := by
      rw [hnext, List.append_assoc]
      rfl
    rw [List.map_cons, List.foldlM_cons, addAgentModelsSpec_eq hentry]
    have hrest := ih (fun other hother => hentries other (List.mem_cons_of_mem _ hother))
      (pool.upsert agent fun entry => addModels models (entry.getD [])) (by rwa [← hmoved])
    refine Eq.trans hrest ?_
    congr 1
    ext1
    exact hmoved.symm

/-- A pool is read back from its specs. -/
theorem parseAgentModelsSpecs_format {pool : AgentPool}
    (hpool : ∀ entry ∈ pool.entries, WrittenEntry entry) :
    parseAgentModelsSpecs debug (formatAgentModelsSpecs pool) = .ok pool := by
  have hread := @foldlM_addAgentModelsSpec debug pool.entries hpool SortedMap.empty pool.increasing
  exact hread

/-! ## Decisions about credentials -/

/-- What the identity flag is read as. -/
theorem parseIdentity_cases {identity : IdentityFlag} (hread : parseIdentity raw = .ok identity) :
    identity = .host ∨ identity = .deny ∨ ∃ name email, identity = .fixed name email ∧
      Trimmed name ∧ Trimmed email ∧ '<' ∉ name ∧ validateIdentity name email = .ok () := by
  unfold parseIdentity at hread
  dsimp only at hread
  split_ifs at hread with hhost hdeny
  · cases hread
    exact .inl rfl
  · cases hread
    exact .inr (.inl rfl)
  · cases hsplit : splitOnce '<' (trim raw) with
    | none =>
      rw [hsplit] at hread
      cases hread
    | some parts =>
      obtain ⟨name, rest⟩ := parts
      rw [hsplit] at hread
      dsimp only at hread
      cases hsuffix : stripSuffix ['>'] rest with
      | none =>
        rw [hsuffix] at hread
        cases hread
      | some email =>
        rw [hsuffix] at hread
        dsimp only at hread
        cases hvalid : validateIdentity (trim name) (trim email) with
        | error reason =>
          rw [hvalid] at hread
          cases hread
        | ok done =>
          rw [hvalid] at hread
          cases hread
          have habsent := (splitOnce_eq_some.mp hsplit).2
          refine .inr (.inr ⟨_, _, rfl, trimmed_trim name, trimmed_trim email, ?_, hvalid⟩)
          intro hmem
          exact habsent (mem_of_mem_trim hmem)

/-- An identity is read back from the value its flag takes. -/
theorem parseIdentity_flagValue {identity : IdentityFlag} (hread : parseIdentity raw = .ok identity) :
    ∃ value, (IdentityPolicy.applyFlag identity).flagValue = some value ∧
      parseIdentity value = .ok identity := by
  rcases parseIdentity_cases hread with rfl | rfl |
    ⟨name, email, rfl, hname, hemail, habsent, hvalid⟩
  · exact ⟨"host".toList, rfl, rfl⟩
  · exact ⟨"deny".toList, rfl, rfl⟩
  · refine ⟨_, rfl, ?_⟩
    have hnonempty : name ≠ [] := by
      rintro rfl
      rw [validateIdentity, if_pos (by decide)] at hvalid
      cases hvalid
    have hvalue : name ++ " <".toList ++ email ++ ">".toList =
        (name ++ [' ']) ++ '<' :: (email ++ ['>']) := by simp
    have htrim : trim (name ++ " <".toList ++ email ++ ">".toList) =
        name ++ " <".toList ++ email ++ ">".toList := by
      apply Trimmed.trim_eq
      rw [List.append_assoc, List.append_assoc]
      constructor
      · intro character hhead
        rw [List.head?_append_of_ne_nil _ hnonempty] at hhead
        exact hname.1 character hhead
      · intro character hlast
        rw [← List.append_assoc, ← List.append_assoc, List.getLast?_append_of_ne_nil _ (by simp)]
          at hlast
        cases hlast
        decide
    have hkeyword : ∀ word : Text, '<' ∉ word →
        name ++ " <".toList ++ email ++ ">".toList ≠ word := by
      intro word hword hsame
      apply hword
      rw [← hsame]
      simp
    have hsplit : splitOnce '<' (name ++ " <".toList ++ email ++ ">".toList) =
        some (name ++ [' '], email ++ ['>']) := by
      rw [hvalue]
      exact splitOnce_append (by simp [habsent]) _
    have hsuffix : stripSuffix ['>'] (email ++ ['>']) = some email :=
      TextCuts.stripSuffix_eq_some.mpr rfl
    unfold parseIdentity
    simp only [htrim, hsplit, hsuffix, hname.trim_append_blank, hemail.trim_eq, hvalid]
    rw [if_neg (hkeyword _ (by decide)), if_neg (hkeyword _ (by decide))]
    rfl

/-- A decision about SSH keys is read back from the value its flag takes. -/
theorem parseSsh_flagValue {ssh : SshFlag} (hread : parseSsh raw = .ok ssh) :
    ∃ value, (SshPolicy.applyFlag ssh).flagValue = some value ∧ parseSsh value = .ok ssh := by
  have hread' := hread
  unfold parseSsh at hread
  dsimp only at hread
  split_ifs at hread with hempty hdeny hall
  · cases hread
    exact ⟨"deny".toList, rfl, rfl⟩
  · cases hread
    exact ⟨"all".toList, rfl, rfl⟩
  · cases hread
    refine ⟨fromUtf8Lossy (textBytes (trim raw)), rfl, ?_⟩
    have hlossy : fromUtf8Lossy (textBytes (trim raw)) = trim raw := fromUtf8Lossy_encode (trim raw)
    rw [hlossy, ← hread']
    unfold parseSsh
    rw [trim_trim]

/-- A name of a variable has no white space. -/
theorem visible_of_validEnvName {name : Text} (hvalid : validEnvName name = true) :
    ∀ character ∈ name, isWhiteSpace character = false := by
  have hupper : ∀ character : Char, (character == '_' || character.isUpper) = true →
      isWhiteSpace character = false := by
    intro character hkind
    rw [Bool.or_eq_true, beq_iff_eq] at hkind
    rcases hkind with rfl | hletter
    · decide
    · have hrange := @isAlphanum_range character (by
        simp [Char.isAlphanum, isAlpha_eq, hletter])
      exact not_isWhiteSpace (by omega)
  unfold validEnvName at hvalid
  dsimp only at hvalid
  cases name with
  | nil => cases hvalid
  | cons first rest =>
    rw [List.head?_cons, Option.any_some, List.tail_cons, Bool.and_eq_true, List.all_eq_true]
      at hvalid
    intro character hmem
    rcases List.mem_cons.mp hmem with rfl | hrest
    · exact hupper _ hvalid.1
    · have hkind := hvalid.2 character hrest
      rw [Bool.or_eq_true] at hkind
      rcases hkind with hletter | hdigit
      · exact hupper character hletter
      · have hrange := isDigit_range hdigit
        exact not_isWhiteSpace (by omega)

/-- A token is read back from the value its flag takes. -/
theorem parseToken_flagValue {debug' : Text → String} {token : TokenFlag}
    (hread : parseToken debug raw = .ok token) (hacquire : token ≠ .acquire)
    (hsecret : ∀ name, token ≠ .secret name) (policy : TokenPolicy) :
    ∃ value, (policy.applyFlag token).flagValue = some value ∧
      parseToken debug' value = .ok token := by
  cases token with
  | acquire => exact absurd rfl hacquire
  | secret name => exact absurd rfl (hsecret name)
  | deny => exact ⟨"deny".toList, rfl, rfl⟩
  | env name =>
    refine ⟨"env:".toList ++ name, rfl, ?_⟩
    have hvalid : validEnvName name = true := by
      unfold parseToken at hread
      dsimp only at hread
      split_ifs at hread with hdeny hwanted henv hname hkeyword hnone
      · cases hread
      · cases hread
      · rw [← TokenFlag.env.inj (Except.ok.inj hread)]
        exact hname
      · cases hread
    have hvisible := visible_of_validEnvName hvalid
    have htrim : trim ("env:".toList ++ name) = "env:".toList ++ name := by
      apply Trimmed.trim_eq
      apply trimmed_of_forall
      have hprefix : ("env:".toList.all fun character => !isWhiteSpace character) = true := by
        decide
      intro character hmem
      rw [List.mem_append] at hmem
      rcases hmem with hmem | hmem
      · simpa using List.all_eq_true.mp hprefix character hmem
      · exact hvisible character hmem
    unfold parseToken
    simp only [htrim]
    rw [if_neg (by simp), if_neg (by simp), if_pos (by simp), if_pos (by simpa using hvalid)]
    rfl

end Awman.Squad
