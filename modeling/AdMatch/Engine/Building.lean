import AdMatch.Engine.Correct
import AdMatch.Index.Capacity
import AdMatch.Tokens

/-!
# When a snapshot can be built

A list of campaigns is *well formed* when no campaign identifier repeats, no keyword
identifier repeats across the whole list, and its texts have at most `2 ^ 32` distinct
tokens, as many as there are numbers. A build that fails because of an identifier
names one that occurs twice (`AdMatch.checkIds_eq_error`).

The third condition is where the build falls short: it asks for a free number at every
occurrence of a token, the last one included. So it accepts exactly the well-formed
lists, and reports a full vocabulary only when there are too many tokens, save when
all numbers are in use and the last occurrence is that of a token met before
(`AdMatch.Snapshot.buildsRight_iff`, `AdMatch.not_buildsRight`).
-/

namespace AdMatch

/-! ### The identifier that an error names -/

/-- An element met before occurs twice. -/
theorem two_le_count {α : Type} [DecidableEq α] {done rest : List α} {a : α} (h : a ∈ done) :
    2 ≤ (done ++ a :: rest).count a := by
  have hpos : 0 < done.count a := List.count_pos_iff.mpr h
  rw [List.count_append, List.count_cons_self]
  omega

/-- The identifiers seen by the check of a list of campaigns. -/
theorem seen_of_checkIds {campaigns : List Campaign} {seen : Finset CampaignId × Finset KeywordId}
    (h : checkIds campaigns = .ok seen) :
    seen.1 = (campaigns.map Campaign.id).toFinset ∧
      seen.2 = ((allKeywords campaigns).map Keyword.id).toFinset := by
  obtain ⟨h₁, h₂⟩ := foldlM_checkCampaign.mp h
  rw [(Loop.foldlM_insertNew.mp h₁).2, (Loop.foldlM_insertNew.mp h₂).2, Finset.empty_union,
    Finset.empty_union]
  exact ⟨rfl, rfl⟩

/-- **The identifier that an error names occurs twice**, and no other error comes from
the check. -/
theorem checkIds_eq_error {campaigns : List Campaign} {e : BuildError}
    (h : checkIds campaigns = .error e) :
    (∃ id, e = .duplicateCampaign id ∧ 2 ≤ (campaigns.map Campaign.id).count id) ∨
      ∃ id, e = .duplicateKeyword id ∧ 2 ≤ ((allKeywords campaigns).map Keyword.id).count id := by
  obtain ⟨done, c, rest, seen, rfl, hdone, hc⟩ := Loop.foldlM_eq_error h
  obtain ⟨hseen₁, hseen₂⟩ := seen_of_checkIds hdone
  rw [checkCampaign] at hc
  split at hc
  · -- the identifier of the campaign was there
    rename_i e' he'
    rw [Loop.insertNew] at he'
    split_ifs at he' with hmem
    obtain rfl := Except.error.inj he'
    obtain rfl := Except.error.inj hc
    refine .inl ⟨c.id, rfl, ?_⟩
    rw [hseen₁, List.mem_toFinset] at hmem
    rw [List.map_append, List.map_cons]
    exact two_le_count hmem
  · split at hc
    · -- so was that of one of its keywords
      rename_i e' he'
      obtain rfl := Except.error.inj hc
      have hloop : (c.keywords.map Keyword.id).foldlM (Loop.insertNew BuildError.duplicateKeyword)
          seen.2 = .error e' := by
        rw [List.foldlM_map]
        exact he'
      obtain ⟨before, k, after, hkeys, hmem, rfl⟩ := Loop.foldlM_insertNew_eq_error hloop
      refine .inr ⟨k, rfl, ?_⟩
      rw [hseen₂, ← List.toFinset_append, List.mem_toFinset] at hmem
      rw [allKeywords, List.flatMap_append, List.flatMap_cons, List.map_append, List.map_append,
        hkeys, List.append_assoc, List.cons_append, ← List.append_assoc]
      exact two_le_count hmem
    · cases hc

section Building

variable [Unicode]

/-! ### What a build promises -/

/-- **A list of campaigns that ought to be accepted.** -/
structure WellFormed (campaigns : List Campaign) : Prop where
  campaignIds : (campaigns.map Campaign.id).Nodup
  keywordIds : ((allKeywords campaigns).map Keyword.id).Nodup
  /-- There are as many distinct tokens as a `u32` can number, or fewer. -/
  tokens : (KeywordIndex.corpusTokens campaigns).toFinset.card ≤ 2 ^ 32

/-- **What the errors of a build are documented to mean**: it accepts exactly the
well-formed lists, and each error is returned for its own reason only. -/
structure BuildsRight (campaigns : List Campaign) (cfg : EngineConfig) : Prop where
  ok_iff : (∃ snap, Snapshot.build campaigns cfg = .ok snap) ↔ WellFormed campaigns
  duplicateCampaign : ∀ id, Snapshot.build campaigns cfg = .error (.duplicateCampaign id) →
    2 ≤ (campaigns.map Campaign.id).count id
  duplicateKeyword : ∀ id, Snapshot.build campaigns cfg = .error (.duplicateKeyword id) →
    2 ≤ ((allKeywords campaigns).map Keyword.id).count id
  vocabularyFull : Snapshot.build campaigns cfg = .error .vocabularyFull →
    2 ^ 32 < (KeywordIndex.corpusTokens campaigns).toFinset.card

namespace Snapshot

/-- The last token of a list of campaigns is one that was met before. -/
def EndsInRepeat (campaigns : List Campaign) : Prop :=
  ∃ t ∈ (KeywordIndex.corpusTokens campaigns).dropLast,
    (KeywordIndex.corpusTokens campaigns).getLast? = some t

variable {campaigns : List Campaign} {cfg : EngineConfig}

/-- A repeat adds no token to those before it, and anything else adds one. -/
theorem card_corpusTokens (h : KeywordIndex.corpusTokens campaigns ≠ []) :
    (EndsInRepeat campaigns ∧ (KeywordIndex.corpusTokens campaigns).toFinset.card =
      (KeywordIndex.corpusTokens campaigns).dropLast.toFinset.card) ∨
    (¬EndsInRepeat campaigns ∧ (KeywordIndex.corpusTokens campaigns).toFinset.card =
      (KeywordIndex.corpusTokens campaigns).dropLast.toFinset.card + 1) := by
  rcases List.eq_nil_or_concat (KeywordIndex.corpusTokens campaigns) with hnil | ⟨init, t, htokens⟩
  · exact absurd hnil h
  rw [List.concat_eq_append] at htokens
  have hset : (init ++ [t]).toFinset = insert t init.toFinset := by
    ext u
    simp only [List.mem_toFinset, List.mem_append, List.mem_singleton, Finset.mem_insert]
    exact or_comm
  have hrepeat : EndsInRepeat campaigns ↔ t ∈ init := by
    rw [EndsInRepeat, htokens, List.dropLast_concat, List.getLast?_concat]
    constructor
    · rintro ⟨u, hu, heq⟩
      rwa [Option.some.inj heq]
    · exact fun ht => ⟨t, ht, rfl⟩
  rw [hrepeat, htokens, List.dropLast_concat, hset]
  by_cases ht : t ∈ init
  · exact .inl ⟨ht, by rw [Finset.insert_eq_self.mpr (List.mem_toFinset.mpr ht)]⟩
  · exact .inr ⟨ht, Finset.card_insert_of_notMem fun h => ht (List.mem_toFinset.mp h)⟩

/-- **When the numbers suffice**: there is one for every distinct token, and one to
spare if the last token was met before. -/
theorem build_index_isOk : (∃ index, KeywordIndex.build campaigns = .ok index) ↔
    (KeywordIndex.corpusTokens campaigns).toFinset.card ≤ 2 ^ 32 ∧
      ¬((KeywordIndex.corpusTokens campaigns).toFinset.card = 2 ^ 32 ∧
        EndsInRepeat campaigns) := by
  rw [KeywordIndex.build_isOk]
  by_cases hnil : KeywordIndex.corpusTokens campaigns = []
  · rw [hnil]
    exact ⟨fun _ => ⟨by simp, fun h => absurd h.1 (by simp)⟩, fun _ => by simp⟩
  · rcases card_corpusTokens hnil with ⟨hrepeat, hcard⟩ | ⟨hrepeat, hcard⟩
    · simp only [hrepeat, hcard, and_true]
      omega
    · simp only [hrepeat, hcard, and_false, not_false_eq_true, and_true]
      omega

/-- **Where the errors of a build come from.** -/
theorem build_eq_error {e : BuildError} (h : build campaigns cfg = .error e) :
    checkIds campaigns = .error e ∨ (∃ seen, checkIds campaigns = .ok seen) ∧
      (¬∃ index, KeywordIndex.build campaigns = .ok index) ∧ e = .vocabularyFull := by
  have hmap := map_index_build (fun _ => ()) campaigns cfg
  rw [h] at hmap
  split at hmap
  · rename_i e' hids
    rw [hids, Except.error.inj hmap]
    exact .inl rfl
  · rename_i seen hids
    split at hmap
    · rename_i e' hindex
      refine .inr ⟨⟨seen, hids⟩, ?_, Except.error.inj hmap⟩
      rintro ⟨index, hok⟩
      rw [hok] at hindex
      cases hindex
    · cases hmap

/-- **Exactly when a build keeps its promises**: not when the identifiers are
distinct, all numbers are in use, and the last token is one met before. -/
theorem buildsRight_iff (campaigns : List Campaign) (cfg : EngineConfig) :
    BuildsRight campaigns cfg ↔
      ¬((campaigns.map Campaign.id).Nodup ∧ ((allKeywords campaigns).map Keyword.id).Nodup ∧
        (KeywordIndex.corpusTokens campaigns).toFinset.card = 2 ^ 32 ∧
        EndsInRepeat campaigns) := by
  constructor
  · rintro hright ⟨hcampaigns, hkeywords, hcard, hrepeat⟩
    obtain ⟨snap, hsnap⟩ := hright.ok_iff.mpr ⟨hcampaigns, hkeywords, hcard.le⟩
    exact (build_index_isOk.mp (build_isOk.mp ⟨snap, hsnap⟩).2).2 ⟨hcard, hrepeat⟩
  · intro hcond
    refine ⟨?_, fun id h => ?_, fun id h => ?_, fun h => ?_⟩
    · rw [build_isOk, build_index_isOk]
      constructor
      · rintro ⟨⟨hcampaigns, hkeywords⟩, hcard, -⟩
        exact ⟨hcampaigns, hkeywords, hcard⟩
      · rintro ⟨hcampaigns, hkeywords, hcard⟩
        exact ⟨⟨hcampaigns, hkeywords⟩, hcard, fun hfull =>
          hcond ⟨hcampaigns, hkeywords, hfull.1, hfull.2⟩⟩
    · rcases build_eq_error h with hids | ⟨-, -, heq⟩
      · rcases checkIds_eq_error hids with ⟨id', heq, htwice⟩ | ⟨id', heq, -⟩
        · rwa [BuildError.duplicateCampaign.inj heq]
        · cases heq
      · cases heq
    · rcases build_eq_error h with hids | ⟨-, -, heq⟩
      · rcases checkIds_eq_error hids with ⟨id', heq, -⟩ | ⟨id', heq, htwice⟩
        · cases heq
        · rwa [BuildError.duplicateKeyword.inj heq]
      · cases heq
    · rcases build_eq_error h with hids | ⟨hids, hindex, -⟩
      · rcases checkIds_eq_error hids with ⟨id', heq, -⟩ | ⟨id', heq, -⟩ <;> cases heq
      · -- the identifiers were found distinct, so it is the numbers that ran out
        obtain ⟨hcampaigns, hkeywords⟩ := checkIds_eq_ok.mp hids
        rw [build_index_isOk] at hindex
        by_contra hle
        exact hindex ⟨not_lt.mp hle, fun hfull => hcond ⟨hcampaigns, hkeywords, hfull⟩⟩

end Snapshot

end Building

/-! ### A full vocabulary, and a repeat -/

section Sample

/-- The binary digits of a number, lowest first. -/
def binaryWord (bits n : ℕ) : String :=
  String.ofList ((List.range bits).map fun i => if n.testBit i then '1' else '0')

theorem binaryWord_inj {bits m n : ℕ} (hm : m < 2 ^ bits) (hn : n < 2 ^ bits)
    (h : binaryWord bits m = binaryWord bits n) : m = n := by
  refine Nat.eq_of_testBit_eq fun i => ?_
  rcases Nat.lt_or_ge i bits with hi | hi
  · have hdigit := List.map_inj_left.mp (String.ofList_inj.mp h) i (List.mem_range.mpr hi)
    cases hmi : m.testBit i <;> cases hni : n.testBit i <;> rw [hmi, hni] at hdigit <;>
      first | rfl | exact absurd hdigit (by decide)
  · -- there are no digits above
    have hpow : 2 ^ bits ≤ 2 ^ i := Nat.pow_le_pow_right (by decide) hi
    rw [Nat.testBit_lt_two_pow (hm.trans_le hpow), Nat.testBit_lt_two_pow (hn.trans_le hpow)]

/-- All words of so many binary digits, and the first of them again. -/
def crowdedTokens (bits : ℕ) : List String :=
  (List.range (2 ^ bits)).map (binaryWord bits) ++ [binaryWord bits 0]

/-- A campaign whose one keyword consists of all words of so many binary digits, and of
the first of them again. -/
def crowdedCampaign (bits : ℕ) : Campaign where
  id := ⟨0⟩
  status := .active
  dailyBudget := ⟨1000000⟩
  countries := [.IN]
  ageBuckets := none
  audienceSize := none
  keywords := [⟨⟨0⟩, " ".intercalate (crowdedTokens bits), .exact, ⟨1000000⟩⟩]
  negativeKeywords := []

theorem card_crowdedTokens (bits : ℕ) : (crowdedTokens bits).toFinset.card = 2 ^ bits := by
  have hsame : (crowdedTokens bits).toFinset =
      ((List.range (2 ^ bits)).map (binaryWord bits)).toFinset := by
    ext t
    rw [crowdedTokens, List.mem_toFinset, List.mem_toFinset, List.mem_append,
      List.mem_singleton, or_iff_left_iff_imp]
    rintro rfl
    exact List.mem_map_of_mem (List.mem_range.mpr (Nat.two_pow_pos bits))
  have hnodup : ((List.range (2 ^ bits)).map (binaryWord bits)).Nodup :=
    List.nodup_range.map_on fun m hm n hn =>
      binaryWord_inj (List.mem_range.mp hm) (List.mem_range.mp hn)
  rw [hsame, List.toFinset_card_of_nodup hnodup, List.length_map, List.length_range]

attribute [local instance] Unicode.asciiGreek

theorem corpusTokens_crowdedCampaign (bits : ℕ) (hbits : bits ≠ 0) :
    KeywordIndex.corpusTokens [crowdedCampaign bits] = crowdedTokens bits := by
  have hword : ∀ n, binaryWord bits n ≠ "" ∧ ∀ c ∈ (binaryWord bits n).toList,
      Unicode.isAlphanumeric c = true ∧ Unicode.Settled c := by
    intro n
    constructor
    · intro hempty
      have hlength := congrArg String.toList hempty
      rw [binaryWord, String.toList_ofList, String.toList_empty, List.map_eq_nil_iff,
        List.range_eq_nil] at hlength
      exact hbits hlength
    · intro c hc
      rw [binaryWord, String.toList_ofList] at hc
      obtain ⟨i, -, rfl⟩ := List.mem_map.mp hc
      split_ifs
      · exact ⟨by decide, by decide, by decide⟩
      · exact ⟨by decide, by decide, by decide⟩
  have hcrowd : ∀ t ∈ crowdedTokens bits, ∃ n, t = binaryWord bits n := by
    intro t ht
    rcases List.mem_append.mp ht with ht | ht
    · obtain ⟨n, -, rfl⟩ := List.mem_map.mp ht
      exact ⟨n, rfl⟩
    · exact ⟨0, List.mem_singleton.mp ht⟩
  have htokens : tokenize (" ".intercalate (crowdedTokens bits)) = crowdedTokens bits := by
    refine tokenize_join (fun t ht => ?_) fun t ht => ?_
    · obtain ⟨n, rfl⟩ := hcrowd t ht
      exact (hword n).1
    · obtain ⟨n, rfl⟩ := hcrowd t ht
      exact (hword n).2
  rw [KeywordIndex.corpusTokens, List.flatMap_singleton, KeywordIndex.campaignTokens,
    crowdedCampaign, List.flatMap_singleton, htokens, List.flatMap_nil, List.append_nil]

/-- **A well-formed list that is refused**: one keyword, of all `2 ^ 32` words of 32
binary digits and of one of them again. -/
theorem not_buildsRight : ¬BuildsRight [crowdedCampaign 32] .default := by
  intro hright
  have hcard := card_crowdedTokens 32
  have htokens := corpusTokens_crowdedCampaign 32 (by decide)
  have hwell : WellFormed [crowdedCampaign 32] := by
    refine ⟨List.nodup_singleton _, List.nodup_singleton _, ?_⟩
    rw [htokens, hcard]
  obtain ⟨snap, hsnap⟩ := hright.ok_iff.mpr hwell
  refine (Snapshot.build_index_isOk.mp (Snapshot.build_isOk.mp ⟨snap, hsnap⟩).2).2 ⟨?_, ?_⟩
  · rw [htokens, hcard]
  · rw [Snapshot.EndsInRepeat, htokens, crowdedTokens, List.dropLast_concat,
      List.getLast?_concat]
    exact ⟨_, List.mem_map_of_mem (List.mem_range.mpr (Nat.two_pow_pos 32)), rfl⟩

end Sample

end AdMatch
