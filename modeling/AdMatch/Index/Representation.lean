import AdMatch.Index.Capacity
import Mathlib.Data.List.Forall2

/-!
# The representation of an index

What `AdMatch.KeywordIndex.Represents` says of each of the five structures in an
index, told without reference to how they are computed
(`AdMatch.KeywordIndex.Representation`): the vocabulary numbers exactly the tokens of
the texts; the keywords and the negatives are stored one for one, in order, those
without a token left out; every token slice is the increasing image of a token set; and
each posting list and each exact entry mentions a position once or not at all. It holds
after every completed iteration of the build
(`AdMatch.KeywordIndex.build_representation`), with respect to the campaigns processed
so far.
-/

namespace AdMatch

namespace KeywordIndex

/-! ### Stored one for one -/

section Pairing

variable {α β γ : Type} {R : α → γ → Prop}

/-- A `filterMap` pairs what it keeps with what it keeps of it. -/
theorem forall₂_filterMap {f : α → Option γ} {p : α → Bool} {l : List α}
    (hsome : ∀ a ∈ l, p a = true → ∃ c, f a = some c ∧ R a c)
    (hnone : ∀ a ∈ l, p a = false → f a = none) :
    List.Forall₂ R (l.filter p) (l.filterMap f) := by
  induction l with
  | nil => exact .nil
  | cons a l ih =>
    have hrest := ih (fun b hb => hsome b (List.mem_cons_of_mem a hb))
      fun b hb => hnone b (List.mem_cons_of_mem a hb)
    cases hp : p a with
    | false =>
      rw [List.filter_cons_of_neg (by simp [hp]),
        List.filterMap_cons_none (hnone a List.mem_cons_self hp)]
      exact hrest
    | true =>
      obtain ⟨c, hc, hR⟩ := hsome a List.mem_cons_self hp
      rw [List.filter_cons_of_pos hp, List.filterMap_cons_some hc]
      exact .cons hR hrest

/-- Lists paired piece by piece are paired. -/
theorem forall₂_flatMap {f : β → List α} {g : β → List γ} {l : List β}
    (h : ∀ b ∈ l, List.Forall₂ R (f b) (g b)) : List.Forall₂ R (l.flatMap f) (l.flatMap g) := by
  induction l with
  | nil => exact .nil
  | cons b l ih =>
    rw [List.flatMap_cons, List.flatMap_cons]
    exact List.rel_append (h b List.mem_cons_self) (ih fun c hc => h c (List.mem_cons_of_mem b hc))

end Pairing

/-! ### The invariant -/

section Representation

variable [Unicode]

/-- Whether a text has a token. -/
def hasTokens (text : String) : Bool := tokenSet text ≠ ∅

/-- A keyword of a list of campaigns, with its campaign and the position of that. -/
structure Placed where
  campaignPos : ℕ
  campaign : Campaign
  keyword : Keyword

/-- The keywords that have tokens, in order. -/
def placedKeywords (campaigns : List Campaign) : List Placed :=
  campaigns.zipIdx.flatMap fun e =>
    (e.1.keywords.filter fun k => hasTokens k.text).map fun k => ⟨e.2, e.1, k⟩

/-- **A token slice**: not empty, strictly increasing, the image of the text's token
set. -/
structure IsSlice (v : Vocab) (text : String) (tokens : List TokenId) : Prop where
  nonempty : tokens ≠ []
  increasing : tokens.Pairwise (· < ·)
  image : tokens.toFinset.image some = (tokenSet text).image fun t => v.lookup t

/-- What is stored for a keyword. -/
structure StoresKeyword (v : Vocab) (source : Placed) (kw : IndexedKeyword) : Prop where
  campaignPos : kw.campaignPos = source.campaignPos
  campaignId : kw.campaignId = source.campaign.id
  id : kw.id = source.keyword.id
  matchType : kw.matchType = source.keyword.matchType
  bid : kw.bid = source.keyword.maxCptBid
  tokens : IsSlice v source.keyword.text kw.tokens

/-- What is stored for a negative. -/
structure StoresNegative (v : Vocab) (source : NegativeKeyword) (stored : IndexedNegative) :
    Prop where
  matchType : stored.matchType = source.matchType
  tokens : IsSlice v source.text stored.tokens

/-- **The representation invariant** of an index, with respect to the campaigns
processed so far. -/
structure Representation (campaigns : List Campaign) (index : KeywordIndex) : Prop where
  /-- Exactly the tokens of the texts have ids. -/
  known : ∀ t, (∃ i, index.vocab.lookup t = some i) ↔ t ∈ corpusTokens campaigns
  /-- Distinct tokens have distinct ids. -/
  distinct : ∀ t u i, index.vocab.lookup t = some i → index.vocab.lookup u = some i → t = u
  /-- The ids are the numbers below the size of the vocabulary. -/
  ids : ∀ n, (∃ t i, index.vocab.lookup t = some i ∧ i.toNat = n) ↔ n < index.vocab.size
  /-- Every keyword with tokens is stored once, and no other, in order. -/
  keywords : List.Forall₂ (StoresKeyword index.vocab) (placedKeywords campaigns) index.keywords
  /-- So are the negatives, those of each campaign in an entry of its own. -/
  negatives : List.Forall₂
    (fun c stored => List.Forall₂ (StoresNegative index.vocab)
      (c.negativeKeywords.filter fun n => hasTokens n.text) stored)
    campaigns index.negatives
  /-- A posting list has the positions of the broad keywords with the token, once. -/
  broad : ∀ token pos, ((index.broad.lookup token).getD []).count pos =
    if ∃ kw ∈ index.keywords[pos]?, kw.matchType = .broad ∧ token ∈ kw.tokens then 1 else 0
  /-- An exact entry has the positions of the exact keywords with the slice, once. -/
  exact : ∀ tokens pos, ((index.exact.lookup tokens).getD []).count pos =
    if ∃ kw ∈ index.keywords[pos]?, kw.matchType = .exact ∧ kw.tokens = tokens then 1 else 0
  /-- A stored keyword leads back to a keyword of the campaign at its position. -/
  identified : ∀ kw ∈ index.keywords, ∃ c, campaigns[kw.campaignPos]? = some c ∧
    c.id = kw.campaignId ∧ ∃ k ∈ c.keywords, k.id = kw.id ∧ k.maxCptBid = kw.bid ∧
      k.matchType = kw.matchType

/-! ### It holds -/

variable {campaigns : List Campaign} {index : KeywordIndex} {v : Vocab}

theorem hasTokens_iff {text : String} : hasTokens text = true ↔ tokenize text ≠ [] := by
  rw [hasTokens, decide_eq_true_eq, ← Finset.nonempty_iff_ne_empty, tokenSet_nonempty]

/-- The ids of a known text with tokens are a slice. -/
theorem isSlice_ids {text : String} (hk : v.Knows (tokenize text)) (h : hasTokens text = true) :
    IsSlice v text (v.ids (tokenize text)) := by
  refine ⟨fun hnil => hasTokens_iff.mp h ((Vocab.ids_eq_nil hk).mp hnil),
    Vocab.pairwise_ids _ _, ?_⟩
  ext o
  rw [Finset.mem_image, Finset.mem_image]
  constructor
  · rintro ⟨i, hi, rfl⟩
    obtain ⟨t, ht, hti⟩ := Vocab.mem_ids.mp (List.mem_toFinset.mp hi)
    exact ⟨t, List.mem_toFinset.mpr ht, hti⟩
  · rintro ⟨t, ht, rfl⟩
    obtain ⟨i, hi⟩ := hk t (List.mem_toFinset.mp ht)
    exact ⟨i, List.mem_toFinset.mpr (Vocab.mem_ids.mpr ⟨t, List.mem_toFinset.mp ht, hi⟩), hi.symm⟩

/-- The ids of a known text without tokens are none. -/
theorem ids_eq_nil_of_hasTokens {text : String} (hk : v.Knows (tokenize text))
    (h : hasTokens text = false) : v.ids (tokenize text) = [] := by
  refine (Vocab.ids_eq_nil hk).mpr ?_
  by_contra hne
  rw [hasTokens_iff.mpr hne] at h
  cases h

/-- The keywords of one campaign are stored one for one. -/
theorem storesKeywords {c : Campaign} (hk : KnowsCampaign v c) (pos : ℕ) :
    List.Forall₂ (StoresKeyword v)
      ((c.keywords.filter fun k => hasTokens k.text).map fun k => ⟨pos, c, k⟩)
      (indexedKeywords v (c, pos)) := by
  rw [List.forall₂_map_left_iff]
  refine forall₂_filterMap (fun k hmem htokens => ?_) fun k hmem htokens => ?_
  · have hslice := isSlice_ids (hk.keywords k hmem) htokens
    exact ⟨_, if_neg hslice.nonempty, rfl, rfl, rfl, rfl, rfl, hslice⟩
  · exact if_pos (ids_eq_nil_of_hasTokens (hk.keywords k hmem) htokens)

/-- And so are its negatives. -/
theorem storesNegatives {c : Campaign} (hk : KnowsCampaign v c) :
    List.Forall₂ (StoresNegative v) (c.negativeKeywords.filter fun n => hasTokens n.text)
      (indexedNegatives v c) := by
  refine forall₂_filterMap (fun n hmem htokens => ?_) fun n hmem htokens => ?_
  · have hslice := isSlice_ids (hk.negatives n hmem) htokens
    exact ⟨_, if_neg hslice.nonempty, rfl, hslice⟩
  · exact if_pos (ids_eq_nil_of_hasTokens (hk.negatives n hmem) htokens)

omit [Unicode] in
/-- A list of positions mentions a position once or not at all. -/
theorem count_positions (p : IndexedKeyword → Bool) (keywords : List IndexedKeyword) (pos : ℕ) :
    (positions p keywords).count pos = if ∃ kw ∈ keywords[pos]?, p kw = true then 1 else 0 := by
  rw [(nodup_positions p keywords).count]
  exact if_congr mem_positions rfl rfl

omit [Unicode] in
/-- A loop that interns tokens makes exactly these known. -/
theorem known_foldlM {tokens : List String} {w : Vocab}
    (h : tokens.foldlM internVocab ∅ = .ok w) : known w = tokens.toFinset := by
  refine Loop.foldlM_induction (I := fun done v => known v = done.toFinset) ?_ rfl h
  intro done t v v' hv hstep
  rw [known_internVocab hstep, hv, List.toFinset_append, List.toFinset_cons, List.toFinset_nil,
    Finset.union_insert, Finset.union_empty]

/-- **What represents its campaigns has the invariant.** -/
theorem Represents.representation (h : Represents campaigns index)
    (hbuild : build campaigns = .ok index) : Representation campaigns index where
  known t := by
    have hvocab := build_map_vocab campaigns
    rw [hbuild] at hvocab
    have hknown := known_foldlM hvocab.symm
    rw [← List.mem_toFinset, ← hknown, mem_known, ← AList.lookup_isSome, Option.isSome_iff_exists]
  distinct := h.numbered.inj
  ids n := by
    constructor
    · rintro ⟨t, i, hi, rfl⟩
      exact h.numbered.lt t i hi
    · exact h.numbered.surj n
  keywords := by
    rw [h.keywords]
    refine forall₂_flatMap fun e he => ?_
    exact storesKeywords (h.knows e.1 (List.fst_mem_of_mem_zipIdx he)) e.2
  negatives := by
    rw [h.negatives, List.forall₂_map_right_iff, List.forall₂_same]
    exact fun c hc => storesNegatives (h.knows c hc)
  broad token pos := by
    rw [h.filed.broad, count_positions]
    simp only [broadWith, List.contains_iff_mem, decide_eq_true_eq]
  exact tokens pos := by
    rw [h.filed.exact, count_positions]
    simp only [exactWith, decide_eq_true_eq]
  identified kw hkw := by
    rw [h.keywords, List.mem_flatMap] at hkw
    obtain ⟨⟨c, pos⟩, he, hkw⟩ := hkw
    obtain ⟨k, hk, hstored⟩ := List.mem_filterMap.mp hkw
    rw [indexedKeyword] at hstored
    split_ifs at hstored
    obtain rfl := Option.some.inj hstored
    exact ⟨c, List.mem_zipIdx_iff_getElem?.mp he, rfl, k, hk, rfl, rfl, rfl⟩

/-- The loop over the first campaigns is the build of them. -/
theorem foldlM_take (campaigns : List Campaign) (n : ℕ) :
    (campaigns.zipIdx.take n).foldlM addCampaign default = build (campaigns.take n) := by
  have htake : campaigns.zipIdx.take n = (campaigns.take n).zipIdx := by
    refine List.ext_getElem? fun i => ?_
    rw [List.getElem?_take, List.getElem?_zipIdx, List.getElem?_zipIdx, List.getElem?_take]
    split_ifs <;> rfl
  rw [htake, build]

/-- **The invariant holds throughout the build**: after every completed iteration of the
loop over the campaigns, and so in every index that is returned. -/
theorem build_representation (campaigns : List Campaign) :
    (∀ n index, (campaigns.zipIdx.take n).foldlM addCampaign default = .ok index →
      Representation (campaigns.take n) index) ∧
    ∀ index, build campaigns = .ok index → Representation campaigns index := by
  have hbuilt : ∀ {done index}, build done = .ok index → Representation done index :=
    fun h => (represents_build h).representation h
  refine ⟨fun n index h => ?_, fun index h => hbuilt h⟩
  rw [foldlM_take] at h
  exact hbuilt h

end Representation

section Sample

attribute [local instance] Unicode.asciiGreek

/-- A campaign with a keyword of each match type, and a text without tokens in each
place. -/
def sampleIndexed : Campaign where
  id := ⟨7⟩
  status := .active
  dailyBudget := ⟨1000000⟩
  countries := [.IN]
  ageBuckets := none
  audienceSize := none
  keywords := [⟨⟨1⟩, "!!!", .broad, ⟨500000⟩⟩, ⟨⟨2⟩, "photo Photo editor", .broad, ⟨400000⟩⟩,
    ⟨⟨3⟩, "editor", .exact, ⟨300000⟩⟩]
  negativeKeywords := [⟨"free", .broad⟩, ⟨"-", .exact⟩]

theorem build_representation_sample : ∃ index, build [sampleIndexed] = .ok index ∧
    index.keywords.length = 2 ∧ index.vocab.size = 3 ∧
      ((index.broad.lookup ⟨0⟩).getD []).count 0 = 1 ∧
      ((index.broad.lookup ⟨1⟩).getD []).count 1 = 0 := by
  obtain ⟨index, hbuild, hsize, hkeywords⟩ : ∃ index, build [sampleIndexed] = .ok index ∧
      index.vocab.size = 3 ∧ index.keywords =
        [⟨0, ⟨7⟩, ⟨2⟩, .broad, ⟨400000⟩, [⟨0⟩, ⟨1⟩]⟩, ⟨0, ⟨7⟩, ⟨3⟩, .exact, ⟨300000⟩, [⟨1⟩]⟩] :=
    ⟨_, rfl, rfl, rfl⟩
  obtain ⟨-, hrep⟩ := build_representation [sampleIndexed]
  have h := hrep index hbuild
  refine ⟨index, hbuild, ?_, hsize, ?_, ?_⟩
  · rw [hkeywords]
    rfl
  · rw [h.broad, hkeywords]
    exact if_pos ⟨_, rfl, rfl, by decide⟩
  · rw [h.broad, hkeywords]
    refine if_neg ?_
    rintro ⟨kw, hkw, hbroad, -⟩
    obtain rfl := Option.some.inj hkw
    cases hbroad

end Sample

end KeywordIndex

end AdMatch
