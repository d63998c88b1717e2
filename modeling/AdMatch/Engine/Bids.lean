import AdMatch.Engine.Targeting
import AdMatch.Index.Capacity

/-!
# Raising a bid

What raising the bid of one keyword does to its campaign's place in the auction.
The key of the chosen keyword can only grow, and with it the campaign's rank. But
the keyword chosen may change, and the reserve is held against the one chosen:
a keyword of greater relevance, raised to a bid below the reserve, can take the
place of one that met it, and put its campaign out of the auction
(`AdMatch.Snapshot.not_candidate_after_raise`). That is the only way
(`AdMatch.Snapshot.candidate_after_raise`).
-/

namespace AdMatch

/-! ### Raised campaigns -/

/-- A keyword with its bid set, if it is the one with identifier `kid`. -/
def raiseKeyword (kid : KeywordId) (bid : Micros) (k : Keyword) : Keyword :=
  if k.id = kid then { k with maxCptBid := bid } else k

/-- A campaign with the bid of one keyword set, if it is the one with identifier
`cid`. -/
def raiseBid (cid : CampaignId) (kid : KeywordId) (bid : Micros) (c : Campaign) : Campaign :=
  if c.id = cid then { c with keywords := c.keywords.map (raiseKeyword kid bid) } else c

section Raise

variable {cid : CampaignId} {kid : KeywordId} {bid : Micros}

@[simp] theorem raiseKeyword_id (k : Keyword) : (raiseKeyword kid bid k).id = k.id := by
  rw [raiseKeyword]
  split_ifs <;> rfl

@[simp] theorem raiseKeyword_text (k : Keyword) : (raiseKeyword kid bid k).text = k.text := by
  rw [raiseKeyword]
  split_ifs <;> rfl

@[simp] theorem raiseKeyword_matchType (k : Keyword) :
    (raiseKeyword kid bid k).matchType = k.matchType := by
  rw [raiseKeyword]
  split_ifs <;> rfl

@[simp] theorem raiseBid_id (c : Campaign) : (raiseBid cid kid bid c).id = c.id := by
  rw [raiseBid]
  split_ifs <;> rfl

theorem raiseBid_keywords_ids (c : Campaign) :
    (raiseBid cid kid bid c).keywords.map Keyword.id = c.keywords.map Keyword.id := by
  rw [raiseBid]
  split_ifs
  · simp only [List.map_map, Function.comp_def, raiseKeyword_id]
  · rfl

variable [Unicode]

/-- Raising a bid does not touch any text. -/
theorem campaignTokens_raiseBid (c : Campaign) :
    KeywordIndex.campaignTokens (raiseBid cid kid bid c) = KeywordIndex.campaignTokens c := by
  rw [raiseBid]
  split_ifs
  · simp only [KeywordIndex.campaignTokens, List.flatMap_map, raiseKeyword_text]
  · rfl

variable (cid kid bid) in
/-- **After raising a bid, the snapshot can be rebuilt.** -/
theorem build_raiseBid_isOk (snap : Snapshot) (hbuild : ∃ index,
    KeywordIndex.build snap.campaigns = .ok index) (cfg : EngineConfig) :
    ∃ snap', Snapshot.build (snap.campaigns.map (raiseBid cid kid bid)) cfg = .ok snap' := by
  have hids : (snap.campaigns.map (raiseBid cid kid bid)).map Campaign.id =
      snap.campaigns.map Campaign.id := by
    simp only [List.map_map, Function.comp_def, raiseBid_id]
  have hkeywords : (allKeywords (snap.campaigns.map (raiseBid cid kid bid))).map Keyword.id =
      (allKeywords snap.campaigns).map Keyword.id := by
    simp only [allKeywords, List.flatMap_map, List.map_flatMap, raiseBid_keywords_ids]
  have htokens : KeywordIndex.corpusTokens (snap.campaigns.map (raiseBid cid kid bid)) =
      KeywordIndex.corpusTokens snap.campaigns := by
    simp only [KeywordIndex.corpusTokens, List.flatMap_map, campaignTokens_raiseBid]
  rw [Snapshot.build_isOk, hids, hkeywords, KeywordIndex.build_isOk, htokens,
    ← KeywordIndex.build_isOk]
  exact ⟨⟨snap.campaignIds, snap.keywordIds⟩, hbuild⟩

/-! ### The chosen keyword -/

variable {q : Finset String}

/-- **A raised bid raises the key.** -/
theorem keywordKey_le_raiseKeyword {k : Keyword} (h : k.id = kid → k.maxCptBid ≤ bid) :
    keywordKey q k ≤ keywordKey q (raiseKeyword kid bid k) := by
  rw [raiseKeyword]
  split_ifs with hid
  · exact Prod.Lex.toLex_mono ⟨score_mono (h hid) _, Prod.Lex.toLex_mono ⟨h hid, le_refl _⟩⟩
  · exact le_refl _

/-- **What raising a bid does to the choice**: the key of the chosen keyword does
not decrease, and if another keyword is chosen it is the raised one. -/
theorem bestKeyword_raise {keywords : List Keyword} (hids : (keywords.map Keyword.id).Nodup)
    (hraise : ∀ k ∈ keywords, k.id = kid → k.maxCptBid ≤ bid) {k : Keyword}
    (hk : bestKeyword q keywords = some k) :
    ∃ k', bestKeyword q (keywords.map (raiseKeyword kid bid)) = some k' ∧
      keywordKey q k ≤ keywordKey q k' ∧
      (k' = k ∨ k'.id = kid ∧ k'.maxCptBid = bid) := by
  obtain ⟨hmem, hmatch, hle⟩ := bestKeyword_eq_some hk
  have hraised : raiseKeyword kid bid k ∈ keywords.map (raiseKeyword kid bid) :=
    List.mem_map_of_mem hmem
  have hmatch' : Matches (raiseKeyword kid bid k).matchType
      (tokenSet (raiseKeyword kid bid k).text) q := by
    rw [raiseKeyword_matchType, raiseKeyword_text]
    exact hmatch
  obtain ⟨k', hk'⟩ := exists_bestKeyword hraised hmatch'
  obtain ⟨hmem', hm', hle'⟩ := bestKeyword_eq_some hk'
  have hkey : keywordKey q k ≤ keywordKey q k' :=
    (keywordKey_le_raiseKeyword (hraise k hmem)).trans (hle' _ hraised hmatch')
  refine ⟨k', hk', hkey, ?_⟩
  obtain ⟨k₀, hk₀, rfl⟩ := List.mem_map.mp hmem'
  by_cases hid : k₀.id = kid
  · right
    rw [raiseKeyword, if_pos hid]
    exact ⟨hid, rfl⟩
  · -- a keyword that was not raised was no better before
    left
    have hsame : raiseKeyword kid bid k₀ = k₀ := if_neg hid
    rw [hsame] at hm' hkey ⊢
    have hid' := keyword_id_eq_of_keywordKey_eq (le_antisymm hkey (hle k₀ hk₀ hm'))
    exact (List.inj_on_of_nodup_map hids hmem hk₀ hid').symm

omit [Unicode] in
/-- The raised keyword bids the new bid. -/
theorem bid_of_raised {c : Campaign} (hid : c.id = cid) {k : Keyword}
    (hk : k ∈ (raiseBid cid kid bid c).keywords) (hkid : k.id = kid) : k.maxCptBid = bid := by
  rw [raiseBid, if_pos hid] at hk
  obtain ⟨k₀, -, rfl⟩ := List.mem_map.mp hk
  rw [raiseKeyword_id] at hkid
  rw [raiseKeyword, if_pos hkid]

/-! ### The place of the campaign -/

variable {cfg : EngineConfig} {req : AuctionRequest} {campaigns : List Campaign}

omit [Unicode] in
/-- Nothing but the reserve looks at the bid. -/
theorem eligibility_of_eligible {c : Campaign} {b : Micros} {negativeHit : Unit → Bool}
    (h : eligibility cfg c b req negativeHit = .eligible) (b' : Micros) :
    eligibility cfg c b' req negativeHit =
      if b' < cfg.reserve then .excluded .reserve else .eligible := by
  obtain ⟨hstatus, hcountry, hage, hneg, -⟩ := eligibility_eq_eligible.mp h
  rw [eligibility, if_neg (not_not.mpr hstatus), if_neg (not_not.mpr hcountry),
    if_neg (not_not.mpr hage), hneg, if_neg Bool.false_ne_true]

theorem eligibility_raiseBid (c : Campaign) (b : Micros) :
    eligibility cfg (raiseBid cid kid bid c) b req
        (fun _ => Blocked q (raiseBid cid kid bid c)) =
      eligibility cfg c b req fun _ => Blocked q c := by
  rw [raiseBid]
  split_ifs <;> rfl

/-- A campaign that is not raised makes the same candidate. -/
theorem candidateOf_raiseBid_of_ne {c : Campaign} (h : c.id ≠ cid) :
    candidateOf cfg req q (raiseBid cid kid bid c) = candidateOf cfg req q c := by
  rw [raiseBid, if_neg h]

/-- A greater keyword key is a greater rank key, for the same campaign. -/
theorem key_le_of_keywordKey_le {c c' : Campaign} (hid : c'.id = c.id) {k k' : Keyword}
    (h : keywordKey q k ≤ keywordKey q k') :
    (offerOf q c' k').entrant.key ≤ (offerOf q c k).entrant.key := by
  refine OrderDual.toDual_le_toDual.mpr ?_
  simp only [keywordKey, Prod.Lex.toLex_le_toLex] at h
  refine Prod.Lex.toLex_le_toLex.mpr ?_
  rcases h with hscore | ⟨hscore, hbid | ⟨hbid, -⟩⟩
  · exact .inl hscore
  · exact .inr ⟨hscore, Prod.Lex.toLex_le_toLex.mpr (.inl hbid)⟩
  · refine .inr ⟨hscore, Prod.Lex.toLex_le_toLex.mpr (.inr ⟨hbid, ?_⟩)⟩
    exact OrderDual.toDual_le_toDual.mpr hid.le

/-- **A raised candidate**: its new entrant ranks no lower, and only the reserve,
held against the raised keyword, can keep it out. -/
theorem raised_verdict {c : Campaign} (hid : c.id = cid)
    (hids : (c.keywords.map Keyword.id).Nodup)
    (hraise : ∀ k ∈ c.keywords, k.id = kid → k.maxCptBid ≤ bid) {e : Entrant}
    (he : candidateOf cfg req q c = some e) :
    ∃ k', bestKeyword q (raiseBid cid kid bid c).keywords = some k' ∧
      (k'.maxCptBid < cfg.reserve → k'.id = kid ∧ k'.maxCptBid = bid) ∧
      eligibilityOf cfg req q (offerOf q (raiseBid cid kid bid c) k') =
        (if k'.maxCptBid < cfg.reserve then .excluded .reserve else .eligible) ∧
      (offerOf q (raiseBid cid kid bid c) k').entrant.key ≤ e.key := by
  obtain ⟨o, ho, hel, rfl⟩ := candidateOf_eq_some.mp he
  rw [bestOffer_eq] at ho
  obtain ⟨k, hk, rfl⟩ := Option.map_eq_some_iff.mp ho
  obtain ⟨k', hk', hkey, hor⟩ := bestKeyword_raise hids hraise hk
  have hkeywords : (raiseBid cid kid bid c).keywords = c.keywords.map (raiseKeyword kid bid) := by
    rw [raiseBid, if_pos hid]
  refine ⟨k', by rw [hkeywords, hk'], fun hlt => ?_, ?_,
    key_le_of_keywordKey_le (raiseBid_id c) hkey⟩
  · -- the keyword chosen before met the reserve, so this is the raised one
    rcases hor with rfl | hraised
    · exact absurd (eligibility_eq_eligible.mp hel).2.2.2.2 (not_le.mpr hlt)
    · exact hraised
  · exact (eligibility_raiseBid c k'.maxCptBid).trans (eligibility_of_eligible hel _)

/-- **The place of a raised candidate** is no worse than before. -/
theorem raised_place (hids : (campaigns.map Campaign.id).Nodup) {e e' : Entrant} {i : ℕ}
    (hi : (fieldOf cfg req q campaigns).eligible[i]? = some e)
    (hmem : e' ∈ (fieldOf cfg req q (campaigns.map (raiseBid cid kid bid))).eligible)
    (hid' : e'.campaignId = cid) (hkey : e'.key ≤ e.key) :
    ∃ j ≤ i, (fieldOf cfg req q (campaigns.map (raiseBid cid kid bid))).eligible[j]? = some e' := by
  have hids' : ((campaigns.map (raiseBid cid kid bid)).map Campaign.id).Nodup := by
    simpa only [List.map_map, Function.comp_def, raiseBid_id] using hids
  obtain ⟨j, hj⟩ := List.mem_iff_getElem?.mp hmem
  refine ⟨j, ?_, hj⟩
  -- a position is the number of candidates that stand before it
  rw [← countP_key_lt hids hi, ← countP_key_lt hids' hj, List.countP_filterMap,
    List.countP_filterMap, List.countP_map]
  refine List.countP_mono_left fun c hc => ?_
  simp only [Option.getD_eq_iff, Option.map_eq_some_iff, decide_eq_true_eq, Bool.false_eq_true,
    and_false, or_false, Function.comp_apply]
  rintro ⟨b, hb, hlt⟩
  by_cases hcid : c.id = cid
  · -- the raised campaign itself does not stand before its own entrant
    have hb' : b ∈ (fieldOf cfg req q (campaigns.map (raiseBid cid kid bid))).eligible := by
      rw [fieldOf_eligible_eq, Sorting.mem_sortBy, List.mem_filterMap]
      exact ⟨_, List.mem_map_of_mem hc, hb⟩
    have hbid : b.campaignId = e'.campaignId := by
      rw [candidateOf_campaignId hb, raiseBid_id, hcid, hid']
    have hsame :=
      List.inj_on_of_nodup_map (Field.nodup_eligible (nodup_verdicts hids')) hb' hmem hbid
    exact absurd hlt (by rw [hsame]; exact lt_irrefl _)
  · rw [candidateOf_raiseBid_of_ne hcid] at hb
    exact ⟨b, hb, hlt.trans_le hkey⟩

/-- **The raised keyword displaces a better bid**: it is now the chosen one, and
its bid is below the reserve. -/
def Displaced (cfg : EngineConfig) (q : Finset String) (campaigns : List Campaign)
    (cid : CampaignId) (kid : KeywordId) (bid : Micros) : Prop :=
  bid < cfg.reserve ∧
    ∃ c ∈ campaigns, c.id = cid ∧ ∃ k, Chosen q (raiseBid cid kid bid c) k ∧ k.id = kid

/-- For the raised campaign, displacement is a matter of its chosen keyword. -/
theorem displaced_iff (hids : (campaigns.map Campaign.id).Nodup) {c : Campaign}
    (hc : c ∈ campaigns) (hid : c.id = cid) (hkeys : (c.keywords.map Keyword.id).Nodup)
    {k : Keyword} (hk : bestKeyword q (raiseBid cid kid bid c).keywords = some k)
    (hraised : k.maxCptBid < cfg.reserve → k.id = kid ∧ k.maxCptBid = bid) :
    Displaced cfg q campaigns cid kid bid ↔ k.maxCptBid < cfg.reserve := by
  have hkeys' : ((raiseBid cid kid bid c).keywords.map Keyword.id).Nodup := by
    rwa [raiseBid_keywords_ids]
  constructor
  · rintro ⟨hlt, c', hc', hid', k', hchosen, hkid⟩
    obtain rfl : c' = c := List.inj_on_of_nodup_map hids hc' hc (hid'.trans hid.symm)
    obtain rfl : k' = k := Option.some.inj (((chosen_iff hkeys').mp hchosen).symm.trans hk)
    rwa [bid_of_raised hid (bestKeyword_eq_some hk).1 hkid]
  · intro hlt
    obtain ⟨hkid, hbid⟩ := hraised hlt
    rw [hbid] at hlt
    exact ⟨hlt, c, hc, hid, k, (chosen_iff hkeys').mpr hk, hkid⟩

namespace Snapshot

variable {snap : Snapshot}

/-- **Raising a bid.** The snapshot can be rebuilt; unless the raised keyword
displaces a better bid its campaign is still a candidate and stands no lower in
the ranking, and if it does its campaign is excluded for the reserve. -/
theorem candidate_after_raise (order order' : HashOrder)
    (hbuild : build campaigns cfg = .ok snap) (cid : CampaignId) (kid : KeywordId) (bid : Micros)
    (hraise : ∀ c ∈ campaigns, c.id = cid → ∀ k ∈ c.keywords, k.id = kid → k.maxCptBid ≤ bid)
    (req : AuctionRequest) (i : ℕ) (hcand : snap.CandidateAt order req cid i) :
    ∃ snap', build (campaigns.map (raiseBid cid kid bid)) cfg = .ok snap' ∧
      (¬Displaced cfg (tokenSet req.query) campaigns cid kid bid →
        ∃ j ≤ i, snap'.CandidateAt order' req cid j) ∧
      (Displaced cfg (tokenSet req.query) campaigns cid kid bid →
        (∀ j, ¬snap'.CandidateAt order' req cid j) ∧
          snap'.ExcludedFor order' req cid .reserve) := by
  obtain ⟨rfl, rfl⟩ := build_eq_ok hbuild
  obtain ⟨snap', hbuild'⟩ := build_raiseBid_isOk cid kid bid snap
    (build_isOk.mp ⟨snap, hbuild⟩).2 snap.cfg
  obtain ⟨hcampaigns', hcfg'⟩ := build_eq_ok hbuild'
  obtain ⟨tokens, e, htokens, hi, hid⟩ := candidateAt_iff.mp hcand
  have hq : tokenSet req.query = tokens.toFinset := tokenSet_of_normalize htokens
  obtain ⟨c, hc, he⟩ := exists_candidateOf_of_mem (List.mem_of_getElem? hi)
  have hcid : c.id = cid := (candidateOf_campaignId he).symm.trans hid
  have hcid' : (raiseBid cid kid bid c).id = cid := (raiseBid_id c).trans hcid
  have hids' : ((snap.campaigns.map (raiseBid cid kid bid)).map Campaign.id).Nodup :=
    hcampaigns' ▸ snap'.campaignIds
  obtain ⟨k, hk, hraised, hel, hkey⟩ :=
    raised_verdict hcid (snap.nodup_keywords hc) (hraise c hc hcid) he
  set o := offerOf tokens.toFinset (raiseBid cid kid bid c) k
  have hbest : bestOffer tokens.toFinset (raiseBid cid kid bid c) = some o := by
    rw [bestOffer_eq, hk, Option.map_some]
  rw [hq, displaced_iff snap.campaignIds hc hcid (snap.nodup_keywords hc) hk hraised]
  refine ⟨snap', hbuild', fun hlt => ?_, fun hlt => ⟨fun j hj => ?_, ?_⟩⟩
  · rw [if_neg hlt] at hel
    obtain ⟨j, hj, hget⟩ := raised_place snap.campaignIds hi
      (mem_fieldOf_eligible.mpr ⟨o, List.mem_map_of_mem hc, hbest, hel, rfl⟩) hcid' hkey
    refine ⟨j, hj, candidateAt_iff.mpr ⟨tokens, o.entrant, htokens, ?_, hcid'⟩⟩
    rw [hcampaigns', hcfg']
    exact hget
  · -- a candidate of this campaign would be its best offer, which is excluded
    rw [if_pos hlt] at hel
    obtain ⟨tokens', e', htokens', hget, hid'⟩ := candidateAt_iff.mp hj
    obtain rfl : tokens' = tokens := Except.ok.inj (htokens'.symm.trans htokens)
    rw [hcampaigns', hcfg'] at hget
    obtain ⟨o', ho', hbest', hel', rfl⟩ := mem_fieldOf_eligible.mp (List.mem_of_getElem? hget)
    have hsame : o'.campaign = raiseBid cid kid bid c :=
      List.inj_on_of_nodup_map hids' ho' (List.mem_map_of_mem hc) (Eq.trans hid' hcid'.symm)
    rw [hsame, hbest] at hbest'
    rw [← Option.some.inj hbest', hel] at hel'
    cases hel'
  · rw [if_pos hlt] at hel
    refine excludedFor_iff.mpr ⟨tokens, o, htokens, ?_, hbest, ?_, hcid'⟩
    · rw [hcampaigns']
      exact List.mem_map_of_mem hc
    · rw [hcfg']
      exact hel

end Snapshot

end Raise

section Sample

attribute [local instance] Unicode.asciiGreek

theorem candidate_after_raise_sample : ∃ snap,
    Snapshot.build (sampleCampaigns.map (raiseBid ⟨2⟩ ⟨3⟩ ⟨900000⟩)) .default = .ok snap ∧
      ∃ j ≤ 1, snap.CandidateAt storageOrder sampleRequest ⟨2⟩ j := by
  have hcand : sampleSnapshot.CandidateAt storageOrder sampleRequest ⟨2⟩ 1 :=
    ⟨["photo", "editor"], _, by decide, rfl, by decide⟩
  obtain ⟨snap, hbuild, hplace, -⟩ := Snapshot.candidate_after_raise storageOrder storageOrder
    build_sampleCampaigns ⟨2⟩ ⟨3⟩ ⟨900000⟩ (by decide) sampleRequest 1 hcand
  exact ⟨snap, hbuild, hplace fun h => absurd h.1 (by decide)⟩

/-- A campaign with a keyword at the reserve, and one of greater relevance below
it. -/
def sampleReserve : List Campaign :=
  [{ id := ⟨1⟩, status := .active, dailyBudget := ⟨1000000⟩, countries := [.IN]
     ageBuckets := none, audienceSize := none
     keywords := [⟨⟨1⟩, "photo", .broad, ⟨100000⟩⟩, ⟨⟨2⟩, "photo editor", .exact, ⟨30000⟩⟩]
     negativeKeywords := [] }]

/-- **A raised bid can put its campaign out of the auction**: with the bid of the
exact keyword raised from 0.03 to 0.04, that keyword is chosen, and is below the
reserve. -/
theorem Snapshot.not_candidate_after_raise : ∃ snap snap',
    build sampleReserve .default = .ok snap ∧
      build (sampleReserve.map (raiseBid ⟨1⟩ ⟨2⟩ ⟨40000⟩)) .default = .ok snap' ∧
      snap.CandidateAt storageOrder sampleRequest ⟨1⟩ 0 ∧
      ∀ j, ¬snap'.CandidateAt storageOrder sampleRequest ⟨1⟩ j := by
  obtain ⟨snap', hsnap'⟩ : ∃ snap',
      build (sampleReserve.map (raiseBid ⟨1⟩ ⟨2⟩ ⟨40000⟩)) .default = .ok snap' := ⟨_, rfl⟩
  refine ⟨_, snap', rfl, hsnap', ⟨["photo", "editor"], _, by decide, rfl, by decide⟩, ?_⟩
  obtain ⟨hcampaigns, hcfg⟩ := build_eq_ok hsnap'
  intro j hj
  obtain ⟨tokens, e, htokens, he, -⟩ := candidateAt_iff.mp hj
  have hquery : normalize sampleRequest.query = .ok ["photo", "editor"] := by decide
  obtain rfl : tokens = ["photo", "editor"] := Except.ok.inj (htokens.symm.trans hquery)
  have hnobody : (fieldOf .default sampleRequest ["photo", "editor"].toFinset
      (sampleReserve.map (raiseBid ⟨1⟩ ⟨2⟩ ⟨40000⟩))).eligible = [] := by decide
  rw [hcampaigns, hcfg, hnobody] at he
  cases he

end Sample

end AdMatch
