import AdMatch.Engine.Correct

/-!
# What matching returns

`AdMatch.Snapshot.matchesFor` against the rules on string sets, for every snapshot,
every accepted query and every iteration order of the hash maps: the campaigns it
lists and the keyword it reports for each
(`AdMatch.Snapshot.matchesFor_eq_reference`).
-/

namespace AdMatch

section Reference

variable [Unicode]

/-- **The chosen keyword of a campaign**: one that matches, greatest by score,
then bid, then lowest identifier among those that do. -/
structure Chosen (q : Finset String) (c : Campaign) (k : Keyword) : Prop where
  mem : k ∈ c.keywords
  matched : Matches k.matchType (tokenSet k.text) q
  greatest : ∀ k' ∈ c.keywords, Matches k'.matchType (tokenSet k'.text) q →
    (offerOf q c k').choiceKey ≤ (offerOf q c k).choiceKey

/-- The best offer is that of the chosen keyword. -/
theorem chosen_of_bestOffer {q : Finset String} {c : Campaign} {o : Offer}
    (h : bestOffer q c = some o) : Chosen q c o.keyword ∧ o = offerOf q c o.keyword := by
  obtain ⟨rfl, hmem, hmatch, hrel, hle⟩ := bestOffer_eq_some h
  have ho : o = offerOf q o.campaign o.keyword := by
    rw [offerOf, ← hrel]
  refine ⟨⟨hmem, hmatch, fun k' hk' hm' => ?_⟩, ho⟩
  rw [← ho]
  exact hle _ (mem_offers.mpr ⟨k', hk', hm', rfl⟩)

/-- With distinct keyword identifiers there is only one chosen keyword. -/
theorem chosen_iff {q : Finset String} {c : Campaign} (hids : (c.keywords.map Keyword.id).Nodup)
    {k : Keyword} : Chosen q c k ↔ bestKeyword q c.keywords = some k := by
  constructor
  · rintro ⟨hmem, hmatch, hle⟩
    obtain ⟨k', hk'⟩ := exists_bestKeyword hmem hmatch
    obtain ⟨hmem', hmatch', hle'⟩ := bestKeyword_eq_some hk'
    have hkey : keywordKey q k = keywordKey q k' :=
      le_antisymm (hle' k hmem hmatch) (hle k' hmem' hmatch')
    rw [hk', List.inj_on_of_nodup_map hids hmem hmem' (keyword_id_eq_of_keywordKey_eq hkey)]
  · intro h
    obtain ⟨hmem, hmatch, hle⟩ := bestKeyword_eq_some h
    exact ⟨hmem, hmatch, hle⟩

namespace Snapshot

/-- The matches are the best offers of the campaigns that no negative blocks. -/
theorem mem_matchesFor {snap : Snapshot} {order : HashOrder} {tokens : List String}
    {m : KeywordMatch} :
    m ∈ ((snap.index.bestMatches order (snap.index.prepare tokens)).filter fun m =>
        !snap.index.negativeMatches m.campaignPos (snap.index.prepare tokens)) ↔
      ∃ c, snap.campaigns[m.campaignPos]? = some c ∧ ¬Blocked tokens.toFinset c ∧
        ∃ o, bestOffer tokens.toFinset c = some o ∧ m = o.toMatch m.campaignPos := by
  rw [List.mem_filter, bestMatches_eq, KeywordIndex.mem_bestOffers, Bool.not_eq_true',
    Bool.eq_false_iff, ne_eq, KeywordIndex.negativeMatches_iff snap.represents]
  constructor
  · rintro ⟨⟨c, hc, o, ho, hm⟩, hneg⟩
    exact ⟨c, hc, fun hb => hneg ⟨c, hc, hb⟩, o, ho, hm⟩
  · rintro ⟨c, hc, hneg, o, ho, hm⟩
    refine ⟨⟨c, hc, o, ho, hm⟩, ?_⟩
    rintro ⟨c', hc', hb⟩
    rw [Option.some.inj (hc.symm.trans hc')] at hneg
    exact hneg hb

/-- **A campaign is among the matches** exactly when one of its keywords matches. -/
theorem exists_match_at (snap : Snapshot) (order : HashOrder) {tokens : List String} {pos : ℕ} :
    (∃ m ∈ snap.index.bestMatches order (snap.index.prepare tokens), m.campaignPos = pos) ↔
      ∃ c, snap.campaigns[pos]? = some c ∧
        ∃ k ∈ c.keywords, Matches k.matchType (tokenSet k.text) tokens.toFinset := by
  rw [bestMatches_eq]
  simp only [KeywordIndex.mem_bestOffers]
  constructor
  · rintro ⟨m, ⟨c, hc, o, ho, -⟩, rfl⟩
    exact ⟨c, hc, bestOffer_isSome.mp ⟨o, ho⟩⟩
  · rintro ⟨c, hc, hmatch⟩
    obtain ⟨o, ho⟩ := bestOffer_isSome.mpr hmatch
    exact ⟨o.toMatch pos, ⟨c, hc, o, ho, rfl⟩, rfl⟩

/-- **A matching keyword puts its campaign among the matches**, with its chosen
keyword. -/
theorem exists_mem_bestMatches (snap : Snapshot) (order : HashOrder) {c : Campaign}
    (hc : c ∈ snap.campaigns) {k : Keyword} (hk : k ∈ c.keywords) {tokens : List String}
    (hmatch : Matches k.matchType (tokenSet k.text) tokens.toFinset) :
    ∃ pos k', snap.campaigns[pos]? = some c ∧ Chosen tokens.toFinset c k' ∧
      bestOffer tokens.toFinset c = some (offerOf tokens.toFinset c k') ∧
      (offerOf tokens.toFinset c k').toMatch pos ∈
        snap.index.bestMatches order (snap.index.prepare tokens) := by
  obtain ⟨k', hk'⟩ := exists_bestKeyword hk hmatch
  have hbest : bestOffer tokens.toFinset c = some (offerOf tokens.toFinset c k') := by
    rw [bestOffer_eq, hk', Option.map_some]
  obtain ⟨pos, hpos⟩ := List.mem_iff_getElem?.mp hc
  refine ⟨pos, k', hpos, (chosen_of_bestOffer hbest).1, hbest, ?_⟩
  rw [bestMatches_eq]
  exact KeywordIndex.mem_bestOffers.mpr ⟨c, hpos, _, hbest, rfl⟩

/-- **Matching is the brute-force rule on string sets.** On a snapshot and an
accepted query it lists, once each and in campaign order, exactly the campaigns
with a matching keyword and no matching negative, each with its chosen keyword
and that keyword's relevance – whatever the order in which the hash maps are
visited. -/
theorem matchesFor_eq_reference (order : HashOrder) {campaigns : List Campaign}
    {cfg : EngineConfig} {snap : Snapshot} (hbuild : build campaigns cfg = .ok snap)
    {query : String} {tokens : List String} (hquery : normalize query = .ok tokens) :
    ∃ ms, snap.matchesFor order query = .ok ms ∧
      ms.Pairwise (fun a b => a.campaignPos < b.campaignPos) ∧
      (∀ pos, (∃ m ∈ ms, m.campaignPos = pos) ↔
        ∃ c, campaigns[pos]? = some c ∧
          (∃ k ∈ c.keywords, Matches k.matchType (tokenSet k.text) (tokenSet query)) ∧
          ∀ n ∈ c.negativeKeywords, ¬Matches n.matchType (tokenSet n.text) (tokenSet query)) ∧
      ∀ m ∈ ms, ∃ c k, campaigns[m.campaignPos]? = some c ∧ Chosen (tokenSet query) c k ∧
        m.campaignId = c.id ∧ m.keywordId = k.id ∧ m.matchType = k.matchType ∧
        m.bid = k.maxCptBid ∧
        m.relevance =
          match k.matchType with
          | .exact => RelevanceBp.ofNat 10000
          | .broad => broadRelevance (tokenSet k.text).card (tokenSet query).card := by
  obtain ⟨rfl, rfl⟩ := build_eq_ok hbuild
  rw [tokenSet_of_normalize hquery]
  refine ⟨_, by rw [matchesFor, hquery], ?_, fun pos => ?_, fun m hm => ?_⟩
  · rw [bestMatches_eq]
    exact (KeywordIndex.pairwise_bestOffers _ _).filter _
  · constructor
    · rintro ⟨m, hm, rfl⟩
      obtain ⟨c, hc, hneg, o, ho, -⟩ := mem_matchesFor.mp hm
      refine ⟨c, hc, bestOffer_isSome.mp ⟨o, ho⟩, fun n hn hmatch => hneg ⟨n, hn, hmatch⟩⟩
    · rintro ⟨c, hc, hmatch, hneg⟩
      obtain ⟨o, ho⟩ := bestOffer_isSome.mpr hmatch
      refine ⟨o.toMatch pos, mem_matchesFor.mpr ⟨c, hc, ?_, o, ho, rfl⟩, rfl⟩
      rintro ⟨n, hn, hb⟩
      exact hneg n hn hb
  · obtain ⟨c, hc, -, o, ho, hmo⟩ := mem_matchesFor.mp hm
    obtain ⟨hchosen, hoffer⟩ := chosen_of_bestOffer ho
    refine ⟨c, o.keyword, hc, hchosen, ?_⟩
    rw [hoffer] at hmo
    rw [hmo]
    exact ⟨rfl, rfl, rfl, rfl, rfl⟩

end Snapshot

end Reference

/-! ### A sample -/

section Sample

attribute [local instance] Unicode.asciiGreek

/-- Two campaigns for photo apps, one of them for young adults only. -/
def sampleCampaigns : List Campaign :=
  [{ id := ⟨1⟩, status := .active, dailyBudget := ⟨1000000⟩, countries := [.IN]
     ageBuckets := none, audienceSize := none
     keywords := [⟨⟨1⟩, "photo editor", .broad, ⟨500000⟩⟩, ⟨⟨2⟩, "photo", .exact, ⟨400000⟩⟩]
     negativeKeywords := [⟨"free", .broad⟩] },
   { id := ⟨2⟩, status := .active, dailyBudget := ⟨300000⟩, countries := [.IN]
     ageBuckets := some [.age18To24], audienceSize := some 6000
     keywords := [⟨⟨3⟩, "photo", .broad, ⟨600000⟩⟩]
     negativeKeywords := [] }]

/-- Their snapshot. -/
def sampleSnapshot : Snapshot := (Snapshot.build sampleCampaigns .default).toOption.get (by decide)

theorem build_sampleCampaigns : Snapshot.build sampleCampaigns .default = .ok sampleSnapshot := rfl

/-- Hash maps visited in the order in which they are stored. -/
def storageOrder : HashOrder := ⟨.id _, .id _⟩

theorem matchesFor_eq_reference_sample :
    ∃ ms, sampleSnapshot.matchesFor storageOrder "Photo editor!" = .ok ms ∧
      (∃ m ∈ ms, m.campaignPos = 0) ∧ ∃ m ∈ ms, m.campaignPos = 1 := by
  obtain ⟨ms, hms, -, hpos, -⟩ := Snapshot.matchesFor_eq_reference storageOrder
    build_sampleCampaigns (show normalize "Photo editor!" = .ok ["photo", "editor"] by decide)
  exact ⟨ms, hms, (hpos 0).mpr ⟨_, rfl, by decide⟩, (hpos 1).mpr ⟨_, rfl, by decide⟩⟩

end Sample

end AdMatch
