import AdMatch.Index.Invariant
import AdMatch.Index.Reference

/-!
# The index computes the matching rules

An index that represents a list of campaigns answers every query as the rules on
string sets do, whatever the iteration order of its hash maps:
`AdMatch.KeywordIndex.bestMatches` lists, in campaign order, the best offer of
every campaign that has one (`AdMatch.KeywordIndex.bestMatches_eq`), and
`AdMatch.KeywordIndex.negativeMatches` is whether a negative of the campaign
matches (`AdMatch.KeywordIndex.negativeMatches_iff`).

The two facts behind it: interned ids compare as their tokens do, with the gate
on unknown query tokens where equality is asked for
(`AdMatch.KeywordIndex.exact_iff`); and a broad keyword is hit once per query
token it contains, so that as many hits as tokens means containment
(`AdMatch.KeywordIndex.lookup_countHits`).
-/

namespace AdMatch

/-- The match that an offer of the campaign at `pos` makes. -/
def Offer.toMatch (o : Offer) (pos : ℕ) : KeywordMatch :=
  { campaignPos := pos, campaignId := o.campaign.id, keywordId := o.keyword.id,
    matchType := o.keyword.matchType, bid := o.keyword.maxCptBid, relevance := o.relevance }

namespace KeywordIndex

/-! ### The prepared query -/

section Query

variable {index : KeywordIndex} {tokens : List String}

/-- **The known ids of a query are its id set.** -/
theorem prepare_known (hv : index.vocab.Numbered) :
    (index.prepare tokens).known = index.vocab.ids tokens := by
  have hmem : ∀ i, i ∈ (index.prepare tokens).known ↔ i ∈ index.vocab.ids tokens := fun i => by
    rw [prepare, (Sorting.perm_sort _).mem_iff, List.mem_filterMap, Vocab.mem_ids]
    simp only [Sorting.mem_sortDedup]
  have hnd : (index.prepare tokens).known.Nodup := by
    rw [prepare, (Sorting.perm_sort _).nodup_iff]
    refine (Sorting.nodup_sortDedup tokens).filterMap fun t u i ht hu => ?_
    exact hv.inj t u i ht hu
  have hlt : (index.prepare tokens).known.Pairwise (· < ·) :=
    (index.prepare tokens).sorted.imp₂ (fun _ _ h hne => lt_of_le_of_ne h hne) hnd
  exact hlt.eq_of_mem_iff (Vocab.pairwise_ids _ _) hmem

theorem prepare_distinct : (index.prepare tokens).distinct = tokens.toFinset.card :=
  Sorting.length_sortDedup tokens

/-- The gate of exact matching: every query token is interned. -/
theorem allKnown_iff : (index.prepare tokens).allKnown = true ↔ index.vocab.Knows tokens := by
  rw [PreparedQuery.allKnown, decide_eq_true_eq, prepare, (Sorting.perm_sort _).length_eq,
    List.filterMap_length_eq_length]
  simp only [Sorting.mem_sortDedup, Option.isSome_iff_exists, Vocab.Knows]

variable {text : String} [Unicode]

/-- **Exact matching on ids is equality of token sets**, thanks to the gate. -/
theorem exact_iff (hv : index.vocab.Numbered) (hk : index.vocab.Knows (tokenize text)) :
    ((index.prepare tokens).allKnown = true ∧
      index.vocab.ids (tokenize text) = (index.prepare tokens).known) ↔
      tokenSet text = tokens.toFinset := by
  rw [allKnown_iff, prepare_known hv, tokenSet]
  constructor
  · rintro ⟨hq, heq⟩
    exact (Vocab.ids_eq_iff hv hk hq).mp heq
  · intro heq
    have hq : index.vocab.Knows tokens := fun t ht =>
      hk t (List.mem_toFinset.mp (heq ▸ List.mem_toFinset.mpr ht))
    exact ⟨hq, (Vocab.ids_eq_iff hv hk hq).mpr heq⟩

/-- **Broad matching on ids is containment of token sets.** -/
theorem broad_iff (hv : index.vocab.Numbered) (hk : index.vocab.Knows (tokenize text)) :
    (∀ i ∈ index.vocab.ids (tokenize text), i ∈ (index.prepare tokens).known) ↔
      tokenSet text ⊆ tokens.toFinset := by
  rw [prepare_known hv]
  exact Vocab.ids_subset_iff hv hk

/-! ### Negatives -/

variable {campaigns : List Campaign}

/-- A stored negative matches as its text does. -/
theorem indexedNegative_matches (hv : index.vocab.Numbered) {n : NegativeKeyword}
    (hk : index.vocab.Knows (tokenize n.text)) :
    (∃ neg, indexedNegative index.vocab n = some neg ∧
      (match neg.matchType with
        | .exact => (index.prepare tokens).allKnown && neg.tokens = (index.prepare tokens).known
        | .broad => (index.prepare tokens).containsAll neg.tokens) = true) ↔
      Matches n.matchType (tokenSet n.text) tokens.toFinset := by
  rw [indexedNegative]
  by_cases hnil : tokenize n.text = []
  · rw [if_pos ((Vocab.ids_eq_nil hk).mpr hnil)]
    constructor
    · rintro ⟨neg, hneg, -⟩
      cases hneg
    · exact fun hm => absurd hnil (tokenSet_nonempty.mp hm.1)
  · rw [if_neg fun h => hnil ((Vocab.ids_eq_nil hk).mp h)]
    have hne : (tokenSet n.text).Nonempty := tokenSet_nonempty.mpr hnil
    simp only [Option.some.injEq, exists_eq_left']
    cases n.matchType with
    | exact =>
      simp only [Bool.and_eq_true, decide_eq_true_eq, matches_exact, hne, true_and]
      exact exact_iff hv hk
    | broad =>
      simp only [PreparedQuery.containsAll, List.all_eq_true, decide_eq_true_eq, matches_broad,
        hne, true_and]
      exact broad_iff hv hk

/-- **The negative check is the rule on string sets.** -/
theorem negativeMatches_iff (h : Represents campaigns index) (pos : ℕ) :
    index.negativeMatches pos (index.prepare tokens) = true ↔
      ∃ c, campaigns[pos]? = some c ∧ Blocked tokens.toFinset c := by
  rw [negativeMatches, h.negatives, List.getElem?_map]
  cases hc : campaigns[pos]? with
  | none => simp
  | some c =>
    have hmem : c ∈ campaigns := List.mem_of_getElem? hc
    simp only [Option.map_some, List.any_eq_true, indexedNegatives, List.mem_filterMap,
      Option.some.injEq, exists_eq_left', Blocked]
    constructor
    · rintro ⟨neg, ⟨n, hn, hneg⟩, hm⟩
      exact ⟨n, hn, (indexedNegative_matches h.numbered ((h.knows c hmem).negatives n hn)).mp
        ⟨neg, hneg, hm⟩⟩
    · rintro ⟨n, hn, hm⟩
      obtain ⟨neg, hneg, hmatch⟩ :=
        (indexedNegative_matches h.numbered ((h.knows c hmem).negatives n hn)).mpr hm
      exact ⟨neg, ⟨n, hn, hneg⟩, hmatch⟩

end Query

/-! ### Hit counting -/

section Hits

variable {index : KeywordIndex} {query : PreparedQuery}

/-- The counters count the postings of the known tokens, end to end. -/
theorem countHits_eq (index : KeywordIndex) (query : PreparedQuery) :
    index.countHits query =
      (query.known.flatMap fun t => (index.broad.lookup t).getD []).foldl HashMap.bump ∅ := by
  rw [countHits, List.foldl_flatMap]
  refine congrArg (fun f => query.known.foldl f ∅) ?_
  funext hits t
  cases index.broad.lookup t <;> rfl

/-- **A broad keyword is hit once per known token it contains**, and other
keywords are not hit. -/
theorem lookup_countHits (hf : index.Filed) {pos count : ℕ} :
    (index.countHits query).lookup pos = some count ↔
      (∃ kw, index.keywords[pos]? = some kw ∧ kw.matchType = .broad ∧
        count = query.known.countP fun t => t ∈ kw.tokens) ∧ count ≠ 0 := by
  have hcount : (query.known.flatMap fun t => (index.broad.lookup t).getD []).count pos =
      query.known.countP fun t => pos ∈ positions (broadWith t) index.keywords := by
    simp only [hf.broad]
    exact HashMap.count_flatMap (fun t => nodup_positions _ _) _ _
  rw [countHits_eq, HashMap.lookup_tally_empty, hcount]
  refine and_congr_left fun hne => ?_
  simp only [mem_positions, broadWith, List.contains_iff_mem, decide_eq_true_eq]
  cases hkw : index.keywords[pos]? with
  | none =>
    simp only [reduceCtorEq, false_and, exists_false, decide_false, List.countP_false, iff_false]
    exact fun h => hne h.symm
  | some kw =>
    simp only [Option.some.injEq, exists_eq_left']
    by_cases hb : kw.matchType = .broad
    · simp only [hb, true_and]
      exact eq_comm
    · simp only [hb, false_and, decide_false, List.countP_false, iff_false]
      exact fun h => hne h.symm

/-! ### What is offered -/

/-- The exact keywords that a query hits. -/
def exactHits (index : KeywordIndex) (query : PreparedQuery) : List IndexedKeyword :=
  if query.allKnown then
    ((index.exact.lookup query.known).getD []).filterMap fun pos => index.keywords[pos]?
  else []

/-- The broad keywords that a query hits once per token, in the order in which
the counters are visited. -/
def broadHits (order : HashOrder) (index : KeywordIndex) (query : PreparedQuery) :
    List IndexedKeyword :=
  (order.hits.visit (index.countHits query).toPairs).filterMap fun e =>
    index.keywords[e.1]?.filter fun kw => e.2 = kw.tokens.length

/-- Everything that is offered, in order. -/
def offered (order : HashOrder) (index : KeywordIndex) (query : PreparedQuery) :
    List KeywordMatch :=
  ((exactHits index query).map fun kw => candidate kw (RelevanceBp.ofNat exactRelevanceBp)) ++
    (broadHits order index query).map fun kw =>
      candidate kw (broadRelevance kw.tokens.length query.distinct)

/-- An offer keeps the better match of the campaign. -/
theorem offer_eq (best : HashMap ℕ KeywordMatch) (kw : IndexedKeyword) (relevance : RelevanceBp) :
    offer best kw relevance =
      Best.offer KeywordMatch.campaignPos KeywordMatch.choiceKey best (candidate kw relevance) := by
  rw [offer, Best.offer]
  have hpos : (candidate kw relevance).campaignPos = kw.campaignPos := rfl
  rw [hpos]
  cases best.lookup kw.campaignPos with
  | none => rfl
  | some e =>
    simp only [KeywordMatch.beats, gt_iff_lt, decide_eq_true_eq]

theorem offerExact_eq (best : HashMap ℕ KeywordMatch) :
    offerExact index query best =
      ((exactHits index query).map fun kw =>
        candidate kw (RelevanceBp.ofNat exactRelevanceBp)).foldl
        (Best.offer KeywordMatch.campaignPos KeywordMatch.choiceKey) best := by
  rw [offerExact, exactHits, List.foldl_map]
  by_cases hk : query.allKnown = true
  · rw [if_pos hk, if_pos hk, List.foldl_filterMap]
    cases index.exact.lookup query.known with
    | none => rfl
    | some hits =>
      simp only [Option.getD_some, offer_eq]
      refine congrArg (fun f => hits.foldl f best) ?_
      funext b pos
      cases index.keywords[pos]? <;> rfl
  · rw [if_neg hk, if_neg hk]
    rfl

theorem offerBroad_eq (order : HashOrder) (best : HashMap ℕ KeywordMatch) :
    offerBroad order index query best =
      ((broadHits order index query).map fun kw =>
        candidate kw (broadRelevance kw.tokens.length query.distinct)).foldl
        (Best.offer KeywordMatch.campaignPos KeywordMatch.choiceKey) best := by
  rw [offerBroad, broadHits, List.foldl_map, List.foldl_filterMap]
  refine congrArg (fun f => List.foldl f best _) ?_
  funext b ⟨pos, count⟩
  cases hk : index.keywords[pos]? with
  | none => simp only [hk, Option.filter_none]
  | some kw =>
    simp only [hk, offer_eq, Option.filter_some, decide_eq_true_eq]
    split_ifs <;> rfl

/-- **The matching keeps the best of everything offered.** -/
theorem keepsBest_offered (order : HashOrder) (index : KeywordIndex) (query : PreparedQuery) :
    Best.KeepsBest KeywordMatch.campaignPos KeywordMatch.choiceKey (offered order index query)
      (offerBroad order index query (offerExact index query ∅)) := by
  rw [offerBroad_eq, offerExact_eq, ← List.foldl_append]
  exact Best.keepsBest_offerAll _

theorem mem_exactHits (hf : index.Filed) {kw : IndexedKeyword} :
    kw ∈ exactHits index query ↔ kw ∈ index.keywords ∧ kw.matchType = .exact ∧
      query.allKnown = true ∧ kw.tokens = query.known := by
  rw [exactHits]
  by_cases hk : query.allKnown = true
  · rw [if_pos hk, List.mem_filterMap, List.mem_iff_getElem?]
    simp only [hf.exact, mem_positions, exactWith, decide_eq_true_eq, hk, true_and]
    constructor
    · rintro ⟨pos, ⟨kw', hget', hm⟩, hget⟩
      obtain rfl := Option.some.inj (hget'.symm.trans hget)
      exact ⟨⟨pos, hget⟩, hm⟩
    · rintro ⟨⟨pos, hget⟩, hm⟩
      exact ⟨pos, ⟨kw, hget, hm⟩, hget⟩
  · rw [if_neg hk]
    simp [hk]

theorem mem_broadHits (order : HashOrder) (hf : index.Filed) (hq : query.known.Nodup)
    {kw : IndexedKeyword} (hnd : kw.tokens.Nodup) (hne : kw.tokens ≠ []) :
    kw ∈ broadHits order index query ↔ kw ∈ index.keywords ∧ kw.matchType = .broad ∧
      ∀ t ∈ kw.tokens, t ∈ query.known := by
  rw [← Sorting.countP_mem_eq_length_iff hq hnd]
  have hlen : kw.tokens.length ≠ 0 := fun h => hne (List.eq_nil_of_length_eq_zero h)
  simp only [broadHits, List.mem_filterMap, (order.hits.perm _).mem_iff, Option.filter_eq_some_iff,
    decide_eq_true_eq]
  constructor
  · rintro ⟨⟨pos, count⟩, hmem, hget, hcount⟩
    obtain ⟨⟨kw', hget', hb, hc⟩, -⟩ := (lookup_countHits hf).mp (HashMap.mem_toPairs.mp hmem)
    obtain rfl := Option.some.inj (hget'.symm.trans hget)
    exact ⟨List.mem_of_getElem? hget, hb, hc.symm.trans hcount⟩
  · rintro ⟨hmem, hb, hc⟩
    obtain ⟨pos, hget⟩ := List.mem_iff_getElem?.mp hmem
    refine ⟨(pos, kw.tokens.length), HashMap.mem_toPairs.mpr ?_, hget, rfl⟩
    exact (lookup_countHits hf).mpr ⟨⟨kw, hget, hb, hc.symm⟩, hlen⟩

/-- Whether a stored keyword is hit by a query. -/
def Hit (query : PreparedQuery) (kw : IndexedKeyword) : Prop :=
  match kw.matchType with
  | .exact => query.allKnown = true ∧ kw.tokens = query.known
  | .broad => ∀ t ∈ kw.tokens, t ∈ query.known

theorem hit_exact {kw : IndexedKeyword} (h : kw.matchType = .exact) :
    Hit query kw ↔ query.allKnown = true ∧ kw.tokens = query.known := by
  rw [Hit, h]

theorem hit_broad {kw : IndexedKeyword} (h : kw.matchType = .broad) :
    Hit query kw ↔ ∀ t ∈ kw.tokens, t ∈ query.known := by
  rw [Hit, h]

/-- The relevance at which a stored keyword is offered. -/
def hitRelevance (query : PreparedQuery) (kw : IndexedKeyword) : RelevanceBp :=
  match kw.matchType with
  | .exact => RelevanceBp.ofNat exactRelevanceBp
  | .broad => broadRelevance kw.tokens.length query.distinct

/-- **The stored keywords that are offered are those that are hit.** -/
theorem mem_offered_iff_hit (order : HashOrder) (hf : index.Filed) (hq : query.known.Nodup)
    (hkws : ∀ kw ∈ index.keywords, kw.tokens.Nodup ∧ kw.tokens ≠ []) {m : KeywordMatch} :
    m ∈ offered order index query ↔
      ∃ kw ∈ index.keywords, Hit query kw ∧ m = candidate kw (hitRelevance query kw) := by
  simp only [offered, List.mem_append, List.mem_map]
  constructor
  · rintro (⟨kw, hkw, rfl⟩ | ⟨kw, hkw, rfl⟩)
    · obtain ⟨hmem, hm, hhit⟩ := (mem_exactHits hf).mp hkw
      exact ⟨kw, hmem, (hit_exact hm).mpr hhit, by rw [hitRelevance, hm]⟩
    · have hmem : kw ∈ index.keywords := by
        simp only [broadHits, List.mem_filterMap, Option.filter_eq_some_iff] at hkw
        obtain ⟨e, -, hget, -⟩ := hkw
        exact List.mem_of_getElem? hget
      obtain ⟨hnd, hne⟩ := hkws kw hmem
      obtain ⟨-, hm, hhit⟩ := (mem_broadHits order hf hq hnd hne).mp hkw
      exact ⟨kw, hmem, (hit_broad hm).mpr hhit, by rw [hitRelevance, hm]⟩
  · rintro ⟨kw, hmem, hhit, rfl⟩
    obtain ⟨hnd, hne⟩ := hkws kw hmem
    cases hm : kw.matchType with
    | exact =>
      have hboth := (hit_exact hm).mp hhit
      exact .inl ⟨kw, (mem_exactHits hf).mpr ⟨hmem, hm, hboth⟩, by rw [hitRelevance, hm]⟩
    | broad =>
      have hall := (hit_broad hm).mp hhit
      exact .inr ⟨kw, (mem_broadHits order hf hq hnd hne).mpr ⟨hmem, hm, hall⟩,
        by rw [hitRelevance, hm]⟩

end Hits

/-! ### The whole matching -/

section Matching

variable [Unicode] {campaigns : List Campaign} {index : KeywordIndex} {tokens : List String}

/-- The stored keywords are those of the campaigns that have tokens. -/
theorem mem_keywords (h : Represents campaigns index) {kw : IndexedKeyword} :
    kw ∈ index.keywords ↔ ∃ pos c k, campaigns[pos]? = some c ∧ k ∈ c.keywords ∧
      indexedKeyword index.vocab pos c k = some kw := by
  simp only [h.keywords, List.mem_flatMap, indexedKeywords, List.mem_filterMap, Prod.exists,
    List.mem_zipIdx_iff_getElem?]
  constructor
  · rintro ⟨c, pos, hc, k, hk, hkw⟩
    exact ⟨pos, c, k, hc, hk, hkw⟩
  · rintro ⟨pos, c, k, hc, hk, hkw⟩
    exact ⟨c, pos, hc, k, hk, hkw⟩

/-- What is stored for a keyword with tokens. -/
theorem indexedKeyword_eq_some {v : Vocab} {pos : ℕ} {c : Campaign} {k : Keyword}
    {kw : IndexedKeyword} : indexedKeyword v pos c k = some kw ↔ v.ids (tokenize k.text) ≠ [] ∧
      kw = ⟨pos, c.id, k.id, k.matchType, k.maxCptBid, v.ids (tokenize k.text)⟩ := by
  rw [indexedKeyword]
  split_ifs with hnil
  · simp [hnil]
  · simp only [Option.some.injEq, ne_eq, hnil, not_false_eq_true, true_and]
    exact eq_comm

/-- **A stored keyword is hit as its text matches**, and offered at the relevance
of its text. -/
theorem hit_iff_matches (tokens : List String) (h : Represents campaigns index) {pos : ℕ}
    {c : Campaign} {k : Keyword} {kw : IndexedKeyword} (hc : c ∈ campaigns) (hk : k ∈ c.keywords)
    (hkw : indexedKeyword index.vocab pos c k = some kw) :
    (Hit (index.prepare tokens) kw ↔ Matches k.matchType (tokenSet k.text) tokens.toFinset) ∧
      hitRelevance (index.prepare tokens) kw =
        relevanceOf k.matchType (tokenSet k.text) tokens.toFinset := by
  have hknows := (h.knows c hc).keywords k hk
  obtain ⟨hne, rfl⟩ := indexedKeyword_eq_some.mp hkw
  have hset : (tokenSet k.text).Nonempty :=
    tokenSet_nonempty.mpr fun hnil => hne ((Vocab.ids_eq_nil hknows).mpr hnil)
  cases hm : k.matchType with
  | exact =>
    refine ⟨?_, rfl⟩
    rw [hit_exact rfl, matches_exact, and_iff_right hset]
    dsimp only
    exact exact_iff h.numbered hknows
  | broad =>
    refine ⟨?_, ?_⟩
    · rw [hit_broad rfl, matches_broad, and_iff_right hset]
      dsimp only
      exact broad_iff h.numbered hknows
    · rw [relevanceOf, tokenSet, ← Vocab.length_ids h.numbered hknows, ← prepare_distinct]
      rfl

/-- **What the matching offers** is every offer of every campaign, each at the
campaign's position. -/
theorem mem_offered (order : HashOrder) (h : Represents campaigns index) {m : KeywordMatch} :
    m ∈ offered order index (index.prepare tokens) ↔
      ∃ c, campaigns[m.campaignPos]? = some c ∧
        ∃ o ∈ offers tokens.toFinset c, m = o.toMatch m.campaignPos := by
  -- no token is counted twice, neither of the query nor of a stored keyword
  have hq : (index.prepare tokens).known.Nodup := by
    rw [prepare_known h.numbered]
    exact Vocab.nodup_ids _ _
  have hkws : ∀ kw ∈ index.keywords, kw.tokens.Nodup ∧ kw.tokens ≠ [] := by
    intro kw hkw
    obtain ⟨pos, c, k, -, -, hstored⟩ := (mem_keywords h).mp hkw
    obtain ⟨hne, rfl⟩ := indexedKeyword_eq_some.mp hstored
    dsimp only
    exact ⟨Vocab.nodup_ids _ _, hne⟩
  rw [mem_offered_iff_hit order h.filed hq hkws]
  constructor
  · rintro ⟨kw, hkw, hhit, rfl⟩
    obtain ⟨pos, c, k, hc, hk, hstored⟩ := (mem_keywords h).mp hkw
    obtain ⟨hiff, hrel⟩ := hit_iff_matches tokens h (List.mem_of_getElem? hc) hk hstored
    have hm := hiff.mp hhit
    rw [hrel]
    obtain ⟨-, rfl⟩ := indexedKeyword_eq_some.mp hstored
    exact ⟨c, hc, offerOf tokens.toFinset c k, mem_offers.mpr ⟨k, hk, hm, rfl⟩, rfl⟩
  · rintro ⟨c, hc, o, ho, hm⟩
    obtain ⟨k, hk, hmatch, rfl⟩ := mem_offers.mp ho
    have hmem := List.mem_of_getElem? hc
    have hne : index.vocab.ids (tokenize k.text) ≠ [] := fun hnil =>
      tokenSet_nonempty.mp hmatch.1
        ((Vocab.ids_eq_nil ((h.knows c hmem).keywords k hk)).mp hnil)
    have hstored : indexedKeyword index.vocab m.campaignPos c k = some _ :=
      indexedKeyword_eq_some.mpr ⟨hne, rfl⟩
    obtain ⟨hiff, hrel⟩ := hit_iff_matches tokens h hmem hk hstored
    refine ⟨_, (mem_keywords h).mpr ⟨m.campaignPos, c, k, hc, hk, hstored⟩, hiff.mpr hmatch, ?_⟩
    rw [hrel]
    exact hm

/-- The best offer of every campaign that has one, as a match, in campaign
order. -/
def bestOffers (q : Finset String) (campaigns : List Campaign) : List KeywordMatch :=
  campaigns.zipIdx.filterMap fun e => (bestOffer q e.1).map fun o => o.toMatch e.2

theorem mem_bestOffers {q : Finset String} {m : KeywordMatch} :
    m ∈ bestOffers q campaigns ↔ ∃ c, campaigns[m.campaignPos]? = some c ∧
      ∃ o, bestOffer q c = some o ∧ m = o.toMatch m.campaignPos := by
  simp only [bestOffers, List.mem_filterMap, Prod.exists, List.mem_zipIdx_iff_getElem?,
    Option.map_eq_some_iff]
  constructor
  · rintro ⟨c, pos, hc, o, ho, rfl⟩
    exact ⟨c, hc, o, ho, rfl⟩
  · rintro ⟨c, hc, o, ho, hm⟩
    exact ⟨c, m.campaignPos, hc, o, ho, hm.symm⟩

theorem pairwise_bestOffers (q : Finset String) (campaigns : List Campaign) :
    (bestOffers q campaigns).Pairwise fun a b => a.campaignPos < b.campaignPos := by
  have hpos : (campaigns.zipIdx).Pairwise fun a b => a.2 < b.2 := by
    rw [← List.pairwise_map (f := Prod.snd), List.zipIdx_map_snd]
    exact List.pairwise_lt_range'
  refine hpos.filterMap _ fun a b hab m hm m' hm' => ?_
  obtain ⟨o, -, rfl⟩ := Option.map_eq_some_iff.mp hm
  obtain ⟨o', -, rfl⟩ := Option.map_eq_some_iff.mp hm'
  exact hab

/-- The offers made at one position are those of the campaign there. -/
theorem mem_offered_at (tokens : List String) (order : HashOrder)
    (h : Represents campaigns index) {pos : ℕ} {c : Campaign} (hc : campaigns[pos]? = some c)
    {m : KeywordMatch} :
    m ∈ offered order index (index.prepare tokens) ∧ m.campaignPos = pos ↔
      m ∈ (offers tokens.toFinset c).map fun o => o.toMatch pos := by
  rw [mem_offered order h, List.mem_map]
  constructor
  · rintro ⟨⟨c', hc', o, ho, hm⟩, rfl⟩
    obtain rfl := Option.some.inj (hc.symm.trans hc')
    exact ⟨o, ho, hm.symm⟩
  · rintro ⟨o, ho, rfl⟩
    exact ⟨⟨c, hc, o, ho, rfl⟩, rfl⟩

/-- **What each place of the matching's map holds** is the best offer of the
campaign at that position. -/
theorem lookup_offered (order : HashOrder) (h : Represents campaigns index)
    (hids : ∀ c ∈ campaigns, (c.keywords.map Keyword.id).Nodup) {pos : ℕ} {m : KeywordMatch} :
    (offerBroad order index (index.prepare tokens)
        (offerExact index (index.prepare tokens) ∅)).lookup pos = some m ↔
      ∃ c, campaigns[pos]? = some c ∧
        ∃ o, bestOffer tokens.toFinset c = some o ∧ m = o.toMatch pos := by
  have hkeep := keepsBest_offered order index (index.prepare tokens)
  cases hc : campaigns[pos]? with
  | none =>
    simp only [reduceCtorEq, false_and, exists_false, iff_false]
    intro hm
    obtain ⟨⟨hmem, rfl⟩, -⟩ := hkeep.best pos m hm
    obtain ⟨c, hc', -⟩ := (mem_offered order h).mp hmem
    exact absurd (hc.symm.trans hc') (by simp)
  | some c =>
    have hat := fun m => mem_offered_at tokens (m := m) order h hc
    have hinj : ∀ a b, a ∈ (offers tokens.toFinset c).map (fun o => o.toMatch pos) →
        b ∈ (offers tokens.toFinset c).map (fun o => o.toMatch pos) →
        a.choiceKey = b.choiceKey → a = b := by
      intro a b ha hb hkey
      obtain ⟨o, ho, rfl⟩ := List.mem_map.mp ha
      obtain ⟨o', ho', rfl⟩ := List.mem_map.mp hb
      rw [offers_inj (hids c (List.mem_of_getElem? hc)) ho ho' hkey]
    rw [hkeep.lookup_eq_some_iff fun a b ha hb => hinj a b ((hat a).mp ha) ((hat b).mp hb)]
    have hbest : Best.IsBest KeywordMatch.choiceKey (fun b =>
        b ∈ offered order index (index.prepare tokens) ∧ b.campaignPos = pos) m ↔
        Best.IsBest KeywordMatch.choiceKey
          (· ∈ (offers tokens.toFinset c).map fun o => o.toMatch pos) m :=
      ⟨fun hb => hb.congr hat, fun hb => hb.congr fun b => (hat b).symm⟩
    rw [hbest, ← Best.best_eq_some_iff hinj,
      Best.best_map Offer.choiceKey (f := fun o : Offer => o.toMatch pos) fun _ => rfl]
    simp only [Option.map_eq_some_iff, Option.some.injEq, exists_eq_left', bestOffer]
    exact exists_congr fun o => and_congr_right fun _ => eq_comm

/-- **The matching lists the best offer of every campaign**, whatever the order
in which the hash maps are visited. -/
theorem bestMatches_eq (order : HashOrder) (h : Represents campaigns index)
    (hids : ∀ c ∈ campaigns, (c.keywords.map Keyword.id).Nodup) :
    index.bestMatches order (index.prepare tokens) = bestOffers tokens.toFinset campaigns := by
  rw [bestMatches]
  set best := offerBroad order index (index.prepare tokens)
    (offerExact index (index.prepare tokens) ∅) with hbest
  have hlookup : ∀ pos m, best.lookup pos = some m ↔ ∃ c, campaigns[pos]? = some c ∧
      ∃ o, bestOffer tokens.toFinset c = some o ∧ m = o.toMatch pos := fun pos m =>
    lookup_offered order h hids
  have hcmp : Sorting.ComparesBy (fun a b : KeywordMatch => compare a.campaignPos b.campaignPos)
      KeywordMatch.campaignPos := fun a b => compare_gt_iff_gt
  have hnd : ((order.best.visit best.values).map KeywordMatch.campaignPos).Nodup := by
    refine ((order.best.perm _).map _).nodup_iff.mpr (HashMap.nodup_map_values ?_)
    intro pos m hm
    obtain ⟨c, -, o, -, rfl⟩ := (hlookup pos m).mp hm
    rfl
  refine (Sorting.pairwise_lt_sortBy hcmp hnd).eq_of_mem_iff (pairwise_bestOffers _ _) fun m => ?_
  rw [Sorting.mem_sortBy, (order.best.perm _).mem_iff, HashMap.mem_values, mem_bestOffers]
  constructor
  · rintro ⟨pos, hm⟩
    obtain ⟨c, hc, o, ho, rfl⟩ := (hlookup pos m).mp hm
    exact ⟨c, hc, o, ho, rfl⟩
  · rintro ⟨c, hc, o, ho, hm⟩
    exact ⟨m.campaignPos, (hlookup _ m).mpr ⟨c, hc, o, ho, hm⟩⟩

end Matching

end KeywordIndex

end AdMatch
