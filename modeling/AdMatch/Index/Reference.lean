import AdMatch.Lib.Best
import AdMatch.Normalize
import AdMatch.Relevance
import Mathlib.Data.Prod.Lex
import Mathlib.Order.OrderDual

/-!
# What matching means

The matching rules on sets of strings, without an index: no token ids, no
posting lists, no positions. A keyword or negative matches a query when its token
set is non-empty and equal to, or contained in, the query's; a campaign offers
each of its matching keywords, and its best offer is the one of greatest score,
then bid, then lowest keyword identifier.
-/

namespace AdMatch

/-- Whether a keyword or negative with token set `kw` matches a query with token
set `q`. -/
def Matches (matchType : MatchType) (kw q : Finset String) : Prop :=
  kw.Nonempty ∧
    match matchType with
    | .exact => kw = q
    | .broad => kw ⊆ q

theorem matches_exact {kw q : Finset String} : Matches .exact kw q ↔ kw.Nonempty ∧ kw = q := Iff.rfl

theorem matches_broad {kw q : Finset String} : Matches .broad kw q ↔ kw.Nonempty ∧ kw ⊆ q := Iff.rfl

instance (kw q : Finset String) : (matchType : MatchType) → Decidable (Matches matchType kw q)
  | .exact => inferInstanceAs (Decidable (kw.Nonempty ∧ kw = q))
  | .broad => inferInstanceAs (Decidable (kw.Nonempty ∧ kw ⊆ q))

/-- A set of tokens matches itself, if it is not empty. -/
theorem matches_self {q : Finset String} (h : q.Nonempty) (matchType : MatchType) :
    Matches matchType q q := by
  cases matchType with
  | exact => exact ⟨h, rfl⟩
  | broad => exact ⟨h, Finset.Subset.refl _⟩

/-- Whatever matches a query is part of it. -/
theorem Matches.subset {matchType : MatchType} {kw q : Finset String} (h : Matches matchType kw q) :
    kw ⊆ q := by
  cases matchType with
  | exact => exact (matches_exact.mp h).2.subset
  | broad => exact (matches_broad.mp h).2

/-- The relevance of a match. -/
def relevanceOf (matchType : MatchType) (kw q : Finset String) : RelevanceBp :=
  match matchType with
  | .exact => RelevanceBp.ofNat exactRelevanceBp
  | .broad => broadRelevance kw.card q.card

/-- **An offer**: a campaign, one of its keywords, and that keyword's relevance
for a query. -/
structure Offer where
  campaign : Campaign
  keyword : Keyword
  relevance : RelevanceBp
  deriving DecidableEq

namespace Offer

/-- `bid × relevance`. -/
def score (o : Offer) : ℕ := AdMatch.score o.keyword.maxCptBid o.relevance

/-- What decides between the offers of a campaign, greatest first: score, bid,
lower keyword identifier. -/
def choiceKey (o : Offer) : ℕ ×ₗ Micros ×ₗ KeywordIdᵒᵈ :=
  toLex (o.score, toLex (o.keyword.maxCptBid, OrderDual.toDual o.keyword.id))

end Offer

section Offers

variable [Unicode]

/-- The offer of one keyword for a query with token set `q`. -/
def offerOf (q : Finset String) (campaign : Campaign) (keyword : Keyword) : Offer :=
  ⟨campaign, keyword, relevanceOf keyword.matchType (tokenSet keyword.text) q⟩

/-- The keywords of a campaign that match. -/
def matchingKeywords (q : Finset String) (campaign : Campaign) : List Keyword :=
  campaign.keywords.filter fun k => Matches k.matchType (tokenSet k.text) q

/-- Every offer of a campaign. -/
def offers (q : Finset String) (campaign : Campaign) : List Offer :=
  (matchingKeywords q campaign).map (offerOf q campaign)

/-- The best offer of a campaign. -/
def bestOffer (q : Finset String) (campaign : Campaign) : Option Offer :=
  Best.best Offer.choiceKey (offers q campaign)

/-- Whether one of a campaign's negatives matches. -/
def Blocked (q : Finset String) (campaign : Campaign) : Prop :=
  ∃ n ∈ campaign.negativeKeywords, Matches n.matchType (tokenSet n.text) q

instance (q : Finset String) (campaign : Campaign) : Decidable (Blocked q campaign) :=
  inferInstanceAs (Decidable (∃ n ∈ campaign.negativeKeywords, _))

theorem mem_matchingKeywords {q : Finset String} {campaign : Campaign} {k : Keyword} :
    k ∈ matchingKeywords q campaign ↔
      k ∈ campaign.keywords ∧ Matches k.matchType (tokenSet k.text) q := by
  simp [matchingKeywords]

theorem mem_offers {q : Finset String} {campaign : Campaign} {o : Offer} :
    o ∈ offers q campaign ↔ ∃ k ∈ campaign.keywords,
      Matches k.matchType (tokenSet k.text) q ∧ o = offerOf q campaign k := by
  simp only [offers, List.mem_map, mem_matchingKeywords]
  constructor
  · rintro ⟨k, ⟨hk, hm⟩, rfl⟩
    exact ⟨k, hk, hm, rfl⟩
  · rintro ⟨k, hk, hm, rfl⟩
    exact ⟨k, ⟨hk, hm⟩, rfl⟩

/-! ### The best keyword -/

/-- What decides between the keywords of a campaign, greatest first: score, bid,
lower identifier. -/
def keywordKey (q : Finset String) (k : Keyword) : ℕ ×ₗ Micros ×ₗ KeywordIdᵒᵈ :=
  toLex (AdMatch.score k.maxCptBid (relevanceOf k.matchType (tokenSet k.text) q),
    toLex (k.maxCptBid, OrderDual.toDual k.id))

/-- The best matching keyword of a list. -/
def bestKeyword (q : Finset String) (keywords : List Keyword) : Option Keyword :=
  Best.best (keywordKey q) (keywords.filter fun k => Matches k.matchType (tokenSet k.text) q)

/-- **What a best keyword is**: one that matches, no other that matches having a
greater key. -/
theorem bestKeyword_eq_some {q : Finset String} {keywords : List Keyword} {k : Keyword}
    (h : bestKeyword q keywords = some k) :
    k ∈ keywords ∧ Matches k.matchType (tokenSet k.text) q ∧
      ∀ k' ∈ keywords, Matches k'.matchType (tokenSet k'.text) q →
        keywordKey q k' ≤ keywordKey q k := by
  obtain ⟨hmem, hle⟩ := Best.isBest_best h
  simp only [List.mem_filter, decide_eq_true_eq] at hmem hle
  exact ⟨hmem.1, hmem.2, fun k' hk' hm' => hle k' ⟨hk', hm'⟩⟩

theorem exists_bestKeyword {q : Finset String} {keywords : List Keyword} {k : Keyword}
    (hk : k ∈ keywords) (hm : Matches k.matchType (tokenSet k.text) q) :
    ∃ k', bestKeyword q keywords = some k' := by
  cases hbest : bestKeyword q keywords with
  | some k' => exact ⟨k', rfl⟩
  | none =>
    have hnil := Best.best_eq_none.mp hbest
    have hmem : k ∈ keywords.filter fun k => Matches k.matchType (tokenSet k.text) q :=
      List.mem_filter.mpr ⟨hk, decide_eq_true hm⟩
    rw [hnil] at hmem
    exact absurd hmem List.not_mem_nil

theorem keyword_id_eq_of_keywordKey_eq {q : Finset String} {k k' : Keyword}
    (h : keywordKey q k = keywordKey q k') : k.id = k'.id := by
  have h2 := congrArg (fun p => (ofLex p).2) h
  exact congrArg (fun p => OrderDual.ofDual (ofLex p).2) h2

/-- Keywords with distinct identifiers have distinct keys. -/
theorem keywordKey_inj {q : Finset String} {keywords : List Keyword}
    (hids : (keywords.map Keyword.id).Nodup) {k k' : Keyword} (hk : k ∈ keywords)
    (hk' : k' ∈ keywords) (h : keywordKey q k = keywordKey q k') : k = k' :=
  List.inj_on_of_nodup_map hids hk hk' (keyword_id_eq_of_keywordKey_eq h)

/-- **The best keyword does not depend on the order of the keywords.** -/
theorem bestKeyword_perm {q : Finset String} {keywords keywords' : List Keyword}
    (hids : (keywords.map Keyword.id).Nodup) (hperm : keywords.Perm keywords') :
    bestKeyword q keywords = bestKeyword q keywords' :=
  Best.best_perm (hperm.filter _) fun _ _ hk hk' =>
    keywordKey_inj hids (List.mem_of_mem_filter hk) (List.mem_of_mem_filter hk')

/-! ### The best offer -/

/-- An offer is compared by the key of its keyword. -/
@[simp] theorem choiceKey_offerOf (q : Finset String) (campaign : Campaign) (k : Keyword) :
    (offerOf q campaign k).choiceKey = keywordKey q k := rfl

/-- A best offer is the offer of a best keyword. -/
theorem bestOffer_eq (q : Finset String) (campaign : Campaign) :
    bestOffer q campaign = (bestKeyword q campaign.keywords).map (offerOf q campaign) :=
  Best.best_map (keywordKey q) (f := offerOf q campaign) (choiceKey_offerOf q campaign) _

/-- Distinct keyword identifiers make the offers of a campaign differ in key. -/
theorem offers_inj {q : Finset String} {campaign : Campaign}
    (hids : (campaign.keywords.map Keyword.id).Nodup) {o o' : Offer} (ho : o ∈ offers q campaign)
    (ho' : o' ∈ offers q campaign) (h : o.choiceKey = o'.choiceKey) : o = o' := by
  obtain ⟨k, hk, -, rfl⟩ := mem_offers.mp ho
  obtain ⟨k', hk', -, rfl⟩ := mem_offers.mp ho'
  rw [keywordKey_inj hids hk hk' h]

/-- **What a best offer is**: that of a matching keyword, no other matching
keyword having a greater key. -/
theorem bestOffer_eq_some {q : Finset String} {campaign : Campaign} {o : Offer}
    (h : bestOffer q campaign = some o) :
    o.campaign = campaign ∧ o.keyword ∈ campaign.keywords ∧
      Matches o.keyword.matchType (tokenSet o.keyword.text) q ∧
      o.relevance = relevanceOf o.keyword.matchType (tokenSet o.keyword.text) q ∧
      ∀ o' ∈ offers q campaign, o'.choiceKey ≤ o.choiceKey := by
  rw [bestOffer_eq, Option.map_eq_some_iff] at h
  obtain ⟨k, hk, rfl⟩ := h
  obtain ⟨hmem, hm, hle⟩ := bestKeyword_eq_some hk
  refine ⟨rfl, hmem, hm, rfl, fun o' ho' => ?_⟩
  obtain ⟨k', hk', hm', rfl⟩ := mem_offers.mp ho'
  exact hle k' hk' hm'

/-- A campaign has a best offer exactly when a keyword of it matches. -/
theorem bestOffer_isSome {q : Finset String} {campaign : Campaign} :
    (∃ o, bestOffer q campaign = some o) ↔
      ∃ k ∈ campaign.keywords, Matches k.matchType (tokenSet k.text) q := by
  constructor
  · rintro ⟨o, ho⟩
    obtain ⟨rfl, hk, hm, -, -⟩ := bestOffer_eq_some ho
    exact ⟨o.keyword, hk, hm⟩
  · rintro ⟨k, hk, hm⟩
    obtain ⟨k', hk'⟩ := exists_bestKeyword hk hm
    exact ⟨offerOf q campaign k', by rw [bestOffer_eq, hk', Option.map_some]⟩

end Offers

end AdMatch
