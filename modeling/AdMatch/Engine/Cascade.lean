import AdMatch.Engine.Targeting

/-!
# The two matching paths

A run checks the matched campaigns one after the other, in an order of its own: it
looks at the negatives only after the targeting, and at the reserve last.
`AdMatch.Snapshot.matchesFor` applies the negatives up front. They agree, and the run
loses no campaign and counts none twice
(`AdMatch.Snapshot.entries_eq_matches`): a matched active campaign is a candidate or
is recorded, once, with the first rule that it fails (`AdMatch.FirstFailure`).
-/

namespace AdMatch

section Paths

variable [Unicode]

/-- **The first rule that fails**: the targeting, of country and age; then the
negatives; then the reserve. -/
inductive FirstFailure (cfg : EngineConfig) (req : AuctionRequest) (q : Finset String)
    (c : Campaign) (bid : Micros) : ExclusionReason → Prop
  | targeting (h : ¬(req.country ∈ c.countries ∧ AgeRule cfg req c)) :
    FirstFailure cfg req q c bid .targeting
  | negativeKeyword (targeted : req.country ∈ c.countries ∧ AgeRule cfg req c)
    (h : Blocked q c) : FirstFailure cfg req q c bid .negativeKeyword
  | reserve (targeted : req.country ∈ c.countries ∧ AgeRule cfg req c) (unblocked : ¬Blocked q c)
    (h : bid < cfg.reserve) : FirstFailure cfg req q c bid .reserve

section Checks

variable {cfg : EngineConfig} {req : AuctionRequest} {q : Finset String} {c : Campaign}
  {bid : Micros}

omit [Unicode] in
/-- What the cascade returns for a campaign that the request targets. -/
theorem eligibility_of_targeted {negativeHit : Unit → Bool} (hactive : c.status = .active)
    (htargeted : req.country ∈ c.countries ∧ AgeRule cfg req c) :
    eligibility cfg c bid req negativeHit =
      if negativeHit () then .excluded .negativeKeyword
      else if bid < cfg.reserve then .excluded .reserve
      else .eligible := by
  rw [eligibility, if_neg (not_not.mpr hactive), if_neg (not_not.mpr htargeted.1),
    if_neg (not_not.mpr (ageAllowed_iff.mpr htargeted.2))]

omit [Unicode] in
/-- And for one that it does not. -/
theorem eligibility_of_not_targeted {negativeHit : Unit → Bool} (hactive : c.status = .active)
    (h : ¬(req.country ∈ c.countries ∧ AgeRule cfg req c)) :
    eligibility cfg c bid req negativeHit = .excluded .targeting := by
  rw [eligibility, if_neg (not_not.mpr hactive)]
  by_cases hcountry : req.country ∈ c.countries
  · have hage : ¬ageAllowed cfg c req = true := fun hage => h ⟨hcountry, ageAllowed_iff.mp hage⟩
    rw [if_neg (not_not.mpr hcountry), if_pos hage]
  · rw [if_pos hcountry]

/-- **The cascade reports the first failure.** -/
theorem eligibility_eq_excluded {reason : ExclusionReason} :
    eligibility cfg c bid req (fun _ => Blocked q c) = .excluded reason ↔
      c.status = .active ∧ FirstFailure cfg req q c bid reason := by
  constructor
  · intro h
    have hactive : c.status = .active := by
      by_contra hpaused
      rw [eligibility, if_pos hpaused] at h
      cases h
    refine ⟨hactive, ?_⟩
    by_cases htargeted : req.country ∈ c.countries ∧ AgeRule cfg req c
    · rw [eligibility_of_targeted hactive htargeted] at h
      split_ifs at h with hneg hbid
      · obtain rfl := Eligibility.excluded.inj h
        exact .negativeKeyword htargeted (of_decide_eq_true hneg)
      · obtain rfl := Eligibility.excluded.inj h
        exact .reserve htargeted (fun hb => hneg (decide_eq_true hb)) hbid
    · rw [eligibility_of_not_targeted hactive htargeted] at h
      obtain rfl := Eligibility.excluded.inj h
      exact .targeting htargeted
  · rintro ⟨hactive, h | ⟨htargeted, hblocked⟩ | ⟨htargeted, hopen, hbid⟩⟩
    · exact eligibility_of_not_targeted hactive h
    · rw [eligibility_of_targeted hactive htargeted, if_pos (decide_eq_true hblocked)]
    · rw [eligibility_of_targeted hactive htargeted, if_neg (by simpa using hopen), if_pos hbid]

omit [Unicode] in
/-- An active campaign that is not eligible is excluded. -/
theorem eligibility_of_active (hactive : c.status = .active) (negativeHit : Unit → Bool) :
    eligibility cfg c bid req negativeHit = .eligible ∨
      ∃ reason, eligibility cfg c bid req negativeHit = .excluded reason := by
  by_cases htargeted : req.country ∈ c.countries ∧ AgeRule cfg req c
  · rw [eligibility_of_targeted hactive htargeted]
    split_ifs
    · exact Or.inr ⟨_, rfl⟩
    · exact Or.inr ⟨_, rfl⟩
    · exact Or.inl rfl
  · exact Or.inr ⟨_, eligibility_of_not_targeted hactive htargeted⟩

end Checks

/-! ### One verdict a campaign -/

/-- Placed offers have distinct positions. -/
theorem nodup_positions (q : Finset String) (campaigns : List Campaign) :
    ((placedOffers q campaigns).map Prod.snd).Nodup := by
  have hpos := KeywordIndex.pairwise_bestOffers q campaigns
  rw [← map_placedMatch, List.pairwise_map] at hpos
  rw [List.Nodup, List.pairwise_map]
  exact hpos.imp fun h => Nat.ne_of_lt h

/-- A campaign has one placed offer at most. -/
theorem placedOffers_inj {q : Finset String} {campaigns : List Campaign} {p p' : Offer × ℕ}
    (hp : p ∈ placedOffers q campaigns) (hp' : p' ∈ placedOffers q campaigns)
    (h : p.2 = p'.2) : p = p' :=
  List.inj_on_of_nodup_map (nodup_positions q campaigns) hp hp' h

namespace Snapshot

variable (order : HashOrder) (snap : Snapshot) (req : AuctionRequest) {tokens : List String}

/-- **The candidates of a run** are the placed offers that pass the checks. -/
theorem mem_entries_eligible {m : KeywordMatch} :
    m ∈ (snap.entries order req tokens).eligible ↔
      ∃ p ∈ placedOffers tokens.toFinset snap.campaigns,
        eligibilityOf snap.cfg req tokens.toFinset p.1 = .eligible ∧ placedMatch p = m := by
  rw [entries_eq, List.mem_map]
  simp only [rankedOffers, Sorting.mem_sortBy, List.mem_filter, decide_eq_true_eq, and_assoc]

/-- **The exclusions of a run** are the placed offers that a check excludes. -/
theorem mem_entries_excluded {m : KeywordMatch} {reason : ExclusionReason} :
    (m, reason) ∈ (snap.entries order req tokens).excluded ↔
      ∃ p ∈ placedOffers tokens.toFinset snap.campaigns,
        eligibilityOf snap.cfg req tokens.toFinset p.1 = .excluded reason ∧ placedMatch p = m := by
  rw [entries_eq, List.mem_map]
  constructor
  · rintro ⟨x, hx, hxm⟩
    obtain ⟨p, hp, hpx⟩ := List.mem_filterMap.mp hx
    rw [exclusionOf] at hpx
    rcases he : eligibilityOf snap.cfg req tokens.toFinset p.1 with _ | r | _
    all_goals rw [he] at hpx
    · cases hpx
    · obtain rfl := Option.some.inj hpx
      obtain ⟨rfl, rfl⟩ := Prod.mk.inj hxm
      exact ⟨p, hp, he, rfl⟩
    · cases hpx
  · rintro ⟨p, hp, he, rfl⟩
    refine ⟨(p, reason), List.mem_filterMap.mpr ⟨p, hp, ?_⟩, rfl⟩
    rw [exclusionOf, he]

theorem nodup_entries_eligible :
    ((snap.entries order req tokens).eligible.map KeywordMatch.campaignPos).Nodup := by
  rw [entries_eq, List.map_map]
  have hperm : ((rankedOffers snap.cfg req tokens.toFinset snap.campaigns).map Prod.snd).Perm
      (((placedOffers tokens.toFinset snap.campaigns).filter fun p =>
        eligibilityOf snap.cfg req tokens.toFinset p.1 = .eligible).map Prod.snd) :=
    (Sorting.perm_sortBy _ _).map _
  exact hperm.nodup_iff.mpr
    ((nodup_positions _ _).sublist (List.filter_sublist.map Prod.snd))

theorem nodup_entries_excluded :
    ((snap.entries order req tokens).excluded.map fun x => x.1.campaignPos).Nodup := by
  rw [entries_eq, List.map_map, List.Nodup, List.pairwise_map]
  have hpos := nodup_positions tokens.toFinset snap.campaigns
  rw [List.Nodup, List.pairwise_map] at hpos
  refine hpos.filterMap _ fun p p' hne x hx x' hx' => ?_
  -- an exclusion is that of the offer it comes from
  have hfst : ∀ p x, exclusionOf snap.cfg req tokens.toFinset p = some x → x.1 = p := by
    intro p x hx
    rw [exclusionOf] at hx
    split at hx
    · rw [← Option.some.inj hx]
    · cases hx
  rw [← hfst p x hx, ← hfst p' x' hx'] at hne
  exact hne

variable {Day : Type} [DecidableEq Day]

/-- **The two matching paths agree, and no campaign is lost or counted twice.** On an
accepted query, the candidates of a run are exactly the matches whose campaign is
active, lists the country, satisfies the age rule and bids at least the reserve;
there are as many candidates as the outcome says; and every other active campaign
with a matching keyword is excluded exactly once, with its chosen keyword and the
first rule it fails – and nobody else is. -/
theorem entries_eq_matches (order' : HashOrder) (hquery : normalize req.query = .ok tokens)
    (budgets : BudgetStore Day) (day : Day) :
    ∃ ms outcome, snap.matchesFor order' req.query = .ok ms ∧
      (snap.run order req budgets day).1 = .ok outcome ∧
      (∀ m, m ∈ (snap.entries order req tokens).eligible ↔ m ∈ ms ∧
        ∃ c, snap.campaigns[m.campaignPos]? = some c ∧ c.status = .active ∧
          req.country ∈ c.countries ∧ AgeRule snap.cfg req c ∧ snap.cfg.reserve ≤ m.bid) ∧
      ((snap.entries order req tokens).eligible.Nodup ∧
        outcome.candidates = (snap.entries order req tokens).eligible.length) ∧
      (∀ pos c, snap.campaigns[pos]? = some c → c.status = .active →
        (∃ k ∈ c.keywords, Matches k.matchType (tokenSet k.text) (tokenSet req.query)) →
        (∀ m ∈ (snap.entries order req tokens).eligible, m.campaignPos ≠ pos) →
        ∃ k reason, Chosen (tokenSet req.query) c k ∧
          FirstFailure snap.cfg req (tokenSet req.query) c k.maxCptBid reason ∧
          (snap.entries order req tokens).excluded.filter (fun x => x.1.campaignPos = pos) =
            [((offerOf (tokenSet req.query) c k).toMatch pos, reason)]) ∧
      ∀ x ∈ (snap.entries order req tokens).excluded,
        (∃ c, snap.campaigns[x.1.campaignPos]? = some c ∧ c.status = .active ∧
          ∃ k ∈ c.keywords, Matches k.matchType (tokenSet k.text) (tokenSet req.query)) ∧
        ∀ m ∈ (snap.entries order req tokens).eligible, m.campaignPos ≠ x.1.campaignPos := by
  rw [tokenSet_of_normalize hquery]
  refine ⟨_, _, by rw [matchesFor, hquery], by rw [run, hquery], ?_, ⟨?_, rfl⟩, ?_, ?_⟩
  · intro m
    rw [mem_entries_eligible, mem_matchesFor]
    constructor
    · rintro ⟨p, hp, hel, rfl⟩
      obtain ⟨hget, hbest⟩ := mem_placedOffers.mp hp
      obtain ⟨hactive, hcountry, hage, hneg, hbid⟩ := eligibility_eq_eligible.mp hel
      exact ⟨⟨p.1.campaign, hget, of_decide_eq_false hneg, p.1, hbest, rfl⟩, p.1.campaign, hget,
        hactive, hcountry, ageAllowed_iff.mp hage, hbid⟩
    · rintro ⟨⟨c, hget, hopen, o, hbest, hm⟩, c', hget', hactive, hcountry, hage, hbid⟩
      obtain rfl : c = c' := Option.some.inj (hget.symm.trans hget')
      obtain rfl : o.campaign = c := (bestOffer_eq_some hbest).1
      refine ⟨(o, m.campaignPos), mem_placedOffers.mpr ⟨hget, hbest⟩, ?_, hm.symm⟩
      rw [hm] at hbid
      exact eligibility_eq_eligible.mpr
        ⟨hactive, hcountry, ageAllowed_iff.mpr hage, decide_eq_false hopen, hbid⟩
  · exact (nodup_entries_eligible order snap req).of_map _
  · intro pos c hget hactive hmatch hnone
    obtain ⟨o, hbest⟩ := bestOffer_isSome.mpr hmatch
    obtain rfl : o.campaign = c := (bestOffer_eq_some hbest).1
    obtain ⟨hchosen, hoffer⟩ := chosen_of_bestOffer hbest
    have hp : (o, pos) ∈ placedOffers tokens.toFinset snap.campaigns :=
      mem_placedOffers.mpr ⟨hget, hbest⟩
    rcases eligibility_of_active hactive (fun _ => Blocked tokens.toFinset o.campaign) with
      hel | ⟨reason, hex⟩
    · exact absurd rfl (hnone _ ((mem_entries_eligible order snap req).mpr ⟨_, hp, hel, rfl⟩))
    · have hmem := (mem_entries_excluded order snap req).mpr ⟨_, hp, hex, rfl⟩
      refine ⟨o.keyword, reason, hchosen, (eligibility_eq_excluded.mp hex).2, ?_⟩
      rw [← hoffer]
      exact Sorting.filter_eq_singleton (nodup_entries_excluded order snap req) hmem
  · rintro ⟨m, reason⟩ hx
    obtain ⟨p, hp, hex, rfl⟩ := (mem_entries_excluded order snap req).mp hx
    obtain ⟨hget, hbest⟩ := mem_placedOffers.mp hp
    refine ⟨⟨p.1.campaign, hget, (eligibility_eq_excluded.mp hex).1,
      bestOffer_isSome.mp ⟨p.1, hbest⟩⟩, ?_⟩
    intro m' hm' hpos
    obtain ⟨p', hp', hel, rfl⟩ := (mem_entries_eligible order snap req).mp hm'
    rw [placedOffers_inj hp' hp hpos, hex] at hel
    cases hel

end Snapshot

end Paths

section Sample

attribute [local instance] Unicode.asciiGreek

/-- A request that is not personalised, with a word that blocks the first sample
campaign. -/
def sampleBlocked : AuctionRequest := ⟨"free photo editor", .IN, false, none, false⟩

/-- It is excluded once, by its negative. -/
theorem entries_eq_matches_sample : ∃ m,
    (sampleSnapshot.entries storageOrder sampleBlocked ["free", "photo", "editor"]).excluded.filter
      (fun x => x.1.campaignPos = 0) = [(m, .negativeKeyword)] := by
  have hquery : normalize sampleBlocked.query = .ok ["free", "photo", "editor"] := by decide
  have hnil : (sampleSnapshot.entries storageOrder sampleBlocked
      ["free", "photo", "editor"]).eligible = [] := rfl
  obtain ⟨ms, outcome, -, -, -, -, hexcluded, -⟩ := Snapshot.entries_eq_matches
    storageOrder sampleSnapshot sampleBlocked storageOrder hquery BudgetStore.inMemory 0
  obtain ⟨k, reason, -, hfailure, hfilter⟩ := hexcluded 0 _ rfl rfl (by decide) fun m hm => by
    rw [hnil] at hm
    exact absurd hm List.not_mem_nil
  rcases hfailure with h | - | ⟨-, hopen, -⟩
  · exact absurd ⟨by decide, Or.inl rfl⟩ h
  · exact ⟨_, hfilter⟩
  · exact absurd (by decide) hopen

end Sample

end AdMatch
