import AdMatch.Engine.Reference

/-!
# The engine conducts the auction

`AdMatch.Snapshot.run` refers to campaigns by position, looks each match up in
the campaign list again and again, and assembles the winning ad by four lookups
that could fail. On a snapshot none of them does: a run is, exactly, the auction
of the field that the campaigns make up (`AdMatch.Snapshot.run_eq`). Nothing in
that field mentions the index, so neither does any result about runs from here
on.
-/

namespace AdMatch

variable [Unicode]

/-! ### Building -/

namespace Snapshot

/-- What a built snapshot holds. -/
theorem build_eq_ok {campaigns : List Campaign} {cfg : EngineConfig} {snap : Snapshot}
    (h : build campaigns cfg = .ok snap) : snap.campaigns = campaigns ∧ snap.cfg = cfg := by
  rw [build] at h
  split at h
  · cases h
  · split at h
    · cases h
    · rw [← Except.ok.inj h]
      exact ⟨rfl, rfl⟩

/-- What a build returns, to whoever reads the index only. -/
theorem map_index_build {α : Type} (f : KeywordIndex → α) (campaigns : List Campaign)
    (cfg : EngineConfig) : (build campaigns cfg).map (fun snap => f snap.index) =
      match checkIds campaigns with
      | .error e => .error e
      | .ok _ =>
        match KeywordIndex.build campaigns with
        | .error _ => .error .vocabularyFull
        | .ok index => .ok (f index) := by
  rw [build]
  split
  · rename_i hids
    simp only [hids]
    rfl
  · rename_i hids
    split
    · rename_i hindex
      simp only [hids, hindex]
      rfl
    · rename_i hindex
      simp only [hids, hindex]
      rfl

/-- **When a snapshot can be built.** -/
theorem build_isOk {campaigns : List Campaign} {cfg : EngineConfig} :
    (∃ snap, build campaigns cfg = .ok snap) ↔
      ((campaigns.map Campaign.id).Nodup ∧ ((allKeywords campaigns).map Keyword.id).Nodup) ∧
        ∃ index, KeywordIndex.build campaigns = .ok index := by
  rw [← checkIds_eq_ok]
  simp only [build]
  constructor
  · rintro ⟨snap, h⟩
    split at h
    · cases h
    · rename_i seen hids
      split at h
      · cases h
      · rename_i index hindex
        exact ⟨⟨seen, hids⟩, index, hindex⟩
  · rintro ⟨⟨seen, hids⟩, index, hindex⟩
    split
    · rename_i e he
      rw [hids] at he
      cases he
    · split
      · rename_i e he
        rw [hindex] at he
        cases he
      · exact ⟨_, rfl⟩

/-- The keywords of one campaign have distinct identifiers. -/
theorem nodup_keywords (snap : Snapshot) {c : Campaign} (hc : c ∈ snap.campaigns) :
    (c.keywords.map Keyword.id).Nodup := by
  have h := snap.keywordIds
  rw [allKeywords, List.map_flatMap] at h
  exact (List.nodup_flatMap.mp h).1 c hc

/-- **What the matching returns on a snapshot.** -/
theorem bestMatches_eq (snap : Snapshot) (order : HashOrder) (tokens : List String) :
    snap.index.bestMatches order (snap.index.prepare tokens) =
      KeywordIndex.bestOffers tokens.toFinset snap.campaigns :=
  KeywordIndex.bestMatches_eq order snap.represents fun _ hc => snap.nodup_keywords hc

end Snapshot

/-! ### Placed offers -/

/-- The best offers of the campaigns, each with the campaign's position. -/
def placedOffers (q : Finset String) (campaigns : List Campaign) : List (Offer × ℕ) :=
  campaigns.zipIdx.filterMap fun e => (bestOffer q e.1).map fun o => (o, e.2)

/-- The match that a placed offer makes. -/
def placedMatch (p : Offer × ℕ) : KeywordMatch := p.1.toMatch p.2

omit [Unicode] in
theorem bidder_placedMatch (p : Offer × ℕ) : (placedMatch p).bidder = p.1.entrant.bidder := rfl

variable {cfg : EngineConfig} {req : AuctionRequest} {q : Finset String}
  {campaigns : List Campaign}

theorem map_placedMatch :
    (placedOffers q campaigns).map placedMatch = KeywordIndex.bestOffers q campaigns := by
  rw [placedOffers, List.map_filterMap, KeywordIndex.bestOffers]
  simp only [Option.map_map]
  rfl

/-- A placed offer is the best offer of the campaign at its position. -/
theorem mem_placedOffers {p : Offer × ℕ} : p ∈ placedOffers q campaigns ↔
    campaigns[p.2]? = some p.1.campaign ∧ bestOffer q p.1.campaign = some p.1 := by
  simp only [placedOffers, List.mem_filterMap, Prod.exists, List.mem_zipIdx_iff_getElem?,
    Option.map_eq_some_iff]
  constructor
  · rintro ⟨c, pos, hc, o, ho, rfl⟩
    rw [(bestOffer_eq_some ho).1]
    exact ⟨hc, ho⟩
  · rintro ⟨hc, ho⟩
    exact ⟨p.1.campaign, p.2, hc, p.1, ho, rfl⟩

/-- The outcome of the eligibility checks of an offer. -/
def eligibilityOf (cfg : EngineConfig) (req : AuctionRequest) (q : Finset String) (o : Offer) :
    Eligibility :=
  eligibility cfg o.campaign o.keyword.maxCptBid req fun _ => Blocked q o.campaign

/-- The verdicts are those on the placed offers. -/
theorem verdicts_eq : verdicts cfg req q campaigns =
    (placedOffers q campaigns).map fun p => (p.1.entrant, eligibilityOf cfg req q p.1) := by
  have hcampaigns : verdicts cfg req q campaigns =
      campaigns.zipIdx.filterMap fun e => verdict cfg req q e.1 := by
    rw [verdicts, ← List.zipIdx_map_fst 0 campaigns, List.filterMap_map, List.zipIdx_map_fst]
    rfl
  rw [hcampaigns, placedOffers, List.map_filterMap]
  refine List.filterMap_congr fun e _ => ?_
  rw [Option.map_map, verdict]
  refine Option.map_congr fun o ho => ?_
  rw [← (bestOffer_eq_some ho).1]
  rfl

/-- The placed offers that enter the auction, ranked. -/
def rankedOffers (cfg : EngineConfig) (req : AuctionRequest) (q : Finset String)
    (campaigns : List Campaign) : List (Offer × ℕ) :=
  Sorting.sortBy (fun a b => Entrant.order a.1.entrant b.1.entrant)
    ((placedOffers q campaigns).filter fun p => eligibilityOf cfg req q p.1 = .eligible)

/-- A placed offer and the reason, if it is excluded. -/
def exclusionOf (cfg : EngineConfig) (req : AuctionRequest) (q : Finset String)
    (p : Offer × ℕ) : Option ((Offer × ℕ) × ExclusionReason) :=
  match eligibilityOf cfg req q p.1 with
  | .excluded reason => some (p, reason)
  | _ => none

/-- The placed offers that are excluded, with their reasons. -/
def excludedOffers (cfg : EngineConfig) (req : AuctionRequest) (q : Finset String)
    (campaigns : List Campaign) : List ((Offer × ℕ) × ExclusionReason) :=
  (placedOffers q campaigns).filterMap (exclusionOf cfg req q)

/-- The field that a list of campaigns makes up. -/
def fieldOf (cfg : EngineConfig) (req : AuctionRequest) (q : Finset String)
    (campaigns : List Campaign) : Field :=
  Field.ofVerdicts (verdicts cfg req q campaigns)

theorem fieldOf_eligible : (fieldOf cfg req q campaigns).eligible =
    (rankedOffers cfg req q campaigns).map fun p => p.1.entrant := by
  rw [fieldOf, Field.ofVerdicts, verdicts_eq, rankedOffers, Sorting.map_sortBy,
    ← List.filterMap_eq_filter, List.map_filterMap]
  dsimp only
  rw [List.filterMap_map]
  refine congrArg _ (List.filterMap_congr fun p _ => ?_)
  rw [Function.comp_apply, Verdict.candidate?]
  cases he : eligibilityOf cfg req q p.1 <;> simp [he, Option.guard]

theorem fieldOf_excluded : (fieldOf cfg req q campaigns).excluded =
    Sorting.sortBy (fun a b => Entrant.order a.1 b.1)
      ((excludedOffers cfg req q campaigns).map fun x => (x.1.1.entrant, x.2)) := by
  rw [fieldOf, Field.ofVerdicts, verdicts_eq, excludedOffers, List.map_filterMap]
  dsimp only
  rw [List.filterMap_map]
  refine congrArg _ (List.filterMap_congr fun p _ => ?_)
  rw [Function.comp_apply, Verdict.exclusion?, exclusionOf]
  cases eligibilityOf cfg req q p.1 <;> rfl

/-! ### The entries of a run -/

namespace Snapshot

variable (snap : Snapshot) (order : HashOrder)

/-- Sorting a placed offer into the entries: the lookup succeeds, and the
negative check is the rule. -/
theorem enterMatch_placedMatch {tokens : List String} (entries : Entries) {p : Offer × ℕ}
    (hp : p ∈ placedOffers tokens.toFinset snap.campaigns) :
    snap.enterMatch req (snap.index.prepare tokens) entries (placedMatch p) =
      match eligibilityOf snap.cfg req tokens.toFinset p.1 with
      | .paused => entries
      | .excluded reason =>
        { entries with excluded := entries.excluded ++ [(placedMatch p, reason)] }
      | .eligible => { entries with eligible := entries.eligible ++ [placedMatch p] } := by
  obtain ⟨hget, -⟩ := mem_placedOffers.mp hp
  have hpos : (placedMatch p).campaignPos = p.2 := rfl
  have hneg : snap.index.negativeMatches p.2 (snap.index.prepare tokens) =
      decide (Blocked tokens.toFinset p.1.campaign) := by
    rw [Bool.eq_iff_iff, KeywordIndex.negativeMatches_iff snap.represents, decide_eq_true_eq]
    simp only [hget, Option.some.injEq, exists_eq_left']
  rw [enterMatch, hpos, hget]
  simp only [hneg]
  rfl

/-- The loop over placed offers appends each to the list that its eligibility
names. -/
theorem foldl_enterMatch {tokens : List String} (l : List (Offer × ℕ)) (entries : Entries)
    (hl : ∀ p ∈ l, p ∈ placedOffers tokens.toFinset snap.campaigns) :
    (l.map placedMatch).foldl (snap.enterMatch req (snap.index.prepare tokens)) entries =
      ⟨entries.eligible ++ (l.filter fun p =>
          eligibilityOf snap.cfg req tokens.toFinset p.1 = .eligible).map placedMatch,
        entries.excluded ++ (l.filterMap
          (exclusionOf snap.cfg req tokens.toFinset)).map fun x => (placedMatch x.1, x.2)⟩ := by
  induction l generalizing entries with
  | nil => simp
  | cons p l ih =>
    rw [List.map_cons, List.foldl_cons,
      enterMatch_placedMatch snap entries (hl p List.mem_cons_self),
      ih _ fun p' hp' => hl p' (List.mem_cons_of_mem _ hp')]
    cases he : eligibilityOf snap.cfg req tokens.toFinset p.1 <;> simp [he, exclusionOf]

/-- **The entries of a run** are the ranked offers and the excluded ones. -/
theorem entries_eq (tokens : List String) : snap.entries order req tokens =
    ⟨(rankedOffers snap.cfg req tokens.toFinset snap.campaigns).map placedMatch,
      (excludedOffers snap.cfg req tokens.toFinset snap.campaigns).map fun x =>
        (placedMatch x.1, x.2)⟩ := by
  rw [entries, bestMatches_eq, ← map_placedMatch, foldl_enterMatch snap _ _ fun _ hp => hp,
    rankedOffers, excludedOffers]
  simp only [Entrant.order, ← bidder_placedMatch, List.nil_append]
  rw [Sorting.map_sortBy (fun a b => rankOrder a.bidder b.bidder) placedMatch]

/-! ### The walk down the ranking -/

variable {Day : Type} [DecidableEq Day] (day : Day)

/-- A ranked offer is placed, and enters the auction. -/
theorem mem_rankedOffers {p : Offer × ℕ} (h : p ∈ rankedOffers cfg req q campaigns) :
    p ∈ placedOffers q campaigns ∧ eligibilityOf cfg req q p.1 = .eligible := by
  rw [rankedOffers, Sorting.mem_sortBy, List.mem_filter, decide_eq_true_eq] at h
  exact h

/-- The attempt to spend at a position is that of the entrant there. -/
theorem tryPay_placedMatch {ranked : List (Offer × ℕ)}
    (hranked : ∀ p ∈ ranked, snap.campaigns[p.2]? = some p.1.campaign) {i : ℕ} {p : Offer × ℕ}
    (hp : ranked[i]? = some p) (price : Micros) :
    snap.tryPay (ranked.map placedMatch) day i price = Field.tryPay day (p.1.entrant, price) := by
  have hget : snap.campaigns[(placedMatch p).campaignPos]? = some p.1.campaign :=
    hranked p (List.mem_of_getElem? hp)
  funext budgets
  rw [tryPay, List.getElem?_map, hp, Option.map_some, Option.bind_some, hget]
  rfl

end Snapshot

namespace Snapshot

variable (snap : Snapshot) (order : HashOrder) {Day : Type} [DecidableEq Day] (day : Day)

/-- **The walk of a run is that of its field**, position by position. -/
theorem selectWinner_eq {ranked : List (Offer × ℕ)} {field : Field}
    (hranked : ∀ p ∈ ranked, snap.campaigns[p.2]? = some p.1.campaign)
    (hfield : field.eligible = ranked.map fun p => p.1.entrant) (budgets : BudgetStore Day) :
    selectWinner ((ranked.map placedMatch).map KeywordMatch.bidder) snap.cfg.reserve
        snap.cfg.increment (snap.tryPay (ranked.map placedMatch) day) budgets =
      Prod.map (fun found => ⟨found.map Prod.snd, field.prices snap.cfg,
          (found.map Prod.snd).getD field.eligible.length⟩) id
        (Walk.findFirst (fun c : (Entrant × Micros) × ℕ => Field.tryPay day c.1)
          (field.priced snap.cfg).zipIdx budgets) := by
  have hbidders : (ranked.map placedMatch).map KeywordMatch.bidder =
      field.eligible.map Entrant.bidder := by
    rw [hfield, List.map_map, List.map_map]
    rfl
  have hprices : (field.prices snap.cfg).zipIdx =
      (field.priced snap.cfg).zipIdx.map fun x => (x.1.2, x.2) := by
    rw [← Field.map_snd_priced, List.zipIdx_map]
    rfl
  have hattempt : ∀ c ∈ (field.priced snap.cfg).zipIdx,
      snap.tryPay (ranked.map placedMatch) day c.2 c.1.2 = Field.tryPay day c.1 := by
    rintro ⟨⟨e, price⟩, i⟩ hc
    obtain ⟨he, -⟩ := (Field.getElem?_priced _ _).mp (List.mem_zipIdx_iff_getElem?.mp hc)
    rw [hfield, List.getElem?_map, Option.map_eq_some_iff] at he
    obtain ⟨p, hp, rfl⟩ := he
    exact snap.tryPay_placedMatch day hranked hp price
  rw [selectWinner, hbidders, ← Field.prices, hprices, Walk.findFirst_map,
    Walk.findFirst_congr hattempt, List.length_map]
  rcases Walk.findFirst _ (field.priced snap.cfg).zipIdx budgets with ⟨_ | c, budgets'⟩ <;> rfl

/-- A keyword of a campaign is found by its identifier. -/
theorem find?_keyword {c : Campaign} (hc : c ∈ snap.campaigns) {k : Keyword}
    (hk : k ∈ c.keywords) : (c.keywords.find? fun k' => k'.id = k.id) = some k := by
  cases hfind : c.keywords.find? fun k' => k'.id = k.id with
  | none => simpa using List.find?_eq_none.mp hfind k hk
  | some k' =>
    have hid : k'.id = k.id := by simpa using List.find?_some hfind
    rw [List.inj_on_of_nodup_map (snap.nodup_keywords hc) (List.mem_of_find?_eq_some hfind) hk hid]

/-- **The winning ad is assembled without loss**: each of the four lookups
succeeds, and shows what the entrant shows. -/
theorem winnerOf_eq {q : Finset String} {ranked : List (Offer × ℕ)} {field : Field}
    (hranked : ∀ p ∈ ranked, p ∈ placedOffers q snap.campaigns)
    (hfield : field.eligible = ranked.map fun p => p.1.entrant)
    (found : Option ((Entrant × Micros) × ℕ))
    (hfound : ∀ c, found = some c → c ∈ (field.priced snap.cfg).zipIdx) (skipped : ℕ) :
    snap.winnerOf (ranked.map placedMatch)
        ⟨found.map Prod.snd, field.prices snap.cfg, skipped⟩ =
      found.map fun f => f.1.1.winner f.1.2 := by
  rcases found with _ | ⟨⟨e, price⟩, i⟩
  · rfl
  · obtain ⟨he, hprice⟩ := (Field.getElem?_priced _ _).mp
      (List.mem_zipIdx_iff_getElem?.mp (hfound _ rfl))
    rw [hfield, List.getElem?_map, Option.map_eq_some_iff] at he
    obtain ⟨p, hp, rfl⟩ := he
    obtain ⟨hget, hbest⟩ := mem_placedOffers.mp (hranked p (List.mem_of_getElem? hp))
    have hkeyword : p.1.keyword ∈ p.1.campaign.keywords := (bestOffer_eq_some hbest).2.1
    have hfind := snap.find?_keyword (List.mem_of_getElem? hget) hkeyword
    have hmatch : (ranked.map placedMatch)[i]? = some (placedMatch p) := by
      rw [List.getElem?_map, hp, Option.map_some]
    have hpos : (placedMatch p).campaignPos = p.2 := rfl
    have hid : (placedMatch p).keywordId = p.1.keyword.id := rfl
    simp only [winnerOf, Option.map_some, Option.bind_eq_bind, Option.bind_some, hmatch, hprice,
      hpos, hget, hid, hfind]
    rfl

omit [Unicode] [DecidableEq Day] in
/-- The rows of the candidates show their bids, prices and whether they were
skipped. -/
theorem candidateRows_eq (cfg : EngineConfig) {ranked : List (Offer × ℕ)} {field : Field}
    (heligible : field.eligible = ranked.map fun p => p.1.entrant) (skipped : ℕ) :
    ((ranked.map placedMatch).zipIdx.map fun (m, i) => rankedEntry m
        (field.prices cfg)[i]? (if i < skipped then some ExclusionReason.budget else none)) =
      (field.priced cfg).zipIdx.map fun (c, i) =>
        c.1.row (some c.2) (if i < skipped then some ExclusionReason.budget else none) := by
  refine List.ext_getElem? fun i => ?_
  simp only [List.getElem?_map, List.getElem?_zipIdx, Nat.zero_add]
  cases hp : ranked[i]? with
  | none =>
    have hnone : (field.priced cfg)[i]? = none := by
      rw [List.getElem?_eq_none_iff, Field.length_priced, heligible, List.length_map]
      exact List.getElem?_eq_none_iff.mp hp
    rw [hnone]
    rfl
  | some p =>
    have he : field.eligible[i]? = some p.1.entrant := by
      rw [heligible, List.getElem?_map, hp, Option.map_some]
    have hlt : i < (field.prices cfg).length := by
      rw [Field.length_prices]
      exact (List.getElem?_eq_some_iff.mp he).1
    have hprice := List.getElem?_eq_getElem hlt
    rw [(Field.getElem?_priced cfg field).mpr ⟨he, hprice⟩]
    simp only [Option.map_some, hprice]
    rfl

omit [Unicode] in
/-- The rows of the excluded matches are those of the excluded bidders. -/
theorem excludedRows_eq (excluded : List ((Offer × ℕ) × ExclusionReason)) :
    ((Sorting.sortBy (fun a b => rankOrder a.1.bidder b.1.bidder)
      (excluded.map fun x => (placedMatch x.1, x.2))).map fun (m, r) =>
        rankedEntry m none (some r)) =
    (Sorting.sortBy (fun a b => Entrant.order a.1 b.1)
      (excluded.map fun x => (x.1.1.entrant, x.2))).map fun (e, r) =>
        Entrant.row e none (some r) := by
  -- Both sides sort the images of one list, by orders that agree on it.
  have hleft := Sorting.map_sortBy (fun a b => rankOrder a.1.bidder b.1.bidder)
    (fun x : (Offer × ℕ) × ExclusionReason => (placedMatch x.1, x.2)) excluded
  have hright := Sorting.map_sortBy (fun a b => Entrant.order a.1 b.1)
    (fun x : (Offer × ℕ) × ExclusionReason => (x.1.1.entrant, x.2)) excluded
  rw [← hleft, ← hright, List.map_map, List.map_map]
  simp only [bidder_placedMatch, Entrant.order]
  rfl

omit [Unicode] in
/-- The debug ranking shows the field. -/
theorem debugRanking_eq (cfg : EngineConfig) {ranked : List (Offer × ℕ)}
    {excluded : List ((Offer × ℕ) × ExclusionReason)} {field : Field}
    (heligible : field.eligible = ranked.map fun p => p.1.entrant)
    (hexcluded : field.excluded = Sorting.sortBy (fun a b => Entrant.order a.1 b.1)
      (excluded.map fun x => (x.1.1.entrant, x.2))) (winner : Option ℕ) (skipped : ℕ) :
    debugRanking (ranked.map placedMatch) ⟨winner, field.prices cfg, skipped⟩
        (excluded.map fun x => (placedMatch x.1, x.2)) = field.ranking cfg skipped := by
  rw [debugRanking, Field.ranking, hexcluded, excludedRows_eq, candidateRows_eq cfg heligible]

/-- **The outcome of a run is the report of its field.** -/
theorem outcome_eq (req : AuctionRequest) {q : Finset String} {ranked : List (Offer × ℕ)}
    {excluded : List ((Offer × ℕ) × ExclusionReason)} {field : Field}
    (hranked : ∀ p ∈ ranked, p ∈ placedOffers q snap.campaigns)
    (heligible : field.eligible = ranked.map fun p => p.1.entrant)
    (hexcluded : field.excluded = Sorting.sortBy (fun a b => Entrant.order a.1 b.1)
      (excluded.map fun x => (x.1.1.entrant, x.2)))
    (found : Option ((Entrant × Micros) × ℕ))
    (hfound : ∀ c, found = some c → c ∈ (field.priced snap.cfg).zipIdx) :
    snap.outcome req ⟨ranked.map placedMatch, excluded.map fun x => (placedMatch x.1, x.2)⟩
        ⟨found.map Prod.snd, field.prices snap.cfg,
          (found.map Prod.snd).getD field.eligible.length⟩ =
      field.report snap.cfg req.debug found := by
  simp only [outcome, Field.report, snap.winnerOf_eq hranked heligible found hfound,
    debugRanking_eq snap.cfg heligible hexcluded]
  rw [heligible, List.length_map, List.length_map]

/-- **A run is the auction of its field.** -/
theorem run_eq (req : AuctionRequest) (budgets : BudgetStore Day) :
    snap.run order req budgets day =
      match normalize req.query with
      | .error e => (.error e, budgets)
      | .ok tokens => Prod.map .ok id
        ((fieldOf snap.cfg req tokens.toFinset snap.campaigns).conduct snap.cfg req.debug day
          budgets) := by
  rw [run]
  cases normalize req.query with
  | error e => rfl
  | ok tokens =>
    have hplaced : ∀ p ∈ rankedOffers snap.cfg req tokens.toFinset snap.campaigns,
        p ∈ placedOffers tokens.toFinset snap.campaigns := fun p hp => (mem_rankedOffers hp).1
    have hranked : ∀ p ∈ rankedOffers snap.cfg req tokens.toFinset snap.campaigns,
        snap.campaigns[p.2]? = some p.1.campaign := fun p hp =>
      (mem_placedOffers.mp (hplaced p hp)).1
    simp only [entries_eq, snap.selectWinner_eq day hranked fieldOf_eligible, Field.conduct]
    rcases hwalk : Walk.findFirst (fun c : (Entrant × Micros) × ℕ => Field.tryPay day c.1)
      ((fieldOf snap.cfg req tokens.toFinset snap.campaigns).priced snap.cfg).zipIdx budgets with
      ⟨found, budgets'⟩
    have hfound := fun c (hc : found = some c) =>
      Walk.mem_of_findFirst ((congrArg Prod.fst hwalk).trans hc)
    simp only [Prod.map_apply, id_eq,
      snap.outcome_eq req hplaced fieldOf_eligible fieldOf_excluded found hfound]

end Snapshot

end AdMatch
