import AdMatch.Engine.Matching

/-!
# What a run charges

The walk down the ranking, seen through the ledger of the budget store: a
candidate's attempt to spend is an attempt of the ledger, so the walk charges the
first candidate whose price fits and nothing else
(`AdMatch.Field.conduct_eq`). On a snapshot with a positive reserve every price
is positive, and fitting is a matter of the budget alone
(`AdMatch.Snapshot.canPay_iff`).
-/

namespace AdMatch

/-! ### Eligibility -/

/-- **What it takes to be eligible.** -/
theorem eligibility_eq_eligible {cfg : EngineConfig} {c : Campaign} {bid : Micros}
    {req : AuctionRequest} {negativeHit : Unit → Bool} :
    eligibility cfg c bid req negativeHit = .eligible ↔
      c.status = .active ∧ req.country ∈ c.countries ∧ ageAllowed cfg c req = true ∧
        negativeHit () = false ∧ cfg.reserve ≤ bid := by
  rw [eligibility]
  split_ifs <;> simp_all [not_lt]

/-! ### The walk, on the ledger -/

namespace Field

variable {Day : Type} [DecidableEq Day] (day : Day)

/-- A candidate's attempt to spend is an attempt of the ledger. -/
theorem tryPay_ledger (c : Entrant × Micros) (budgets : BudgetStore Day) :
    Prod.map id BudgetStore.ledger (tryPay day c budgets) =
      Ledger.attempt (c.1.attempt day c.2) budgets.ledger := by
  rw [Entrant.attempt, ← BudgetStore.trySpend_ledger, tryPay]
  rfl

/-- It goes through when the price fits. -/
theorem tryPay_fst (c : Entrant × Micros) (budgets : BudgetStore Day) :
    (tryPay day c budgets).1 = decide (Ledger.Fits budgets.ledger (c.1.attempt day c.2)) := by
  rw [← Ledger.attempt_fst, ← tryPay_ledger]
  rfl

/-- The first candidate whose price fits, with its position. -/
def firstFit (cfg : EngineConfig) (field : Field) (s : CampaignId × Day → ℤ) :
    Option ((Entrant × Micros) × ℕ) :=
  (field.priced cfg).zipIdx.find? fun c => Ledger.Fits s (c.1.1.attempt day c.1.2)

omit [DecidableEq Day] in
theorem firstFit_eq_some {cfg : EngineConfig} {field : Field} {s : CampaignId × Day → ℤ}
    {e : Entrant} {price : Micros} {i : ℕ} :
    field.firstFit day cfg s = some ((e, price), i) ↔
      (field.priced cfg)[i]? = some (e, price) ∧ Ledger.Fits s (e.attempt day price) ∧
        ∀ j < i, ∀ e' price', (field.priced cfg)[j]? = some (e', price') →
          ¬Ledger.Fits s (e'.attempt day price') := by
  rw [firstFit, Walk.find?_zipIdx_eq_some
    (p := fun b : Entrant × Micros => decide (Ledger.Fits s (b.1.attempt day b.2)))]
  simp only [decide_eq_true_eq, decide_eq_false_iff_not, Prod.forall]

omit [DecidableEq Day] in
theorem firstFit_eq_none {cfg : EngineConfig} {field : Field} {s : CampaignId × Day → ℤ} :
    field.firstFit day cfg s = none ↔
      ∀ (j : ℕ) e price, (field.priced cfg)[j]? = some (e, price) →
        ¬Ledger.Fits s (e.attempt day price) := by
  rw [firstFit, Walk.find?_zipIdx_eq_none
    (p := fun b : Entrant × Micros => decide (Ledger.Fits s (b.1.attempt day b.2)))]
  simp only [decide_eq_false_iff_not, Prod.forall]

/-- The ledger once the first candidate that fits has paid. -/
def settle (cfg : EngineConfig) (field : Field) (s : CampaignId × Day → ℤ) :
    CampaignId × Day → ℤ :=
  (field.firstFit day cfg s).elim s fun c => Ledger.charge s (c.1.1.attempt day c.1.2)

/-- **An auction reports and charges the first candidate whose price fits.** -/
theorem conduct_eq (cfg : EngineConfig) (debug : Bool) (field : Field)
    (budgets : BudgetStore Day) :
    (field.conduct cfg debug day budgets).1 =
        field.report cfg debug (field.firstFit day cfg budgets.ledger) ∧
      (field.conduct cfg debug day budgets).2.ledger = field.settle day cfg budgets.ledger := by
  have hwalk := Walk.findFirst_observe BudgetStore.ledger
    (fun c : (Entrant × Micros) × ℕ => tryPay day c.1)
    (fun c => Ledger.attempt (c.1.1.attempt day c.1.2))
    (l := (field.priced cfg).zipIdx) (fun c _ s => tryPay_ledger day c.1 s) budgets
  rw [Ledger.findFirst_attempt] at hwalk
  rw [conduct]
  exact ⟨congrArg (field.report cfg debug) (congrArg Prod.fst hwalk), congrArg Prod.snd hwalk⟩

/-- An auction depends on the ledger of the store alone. -/
theorem conduct_congr (cfg : EngineConfig) (debug : Bool) (field : Field)
    {budgets budgets' : BudgetStore Day} (h : budgets.ledger = budgets'.ledger) :
    (field.conduct cfg debug day budgets).1 = (field.conduct cfg debug day budgets').1 ∧
      (field.conduct cfg debug day budgets).2.ledger =
        (field.conduct cfg debug day budgets').2.ledger := by
  obtain ⟨hreport, hledger⟩ := conduct_eq day cfg debug field budgets
  obtain ⟨hreport', hledger'⟩ := conduct_eq day cfg debug field budgets'
  rw [hreport, hledger, hreport', hledger', h]
  exact ⟨rfl, rfl⟩

end Field

/-! ### The candidates of a field -/

section Run

variable [Unicode] {cfg : EngineConfig} {req : AuctionRequest} {q : Finset String}
  {campaigns : List Campaign}

/-- The entrant of a campaign, if it is a candidate. -/
def candidateOf (cfg : EngineConfig) (req : AuctionRequest) (q : Finset String)
    (c : Campaign) : Option Entrant :=
  (verdict cfg req q c).bind Verdict.candidate?

/-- **A campaign is a candidate** when its best offer passes the eligibility
checks. -/
theorem candidateOf_eq_some {c : Campaign} {e : Entrant} : candidateOf cfg req q c = some e ↔
    ∃ o, bestOffer q c = some o ∧ eligibilityOf cfg req q o = .eligible ∧ e = o.entrant := by
  rw [candidateOf, Option.bind_eq_some_iff]
  constructor
  · rintro ⟨⟨e', el⟩, hv, hcand⟩
    obtain ⟨o, ho, hv⟩ := Option.map_eq_some_iff.mp hv
    obtain ⟨rfl, hel⟩ := Prod.mk.inj hv
    cases el <;> simp only [Verdict.candidate?, reduceCtorEq, Option.some.injEq] at hcand
    rw [← (bestOffer_eq_some ho).1] at hel
    exact ⟨o, ho, hel, hcand.symm⟩
  · rintro ⟨o, ho, hel, rfl⟩
    refine ⟨(o.entrant, .eligible), ?_, rfl⟩
    rw [verdict, ho, Option.map_some, ← hel, ← (bestOffer_eq_some ho).1]
    rfl

/-- A candidate is of its campaign. -/
theorem candidateOf_campaignId {c : Campaign} {e : Entrant}
    (h : candidateOf cfg req q c = some e) : e.campaignId = c.id := by
  obtain ⟨o, ho, -, rfl⟩ := candidateOf_eq_some.mp h
  rw [← (bestOffer_eq_some ho).1]
  rfl

theorem fieldOf_eligible_eq : (fieldOf cfg req q campaigns).eligible =
    Sorting.sortBy Entrant.order (campaigns.filterMap (candidateOf cfg req q)) := by
  rw [fieldOf, Field.ofVerdicts, verdicts, List.filterMap_filterMap]
  rfl

theorem exists_candidateOf_of_mem {e : Entrant}
    (h : e ∈ (fieldOf cfg req q campaigns).eligible) :
    ∃ c ∈ campaigns, candidateOf cfg req q c = some e := by
  rwa [fieldOf_eligible_eq, Sorting.mem_sortBy, List.mem_filterMap] at h

/-- **The candidates** are the best offers that pass the eligibility checks. -/
theorem mem_fieldOf_eligible {e : Entrant} : e ∈ (fieldOf cfg req q campaigns).eligible ↔
    ∃ o, o.campaign ∈ campaigns ∧ bestOffer q o.campaign = some o ∧
      eligibilityOf cfg req q o = .eligible ∧ e = o.entrant := by
  rw [fieldOf_eligible_eq, Sorting.mem_sortBy, List.mem_filterMap]
  simp only [candidateOf_eq_some]
  constructor
  · rintro ⟨c, hc, o, ho, hel, rfl⟩
    obtain rfl := (bestOffer_eq_some ho).1
    exact ⟨o, hc, ho, hel, rfl⟩
  · rintro ⟨o, hc, ho, hel, rfl⟩
    exact ⟨o.campaign, hc, o, ho, hel, rfl⟩

/-- **Where a candidate stands**: after as many as rank before it. -/
theorem countP_key_lt (hids : (campaigns.map Campaign.id).Nodup) {i : ℕ} {e : Entrant}
    (h : (fieldOf cfg req q campaigns).eligible[i]? = some e) :
    (campaigns.filterMap (candidateOf cfg req q)).countP (fun b => b.key < e.key) = i := by
  rw [← Sorting.countP_lt_eq_of_getElem? (Field.pairwise_eligible (nodup_verdicts hids)) h,
    ← fieldOf, fieldOf_eligible_eq]
  exact (Sorting.perm_sortBy _ _).symm.countP_eq _

/-- A candidate bids at least the reserve. -/
theorem reserve_le_bid {e : Entrant} (h : e ∈ (fieldOf cfg req q campaigns).eligible) :
    cfg.reserve ≤ e.bidder.bid := by
  obtain ⟨o, -, -, hel, rfl⟩ := mem_fieldOf_eligible.mp h
  exact (eligibility_eq_eligible.mp hel).2.2.2.2

/-- **Every price lies between the reserve and the bid.** -/
theorem price_bounds {i : ℕ} {e : Entrant} {price : Micros}
    (h : ((fieldOf cfg req q campaigns).priced cfg)[i]? = some (e, price)) :
    cfg.reserve ≤ price ∧ price ≤ e.keyword.maxCptBid := by
  obtain ⟨he, hprice⟩ := (Field.getElem?_priced _ _).mp h
  rw [Field.getElem?_prices, he] at hprice
  obtain rfl := Option.some.inj hprice
  exact ⟨reserve_le_gspPrice (reserve_le_bid (List.mem_of_getElem? he)), gspPrice_le_bid _ _ _ _⟩

/-! ### Candidates and exclusions of a run -/

namespace Snapshot

variable (order : HashOrder) (snap : Snapshot)

/-- **Whether a campaign is a candidate** of a run, at a position of the
ranking. -/
def CandidateAt (req : AuctionRequest) (cid : CampaignId) (i : ℕ) : Prop :=
  ∃ tokens m, normalize req.query = .ok tokens ∧
    (snap.entries order req tokens).eligible[i]? = some m ∧ m.campaignId = cid

/-- Whether a campaign is excluded from a run, for a reason. -/
def ExcludedFor (req : AuctionRequest) (cid : CampaignId) (reason : ExclusionReason) : Prop :=
  ∃ tokens m, normalize req.query = .ok tokens ∧
    (m, reason) ∈ (snap.entries order req tokens).excluded ∧ m.campaignId = cid

variable {order snap}

theorem candidateAt_iff {cid : CampaignId} {i : ℕ} : snap.CandidateAt order req cid i ↔
    ∃ tokens e, normalize req.query = .ok tokens ∧
      (fieldOf snap.cfg req tokens.toFinset snap.campaigns).eligible[i]? = some e ∧
      e.campaignId = cid := by
  refine exists_congr fun tokens => ?_
  rw [entries_eq, fieldOf_eligible]
  simp only [List.getElem?_map, Option.map_eq_some_iff]
  constructor
  · rintro ⟨m, hq, ⟨p, hp, rfl⟩, hid⟩
    exact ⟨p.1.entrant, hq, ⟨p, hp, rfl⟩, hid⟩
  · rintro ⟨e, hq, ⟨p, hp, rfl⟩, hid⟩
    exact ⟨placedMatch p, hq, ⟨p, hp, rfl⟩, hid⟩

theorem excludedFor_iff {cid : CampaignId} {reason : ExclusionReason} :
    snap.ExcludedFor order req cid reason ↔ ∃ tokens o, normalize req.query = .ok tokens ∧
      o.campaign ∈ snap.campaigns ∧ bestOffer tokens.toFinset o.campaign = some o ∧
      eligibilityOf snap.cfg req tokens.toFinset o = .excluded reason ∧ o.campaign.id = cid := by
  refine exists_congr fun tokens => ?_
  rw [entries_eq]
  simp only [List.mem_map, excludedOffers, List.mem_filterMap, mem_placedOffers]
  constructor
  · rintro ⟨m, hq, ⟨x, ⟨p, ⟨hc, ho⟩, hx⟩, hm⟩, hid⟩
    rw [exclusionOf] at hx
    cases hel : eligibilityOf snap.cfg req tokens.toFinset p.1 <;>
      simp only [hel, reduceCtorEq, Option.some.injEq] at hx
    obtain rfl := hx
    obtain ⟨rfl, rfl⟩ := Prod.mk.inj hm
    exact ⟨p.1, hq, List.mem_of_getElem? hc, ho, hel, hid⟩
  · rintro ⟨o, hq, hc, ho, hel, hid⟩
    obtain ⟨pos, hpos⟩ := List.mem_iff_getElem?.mp hc
    refine ⟨placedMatch (o, pos), hq, ⟨((o, pos), reason), ⟨(o, pos), ⟨hpos, ho⟩, ?_⟩, rfl⟩, hid⟩
    rw [exclusionOf, hel]

end Snapshot

/-! ### What stands in a ranking -/

/-- What stands at a position of a ranking: a match, its campaign and its keyword
as they are in the campaign list, and the price against the next position. -/
structure Snapshot.Stands (snap : Snapshot) (ranked : List KeywordMatch) (i : ℕ)
    (m : KeywordMatch) (c : Campaign) (k : Keyword) (price : Micros) : Prop where
  entry : ranked[i]? = some m
  campaign : snap.campaigns[m.campaignPos]? = some c
  keyword : k ∈ c.keywords ∧ k.id = m.keywordId
  price : (gspPrices (ranked.map KeywordMatch.bidder) snap.cfg.reserve
    snap.cfg.increment)[i]? = some price

/-- Whether the candidate at a position of a ranking can pay its price: the exact
total stays within the budget. -/
def Snapshot.CanPay {Day : Type} [DecidableEq Day] (snap : Snapshot) (ranked : List KeywordMatch)
    (day : Day) (budgets : BudgetStore Day) (i : ℕ) : Prop :=
  ∃ m c k price, snap.Stands ranked i m c k price ∧
    (budgets.spent c.id day).toInt + price.toInt ≤ c.dailyBudget.toInt

namespace Snapshot

variable (snap : Snapshot) (order : HashOrder) {Day : Type} [DecidableEq Day] (day : Day)

/-- The prices of a run's ranking are those of its field. -/
theorem prices_entries (tokens : List String) :
    gspPrices (((snap.entries order req tokens).eligible).map KeywordMatch.bidder)
        snap.cfg.reserve snap.cfg.increment =
      (fieldOf snap.cfg req tokens.toFinset snap.campaigns).prices snap.cfg := by
  rw [entries_eq, Field.prices, fieldOf_eligible, List.map_map, List.map_map]
  rfl

/-- **What stands at a position of a run's ranking is the entrant of the field
there.** -/
theorem stands_iff {tokens : List String} {i : ℕ} {e : Entrant} {price : Micros} :
    ((fieldOf snap.cfg req tokens.toFinset snap.campaigns).priced snap.cfg)[i]? = some (e, price) ↔
      ∃ m c k, snap.Stands (snap.entries order req tokens).eligible i m c k price ∧
        e = ⟨c.id, c.dailyBudget, k, m.relevance⟩ := by
  have hget : ∀ m, (snap.entries order req tokens).eligible[i]? = some m ↔
      ∃ p, (rankedOffers snap.cfg req tokens.toFinset snap.campaigns)[i]? = some p ∧
        placedMatch p = m := fun m => by
    rw [entries_eq, List.getElem?_map, Option.map_eq_some_iff]
  have hplaced : ∀ p, (rankedOffers snap.cfg req tokens.toFinset snap.campaigns)[i]? = some p →
      snap.campaigns[p.2]? = some p.1.campaign ∧ p.1.keyword ∈ p.1.campaign.keywords :=
    fun p hp => by
      obtain ⟨hc, ho⟩ := mem_placedOffers.mp (mem_rankedOffers (List.mem_of_getElem? hp)).1
      exact ⟨hc, (bestOffer_eq_some ho).2.1⟩
  rw [Field.getElem?_priced, fieldOf_eligible, List.getElem?_map, Option.map_eq_some_iff,
    ← prices_entries snap order]
  constructor
  · rintro ⟨⟨p, hp, rfl⟩, hprice⟩
    obtain ⟨hc, hk⟩ := hplaced p hp
    exact ⟨placedMatch p, p.1.campaign, p.1.keyword,
      ⟨(hget _).mpr ⟨p, hp, rfl⟩, hc, ⟨hk, rfl⟩, hprice⟩, rfl⟩
  · rintro ⟨m, c, k, ⟨hentry, hcampaign, ⟨hk, hid⟩, hprice⟩, rfl⟩
    obtain ⟨p, hp, rfl⟩ := (hget m).mp hentry
    obtain ⟨hc, hk'⟩ := hplaced p hp
    obtain rfl : c = p.1.campaign := Option.some.inj (hcampaign.symm.trans hc)
    obtain rfl : k = p.1.keyword :=
      List.inj_on_of_nodup_map (snap.nodup_keywords (List.mem_of_getElem? hc)) hk hk' hid
    exact ⟨⟨p, hp, rfl⟩, hprice⟩

/-- With a positive reserve, a candidate can pay exactly when its attempt
fits. -/
theorem canPay_iff (hreserve : 0 < snap.cfg.reserve.toInt) {tokens : List String}
    (budgets : BudgetStore Day) (i : ℕ) :
    snap.CanPay (snap.entries order req tokens).eligible day budgets i ↔
      ∃ e price, ((fieldOf snap.cfg req tokens.toFinset snap.campaigns).priced snap.cfg)[i]? =
          some (e, price) ∧ Ledger.Fits budgets.ledger (e.attempt day price) := by
  constructor
  · rintro ⟨m, c, k, price, hstands, hle⟩
    have hpriced := (stands_iff snap order).mpr ⟨m, c, k, hstands, rfl⟩
    have hpos := Micros.le_def.mp (price_bounds hpriced).1
    exact ⟨_, price, hpriced, hreserve.trans_le hpos, hle⟩
  · rintro ⟨e, price, hpriced, hfits⟩
    obtain ⟨m, c, k, hstands, rfl⟩ := (stands_iff snap order).mp hpriced
    exact ⟨m, c, k, price, hstands, hfits.2⟩

/-- The ranking of a run is in ranking order. -/
theorem pairwise_entries (tokens : List String) :
    (snap.entries order req tokens).eligible.Pairwise fun a b =>
      rankOrder a.bidder b.bidder ≠ .gt := by
  have hcmp : Sorting.ComparesBy (fun a b : KeywordMatch => rankOrder a.bidder b.bidder)
      fun m => OrderDual.toDual m.bidder.rankKey := fun a b => rankOrder_comparesBy _ _
  exact (Sorting.pairwise_sortBy hcmp _).imp fun hab => (hcmp.ne_gt _ _).mpr hab

/-- **What a run did**, given its ranking: either the first candidate that could
pay won – it is shown with its campaign's identifier and its keyword as they
stand in the campaign list, at its price, and is charged that price, nobody else
anything – or nobody could pay, nobody is shown and nobody is charged. -/
inductive Charged (snap : Snapshot) (ranked : List KeywordMatch) (day : Day)
    (budgets : BudgetStore Day) (outcome : AuctionOutcome) (after : BudgetStore Day) : Prop
  | winner (i : ℕ) (m : KeywordMatch) (c : Campaign) (k : Keyword) (price : Micros)
    (stands : snap.Stands ranked i m c k price)
    (affordable : (budgets.spent c.id day).toInt + price.toInt ≤ c.dailyBudget.toInt)
    (first : ∀ j < i, ¬snap.CanPay ranked day budgets j)
    (shown : outcome.winner = some
      { campaignId := c.id, keywordId := k.id, keywordText := k.text, matchType := k.matchType,
        maxCptBid := k.maxCptBid, price, relevance := m.relevance })
    (skipped : outcome.budgetSkipped = i)
    (charged : ∀ campaign d, (after.spent campaign d).toInt =
      (budgets.spent campaign d).toInt + if campaign = c.id ∧ d = day then price.toInt else 0)
  | nobody
    (broke : ∀ j, ¬snap.CanPay ranked day budgets j)
    (shown : outcome.winner = none)
    (skipped : outcome.budgetSkipped = ranked.length)
    (unchanged : ∀ campaign d, after.spent campaign d = budgets.spent campaign d)

/-- An ad is shown exactly when somebody can pay. -/
theorem Charged.isSome_iff {snap : Snapshot} {ranked : List KeywordMatch} {day : Day}
    {budgets after : BudgetStore Day} {outcome : AuctionOutcome}
    (h : snap.Charged ranked day budgets outcome after) :
    outcome.winner.isSome = true ↔ ∃ i, snap.CanPay ranked day budgets i := by
  rcases h with ⟨i, m, c, k, price, hstands, hle, -, hshown, -, -⟩ | ⟨hnone, hshown, -, -⟩
  · rw [hshown]
    exact ⟨fun _ => ⟨i, m, c, k, price, hstands, hle⟩, fun _ => rfl⟩
  · rw [hshown]
    exact ⟨fun h => absurd h (by simp), fun ⟨i, hi⟩ => absurd hi (hnone i)⟩

/-- A run charges the first candidate of its field whose price fits. -/
theorem charged_conduct (hreserve : 0 < snap.cfg.reserve.toInt) (req : AuctionRequest)
    (tokens : List String) (budgets : BudgetStore Day) :
    snap.Charged (snap.entries order req tokens).eligible day budgets
      ((fieldOf snap.cfg req tokens.toFinset snap.campaigns).conduct snap.cfg req.debug day
        budgets).1
      ((fieldOf snap.cfg req tokens.toFinset snap.campaigns).conduct snap.cfg req.debug day
        budgets).2 := by
  set field := fieldOf snap.cfg req tokens.toFinset snap.campaigns with hf
  obtain ⟨hreport, hledger⟩ := Field.conduct_eq day snap.cfg req.debug field budgets
  have hcan : ∀ i, snap.CanPay (snap.entries order req tokens).eligible day budgets i ↔
      ∃ e price, (field.priced snap.cfg)[i]? = some (e, price) ∧
        Ledger.Fits budgets.ledger (e.attempt day price) :=
    snap.canPay_iff order day hreserve budgets
  have hspent : ∀ campaign d,
      ((field.conduct snap.cfg req.debug day budgets).2.spent campaign d).toInt =
        field.settle day snap.cfg budgets.ledger (campaign, d) := fun campaign d =>
    congrFun hledger (campaign, d)
  rw [hreport]
  rcases hfit : field.firstFit day snap.cfg budgets.ledger with _ | ⟨⟨e, price⟩, i⟩
  · have hnone := (Field.firstFit_eq_none day).mp hfit
    refine .nobody (fun j hj => ?_) rfl ?_ fun campaign d => Micros.toInt_injective ?_
    · -- who can pay has an attempt that fits, and none does
      obtain ⟨e, price, hpriced, hfits⟩ := (hcan j).mp hj
      exact hnone j e price hpriced hfits
    · change field.eligible.length = _
      rw [hf, fieldOf_eligible, entries_eq, List.length_map, List.length_map]
    · rw [hspent, Field.settle, hfit]
      rfl
  · obtain ⟨hpriced, hfits, hfirst⟩ := (Field.firstFit_eq_some day).mp hfit
    obtain ⟨m, c, k, hstands, rfl⟩ := (stands_iff snap order).mp hpriced
    refine .winner i m c k price hstands hfits.2 (fun j hj hpay => ?_) rfl rfl fun campaign d => ?_
    · obtain ⟨e', price', hpriced', hfits'⟩ := (hcan j).mp hpay
      exact hfirst j hj e' price' hpriced' hfits'
    · rw [hspent, Field.settle, hfit, Option.elim_some, Ledger.charge_apply]
      simp only [Entrant.attempt, BudgetStore.attemptOf, Prod.mk.injEq]
      rfl

/-- **A run charges exactly what it shows.** -/
theorem run_charges_what_it_shows (hreserve : 0 < snap.cfg.reserve.toInt)
    (req : AuctionRequest) (budgets : BudgetStore Day) :
    (∀ e, normalize req.query = .error e →
      (snap.run order req budgets day).1 = .error e ∧
        ∀ campaign d, (snap.run order req budgets day).2.spent campaign d =
          budgets.spent campaign d) ∧
    ∀ tokens, normalize req.query = .ok tokens →
      ∃ outcome, (snap.run order req budgets day).1 = .ok outcome ∧
        (snap.entries order req tokens).eligible.Pairwise
          (fun a b => rankOrder a.bidder b.bidder ≠ .gt) ∧
        outcome.candidates = (snap.entries order req tokens).eligible.length ∧
        (outcome.winner.isSome = true ↔
          ∃ i, snap.CanPay (snap.entries order req tokens).eligible day budgets i) ∧
        snap.Charged (snap.entries order req tokens).eligible day budgets outcome
          (snap.run order req budgets day).2 := by
  rw [run_eq]
  refine ⟨fun e he => ?_, fun tokens ht => ?_⟩
  · rw [he]
    exact ⟨rfl, fun _ _ => rfl⟩
  · rw [ht]
    have hcharged := snap.charged_conduct order day hreserve req tokens budgets
    refine ⟨_, rfl, snap.pairwise_entries order tokens, ?_, hcharged.isSome_iff, hcharged⟩
    change (fieldOf snap.cfg req tokens.toFinset snap.campaigns).eligible.length = _
    rw [fieldOf_eligible, entries_eq, List.length_map, List.length_map]

end Snapshot

end Run

section Sample

attribute [local instance] Unicode.asciiGreek

/-- A search by a young adult. -/
def sampleRequest : AuctionRequest where
  query := "Photo editor!"
  country := .IN
  personalized := true
  ageBucket := some .age18To24
  debug := true

theorem run_charges_what_it_shows_sample :
    ∃ outcome, (sampleSnapshot.run storageOrder sampleRequest BudgetStore.inMemory 0).1 =
        .ok outcome ∧
      sampleSnapshot.Charged
        (sampleSnapshot.entries storageOrder sampleRequest ["photo", "editor"]).eligible 0
        BudgetStore.inMemory outcome
        (sampleSnapshot.run storageOrder sampleRequest BudgetStore.inMemory 0).2 := by
  obtain ⟨-, h⟩ := sampleSnapshot.run_charges_what_it_shows storageOrder 0 (by decide)
    sampleRequest BudgetStore.inMemory
  obtain ⟨outcome, hrun, -, -, -, hcharged⟩ := h ["photo", "editor"] (by decide)
  exact ⟨outcome, hrun, hcharged⟩

/-- A campaign that bids on the sample query. -/
def sampleBidder (id : Int64) (bid dailyBudget : Int64) : Campaign where
  id := ⟨id⟩
  status := .active
  dailyBudget := ⟨dailyBudget⟩
  countries := [.IN]
  ageBuckets := none
  audienceSize := none
  keywords := [⟨⟨id⟩, "photo editor", .exact, ⟨bid⟩⟩]
  negativeKeywords := []

end Sample

end AdMatch
