import AdMatch.Engine.Basic
import AdMatch.Pricing

/-!
# What an auction is

The auction without an index and without positions. Every campaign that matches
gets a *verdict*: an entrant – what the auction needs to know of the campaign and
its best offer – with the outcome of the eligibility checks. The verdicts make up
a *field*, ranked candidates and ranked exclusions, and `AdMatch.Field.conduct`
prices the candidates, lets the first that can pay win, and reports.

A field forgets the order of the campaigns it was made from
(`AdMatch.Field.ofVerdicts_perm`), and says nothing of a campaign beyond its
verdict.
-/

namespace AdMatch

/-- What the auction knows of a campaign that matched. -/
structure Entrant where
  campaignId : CampaignId
  dailyBudget : Micros
  keyword : Keyword
  relevance : RelevanceBp
  deriving DecidableEq

/-- What the auction keeps of an offer. -/
def Offer.entrant (o : Offer) : Entrant :=
  ⟨o.campaign.id, o.campaign.dailyBudget, o.keyword, o.relevance⟩

namespace Entrant

/-- The auction's view of an entrant. -/
def bidder (e : Entrant) : Bidder := ⟨e.campaignId, e.keyword.maxCptBid, e.relevance⟩

/-- The ad that an entrant shows for a price. -/
def winner (e : Entrant) (price : Micros) : Winner where
  campaignId := e.campaignId
  keywordId := e.keyword.id
  keywordText := e.keyword.text
  matchType := e.keyword.matchType
  maxCptBid := e.keyword.maxCptBid
  price := price
  relevance := e.relevance

/-- The row of an entrant in the debug ranking. -/
def row (e : Entrant) (wouldPay : Option Micros) (reason : Option ExclusionReason) :
    RankedEntry where
  campaignId := e.campaignId
  keywordId := e.keyword.id
  bid := e.keyword.maxCptBid
  relevance := e.relevance
  score := e.bidder.score
  wouldPay := wouldPay
  excluded := reason

/-- The ranking of entrants. -/
def order (a b : Entrant) : Ordering := rankOrder a.bidder b.bidder

/-- The key by which entrants are ranked. -/
def key (e : Entrant) : (ℕ ×ₗ Micros ×ₗ CampaignIdᵒᵈ)ᵒᵈ := OrderDual.toDual e.bidder.rankKey

theorem order_comparesBy : Sorting.ComparesBy order key := fun a b =>
  rankOrder_comparesBy a.bidder b.bidder

/-- Entrants of the same key are of the same campaign. -/
theorem campaignId_eq_of_key_eq {a b : Entrant} (h : a.key = b.key) :
    a.campaignId = b.campaignId :=
  Bidder.campaignId_eq_of_rankKey (a := a.bidder) (b := b.bidder) (OrderDual.toDual.injective h)

/-- The attempt to spend that an entrant makes. -/
def attempt {Day : Type} (e : Entrant) (day : Day) (price : Micros) :
    Ledger.Attempt (CampaignId × Day) :=
  BudgetStore.attemptOf e.campaignId day price e.dailyBudget

end Entrant

/-- **The field of an auction**: the ranked candidates, and the ranked
exclusions. -/
structure Field where
  eligible : List Entrant
  excluded : List (Entrant × ExclusionReason)

/-- A verdict: an entrant and the outcome of its eligibility checks. -/
abbrev Verdict := Entrant × Eligibility

namespace Verdict

/-- The entrant, if it enters the auction. -/
def candidate? (v : Verdict) : Option Entrant :=
  match v.2 with
  | .eligible => some v.1
  | _ => none

/-- The entrant and the reason, if it was excluded. -/
def exclusion? (v : Verdict) : Option (Entrant × ExclusionReason) :=
  match v.2 with
  | .excluded reason => some (v.1, reason)
  | _ => none

end Verdict

section Verdicts

variable [Unicode]

/-- **The verdict on a campaign**, if it matches. -/
def verdict (cfg : EngineConfig) (req : AuctionRequest) (q : Finset String) (campaign : Campaign) :
    Option Verdict :=
  (bestOffer q campaign).map fun o =>
    (o.entrant, eligibility cfg campaign o.keyword.maxCptBid req fun _ => Blocked q campaign)

/-- The verdicts on the campaigns that match. -/
def verdicts (cfg : EngineConfig) (req : AuctionRequest) (q : Finset String)
    (campaigns : List Campaign) : List Verdict :=
  campaigns.filterMap (verdict cfg req q)

/-- A verdict is about its campaign. -/
theorem verdict_campaignId {cfg : EngineConfig} {req : AuctionRequest} {q : Finset String}
    {campaign : Campaign} {v : Verdict} (h : verdict cfg req q campaign = some v) :
    v.1.campaignId = campaign.id := by
  obtain ⟨o, ho, rfl⟩ := Option.map_eq_some_iff.mp h
  rw [← (bestOffer_eq_some ho).1]
  rfl

/-- A verdict depends on the identifier, the budget, the best keyword and the
eligibility of a campaign. -/
theorem verdict_congr {cfg : EngineConfig} {req req' : AuctionRequest} {q : Finset String}
    {c c' : Campaign} (hid : c.id = c'.id) (hbudget : c.dailyBudget = c'.dailyBudget)
    (hbest : bestKeyword q c.keywords = bestKeyword q c'.keywords)
    (heligible : ∀ bid, eligibility cfg c bid req (fun _ => Blocked q c) =
      eligibility cfg c' bid req' fun _ => Blocked q c') :
    verdict cfg req q c = verdict cfg req' q c' := by
  rw [verdict, verdict, bestOffer_eq, bestOffer_eq, hbest, Option.map_map, Option.map_map]
  refine Option.map_congr fun k _ => ?_
  simp only [Function.comp_apply, heligible, Offer.entrant, offerOf, hid, hbudget]

/-- Lists of campaigns with the same verdicts, one by one. -/
theorem verdicts_congr {cfg : EngineConfig} {req req' : AuctionRequest} {q : Finset String}
    {campaigns campaigns' : List Campaign}
    (h : List.Forall₂ (fun c c' => verdict cfg req q c = verdict cfg req' q c') campaigns
      campaigns') : verdicts cfg req q campaigns = verdicts cfg req' q campaigns' := by
  rw [verdicts, verdicts]
  induction h with
  | nil => rfl
  | cons hc _ ih => rw [List.filterMap_cons, List.filterMap_cons, hc, ih]

/-- Campaigns have one verdict each. -/
theorem nodup_verdicts {cfg : EngineConfig} {req : AuctionRequest} {q : Finset String}
    {campaigns : List Campaign} (h : (campaigns.map Campaign.id).Nodup) :
    ((verdicts cfg req q campaigns).map fun v => v.1.campaignId).Nodup := by
  rw [List.Nodup, List.pairwise_map] at h ⊢
  refine h.filterMap _ fun a b hab v hv w hw => ?_
  rw [verdict_campaignId hv, verdict_campaignId hw]
  exact hab

end Verdicts

namespace Field

/-- The field that a list of verdicts makes up. -/
def ofVerdicts (vs : List Verdict) : Field where
  eligible := Sorting.sortBy Entrant.order (vs.filterMap Verdict.candidate?)
  excluded := Sorting.sortBy (fun a b => Entrant.order a.1 b.1) (vs.filterMap Verdict.exclusion?)

variable {vs vs' : List Verdict}

theorem mem_eligible {e : Entrant} : e ∈ (ofVerdicts vs).eligible ↔ (e, .eligible) ∈ vs := by
  rw [ofVerdicts, Sorting.mem_sortBy, List.mem_filterMap]
  constructor
  · rintro ⟨⟨e', el⟩, hmem, hc⟩
    cases el <;> simp only [Verdict.candidate?, reduceCtorEq, Option.some.injEq] at hc
    rwa [← hc]
  · exact fun h => ⟨_, h, rfl⟩

theorem mem_excluded {e : Entrant} {r : ExclusionReason} :
    (e, r) ∈ (ofVerdicts vs).excluded ↔ (e, .excluded r) ∈ vs := by
  rw [ofVerdicts, Sorting.mem_sortBy, List.mem_filterMap]
  constructor
  · rintro ⟨⟨e', el⟩, hmem, hc⟩
    cases el <;>
      simp only [Verdict.exclusion?, reduceCtorEq, Option.some.injEq, Prod.mk.injEq] at hc
    obtain ⟨rfl, rfl⟩ := hc
    exact hmem
  · exact fun h => ⟨_, h, rfl⟩

/-- What is read off distinct campaigns' verdicts is of distinct campaigns. -/
private theorem nodup_filterMap (h : (vs.map fun v => v.1.campaignId).Nodup) {γ : Type}
    {f : Verdict → Option γ} {entrant : γ → Entrant}
    (hf : ∀ v c, f v = some c → entrant c = v.1) :
    ((vs.filterMap f).map fun c => (entrant c).campaignId).Nodup := by
  rw [List.Nodup, List.pairwise_map] at h ⊢
  refine h.filterMap _ fun a b hab c hc d hd => ?_
  rw [hf a c hc, hf b d hd]
  exact hab

private theorem candidate?_eq (v : Verdict) (e : Entrant) (h : v.candidate? = some e) :
    e = v.1 := by
  obtain ⟨e', el⟩ := v
  cases el <;> simp only [Verdict.candidate?, reduceCtorEq, Option.some.injEq] at h
  exact h.symm

private theorem exclusion?_eq (v : Verdict) (e : Entrant × ExclusionReason)
    (h : v.exclusion? = some e) : e.1 = v.1 := by
  obtain ⟨e', el⟩ := v
  cases el <;> simp only [Verdict.exclusion?, reduceCtorEq, Option.some.injEq] at h
  rw [← h]

/-- Entrants of distinct campaigns have distinct keys. -/
private theorem nodup_key {γ : Type} {entrant : γ → Entrant} {l : List γ}
    (h : (l.map fun c => (entrant c).campaignId).Nodup) :
    (l.map fun c => (entrant c).key).Nodup := by
  rw [List.Nodup, List.pairwise_map] at h ⊢
  exact h.imp fun hab hkey => hab (Entrant.campaignId_eq_of_key_eq hkey)

/-- Candidates are of distinct campaigns. -/
theorem nodup_eligible (h : (vs.map fun v => v.1.campaignId).Nodup) :
    ((ofVerdicts vs).eligible.map Entrant.campaignId).Nodup :=
  ((Sorting.perm_sortBy Entrant.order _).map _).nodup_iff.mpr (nodup_filterMap h candidate?_eq)

/-- The candidates are ranked, strictly. -/
theorem pairwise_eligible (h : (vs.map fun v => v.1.campaignId).Nodup) :
    (ofVerdicts vs).eligible.Pairwise fun a b => a.key < b.key :=
  Sorting.pairwise_lt_sortBy Entrant.order_comparesBy (nodup_key (nodup_filterMap h candidate?_eq))

/-- **A field forgets the order of the verdicts.** -/
theorem ofVerdicts_perm (h : (vs.map fun v => v.1.campaignId).Nodup) (hperm : vs'.Perm vs) :
    ofVerdicts vs' = ofVerdicts vs := by
  have hc := nodup_key (nodup_filterMap h candidate?_eq)
  have he := nodup_key (nodup_filterMap h exclusion?_eq)
  rw [ofVerdicts, ofVerdicts]
  congr 1
  · exact Sorting.sortBy_congr_perm Entrant.order_comparesBy hc (hperm.filterMap _)
  · exact Sorting.sortBy_congr_perm (fun a b => Entrant.order_comparesBy a.1 b.1) he
      (hperm.filterMap _)

/-! ### Conducting the auction -/

/-- The price of every candidate. -/
def prices (cfg : EngineConfig) (field : Field) : List Micros :=
  gspPrices (field.eligible.map Entrant.bidder) cfg.reserve cfg.increment

/-- The candidates, ranked, with their prices. -/
def priced (cfg : EngineConfig) (field : Field) : List (Entrant × Micros) :=
  field.eligible.zip (field.prices cfg)

section Priced

variable (cfg : EngineConfig) (field : Field)

@[simp] theorem length_prices : (field.prices cfg).length = field.eligible.length := by
  rw [prices, length_gspPrices, List.length_map]

theorem map_fst_priced : (field.priced cfg).map Prod.fst = field.eligible :=
  List.map_fst_zip (by rw [length_prices])

theorem map_snd_priced : (field.priced cfg).map Prod.snd = field.prices cfg :=
  List.map_snd_zip (by rw [length_prices])

@[simp] theorem length_priced : (field.priced cfg).length = field.eligible.length := by
  rw [← List.length_map (f := Prod.fst), map_fst_priced]

/-- Each candidate is priced against the next one. -/
theorem getElem?_prices (i : ℕ) : (field.prices cfg)[i]? = field.eligible[i]?.map fun e =>
    gspPrice e.bidder (field.eligible[i + 1]?.map Entrant.bidder) cfg.reserve cfg.increment := by
  rw [prices, getElem?_gspPrices]
  simp only [List.getElem?_map, Option.map_map]
  rfl

/-- What a position of the priced ranking holds. -/
theorem getElem?_priced {i : ℕ} {e : Entrant} {price : Micros} :
    (field.priced cfg)[i]? = some (e, price) ↔
      field.eligible[i]? = some e ∧ (field.prices cfg)[i]? = some price :=
  List.getElem?_zip_eq_some

end Priced

variable {Day : Type} [DecidableEq Day]

/-- The attempt to spend that a candidate makes. -/
def tryPay (day : Day) (c : Entrant × Micros) (budgets : BudgetStore Day) :
    Bool × BudgetStore Day :=
  Prod.map BudgetStore.unwrapOrFalse id
    (budgets.trySpend c.1.campaignId day c.2 c.1.dailyBudget)

/-- The rows of the debug ranking, the first `skipped` candidates having been
skipped. -/
def ranking (cfg : EngineConfig) (field : Field) (skipped : ℕ) : List RankedEntry :=
  let rows := (field.priced cfg).zipIdx.map fun (c, i) =>
    c.1.row (some c.2) (if i < skipped then some .budget else none)
  (rows ++ field.excluded.map fun (e, r) => Entrant.row e none (some r)).take debugRankingLimit

/-- What an auction reports, given which candidate paid. -/
def report (cfg : EngineConfig) (debug : Bool) (field : Field)
    (found : Option ((Entrant × Micros) × ℕ)) : AuctionOutcome :=
  let skipped := (found.map Prod.snd).getD field.eligible.length
  { winner := found.map fun f => f.1.1.winner f.1.2
    candidates := field.eligible.length
    budgetSkipped := skipped
    ranking := if debug then some (field.ranking cfg skipped) else none }

/-- **Conducts an auction**: down the ranking, the first candidate that can pay
wins. -/
def conduct (cfg : EngineConfig) (debug : Bool) (day : Day) (field : Field)
    (budgets : BudgetStore Day) : AuctionOutcome × BudgetStore Day :=
  Prod.map (field.report cfg debug) id
    (Walk.findFirst (fun c : (Entrant × Micros) × ℕ => tryPay day c.1) (field.priced cfg).zipIdx
      budgets)

end Field

end AdMatch
