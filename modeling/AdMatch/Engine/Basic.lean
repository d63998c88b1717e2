import AdMatch.Budget
import AdMatch.Index.Correct
import AdMatch.Lib.Loop
import AdMatch.Privacy

/-!
# The matching engine

An immutable snapshot of all campaigns, and the auction that picks at most one ad
per query: match, filter, rank and price, then walk the ranking, charging each
candidate its price until one can pay.

A snapshot can only come from `AdMatch.Snapshot.build`, so it carries what the
build establishes: campaign and keyword identifiers are distinct, and the index
represents the campaigns. The budget store is threaded through the auction, the
only thing it changes.
-/

namespace AdMatch

/-- Tunable auction and privacy parameters. -/
structure EngineConfig where
  /-- Age-targeted campaigns serve only if their audience is strictly larger. -/
  kTargeting : Int64
  /-- Minimum price of a tap; bids below it never enter the auction. -/
  reserve : Micros
  /-- Added to the second price. -/
  increment : Micros
  deriving DecidableEq

/-- The defaults of the configuration table. -/
def EngineConfig.default : EngineConfig where
  kTargeting := 5000
  reserve := ⟨100000⟩
  increment := ⟨10000⟩

/-- Why a snapshot could not be built. -/
inductive BuildError
  | duplicateCampaign (id : CampaignId)
  | duplicateKeyword (id : KeywordId)
  | vocabularyFull
  deriving DecidableEq

/-! ### Building a snapshot -/

/-- The identifiers of one campaign: its own, then those of its keywords. -/
def checkCampaign (seen : Finset CampaignId × Finset KeywordId) (campaign : Campaign) :
    Except BuildError (Finset CampaignId × Finset KeywordId) :=
  match Loop.insertNew .duplicateCampaign seen.1 campaign.id with
  | .error e => .error e
  | .ok campaigns =>
    match campaign.keywords.foldlM (fun seen k => Loop.insertNew .duplicateKeyword seen k.id)
      seen.2 with
    | .error e => .error e
    | .ok keywords => .ok (campaigns, keywords)

/-- Rejects duplicate campaign or keyword identifiers. -/
def checkIds (campaigns : List Campaign) :
    Except BuildError (Finset CampaignId × Finset KeywordId) :=
  campaigns.foldlM checkCampaign (∅, ∅)

/-- The keywords of a list of campaigns. -/
def allKeywords (campaigns : List Campaign) : List Keyword := campaigns.flatMap Campaign.keywords

/-- The check is two loops of insertions. -/
theorem foldlM_checkCampaign {campaigns : List Campaign}
    {seen seen' : Finset CampaignId × Finset KeywordId} :
    campaigns.foldlM checkCampaign seen = .ok seen' ↔
      (campaigns.map Campaign.id).foldlM (Loop.insertNew BuildError.duplicateCampaign) seen.1 =
          .ok seen'.1 ∧
        ((allKeywords campaigns).map Keyword.id).foldlM (Loop.insertNew BuildError.duplicateKeyword)
          seen.2 = .ok seen'.2 := by
  induction campaigns generalizing seen with
  | nil =>
    simp only [allKeywords, List.map_nil, List.flatMap_nil, Loop.foldlM_nil_eq_ok]
    exact ⟨fun h => by rw [h]; exact ⟨rfl, rfl⟩, fun h => Prod.ext h.1 h.2⟩
  | cons c rest ih =>
    have hstep : ∀ mid, checkCampaign seen c = .ok mid ↔
        Loop.insertNew BuildError.duplicateCampaign seen.1 c.id = .ok mid.1 ∧
          (c.keywords.map Keyword.id).foldlM (Loop.insertNew BuildError.duplicateKeyword) seen.2 =
            .ok mid.2 := by
      rintro ⟨m₁, m₂⟩
      rw [checkCampaign, List.foldlM_map]
      cases Loop.insertNew BuildError.duplicateCampaign seen.1 c.id with
      | error e => simp
      | ok ids =>
        cases c.keywords.foldlM (fun seen k => Loop.insertNew BuildError.duplicateKeyword seen k.id)
            seen.2 <;> simp
    have hkeys : (allKeywords (c :: rest)).map Keyword.id =
        c.keywords.map Keyword.id ++ (allKeywords rest).map Keyword.id := by
      rw [allKeywords, List.flatMap_cons, List.map_append, allKeywords]
    simp only [List.map_cons, hkeys, Loop.foldlM_cons_eq_ok, Loop.foldlM_append_eq_ok, hstep, ih]
    constructor
    · rintro ⟨mid, ⟨h₁, h₂⟩, h₃, h₄⟩
      exact ⟨⟨mid.1, h₁, h₃⟩, mid.2, h₂, h₄⟩
    · rintro ⟨⟨m₁, h₁, h₃⟩, m₂, h₂, h₄⟩
      exact ⟨(m₁, m₂), ⟨h₁, h₂⟩, h₃, h₄⟩

/-- **The check accepts exactly the lists without repeated identifiers.** -/
theorem checkIds_eq_ok {campaigns : List Campaign} :
    (∃ seen, checkIds campaigns = .ok seen) ↔
      (campaigns.map Campaign.id).Nodup ∧ ((allKeywords campaigns).map Keyword.id).Nodup := by
  simp only [checkIds, foldlM_checkCampaign, Loop.foldlM_insertNew, Finset.notMem_empty,
    not_false_eq_true, implies_true, and_true]
  constructor
  · rintro ⟨seen, ⟨h₁, -⟩, h₂, -⟩
    exact ⟨h₁, h₂⟩
  · rintro ⟨h₁, h₂⟩
    exact ⟨(_, _), ⟨h₁, rfl⟩, h₂, rfl⟩

/-- **A snapshot**: an immutable, query-ready view of every campaign. -/
structure Snapshot [Unicode] where
  campaigns : List Campaign
  index : KeywordIndex
  cfg : EngineConfig
  /-- No two campaigns share an identifier. -/
  campaignIds : (campaigns.map Campaign.id).Nodup
  /-- No two keywords share an identifier, across all campaigns. -/
  keywordIds : ((allKeywords campaigns).map Keyword.id).Nodup
  /-- The index is that of the campaigns. -/
  represents : index.Represents campaigns

/-! ### Requests and outcomes -/

/-- One search request, as the auction sees it. -/
structure AuctionRequest where
  query : String
  country : Country
  /-- Whether the user allows personalised ads. -/
  personalized : Bool
  /-- Ignored unless `personalized` is true. -/
  ageBucket : Option AgeBucket
  /-- Whether the outcome includes the ranking. -/
  debug : Bool
  deriving DecidableEq

/-- Why a matching campaign was left out of the auction or skipped. -/
inductive ExclusionReason
  | negativeKeyword
  | targeting
  | reserve
  | budget
  deriving DecidableEq

/-- Outcome of the eligibility checks for one matched campaign. -/
inductive Eligibility
  /-- Not active: silently left out. -/
  | paused
  /-- Matched but may not take part. -/
  | excluded (reason : ExclusionReason)
  /-- Enters the auction. -/
  | eligible
  deriving DecidableEq

/-- The winning ad and what it pays. -/
structure Winner where
  campaignId : CampaignId
  keywordId : KeywordId
  keywordText : String
  matchType : MatchType
  maxCptBid : Micros
  price : Micros
  relevance : RelevanceBp
  deriving DecidableEq

/-- One row of the debug ranking. -/
structure RankedEntry where
  campaignId : CampaignId
  keywordId : KeywordId
  bid : Micros
  relevance : RelevanceBp
  score : ℕ
  /-- The price this candidate would pay if it won. -/
  wouldPay : Option Micros
  /-- Why the candidate could not win. -/
  excluded : Option ExclusionReason
  deriving DecidableEq

/-- Result of one auction. -/
structure AuctionOutcome where
  winner : Option Winner
  /-- Campaigns that entered the auction. -/
  candidates : ℕ
  /-- Candidates skipped because their budget could not cover their price. -/
  budgetSkipped : ℕ
  ranking : Option (List RankedEntry)
  deriving DecidableEq

/-- Most rows returned in the debug ranking. -/
def debugRankingLimit : ℕ := 10

/-- The age rule: a personalised request, a bucket that is targeted, and an
audience above the threshold. -/
def ageAllowed (cfg : EngineConfig) (campaign : Campaign) (req : AuctionRequest) : Bool :=
  match campaign.ageBuckets with
  | none => true
  | some buckets =>
    let bucketOk := req.personalized && req.ageBucket.any fun b => b ∈ buckets
    let audienceOk := campaign.audienceSize.any fun size =>
      (checkTargeting size cfg.kTargeting).toOption.isSome
    bucketOk && audienceOk

/-- The eligibility checks, in order. The first failing check is the reported
reason; the negative keywords are looked at only if the checks before pass. -/
def eligibility (cfg : EngineConfig) (campaign : Campaign) (bid : Micros) (req : AuctionRequest)
    (negativeHit : Unit → Bool) : Eligibility :=
  if campaign.status ≠ .active then .paused
  else if req.country ∉ campaign.countries then .excluded .targeting
  else if ¬ageAllowed cfg campaign req then .excluded .targeting
  else if negativeHit () then .excluded .negativeKeyword
  else if bid < cfg.reserve then .excluded .reserve
  else .eligible

/-- What the eligibility checks leave of the matches: those that enter the
auction, and those that do not, each with its reason. -/
structure Entries where
  eligible : List KeywordMatch
  excluded : List (KeywordMatch × ExclusionReason)

/-- A row of the debug ranking. -/
def rankedEntry (m : KeywordMatch) (wouldPay : Option Micros) (reason : Option ExclusionReason) :
    RankedEntry :=
  { campaignId := m.campaignId, keywordId := m.keywordId, bid := m.bid, relevance := m.relevance,
    score := m.score, wouldPay, excluded := reason }

/-- Auction candidates in rank order first, then excluded campaigns by score,
cut to the limit. -/
def debugRanking (eligible : List KeywordMatch) (selection : Selection)
    (excluded : List (KeywordMatch × ExclusionReason)) : List RankedEntry :=
  let rows := eligible.zipIdx.map fun (m, i) =>
    rankedEntry m selection.prices[i]? (if i < selection.budgetSkipped then some .budget else none)
  let excluded := Sorting.sortBy (fun a b => rankOrder a.1.bidder b.1.bidder) excluded
  (rows ++ excluded.map fun (m, r) => rankedEntry m none (some r)).take debugRankingLimit

namespace Snapshot

variable [Unicode] {Day : Type} [DecidableEq Day]

/-- Builds a snapshot, rejecting duplicate campaign or keyword identifiers. -/
def build (campaigns : List Campaign) (cfg : EngineConfig) : Except BuildError Snapshot :=
  match hids : checkIds campaigns with
  | .error e => .error e
  | .ok _ =>
    match hindex : KeywordIndex.build campaigns with
    | .error _ => .error .vocabularyFull
    | .ok index => .ok
      { campaigns, index, cfg
        campaignIds := (checkIds_eq_ok.mp ⟨_, hids⟩).1
        keywordIds := (checkIds_eq_ok.mp ⟨_, hids⟩).2
        represents := KeywordIndex.represents_build hindex }

/-- Campaigns whose keywords match, each with its single best keyword, after
negative keywords are applied. -/
def matchesFor (order : HashOrder) (snap : Snapshot) (query : String) :
    Except QueryError (List KeywordMatch) :=
  match normalize query with
  | .error e => .error e
  | .ok tokens =>
    let prepared := snap.index.prepare tokens
    .ok ((snap.index.bestMatches order prepared).filter fun m =>
      !snap.index.negativeMatches m.campaignPos prepared)

/-- Sorts one match into the entries. -/
def enterMatch (snap : Snapshot) (req : AuctionRequest) (prepared : PreparedQuery)
    (entries : Entries) (m : KeywordMatch) : Entries :=
  match snap.campaigns[m.campaignPos]? with
  | none => entries
  | some campaign =>
    match eligibility snap.cfg campaign m.bid req
        (fun _ => snap.index.negativeMatches m.campaignPos prepared) with
    | .paused => entries
    | .excluded reason => { entries with excluded := entries.excluded ++ [(m, reason)] }
    | .eligible => { entries with eligible := entries.eligible ++ [m] }

/-- The entries of an auction, the candidates ranked. -/
def entries (order : HashOrder) (snap : Snapshot) (req : AuctionRequest) (tokens : List String) :
    Entries :=
  let prepared := snap.index.prepare tokens
  let entries := (snap.index.bestMatches order prepared).foldl (snap.enterMatch req prepared)
    ⟨[], []⟩
  { entries with
    eligible := Sorting.sortBy (fun a b => rankOrder a.bidder b.bidder) entries.eligible }

/-- The attempt to spend that the candidate at position `i` makes. A budget error
counts as a refusal. -/
def tryPay (snap : Snapshot) (eligible : List KeywordMatch) (day : Day) (i : ℕ) (price : Micros)
    (budgets : BudgetStore Day) : Bool × BudgetStore Day :=
  match eligible[i]?.bind fun m => snap.campaigns[m.campaignPos]? with
  | none => (false, budgets)
  | some c =>
    Prod.map BudgetStore.unwrapOrFalse id (budgets.trySpend c.id day price c.dailyBudget)

/-- The winning ad, from the position that paid. -/
def winnerOf (snap : Snapshot) (eligible : List KeywordMatch) (selection : Selection) :
    Option Winner := do
  let i ← selection.winner
  let m ← eligible[i]?
  let price ← selection.prices[i]?
  let campaign ← snap.campaigns[m.campaignPos]?
  let keyword ← campaign.keywords.find? fun k => k.id = m.keywordId
  return { campaignId := m.campaignId, keywordId := m.keywordId, keywordText := keyword.text,
           matchType := m.matchType, maxCptBid := m.bid, price, relevance := m.relevance }

/-- The outcome, once the winner is selected. -/
def outcome (snap : Snapshot) (req : AuctionRequest) (entries : Entries) (selection : Selection) :
    AuctionOutcome where
  winner := snap.winnerOf entries.eligible selection
  candidates := entries.eligible.length
  budgetSkipped := selection.budgetSkipped
  ranking := if req.debug then some (debugRanking entries.eligible selection entries.excluded)
    else none

/-- **Runs one auction.** -/
def run (order : HashOrder) (snap : Snapshot) (req : AuctionRequest) (budgets : BudgetStore Day)
    (day : Day) : Except QueryError AuctionOutcome × BudgetStore Day :=
  match normalize req.query with
  | .error e => (.error e, budgets)
  | .ok tokens =>
    let entries := snap.entries order req tokens
    let (selection, budgets) := selectWinner (entries.eligible.map KeywordMatch.bidder)
      snap.cfg.reserve snap.cfg.increment (snap.tryPay entries.eligible day) budgets
    (.ok (snap.outcome req entries selection), budgets)

end Snapshot

end AdMatch
