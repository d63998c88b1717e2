import AdMatch.Competition
import AdMatch.Engine.Charging

/-!
# The debug ranking

What the ranking of a run shows: the candidates in rank order, those above the
winner marked as skipped, then the excluded campaigns, all cut to ten rows. The
winner is one of the candidates, so it is shown as long as it stands among the first
ten; and it does exactly when one of the first ten can be charged its price
(`AdMatch.Snapshot.ranking_shows_winner_iff`). With ten or more candidates skipped
above it, the winner is not in its own ranking
(`AdMatch.not_ranking_shows_winner`).
-/

namespace AdMatch

/-- The bidder that a row shows. -/
def RankedEntry.bidder (r : RankedEntry) : Bidder := ⟨r.campaignId, r.bid, r.relevance⟩

namespace Field

variable {cfg : EngineConfig} {field : Field}

/-- The rows of the candidates. -/
def candidateRows (cfg : EngineConfig) (field : Field) (skipped : ℕ) : List RankedEntry :=
  (field.priced cfg).zipIdx.map fun c =>
    c.1.1.row (some c.1.2) (if c.2 < skipped then some .budget else none)

/-- The rows of the excluded campaigns. -/
def excludedRows (field : Field) : List RankedEntry :=
  field.excluded.map fun x => x.1.row none (some x.2)

theorem ranking_eq (cfg : EngineConfig) (field : Field) (skipped : ℕ) :
    field.ranking cfg skipped =
      (field.candidateRows cfg skipped ++ field.excludedRows).take debugRankingLimit := rfl

@[simp] theorem length_candidateRows (skipped : ℕ) :
    (field.candidateRows cfg skipped).length = field.eligible.length := by
  rw [candidateRows, List.length_map, List.length_zipIdx, length_priced]

theorem getElem?_candidateRows (skipped j : ℕ) : (field.candidateRows cfg skipped)[j]? =
    (field.priced cfg)[j]?.map fun c =>
      c.1.row (some c.2) (if j < skipped then some .budget else none) := by
  rw [candidateRows, List.getElem?_map, List.getElem?_zipIdx, Option.map_map, Nat.zero_add]
  rfl

/-- The first ten candidates have their rows in the ranking. -/
theorem getElem?_ranking {skipped j : ℕ} (hlimit : j < debugRankingLimit)
    (hj : j < field.eligible.length) :
    (field.ranking cfg skipped)[j]? = (field.candidateRows cfg skipped)[j]? := by
  rw [ranking_eq, List.getElem?_take_of_lt hlimit,
    List.getElem?_append_left (by rwa [length_candidateRows])]

/-- A row of a candidate shows the candidate. -/
theorem exists_of_candidateRows {skipped j : ℕ} {row : RankedEntry}
    (h : (field.candidateRows cfg skipped)[j]? = some row) :
    ∃ e price, (field.priced cfg)[j]? = some (e, price) ∧ field.eligible[j]? = some e ∧
      row = e.row (some price) (if j < skipped then some .budget else none) := by
  rw [getElem?_candidateRows, Option.map_eq_some_iff] at h
  obtain ⟨⟨e, price⟩, hpriced, rfl⟩ := h
  exact ⟨e, price, hpriced, ((getElem?_priced _ _).mp hpriced).1, rfl⟩

/-- The rows of the candidates are in rank order when the candidates are. -/
theorem pairwise_candidateRows (h : field.eligible.Pairwise fun a b => a.key < b.key)
    (skipped : ℕ) : (field.candidateRows cfg skipped).Pairwise fun a b =>
      rankOrder a.bidder b.bidder = .lt := by
  rw [List.pairwise_iff_getElem]
  intro i j hi hj hij
  obtain ⟨e, price, -, he, hrow⟩ := exists_of_candidateRows (List.getElem?_eq_getElem hi)
  obtain ⟨e', price', -, he', hrow'⟩ := exists_of_candidateRows (List.getElem?_eq_getElem hj)
  obtain ⟨hi', rfl⟩ := List.getElem?_eq_some_iff.mp he
  obtain ⟨hj', rfl⟩ := List.getElem?_eq_some_iff.mp he'
  rw [hrow, hrow']
  exact rankOrder_eq_lt.mpr (OrderDual.toDual_lt_toDual.mp
    (List.pairwise_iff_getElem.mp h i j hi' hj' hij))

end Field

section Ranking

variable [Unicode]

omit [Unicode] in
/-- **No campaign is both a candidate and excluded.** -/
theorem Field.campaignId_ne {vs : List Verdict} (h : (vs.map fun v => v.1.campaignId).Nodup)
    {e e' : Entrant} {r : ExclusionReason} (he : e ∈ (ofVerdicts vs).eligible)
    (he' : (e', r) ∈ (ofVerdicts vs).excluded) : e'.campaignId ≠ e.campaignId := by
  intro hid
  have heq := List.inj_on_of_nodup_map h (Field.mem_excluded.mp he') (Field.mem_eligible.mp he) hid
  cases heq

namespace Snapshot

variable {Day : Type} [DecidableEq Day]

/-- Whether the candidate at a position of a ranking can be charged its price: the
price is positive, and with it the exact total stays within the budget. -/
def CanBeCharged (snap : Snapshot) (ranked : List KeywordMatch) (day : Day)
    (budgets : BudgetStore Day) (i : ℕ) : Prop :=
  ∃ m c k price, snap.Stands ranked i m c k price ∧ 0 < price.toInt ∧
    (budgets.spent c.id day).toInt + price.toInt ≤ c.dailyBudget.toInt

/-- **What a ranking that shows the winner looks like.** -/
structure ShowsWinner (order : HashOrder) (snap : Snapshot) (req : AuctionRequest)
    (ranked : List KeywordMatch) (w : Winner) (rows : List RankedEntry) : Prop where
  /-- The winner has one row, as the charged candidate that it is, and every row
  before it is that of a candidate of higher rank, skipped at its own price. -/
  winner : ∃ i row, rows[i]? = some row ∧
    (row.campaignId = w.campaignId ∧ row.keywordId = w.keywordId ∧ row.excluded = none ∧
      row.wouldPay = some w.price) ∧
    (∀ j row', rows[j]? = some row' → row'.campaignId = w.campaignId → j = i) ∧
    ∀ j < i, ∃ row' m c k price, rows[j]? = some row' ∧ snap.Stands ranked j m c k price ∧
      (row'.campaignId = c.id ∧ row'.keywordId = k.id ∧ row'.excluded = some .budget ∧
        row'.wouldPay = some price) ∧
      rankOrder row'.bidder row.bidder = .lt
  /-- Candidates come first, then excluded campaigns, each in rank order. -/
  grouped : ∃ candidates excluded, rows = candidates ++ excluded ∧
    (∀ row ∈ candidates, ∃ i, snap.CandidateAt order req row.campaignId i) ∧
    (∀ row ∈ excluded, ∃ reason, row.excluded = some reason ∧
      snap.ExcludedFor order req row.campaignId reason) ∧
    candidates.Pairwise (fun a b => rankOrder a.bidder b.bidder ≠ .gt) ∧
    excluded.Pairwise fun a b => rankOrder a.bidder b.bidder ≠ .gt

variable (order : HashOrder) (snap : Snapshot) {req : AuctionRequest} (day : Day)

/-- A candidate can be charged exactly when its attempt fits. -/
theorem canBeCharged_iff {tokens : List String} (budgets : BudgetStore Day) (i : ℕ) :
    snap.CanBeCharged (snap.entries order req tokens).eligible day budgets i ↔
      ∃ e price, ((fieldOf snap.cfg req tokens.toFinset snap.campaigns).priced snap.cfg)[i]? =
          some (e, price) ∧ Ledger.Fits budgets.ledger (e.attempt day price) := by
  constructor
  · rintro ⟨m, c, k, price, hstands, hpos, hle⟩
    exact ⟨_, price, (stands_iff snap order).mpr ⟨m, c, k, hstands, rfl⟩, hpos, hle⟩
  · rintro ⟨e, price, hpriced, hfits⟩
    obtain ⟨m, c, k, hstands, rfl⟩ := (stands_iff snap order).mp hpriced
    exact ⟨m, c, k, price, hstands, hfits.1, hfits.2⟩

/-- What the field excludes, the run excludes. -/
theorem excludedFor_of_mem {tokens : List String} (htokens : normalize req.query = .ok tokens)
    {e : Entrant} {reason : ExclusionReason}
    (h : (e, reason) ∈ (fieldOf snap.cfg req tokens.toFinset snap.campaigns).excluded) :
    snap.ExcludedFor order req e.campaignId reason := by
  rw [fieldOf_excluded, Sorting.mem_sortBy, List.mem_map] at h
  obtain ⟨x, hx, heq⟩ := h
  obtain ⟨rfl, rfl⟩ := Prod.mk.inj heq
  refine ⟨tokens, placedMatch x.1, htokens, ?_, rfl⟩
  rw [entries_eq]
  exact List.mem_map_of_mem hx

/-- The rows of a ranking, in their two groups. -/
theorem ranking_grouped {tokens : List String} (htokens : normalize req.query = .ok tokens)
    (skipped : ℕ) : ∃ candidates excluded,
    (fieldOf snap.cfg req tokens.toFinset snap.campaigns).ranking snap.cfg skipped =
      candidates ++ excluded ∧
    (∀ row ∈ candidates, ∃ i, snap.CandidateAt order req row.campaignId i) ∧
    (∀ row ∈ excluded, ∃ reason, row.excluded = some reason ∧
      snap.ExcludedFor order req row.campaignId reason) ∧
    candidates.Pairwise (fun a b => rankOrder a.bidder b.bidder ≠ .gt) ∧
    excluded.Pairwise fun a b => rankOrder a.bidder b.bidder ≠ .gt := by
  set field := fieldOf snap.cfg req tokens.toFinset snap.campaigns with hf
  have hnodup : ((verdicts snap.cfg req tokens.toFinset snap.campaigns).map
      fun v => v.1.campaignId).Nodup := nodup_verdicts snap.campaignIds
  rw [Field.ranking_eq, List.take_append]
  refine ⟨_, _, rfl, fun row hrow => ?_, fun row hrow => ?_, ?_, ?_⟩
  · obtain ⟨j, hj⟩ := List.mem_iff_getElem?.mp (List.mem_of_mem_take hrow)
    obtain ⟨e, price, -, he, rfl⟩ := Field.exists_of_candidateRows hj
    exact ⟨j, candidateAt_iff.mpr ⟨tokens, e, htokens, he, rfl⟩⟩
  · obtain ⟨⟨e, reason⟩, hx, rfl⟩ := List.mem_map.mp (List.mem_of_mem_take hrow)
    exact ⟨reason, rfl, snap.excludedFor_of_mem order htokens hx⟩
  · refine ((Field.pairwise_candidateRows (Field.pairwise_eligible hnodup) skipped).imp ?_).sublist
      (List.take_sublist _ _)
    intro a b hlt
    rw [hlt]
    exact fun h => nomatch h
  · refine List.Pairwise.sublist (List.take_sublist _ _) ?_
    rw [Field.excludedRows, List.pairwise_map]
    have hcmp : Sorting.ComparesBy
        (fun a b : Entrant × ExclusionReason => Entrant.order a.1 b.1) fun x => x.1.key :=
      fun a b => Entrant.order_comparesBy a.1 b.1
    exact (Sorting.pairwise_sortBy hcmp _).imp fun hle => (hcmp.ne_gt _ _).mpr hle

/-- Rows of the same campaign are the same row. -/
theorem eq_of_ranking_campaignId {tokens : List String} {skipped i j : ℕ} {e : Entrant}
    (he : (fieldOf snap.cfg req tokens.toFinset snap.campaigns).eligible[i]? = some e)
    {row : RankedEntry}
    (hrow : ((fieldOf snap.cfg req tokens.toFinset snap.campaigns).ranking snap.cfg
      skipped)[j]? = some row) (hid : row.campaignId = e.campaignId) : j = i := by
  set field := fieldOf snap.cfg req tokens.toFinset snap.campaigns with hf
  have hnodup : ((verdicts snap.cfg req tokens.toFinset snap.campaigns).map
      fun v => v.1.campaignId).Nodup := nodup_verdicts snap.campaignIds
  have hget : (field.candidateRows snap.cfg skipped ++ field.excludedRows)[j]? = some row := by
    rw [Field.ranking_eq, List.getElem?_take] at hrow
    split_ifs at hrow
    exact hrow
  rcases Nat.lt_or_ge j field.eligible.length with hlt | hge
  · rw [List.getElem?_append_left (by rwa [Field.length_candidateRows])] at hget
    obtain ⟨e', price, -, he', rfl⟩ := Field.exists_of_candidateRows hget
    have hids : (field.eligible.map Entrant.campaignId).Nodup := Field.nodup_eligible hnodup
    refine (List.getElem?_inj (by rwa [List.length_map]) hids).mp ?_
    rw [List.getElem?_map, List.getElem?_map, he', he]
    exact congrArg some hid
  · -- a row of an excluded campaign is of no candidate
    rw [List.getElem?_append_right (by rwa [Field.length_candidateRows])] at hget
    obtain ⟨⟨e', reason⟩, hx, rfl⟩ := List.mem_map.mp (List.mem_of_getElem? hget)
    exact absurd hid (Field.campaignId_ne hnodup (List.mem_of_getElem? he) hx)

/-- A winner among the first ten is shown. -/
theorem showsWinner_of_lt {tokens : List String} (htokens : normalize req.query = .ok tokens)
    {i : ℕ} {e : Entrant} {price : Micros}
    (hpriced : ((fieldOf snap.cfg req tokens.toFinset snap.campaigns).priced snap.cfg)[i]? =
      some (e, price)) (hi : i < debugRankingLimit) :
    snap.ShowsWinner order req (snap.entries order req tokens).eligible (e.winner price)
      ((fieldOf snap.cfg req tokens.toFinset snap.campaigns).ranking snap.cfg i) := by
  set field := fieldOf snap.cfg req tokens.toFinset snap.campaigns with hf
  have hsorted : field.eligible.Pairwise fun a b => a.key < b.key :=
    Field.pairwise_eligible (nodup_verdicts snap.campaignIds)
  have he := ((Field.getElem?_priced _ _).mp hpriced).1
  obtain ⟨hlt, hei⟩ := List.getElem?_eq_some_iff.mp he
  refine ⟨⟨i, e.row (some price) none, ?_, ⟨rfl, rfl, rfl, rfl⟩, ?_, ?_⟩,
    snap.ranking_grouped order htokens i⟩
  · rw [Field.getElem?_ranking hi hlt, Field.getElem?_candidateRows, hpriced, Option.map_some,
      if_neg (lt_irrefl i)]
  · exact fun j row hrow hid => snap.eq_of_ranking_campaignId he hrow hid
  · intro j hj
    -- above the winner stand skipped candidates only
    have hjlt : j < field.eligible.length := hj.trans hlt
    have hjpriced : j < (field.priced snap.cfg).length := by rwa [Field.length_priced]
    obtain ⟨⟨e', price'⟩, hpriced'⟩ : ∃ c, (field.priced snap.cfg)[j]? = some c :=
      ⟨_, List.getElem?_eq_getElem hjpriced⟩
    obtain ⟨hlt', hej⟩ := List.getElem?_eq_some_iff.mp ((Field.getElem?_priced _ _).mp hpriced').1
    obtain ⟨m, c, k, hstands, rfl⟩ := (stands_iff snap order).mp hpriced'
    refine ⟨Entrant.row ⟨c.id, c.dailyBudget, k, m.relevance⟩ (some price') (some .budget), m, c,
      k, price', ?_, hstands, ⟨rfl, rfl, rfl, rfl⟩, ?_⟩
    · rw [Field.getElem?_ranking (hj.trans hi) hjlt, Field.getElem?_candidateRows, hpriced',
        Option.map_some, if_pos hj]
    · have hkey := List.pairwise_iff_getElem.mp hsorted j i hlt' hlt hj
      rw [hei, hej] at hkey
      exact rankOrder_eq_lt.mpr (OrderDual.toDual_lt_toDual.mp hkey)

/-- A winner below the first ten is not. -/
theorem lt_of_showsWinner {tokens : List String} {i : ℕ} {e : Entrant} {price : Micros}
    (he : (fieldOf snap.cfg req tokens.toFinset snap.campaigns).eligible[i]? = some e)
    (h : snap.ShowsWinner order req (snap.entries order req tokens).eligible (e.winner price)
      ((fieldOf snap.cfg req tokens.toFinset snap.campaigns).ranking snap.cfg i)) :
    i < debugRankingLimit := by
  obtain ⟨j, row, hrow, ⟨hid, -⟩, -⟩ := h.winner
  have hj : j < debugRankingLimit := by
    rw [Field.ranking_eq, List.getElem?_take] at hrow
    split_ifs at hrow with hj
    exact hj
  rwa [snap.eq_of_ranking_campaignId he hrow hid] at hj

/-- **Exactly when the ranking shows the winner.** In every run with debug that has a
winner, the ranking shows it as it should if and only if one of the first ten
candidates can be charged its price. -/
theorem ranking_shows_winner_iff (hdebug : req.debug = true) (budgets : BudgetStore Day)
    {outcome : AuctionOutcome} (hrun : (snap.run order req budgets day).1 = .ok outcome)
    {w : Winner} (hwinner : outcome.winner = some w) :
    ∃ tokens rows, normalize req.query = .ok tokens ∧ outcome.ranking = some rows ∧
      (snap.ShowsWinner order req (snap.entries order req tokens).eligible w rows ↔
        ∃ i < debugRankingLimit,
          snap.CanBeCharged (snap.entries order req tokens).eligible day budgets i) := by
  rw [run_eq] at hrun
  rcases htokens : normalize req.query with error | tokens
  · rw [htokens] at hrun
    cases hrun
  rw [htokens] at hrun
  set field := fieldOf snap.cfg req tokens.toFinset snap.campaigns with hf
  have hreport : outcome = field.report snap.cfg true
      (field.firstFit day snap.cfg budgets.ledger) := by
    rw [← (Field.conduct_eq day snap.cfg true field budgets).1, ← hdebug]
    exact (Except.ok.inj hrun).symm
  rcases hfit : field.firstFit day snap.cfg budgets.ledger with _ | ⟨⟨e, price⟩, i⟩
  · rw [hreport, hfit] at hwinner
    cases hwinner
  obtain ⟨hpriced, hfits, hfirst⟩ := (Field.firstFit_eq_some day).mp hfit
  have he := ((Field.getElem?_priced _ _).mp hpriced).1
  obtain ⟨hlt, -⟩ := List.getElem?_eq_some_iff.mp he
  rw [hreport, hfit] at hwinner ⊢
  obtain rfl : e.winner price = w := Option.some.inj hwinner
  refine ⟨tokens, field.ranking snap.cfg i, rfl, rfl, ?_⟩
  -- the first candidate that can be charged is the winner
  have hcond : (∃ j < debugRankingLimit,
      snap.CanBeCharged (snap.entries order req tokens).eligible day budgets j) ↔
      i < debugRankingLimit := by
    simp only [canBeCharged_iff]
    constructor
    · rintro ⟨j, hj, e', price', hpriced', hfits'⟩
      by_contra hge
      exact hfirst j (by omega) e' price' hpriced' hfits'
    · exact fun hi => ⟨i, hi, e, price, hpriced, hfits⟩
  rw [hcond]
  exact ⟨fun h => snap.lt_of_showsWinner order he h, fun hi =>
    snap.showsWinner_of_lt order htokens hpriced hi⟩

end Snapshot

end Ranking

section Sample

attribute [local instance] Unicode.asciiGreek

theorem ranking_shows_winner_iff_sample : ∃ outcome w rows,
    (sampleSnapshot.run storageOrder sampleRequest BudgetStore.inMemory 0).1 = .ok outcome ∧
      outcome.winner = some w ∧ outcome.ranking = some rows ∧
      (sampleSnapshot.ShowsWinner storageOrder sampleRequest
          (sampleSnapshot.entries storageOrder sampleRequest ["photo", "editor"]).eligible w rows ↔
        ∃ i < debugRankingLimit, sampleSnapshot.CanBeCharged
          (sampleSnapshot.entries storageOrder sampleRequest ["photo", "editor"]).eligible 0
          BudgetStore.inMemory i) := by
  obtain ⟨outcome, hrun⟩ : ∃ outcome, (sampleSnapshot.run storageOrder sampleRequest
      BudgetStore.inMemory 0).1 = .ok outcome := ⟨_, rfl⟩
  obtain ⟨w, hw⟩ : ∃ w, outcome.winner = some w := by
    obtain rfl := Except.ok.inj hrun
    exact ⟨_, rfl⟩
  obtain ⟨tokens, rows, htokens, hrows, hiff⟩ := sampleSnapshot.ranking_shows_winner_iff
    storageOrder 0 rfl BudgetStore.inMemory hrun hw
  have hquery : normalize sampleRequest.query = .ok ["photo", "editor"] := by decide
  obtain rfl : tokens = ["photo", "editor"] := Except.ok.inj (htokens.symm.trans hquery)
  exact ⟨outcome, w, rows, hrun, hw, hrows, hiff⟩

/-- Ten campaigns whose budget is below the reserve, above one that can pay. -/
def sampleCrowd : List Campaign :=
  (List.replicate 10 (2000000 : Int64)).zipIdx.map (fun b => sampleBidder (.ofNat b.2) b.1 50000) ++
    [sampleBidder 10 1000000 1000000]

/-- **A winner that its own ranking does not show**: the ten rows are those of the
candidates that were skipped. -/
theorem not_ranking_shows_winner : ∃ snap outcome w rows,
    Snapshot.build sampleCrowd .default = .ok snap ∧ sampleRequest.debug = true ∧
      (snap.run storageOrder sampleRequest BudgetStore.inMemory 0).1 = .ok outcome ∧
      outcome.winner = some w ∧ outcome.ranking = some rows ∧
      ¬snap.ShowsWinner storageOrder sampleRequest
        (snap.entries storageOrder sampleRequest ["photo", "editor"]).eligible w rows := by
  obtain ⟨snap, hbuild⟩ : ∃ snap, Snapshot.build sampleCrowd .default = .ok snap := ⟨_, rfl⟩
  obtain ⟨outcome, w, rows, hrun, hw, hrows, hid, hids⟩ : ∃ outcome w rows,
      (snap.run storageOrder sampleRequest BudgetStore.inMemory 0).1 = .ok outcome ∧
      outcome.winner = some w ∧ outcome.ranking = some rows ∧ w.campaignId = ⟨10⟩ ∧
      rows.map (·.campaignId) = (sampleCrowd.take 10).map (·.id) := by
    obtain rfl := Except.ok.inj hbuild
    exact ⟨_, _, _, rfl, rfl, rfl, rfl, rfl⟩
  refine ⟨snap, outcome, w, rows, hbuild, rfl, hrun, hw, hrows, fun h => ?_⟩
  obtain ⟨i, row, hrow, ⟨hrowid, -⟩, -⟩ := h.winner
  have hmem : row.campaignId ∈ (sampleCrowd.take 10).map (·.id) :=
    hids ▸ List.mem_map_of_mem (List.mem_of_getElem? hrow)
  have hnone : (⟨10⟩ : CampaignId) ∉ (sampleCrowd.take 10).map (·.id) := by decide
  exact hnone (hid ▸ hrowid ▸ hmem)

end Sample

end AdMatch
