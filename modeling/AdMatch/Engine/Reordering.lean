import AdMatch.Engine.Charging

/-!
# Order does not matter

Two lists of campaigns that are reorderings of each other – the campaigns
permuted and, within each campaign, its keywords, negatives, countries and age
buckets – give the same auctions (`AdMatch.Snapshot.run_reordered`). Their indexes number
tokens and keywords differently; but a run is the auction of a field, a field
forgets the order of its verdicts, and a reordered campaign gets the same
verdict (`AdMatch.Reordered.verdict_eq`).
-/

namespace AdMatch

/-- **A reordered campaign**: the same campaign, with its lists permuted. -/
structure Reordered (c c' : Campaign) : Prop where
  id : c.id = c'.id
  status : c.status = c'.status
  dailyBudget : c.dailyBudget = c'.dailyBudget
  countries : c.countries.Perm c'.countries
  ageBuckets : Option.Rel List.Perm c.ageBuckets c'.ageBuckets
  audienceSize : c.audienceSize = c'.audienceSize
  keywords : c.keywords.Perm c'.keywords
  negativeKeywords : c.negativeKeywords.Perm c'.negativeKeywords

/-- A reordered list of campaigns: permuted, and each campaign reordered. -/
def ReorderedList (campaigns campaigns' : List Campaign) : Prop :=
  ∃ permuted, campaigns.Perm permuted ∧ List.Forall₂ Reordered permuted campaigns'

namespace Reordered

variable {cfg : EngineConfig} {req : AuctionRequest} {c c' : Campaign}

theorem ageAllowed_eq (h : Reordered c c') : ageAllowed cfg c req = ageAllowed cfg c' req := by
  rw [ageAllowed, ageAllowed, h.audienceSize]
  have hbuckets := h.ageBuckets
  generalize c.ageBuckets = buckets at hbuckets
  generalize c'.ageBuckets = buckets' at hbuckets
  cases hbuckets with
  | none => rfl
  | some hperm => simp only [hperm.mem_iff]

variable [Unicode] {q : Finset String}

theorem blocked_iff (h : Reordered c c') : Blocked q c ↔ Blocked q c' := by
  simp only [Blocked, h.negativeKeywords.mem_iff]

theorem eligibility_eq (h : Reordered c c') (bid : Micros) :
    eligibility cfg c bid req (fun _ => Blocked q c) =
      eligibility cfg c' bid req fun _ => Blocked q c' := by
  rw [eligibility, eligibility, h.status, h.ageAllowed_eq]
  simp only [h.countries.mem_iff, h.blocked_iff]

/-- **A reordered campaign gets the same verdict.** -/
theorem verdict_eq (h : Reordered c c') (hids : (c.keywords.map Keyword.id).Nodup) :
    verdict cfg req q c = verdict cfg req q c' :=
  verdict_congr h.id h.dailyBudget (bestKeyword_perm hids h.keywords) h.eligibility_eq

end Reordered

section Run

variable [Unicode]

/-- **Reordered campaigns make up the same field.** -/
theorem fieldOf_reordered {snap : Snapshot} {campaigns' : List Campaign}
    (h : ReorderedList snap.campaigns campaigns') (cfg : EngineConfig) (req : AuctionRequest)
    (q : Finset String) : fieldOf cfg req q snap.campaigns = fieldOf cfg req q campaigns' := by
  obtain ⟨permuted, hperm, hreordered⟩ := h
  have hids : ∀ c ∈ permuted, (c.keywords.map Keyword.id).Nodup := fun c hc =>
    snap.nodup_keywords (hperm.mem_iff.mpr hc)
  have hverdicts : verdicts cfg req q permuted = verdicts cfg req q campaigns' :=
    verdicts_congr <| ((List.forall₂_and_left permuted campaigns').mpr ⟨hids, hreordered⟩).imp
      fun _ _ h => h.2.verdict_eq h.1
  rw [fieldOf, fieldOf, ← hverdicts]
  exact (Field.ofVerdicts_perm (nodup_verdicts snap.campaignIds) (hperm.symm.filterMap _)).symm

namespace Snapshot

variable {Day : Type} [DecidableEq Day]

/-- Snapshots with the same fields run the same auctions. -/
theorem run_congr (order order' : HashOrder) {snap snap' : Snapshot} (hcfg : snap.cfg = snap'.cfg)
    {req req' : AuctionRequest} (hquery : req.query = req'.query) (hdebug : req.debug = req'.debug)
    (hfield : ∀ q, fieldOf snap.cfg req q snap.campaigns = fieldOf snap'.cfg req' q snap'.campaigns)
    {budgets budgets' : BudgetStore Day}
    (hbudgets : ∀ campaign d, budgets.spent campaign d = budgets'.spent campaign d) (day : Day) :
    (snap.run order req budgets day).1 = (snap'.run order' req' budgets' day).1 ∧
      ∀ campaign d, (snap.run order req budgets day).2.spent campaign d =
        (snap'.run order' req' budgets' day).2.spent campaign d := by
  rw [run_eq, run_eq, ← hquery, ← hdebug, ← hcfg]
  cases normalize req.query with
  | error e => exact ⟨rfl, hbudgets⟩
  | ok tokens =>
    rw [hcfg] at hfield ⊢
    have hledger : budgets.ledger = budgets'.ledger :=
      funext fun key => congrArg Micros.toInt (hbudgets key.1 key.2)
    obtain ⟨houtcome, hafter⟩ := Field.conduct_congr day snap'.cfg req.debug
      (fieldOf snap'.cfg req' tokens.toFinset snap'.campaigns) hledger
    simp only [hfield]
    exact ⟨congrArg Except.ok houtcome, fun campaign d =>
      Micros.toInt_injective (congrFun hafter (campaign, d))⟩

/-- **Order independence.** Reordering the campaigns, and within each campaign its
keywords, negatives, countries and age buckets, changes no outcome and no amount
spent, in whatever order the hash maps are visited. -/
theorem run_reordered (order order' : HashOrder) {campaigns campaigns' : List Campaign}
    {cfg : EngineConfig} {snap snap' : Snapshot} (hbuild : build campaigns cfg = .ok snap)
    (hbuild' : build campaigns' cfg = .ok snap') (h : ReorderedList campaigns campaigns')
    (req : AuctionRequest) {budgets budgets' : BudgetStore Day}
    (hbudgets : ∀ campaign d, budgets.spent campaign d = budgets'.spent campaign d) (day : Day) :
    (snap.run order req budgets day).1 = (snap'.run order' req budgets' day).1 ∧
      ∀ campaign d, (snap.run order req budgets day).2.spent campaign d =
        (snap'.run order' req budgets' day).2.spent campaign d := by
  obtain ⟨rfl, rfl⟩ := build_eq_ok hbuild
  obtain ⟨rfl, hcfg⟩ := build_eq_ok hbuild'
  refine run_congr order order' hcfg.symm rfl rfl (fun q => ?_) hbudgets day
  rw [hcfg, fieldOf_reordered h]

end Snapshot

end Run

section Sample

attribute [local instance] Unicode.asciiGreek

/-- The sample with its campaigns swapped, and the keywords of one of them. -/
def sampleReordered : List Campaign :=
  (sampleCampaigns.map fun c => { c with keywords := c.keywords.reverse }).reverse

theorem run_reordered_sample : ∃ snap, Snapshot.build sampleReordered .default = .ok snap ∧
    (sampleSnapshot.run storageOrder sampleRequest BudgetStore.inMemory 0).1 =
      (snap.run ⟨.reverse _, .reverse _⟩ sampleRequest BudgetStore.inMemory 0).1 := by
  have hreordered : ∀ c : Campaign, Reordered c { c with keywords := c.keywords.reverse } :=
    fun c => ⟨rfl, rfl, rfl, .refl _, by cases c.ageBuckets <;> constructor; exact .refl _, rfl,
      c.keywords.reverse_perm.symm, .refl _⟩
  have hlist : ReorderedList sampleCampaigns sampleReordered :=
    ⟨sampleCampaigns.reverse, sampleCampaigns.reverse_perm.symm, by
      rw [sampleReordered, List.forall₂_reverse_iff, List.forall₂_map_right_iff]
      exact List.forall₂_same.mpr fun c _ => hreordered c⟩
  obtain ⟨snap, hsnap⟩ : ∃ snap, Snapshot.build sampleReordered .default = .ok snap := ⟨_, rfl⟩
  exact ⟨snap, hsnap, (Snapshot.run_reordered storageOrder _ build_sampleCampaigns hsnap hlist
    sampleRequest (fun _ _ => rfl) 0).1⟩

end Sample

end AdMatch
