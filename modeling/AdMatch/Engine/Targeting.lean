import AdMatch.Engine.Reordering
import AdMatch.Server.Routes

/-!
# Privacy of age targeting

A campaign that targets age buckets takes part only in personalised requests from
a bucket it lists, and only when its audience exceeds the threshold
(`AdMatch.AgeRule`); taking part is the only way to be shown or charged. Beyond
that the age rule reveals nothing: the bucket of a request that is not
personalised influences nothing, and neither does the size of an audience except
through the side of the threshold it is on (`AdMatch.Snapshot.targeting_is_private`).
-/

namespace AdMatch

section Privacy

/-- An audience above the threshold; an unknown audience is not. -/
def AudienceAbove (k : Int64) (audience : Option Int64) : Prop :=
  ∃ size, audience = some size ∧ k.toInt < size.toInt

/-- **The age rule**: a campaign without age targeting, or a personalised request
from a bucket that the campaign lists, with an audience known to exceed the
threshold. -/
def AgeRule (cfg : EngineConfig) (req : AuctionRequest) (c : Campaign) : Prop :=
  c.ageBuckets = none ∨
    req.personalized = true ∧
      (∃ buckets b, c.ageBuckets = some buckets ∧ req.ageBucket = some b ∧ b ∈ buckets) ∧
      AudienceAbove cfg.kTargeting c.audienceSize

theorem any_checkTargeting {k : Int64} {audience : Option Int64} :
    (audience.any fun size => (checkTargeting size k).toOption.isSome) = true ↔
      AudienceAbove k audience := by
  rw [Option.any_eq_true]
  refine exists_congr fun size => and_congr_right fun _ => ?_
  rw [← checkTargeting_eq_ok]
  cases checkTargeting size k with
  | error e => simp [Except.toOption]
  | ok u => simp [Except.toOption]

/-- **The check of the engine is the age rule.** -/
theorem ageAllowed_iff {cfg : EngineConfig} {req : AuctionRequest} {c : Campaign} :
    ageAllowed cfg c req = true ↔ AgeRule cfg req c := by
  rw [ageAllowed, AgeRule]
  cases c.ageBuckets with
  | none => simp
  | some buckets =>
    simp only [Bool.and_eq_true, any_checkTargeting]
    simp only [Option.any_eq_true, decide_eq_true_eq, reduceCtorEq, false_or, Option.some.injEq,
      exists_and_left, exists_eq_left', and_assoc]

/-! ### Two runs -/

/-- **An audience changed within its side of the threshold**, and nothing else. -/
structure AudienceChanged (k : Int64) (c c' : Campaign) : Prop where
  same : c' = { c with audienceSize := c'.audienceSize }
  side : AudienceAbove k c.audienceSize ↔ AudienceAbove k c'.audienceSize

variable {cfg : EngineConfig} {req : AuctionRequest} {c c' : Campaign}

/-- Eligibility depends on the age rule, not on what it is made of. -/
theorem eligibility_congr {req' : AuctionRequest} {bid : Micros} {negativeHit : Unit → Bool}
    (hstatus : c.status = c'.status) (hcountry : req.country = req'.country)
    (hcountries : c.countries = c'.countries) (hage : AgeRule cfg req c ↔ AgeRule cfg req' c') :
    eligibility cfg c bid req negativeHit = eligibility cfg c' bid req' negativeHit := by
  have hallowed : ageAllowed cfg c req = ageAllowed cfg c' req' := by
    rw [Bool.eq_iff_iff, ageAllowed_iff, ageAllowed_iff]
    exact hage
  rw [eligibility, eligibility, hstatus, hcountry, hcountries, hallowed]

/-- Without personalisation the age rule does not read the bucket. -/
theorem ageRule_ageBucket (hreq : req.personalized = false) (ageBucket : Option AgeBucket) :
    AgeRule cfg req c ↔ AgeRule cfg { req with ageBucket } c := by
  simp only [AgeRule, hreq, Bool.false_eq_true, false_and, or_false]

/-- The age rule reads an audience through its side of the threshold. -/
theorem AudienceChanged.ageRule_iff (h : AudienceChanged cfg.kTargeting c c') :
    AgeRule cfg req c ↔ AgeRule cfg req c' := by
  have hbuckets : c'.ageBuckets = c.ageBuckets := by
    rw [h.same]
  rw [AgeRule, AgeRule, hbuckets, h.side]

variable [Unicode] {q : Finset String} {campaigns campaigns' : List Campaign}

theorem fieldOf_ageBucket (hreq : req.personalized = false) (ageBucket : Option AgeBucket) :
    fieldOf cfg req q campaigns = fieldOf cfg { req with ageBucket } q campaigns := by
  rw [fieldOf, fieldOf]
  refine congrArg _ (verdicts_congr (List.forall₂_same.mpr fun c _ => ?_))
  exact verdict_congr rfl rfl rfl fun bid =>
    eligibility_congr rfl rfl rfl (ageRule_ageBucket hreq ageBucket)

theorem fieldOf_audience
    (h : List.Forall₂ (AudienceChanged cfg.kTargeting) campaigns campaigns') :
    fieldOf cfg req q campaigns = fieldOf cfg req q campaigns' := by
  rw [fieldOf, fieldOf]
  refine congrArg _ (verdicts_congr (h.imp fun c c' hc => ?_))
  have hage : AgeRule cfg req c ↔ AgeRule cfg req c' := hc.ageRule_iff
  rw [hc.same] at hage ⊢
  exact verdict_congr rfl rfl rfl fun bid => eligibility_congr rfl rfl rfl hage

/-! ### One run -/

/-- Who takes part obeys the age rule. -/
theorem ageRule_of_eligible {e : Entrant} (h : e ∈ (fieldOf cfg req q campaigns).eligible) :
    ∃ c ∈ campaigns, c.id = e.campaignId ∧ AgeRule cfg req c := by
  obtain ⟨o, hc, -, hel, rfl⟩ := mem_fieldOf_eligible.mp h
  exact ⟨o.campaign, hc, rfl, ageAllowed_iff.mp (eligibility_eq_eligible.mp hel).2.2.1⟩

namespace Snapshot

variable (snap : Snapshot) (order : HashOrder) {Day : Type} [DecidableEq Day]

/-- What a run shows or charges is a candidate. -/
theorem exists_eligible_of_run (req : AuctionRequest) (budgets : BudgetStore Day) (day : Day)
    {tokens : List String} (htokens : normalize req.query = .ok tokens) :
    (∀ outcome w, (snap.run order req budgets day).1 = .ok outcome → outcome.winner = some w →
        ∃ e ∈ (fieldOf snap.cfg req tokens.toFinset snap.campaigns).eligible,
          e.campaignId = w.campaignId) ∧
      ∀ campaign d, (snap.run order req budgets day).2.spent campaign d ≠
          budgets.spent campaign d →
        ∃ e ∈ (fieldOf snap.cfg req tokens.toFinset snap.campaigns).eligible,
          e.campaignId = campaign := by
  set field := fieldOf snap.cfg req tokens.toFinset snap.campaigns with hf
  obtain ⟨hreport, hledger⟩ := Field.conduct_eq day snap.cfg req.debug field budgets
  have hfound : ∀ e price i, field.firstFit day snap.cfg budgets.ledger = some ((e, price), i) →
      e ∈ field.eligible := fun e price i hfit =>
    List.mem_of_getElem? ((Field.getElem?_priced _ _).mp
      ((Field.firstFit_eq_some day).mp hfit).1).1
  rw [run_eq, htokens]
  refine ⟨fun outcome w hrun hw => ?_, fun campaign d hne => ?_⟩
  · have houtcome : outcome = (field.conduct snap.cfg req.debug day budgets).1 :=
      (Except.ok.inj hrun).symm
    rw [houtcome, hreport] at hw
    obtain ⟨⟨⟨e, price⟩, i⟩, hfit, rfl⟩ := Option.map_eq_some_iff.mp hw
    exact ⟨e, hfound e price i hfit, rfl⟩
  · have hledger' : (field.conduct snap.cfg req.debug day budgets).2.ledger (campaign, d) ≠
        budgets.ledger (campaign, d) := fun h => hne (Micros.toInt_injective h)
    rw [hledger, Field.settle] at hledger'
    rcases hfit : field.firstFit day snap.cfg budgets.ledger with _ | ⟨⟨e, price⟩, i⟩
    · rw [hfit] at hledger'
      exact absurd rfl hledger'
    · refine ⟨e, hfound e price i hfit, ?_⟩
      by_contra hid
      rw [hfit, Option.elim_some, Ledger.charge_ne] at hledger'
      · exact hledger' rfl
      · exact fun hkey => hid (congrArg Prod.fst hkey).symm

/-- **Targeting is private.** Every candidate, every winner and every campaign
charged obeys the age rule; without personalisation the age bucket changes
nothing, nor is it an error at the endpoint if it cannot be parsed; and audiences
that stay on their side of the threshold change nothing. -/
theorem targeting_is_private (order' : HashOrder) (req : AuctionRequest)
    (budgets : BudgetStore Day) (day : Day) :
    (∀ tokens, normalize req.query = .ok tokens →
      ∀ m ∈ (snap.entries order req tokens).eligible,
        ∃ c, snap.campaigns[m.campaignPos]? = some c ∧ AgeRule snap.cfg req c) ∧
    (∀ outcome w, (snap.run order req budgets day).1 = .ok outcome → outcome.winner = some w →
      ∃ c ∈ snap.campaigns, c.id = w.campaignId ∧ AgeRule snap.cfg req c) ∧
    (∀ campaign d, (snap.run order req budgets day).2.spent campaign d ≠
        budgets.spent campaign d →
      ∃ c ∈ snap.campaigns, c.id = campaign ∧ AgeRule snap.cfg req c) ∧
    (req.personalized = false → ∀ ageBucket,
      snap.run order' { req with ageBucket } budgets day = snap.run order req budgets day) ∧
    (∀ (Uuid : Type) (snapshot : Option Snapshot) (uuid : Uuid) (tookUs : ℕ)
        (httpReq : MatchRequest),
      httpReq.personalized = false → ∀ ageBucket,
        parseAgeBucket ageBucket httpReq.personalized = .ok none ∧
        matchAd order snapshot budgets day uuid tookUs { httpReq with ageBucket } =
          matchAd order snapshot budgets day uuid tookUs httpReq) ∧
    ∀ snap' : Snapshot, snap'.cfg = snap.cfg →
      List.Forall₂ (AudienceChanged snap.cfg.kTargeting) snap.campaigns snap'.campaigns →
      (snap'.run order' req budgets day).1 = (snap.run order req budgets day).1 ∧
        ∀ campaign d, (snap'.run order' req budgets day).2.spent campaign d =
          (snap.run order req budgets day).2.spent campaign d := by
  refine ⟨fun tokens htokens m hm => ?_, fun outcome w hrun hw => ?_, fun campaign d hne => ?_,
    fun hreq ageBucket => ?_, fun _ snapshot uuid tookUs httpReq hreq ageBucket =>
      matchAd_ageBucket order snapshot budgets day uuid tookUs hreq ageBucket,
    fun snap' hcfg haudience => ?_⟩
  · rw [entries_eq] at hm
    obtain ⟨p, hp, rfl⟩ := List.mem_map.mp hm
    obtain ⟨hplaced, hel⟩ := mem_rankedOffers hp
    exact ⟨p.1.campaign, (mem_placedOffers.mp hplaced).1,
      ageAllowed_iff.mp (eligibility_eq_eligible.mp hel).2.2.1⟩
  · cases htokens : normalize req.query with
    | error e =>
      rw [run_eq, htokens] at hrun
      cases hrun
    | ok tokens =>
      obtain ⟨e, he, hid⟩ := (snap.exists_eligible_of_run order req budgets day htokens).1
        outcome w hrun hw
      rw [← hid]
      exact ageRule_of_eligible he
  · cases htokens : normalize req.query with
    | error e =>
      rw [run_eq, htokens] at hne
      exact absurd rfl hne
    | ok tokens =>
      obtain ⟨e, he, rfl⟩ := (snap.exists_eligible_of_run order req budgets day htokens).2
        campaign d hne
      exact ageRule_of_eligible he
  · rw [run_eq, run_eq]
    simp only [← fieldOf_ageBucket hreq ageBucket]
  · refine run_congr order' order hcfg rfl rfl (fun q => ?_) (fun _ _ => rfl) day
    rw [hcfg]
    exact (fieldOf_audience haudience).symm

end Snapshot

end Privacy

section Sample

attribute [local instance] Unicode.asciiGreek

/-- The sample with more young adults. -/
def sampleAudiences : List Campaign :=
  sampleCampaigns.map fun c => { c with audienceSize := c.audienceSize.map (· + 1000) }

theorem targeting_is_private_sample : ∃ snap, Snapshot.build sampleAudiences .default = .ok snap ∧
    sampleSnapshot.run storageOrder
        { sampleRequest with personalized := false, ageBucket := none } BudgetStore.inMemory 0 =
      sampleSnapshot.run storageOrder { sampleRequest with personalized := false }
        BudgetStore.inMemory 0 ∧
    (snap.run storageOrder { sampleRequest with personalized := false }
        BudgetStore.inMemory 0).1 =
      (sampleSnapshot.run storageOrder { sampleRequest with personalized := false }
        BudgetStore.inMemory 0).1 := by
  obtain ⟨snap, hsnap⟩ : ∃ snap, Snapshot.build sampleAudiences .default = .ok snap := ⟨_, rfl⟩
  obtain ⟨hcampaigns, hcfg⟩ := Snapshot.build_eq_ok hsnap
  obtain ⟨-, -, -, hbucket, -, haudience⟩ := sampleSnapshot.targeting_is_private storageOrder
    storageOrder { sampleRequest with personalized := false } BudgetStore.inMemory 0
  refine ⟨snap, hsnap, hbucket rfl none, (haudience snap hcfg ?_).1⟩
  rw [hcampaigns, sampleAudiences, List.forall₂_map_right_iff]
  refine List.forall₂_same.mpr fun c hc => ⟨rfl, ?_⟩
  have hside : ∀ c ∈ sampleCampaigns,
      (c.audienceSize.any fun size => (checkTargeting size 5000).toOption.isSome) =
        (c.audienceSize.map (· + 1000)).any fun size =>
          (checkTargeting size 5000).toOption.isSome := by decide
  rw [← any_checkTargeting, ← any_checkTargeting]
  exact Bool.eq_iff_iff.mp (hside c hc)

end Sample

end AdMatch
