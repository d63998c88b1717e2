import AdMatch.Server.Placements
import AdMatch.Server.Spending
import AdMatch.Server.Validate

/-!
# What is refused could not serve

The validation and the auction apply their rules apart from each other, and accepted
campaigns serve (`AdMatch.accepted_campaigns_serve`). Conversely, little is refused that
could: a campaign that is charged in some run of the service, under a threshold no lower than
that of the validation, has a budget, a country, a keyword and an audience that the
validation accepts (`AdMatch.Service.charged_accepted`). What it can still be refused for is a
text, of a keyword or of a negative, or the bid of another keyword.
-/

namespace AdMatch

section Refused

variable [Unicode] {Day : Type} [LinearOrder Day]

/-- A charged campaign has money to spend. -/
theorem Server.budget_pos {predOpt : Day → Option Day} {engine : EngineConfig}
    {events : List (ServerEvent Day)} {server : Server Day} {log : List (Charge Day)}
    (hruns : Runs predOpt engine events server log) {ch : Charge Day} (hch : ch ∈ log) :
    0 < ch.campaign.dailyBudget.toInt := by
  refine (inv_of_runs predOpt hruns).within.limit_pos (fun a ha => ?_) (List.mem_map_of_mem hch)
  obtain ⟨ch', hch', rfl⟩ := List.mem_map.mp ha
  exact charges_pos hruns ch' hch'

namespace Service

variable {predOpt : Day → Option Day} {render : Registry → String} {s : Service Day}
  {engine : EngineConfig} {events : List (ServiceEvent Day)} {log : List (Charge Day)}

/-- What is charged is a placement, on an index that was loaded. -/
theorem placement_of_charge (hruns : Runs predOpt render engine events s log) {ch : Charge Day}
    (hch : ch ∈ log) : ∃ campaigns auction w kw, ServiceEvent.load (.ok campaigns) ∈ events ∧
      Placement engine campaigns auction w ch.campaign kw ∧ w.price = ch.price := by
  obtain ⟨session, hsession, hcharge⟩ :=
    (Server.inv_of_runs predOpt (runs_server hruns)).exists_session hch
  obtain ⟨-, -, h, campaigns, w, kw, -, -, -, -, -, hload, hplacement, hprice, -⟩ :=
    exists_placement hruns hsession hcharge
  exact ⟨campaigns, h.auction, w, kw, hload, hplacement, hprice⟩

/-- **What serves is refused for no more than a text or a bid.** In every run under a
threshold no lower than that of the validation, a campaign that was charged, stored with the
audience size that the validation computes, has a keyword with a token and a positive bid;
and the validation accepts the campaign with that size, or refuses it for the text of a keyword
or of a negative, or for the bid of another keyword. -/
theorem charged_accepted (hruns : Runs predOpt render engine events s log) {ch : Charge Day}
    (hch : ch ∈ log) (counts : AudienceCounts) {kTargeting : Int64}
    (hk : kTargeting ≤ engine.kTargeting)
    (hstored : ch.campaign.audienceSize =
      ch.campaign.ageBuckets.map (audienceSize counts ch.campaign.countries)) :
    (∃ kw ∈ ch.campaign.keywords, (tokenSet kw.text).Nonempty ∧ 0 < kw.maxCptBid.toInt) ∧
      (validateCampaign ch.campaign counts kTargeting = .ok ch.campaign.audienceSize ∨
        validateCampaign ch.campaign counts kTargeting = .error .invalidKeywordText ∨
        validateCampaign ch.campaign counts kTargeting = .error .nonPositiveBid) := by
  obtain ⟨campaigns, auction, w, kw, -, hplacement, hprice⟩ := placement_of_charge hruns hch
  have hpos := Server.charges_pos (runs_server hruns) ch hch
  have hbid : ch.price.toInt ≤ kw.maxCptBid.toInt := hprice ▸ hplacement.le_bid
  refine ⟨⟨kw, hplacement.keyword, hplacement.matched.1, by omega⟩, ?_⟩
  cases hvalid : validateCampaign ch.campaign counts kTargeting with
  | ok size =>
    refine .inl (congrArg Except.ok ?_)
    rcases (validateCampaign_eq_ok.mp hvalid).audience with hage | ⟨buckets, hage, -⟩
    · rw [hstored, hage, Option.map_none]
    · rw [hstored, hage, Option.map_some]
  | error reason =>
    have hbroken := (first_of_validateCampaign hvalid).1
    cases reason with
    | invalidKeywordText => exact .inr (.inl rfl)
    | nonPositiveBid => exact .inr (.inr rfl)
    | nonPositiveBudget =>
      exact absurd (Server.budget_pos (runs_server hruns) hch) (not_lt.mpr hbroken)
    | noCountries =>
      have hcountry := hplacement.country
      rw [show ch.campaign.countries = [] from hbroken] at hcountry
      cases hcountry
    | noKeywords =>
      have hkeyword := hplacement.keyword
      rw [show ch.campaign.keywords = [] from hbroken] at hkeyword
      cases hkeyword
    | emptyAgeBuckets =>
      have hage : ch.campaign.ageBuckets = some [] := hbroken
      rcases hplacement.age with hnone | ⟨-, ⟨buckets, b, hsome, -, hb⟩, -⟩
      · rw [hnone] at hage
        cases hage
      · rw [hsome] at hage
        rw [Option.some.inj hage] at hb
        cases hb
    | audienceTooSmall =>
      obtain ⟨buckets, hage, hsmall⟩ := hbroken
      rw [hage, Option.map_some] at hstored
      rcases hplacement.age with hnone | ⟨-, -, size, hsize, hlarge⟩
      · rw [hnone] at hage
        cases hage
      · rw [hstored] at hsize
        rw [← Option.some.inj hsize] at hlarge
        exact absurd ((Int64.le_iff_toInt_le.mp hk).trans_lt hlarge) (not_lt.mpr hsmall)

end Service

end Refused

section Sample

attribute [local instance] Unicode.asciiGreek

theorem charged_accepted_sample : ∃ s log, Service.Runs samplePredOpt (fun _ => "") .default
    sampleService s log ∧ ∃ ch ∈ log, ch.campaign.id = ⟨1⟩ ∧
      (∃ kw ∈ ch.campaign.keywords, (tokenSet kw.text).Nonempty ∧ 0 < kw.maxCptBid.toInt) ∧
      validateCampaign ch.campaign .new 5000 = .ok none := by
  obtain ⟨s, log, hruns, -⟩ := exists_sampleService
  -- the one charge is to the first campaign
  have hcampaigns : log.map Charge.campaign = sampleCampaigns.take 1 := by
    have hrun : ((Trace.run (Service.step samplePredOpt fun _ => "") sampleService
        (Service.new .default)).map fun x => x.2.map Charge.campaign) =
          some (sampleCampaigns.take 1) := by
      rfl
    rw [Service.trace_of_runs hruns, Option.map_some] at hrun
    exact Option.some.inj hrun
  have hmem : sampleCampaigns.head (by decide) ∈ log.map Charge.campaign := by
    rw [hcampaigns]
    exact List.mem_cons_self
  obtain ⟨ch, hch, hfirst⟩ := List.mem_map.mp hmem
  obtain ⟨hkeyword, haccepted⟩ := Service.charged_accepted hruns hch .new
    (show 5000 ≤ EngineConfig.default.kTargeting by decide) (by rw [hfirst]; rfl)
  refine ⟨s, log, hruns, ch, hch, by rw [hfirst]; rfl, hkeyword, ?_⟩
  rw [hfirst] at haccepted ⊢
  rcases haccepted with hok | htext | hbid
  · exact hok
  · exact absurd htext (by decide)
  · exact absurd hbid (by decide)

end Sample

end AdMatch
