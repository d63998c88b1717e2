import AdMatch.Server.Sequential
import Mathlib.Algebra.Order.BigOperators.Group.List

/-!
# What the ads of a campaign cost

The clients see ads with prices, the operator loads campaigns with daily budgets. Between
the two lies everything else: requests that run at the same time, reloads that change a
budget, prunes, errors. No ad is shown for free, and all the ads that the requests of a day
have been shown of a campaign together cost no more than the daily budget that some load
gave it (`AdMatch.Service.shows_within_budget`).
-/

namespace AdMatch

section Spending

variable [Unicode] {Day : Type} [LinearOrder Day]

namespace Server

variable {predOpt : Day → Option Day} {server server' : Server Day}
  {events : List (ServerEvent Day)} {charge : Option (Charge Day)} {engine : EngineConfig}
  {log : List (Charge Day)}

/-- What a step charges is positive. -/
theorem step_charge_pos {e : ServerEvent Day} (h : server.step predOpt e = some (server', charge))
    {ch : Charge Day} (hch : ch ∈ charge) : 0 < ch.price.toInt := by
  cases e with
  | load source | prune today =>
    obtain ⟨-, rfl⟩ := Prod.mk.inj (Option.some.inj h)
    cases hch
  | request order req today =>
    obtain ⟨-, rfl, -⟩ := step_request h
    cases hch
  | spend i =>
    obtain ⟨session, a, rest, p, -, -, -, -, -, hor⟩ := step_spend h
    rcases hor with ⟨hfits, -, ch', rfl, hattempt⟩ | ⟨-, -, rfl⟩
    · obtain rfl := Option.some.inj hch
      have hpos := hfits.1
      rw [← hattempt] at hpos
      exact hpos
    · cases hch

/-- **Nothing is charged for free.** -/
theorem charges_pos (h : Runs predOpt engine events server log) :
    ∀ ch ∈ log, 0 < ch.price.toInt := by
  induction h with
  | start => exact List.forall_mem_nil _
  | step _ _ hstep ih =>
    exact List.forall_mem_append.mpr
      ⟨ih, fun ch hch => step_charge_pos hstep (Option.mem_toList.mp hch)⟩

end Server

/-- What a response shows to be paid for the campaign. -/
def Response.paid (campaign : CampaignId) (r : Response) : ℤ :=
  r.ad.elim 0 fun bill => if bill.1 = campaign.toInt then bill.2 else 0

/-- What is charged to the campaign on the day. -/
def Charge.costs (campaign : CampaignId) (d : Day) (ch : Charge Day) : ℤ :=
  if (ch.campaign.id, ch.day) = (campaign, d) then ch.price.toInt else 0

namespace Service

/-- **What the requests of a day have been shown of a campaign**, in money: the responses
there are, each with the day on which its request arrived. -/
def shown (s : Service Day) (events : List (ServiceEvent Day)) (campaign : CampaignId) (d : Day) :
    ℤ :=
  ((s.exchanges.zip (events.filterMap ServiceEvent.arrival)).map fun x =>
    if x.2.2.2 = d then x.1.stage.response.elim 0 (Response.paid campaign) else 0).sum

variable {predOpt : Day → Option Day} {render : Registry → String} {s : Service Day}
  {engine : EngineConfig} {events : List (ServiceEvent Day)} {log : List (Charge Day)}

/-- A request charges on the day on which it arrived. -/
theorem day_of_charge (hruns : Runs predOpt render engine events s log) {k : ℕ} {e : Exchange}
    (hk : s.exchanges[k]? = some e) {a : Arrival} {order : HashOrder} {today : Day}
    (harrived : (events.filterMap ServiceEvent.arrival)[k]? = some (a, order, today))
    {ch : Charge Day} (h : e.session.bind s.server.chargeAt = some ch) : ch.day = today := by
  obtain ⟨i, hi, hch⟩ := Option.bind_eq_some_iff.mp h
  obtain ⟨session, hsession, hch⟩ := Option.bind_eq_some_iff.mp hch
  obtain ⟨h, session', hhandles, hsession', hcall⟩ := (traced_of_runs hruns).handler k e i hk hi
  obtain rfl := Option.some.inj (hsession'.symm.trans hsession)
  have halong := (Server.inv_of_runs predOpt (runs_server hruns)).along session'
    (List.mem_of_getElem? hsession)
  obtain ⟨-, hday, -⟩ := Server.shown_of_charge halong hch
  obtain ⟨a', harrived', -⟩ := hhandles.arrived
  have hsame := Option.some.inj (harrived'.symm.trans harrived)
  rw [hday, hcall]
  exact congrArg (fun x : Arrival × HashOrder × Day => x.2.2) hsame

/-- A request never earns a campaign anything. -/
theorem costs_nonneg (hruns : Runs predOpt render engine events s log) {e : Exchange}
    (he : e ∈ s.exchanges) (campaign : CampaignId) (d : Day) :
    0 ≤ (e.session.bind s.server.chargeAt).elim 0 (Charge.costs campaign d) := by
  rcases hcharge : e.session.bind s.server.chargeAt with _ | ch
  · exact le_refl _
  · rw [Option.elim_some, Charge.costs]
    split_ifs
    · have hmem : ch ∈ s.exchanges.filterMap fun e => e.session.bind s.server.chargeAt :=
        List.mem_filterMap.mpr ⟨e, he, hcharge⟩
      exact (Server.charges_pos (runs_server hruns) ch ((perm_charges hruns).mem_iff.mpr hmem)).le
    · exact le_refl _

/-- **What a request is shown is what it has charged**, on the day on which it arrived, or
it is not shown yet. -/
theorem paid_le_costs (hruns : Runs predOpt render engine events s log) {k : ℕ} {e : Exchange}
    (hk : s.exchanges[k]? = some e) {a : Arrival} {order : HashOrder} {today : Day}
    (harrived : (events.filterMap ServiceEvent.arrival)[k]? = some (a, order, today))
    (campaign : CampaignId) (d : Day) :
    (if today = d then e.stage.response.elim 0 (Response.paid campaign) else 0) ≤
      (e.session.bind s.server.chargeAt).elim 0 (Charge.costs campaign d) := by
  have he := List.mem_of_getElem? hk
  split_ifs with hd
  case neg => exact costs_nonneg hruns he campaign d
  rcases hr : e.stage.response with _ | r
  · exact costs_nonneg hruns he campaign d
  rw [Option.elim_some, Response.paid, ad_eq_billOf hruns he hr, billOf]
  rcases hcharge : e.session.bind s.server.chargeAt with _ | ch
  · exact le_refl _
  · have htoday := day_of_charge hruns hk harrived hcharge
    rw [Option.map_some, Option.elim_some, Option.elim_some, Charge.bill, Charge.costs]
    simp only [CampaignId.toInt_injective.eq_iff, Prod.mk.injEq, htoday, hd, and_true, le_refl]

/-- **What is shown was charged**: what the requests of a day have been shown of a campaign
is at most the total of the log. -/
theorem shown_le_total (hruns : Runs predOpt render engine events s log) (campaign : CampaignId)
    (d : Day) :
    s.shown events campaign d ≤ Ledger.total (log.map Charge.attempt) (campaign, d) := by
  have hlength := (traced_of_runs hruns).length
  calc s.shown events campaign d
      ≤ ((s.exchanges.zip (events.filterMap ServiceEvent.arrival)).map fun x =>
          (x.1.session.bind s.server.chargeAt).elim 0 (Charge.costs campaign d)).sum := by
        refine List.sum_le_sum fun x hx => ?_
        obtain ⟨k, hk⟩ := List.mem_iff_getElem?.mp hx
        obtain ⟨hexchange, harrived⟩ := List.getElem?_zip_eq_some.mp hk
        exact paid_le_costs hruns hexchange harrived campaign d
    _ = (s.exchanges.map fun e =>
          (e.session.bind s.server.chargeAt).elim 0 (Charge.costs campaign d)).sum := by
        have hfst := List.map_fst_zip hlength.le
        nth_rewrite 2 [← hfst]
        rw [List.map_map]
        rfl
    _ = ((s.exchanges.filterMap fun e => e.session.bind s.server.chargeAt).map
          (Charge.costs campaign d)).sum := (Tally.sum_map_filterMap _ _ _).symm
    _ = (log.map (Charge.costs campaign d)).sum := ((perm_charges hruns).map _).sum_eq.symm
    _ = Ledger.total (log.map Charge.attempt) (campaign, d) := by
        rw [Ledger.total_eq_sum, List.map_map]
        rfl

/-- **Budgets hold, as the world sees them.** Every ad that a response shows costs
something; and whatever the requests that arrived on a day have been shown of a campaign
costs together no more than the daily budget that the campaign has in some list of campaigns
that was loaded. -/
theorem shows_within_budget (hruns : Runs predOpt render engine events s log) :
    (∀ e ∈ s.exchanges, ∀ r bill, e.stage.response = some r → r.ad = some bill → 0 < bill.2) ∧
      ∀ campaign d, 0 < s.shown events campaign d →
        ∃ campaigns, ServiceEvent.load (.ok campaigns) ∈ events ∧
          ∃ c ∈ campaigns, c.id = campaign ∧ s.shown events campaign d ≤ c.dailyBudget.toInt := by
  have hinv := Server.inv_of_runs predOpt (runs_server hruns)
  constructor
  · intro e he r bill hr had
    rw [ad_eq_billOf hruns he hr] at had
    obtain ⟨ch, hmem, rfl⟩ := List.mem_map.mp
      ((perm_bills hruns).mem_iff.mpr (List.mem_filterMap.mpr ⟨e, he, had⟩))
    exact Server.charges_pos (runs_server hruns) ch hmem
  · intro campaign d hpos
    have hle := shown_le_total hruns campaign d
    -- some charge is for the campaign on the day
    obtain ⟨a, ha, hkey⟩ : ∃ a ∈ log.map Charge.attempt, a.key = (campaign, d) := by
      by_contra hnone
      push Not at hnone
      have hzero : Ledger.total (log.map Charge.attempt) (campaign, d) = 0 := by
        rw [Ledger.total, List.filter_eq_nil_iff.mpr fun a ha => by simpa using hnone a ha]
        rfl
      omega
    obtain ⟨b, hb, hsame, hwithin⟩ := hinv.within.exists_total_le ha
    rw [hkey] at hsame hwithin
    obtain ⟨ch, hch, rfl⟩ := List.mem_map.mp hb
    -- its campaign is one of a snapshot that was loaded
    obtain ⟨session, hsession, hcharge⟩ := hinv.exists_session hch
    obtain ⟨-, -, hcampaign, -⟩ :=
      Server.shown_of_charge (hinv.along session (List.mem_of_getElem? hsession)) hcharge
    obtain ⟨k, e, h, -, -, hhandles, hcall⟩ := exists_exchange hruns hsession
    obtain ⟨campaigns, hload, hbuild⟩ := hhandles.loaded
    rw [hcall, Handler.call, (build_eq hbuild).1] at hcampaign
    exact ⟨campaigns, hload, ch.campaign, hcampaign, congrArg Prod.fst hsame, hle.trans hwithin⟩

end Service

end Spending

section Sample

attribute [local instance] Unicode.asciiGreek

theorem shows_within_budget_sample : ∃ s log,
    Service.Runs samplePredOpt (fun _ => "") .default sampleService s log ∧
      s.shown sampleService ⟨1⟩ 1 = 310000 ∧
      ∃ campaigns, ServiceEvent.load (.ok campaigns) ∈ sampleService ∧
        ∃ c ∈ campaigns, c.id = ⟨1⟩ ∧ s.shown sampleService ⟨1⟩ 1 ≤ c.dailyBudget.toInt := by
  obtain ⟨s, log, hruns, -⟩ := exists_sampleService
  have hshown : s.shown sampleService ⟨1⟩ 1 = 310000 := by
    have hrun : ((Trace.run (Service.step samplePredOpt fun _ => "") sampleService
        (Service.new .default)).map fun x => x.1.shown sampleService ⟨1⟩ 1) = some 310000 := by
      decide
    rw [Service.trace_of_runs hruns] at hrun
    exact Option.some.inj hrun
  exact ⟨s, log, hruns, hshown, (Service.shows_within_budget hruns).2 ⟨1⟩ 1 (by omega)⟩

end Sample

end AdMatch
