import AdMatch.Engine.Targeting
import AdMatch.Server.Sequential

/-!
# Every ad is in its place

From the body of a request to the ad in its response. Whatever else has happened in a run –
reloads, prunes, any other requests in between – an ad that is shown is a placement
(`AdMatch.Placement`): it shows a keyword that matches the words of the query, of an active
campaign of an index that was loaded, which targets the country of the request and, if it
targets ages, a bucket that the user has consented to be seen in and that is large enough,
and which none of its negative keywords keep away; and it is charged, on the day of the
request, between the reserve and the bid (`AdMatch.Service.ads_are_placements`).
-/

namespace AdMatch

open Walk

section Placements

variable [Unicode] {Day : Type}

/-- **An ad in its place**: what an ad shows, of which campaign and keyword, and why it may. -/
structure Placement (cfg : EngineConfig) (campaigns : List Campaign) (req : AuctionRequest)
    (w : Winner) (c : Campaign) (kw : Keyword) : Prop where
  campaign : c ∈ campaigns
  keyword : kw ∈ c.keywords
  shows : w = { campaignId := c.id, keywordId := kw.id, keywordText := kw.text,
                matchType := kw.matchType, maxCptBid := kw.maxCptBid, price := w.price,
                relevance := relevanceOf kw.matchType (tokenSet kw.text) (tokenSet req.query) }
  matched : Matches kw.matchType (tokenSet kw.text) (tokenSet req.query)
  not_blocked : ¬Blocked (tokenSet req.query) c
  active : c.status = .active
  country : req.country ∈ c.countries
  age : AgeRule cfg req c
  reserve_le : cfg.reserve ≤ w.price
  le_bid : w.price ≤ kw.maxCptBid

/-- **What a call shows is a placement**, of the campaign that it was charged to. -/
theorem Call.placement_of_result {call : Call Day} {price : Micros} {i : ℕ}
    (h : (price, i) ∈ call.work) {outcome : AuctionOutcome} {w : Winner}
    (hresult : call.result (some (price, i)) = .ok outcome) (hw : outcome.winner = some w) :
    ∃ c kw, call.campaignAt i = some c ∧ w.price = price ∧
      Placement call.snap.cfg call.snap.campaigns call.req w c kw := by
  obtain ⟨tokens, hquery⟩ := exists_normalize_of_mem_work h
  have hranking := ranking_of_normalize hquery
  have hprices := prices_of_normalize hquery
  set ranked := rankedOffers call.snap.cfg call.req tokens.toFinset call.snap.campaigns
  set field := fieldOf call.snap.cfg call.req tokens.toFinset call.snap.campaigns
  have heligible : field.eligible = ranked.map fun p => p.1.entrant := fieldOf_eligible
  have hprice := List.mem_zipIdx_iff_getElem?.mp h
  rw [hprices] at hprice
  -- the price is that of a candidate
  obtain ⟨p, hp⟩ : ∃ p, ranked[i]? = some p := by
    have hlt := (List.getElem?_eq_some_iff.mp hprice).1
    rw [Field.length_prices, heligible, List.length_map] at hlt
    exact ⟨_, List.getElem?_eq_getElem hlt⟩
  have hpriced : (field.priced call.snap.cfg)[i]? = some (p.1.entrant, price) :=
    (Field.getElem?_priced _ _).mpr
      ⟨by rw [heligible, List.getElem?_map, hp, Option.map_some], hprice⟩
  have hwinner := call.snap.winnerOf_eq
    (fun p hp => (Snapshot.mem_rankedOffers hp).1) heligible (some ((p.1.entrant, price), i))
    (fun c hc => by
      rw [← Option.some.inj hc]
      exact List.mem_zipIdx_iff_getElem?.mpr hpriced) i
  rw [result_of_normalize hquery, call.snap.entries_eq, hprices] at hresult
  rw [← Except.ok.inj hresult] at hw
  obtain rfl := Option.some.inj (hw.symm.trans hwinner)
  -- and what the eligibility checks passed
  obtain ⟨hplaced, hchecked⟩ := Snapshot.mem_rankedOffers (List.mem_of_getElem? hp)
  obtain ⟨hget, hbest⟩ := mem_placedOffers.mp hplaced
  obtain ⟨-, hkeyword, hmatched, hrelevance, -⟩ := bestOffer_eq_some hbest
  obtain ⟨hactive, hcountry, hage, hblocked, -⟩ := eligibility_eq_eligible.mp hchecked
  obtain ⟨hreserve, hbid⟩ := price_bounds hpriced
  have hset : tokenSet call.req.query = tokens.toFinset := tokenSet_of_normalize hquery
  refine ⟨p.1.campaign, p.1.keyword, ?_, rfl, List.mem_of_getElem? hget, hkeyword, ?_, ?_, ?_,
    hactive, hcountry, ageAllowed_iff.mp hage, hreserve, hbid⟩
  · rw [campaignAt, hranking, List.getElem?_map, hp]
    exact hget
  · rw [hset, ← hrelevance]
    rfl
  · rw [hset]
    exact hmatched
  · rw [hset]
    exact of_decide_eq_false hblocked

namespace Service

variable [LinearOrder Day] {predOpt : Day → Option Day} {render : Registry → String}
  {s : Service Day} {engine : EngineConfig} {events : List (ServiceEvent Day)}
  {log : List (Charge Day)}

/-- **What an auction has charged is a placement**, for the request that it is of. -/
theorem exists_placement (hruns : Runs predOpt render engine events s log) {i : ℕ}
    {session : Session Day} (hsession : s.server.sessions[i]? = some session) {ch : Charge Day}
    (hcharge : session.charge i = some ch) :
    ∃ (k : ℕ) (e : Exchange) (h : Handler Day) (campaigns : List Campaign) (w : Winner)
      (kw : Keyword) (outcome : AuctionOutcome), s.exchanges[k]? = some e ∧ e.session = some i ∧
      Handles engine events k h ∧ session.call = h.call ∧
      ServiceEvent.load (.ok campaigns) ∈ events ∧
      Placement engine campaigns h.auction w ch.campaign kw ∧ w.price = ch.price ∧
      session.returned = some (.ok outcome) ∧ outcome.winner = some w := by
  have halong := (Server.inv_of_runs predOpt (runs_server hruns)).along session
    (List.mem_of_getElem? hsession)
  obtain ⟨-, -, -, outcome, w, hreturned, hw, -, hprice⟩ := Server.shown_of_charge halong hcharge
  obtain ⟨⟨price, pos⟩, hfound, hch⟩ := Option.bind_eq_some_iff.mp hcharge
  obtain ⟨c, hc, rfl⟩ := Option.map_eq_some_iff.mp hch
  obtain ⟨found, hprogress, hresult⟩ := Session.exists_stopped hreturned
  rw [hprogress] at hfound halong
  obtain rfl : found = some (price, pos) := hfound
  obtain ⟨c', kw, hc', -, hplacement⟩ :=
    Call.placement_of_result (halong _ rfl) hresult hw
  obtain rfl := Option.some.inj (hc'.symm.trans hc)
  -- its auction is that of a request, on an index that was loaded
  obtain ⟨k, e, h, hk, hi, hhandles, hcall⟩ := exists_exchange hruns hsession
  obtain ⟨campaigns, hload, hbuild⟩ := hhandles.loaded
  rw [hcall, Handler.call] at hplacement
  rw [(build_eq hbuild).1, (build_eq hbuild).2] at hplacement
  exact ⟨k, e, h, campaigns, w, kw, outcome, hk, hi, hhandles, hcall, hload, hplacement, hprice,
    hreturned, hw⟩

/-- **Every ad shown is in its place**, from the body of the request that it answers to the
charge that was made for it. -/
theorem ads_are_placements (hruns : Runs predOpt render engine events s log) {k : ℕ}
    {e : Exchange} (hk : s.exchanges[k]? = some e) {r : Response} (hr : e.stage.response = some r)
    {bill : ℤ × ℤ} (had : r.ad = some bill) :
    ∃ a order today body auction campaigns w c kw,
      (events.filterMap ServiceEvent.arrival)[k]? = some (a, order, today) ∧
      a.path = "/v1/match" ∧ a.body = .ok body ∧
      auctionRequest body.toMatchRequest = .ok auction ∧
      ServiceEvent.load (.ok campaigns) ∈ events ∧
      Placement engine campaigns auction w c kw ∧
      (∃ answer, r = respond MatchResponse.toJson (.ok answer) ∧ answer.ad = some w) ∧
      ∃ ch ∈ log, ch.campaign = c ∧ ch.price = w.price ∧ ch.day = today := by
  have he := List.mem_of_getElem? hk
  have hinv := Server.inv_of_runs predOpt (runs_server hruns)
  -- what is shown is what its auction has charged
  rw [ad_eq_billOf hruns he hr, billOf] at had
  obtain ⟨ch, hchargeAt, -⟩ := Option.map_eq_some_iff.mp had
  obtain ⟨i, hi, hchargeAt⟩ := Option.bind_eq_some_iff.mp hchargeAt
  obtain ⟨session, hsession, hcharge⟩ := Option.bind_eq_some_iff.mp hchargeAt
  obtain ⟨-, hday, -⟩ :=
    Server.shown_of_charge (hinv.along session (List.mem_of_getElem? hsession)) hcharge
  -- and its auction is that of its body
  obtain ⟨k', e', h, campaigns, w, kw, outcome, hk', hi', hhandles, hcall, hload, hplacement,
    hprice, hreturned, hw⟩ := exists_placement hruns hsession hcharge
  obtain rfl := unique_of_runs hruns hk' hk hi' hi
  obtain ⟨a, harrived, hreq⟩ := hhandles.arrived
  have hhandle : a.handle none "" = .auction h.req := Arrival.matchRequest_eq_some.mp hreq
  obtain ⟨-, hpath, -, body, hbody, htoReq⟩ := Arrival.handle_eq_auction.mp hhandle
  refine ⟨a, h.order, h.today, body, h.auction, campaigns, w, ch.campaign, kw, harrived, ?_,
    hbody, ?_, hload, hplacement, ?_, ch, hinv.mem_log hsession hcharge, rfl, hprice.symm, ?_⟩
  · have hsome := List.find?_some hpath
    rw [decide_eq_true_eq] at hsome
    exact hsome.symm
  · rw [htoReq]
    exact h.parsed
  · rcases auction_cases ((answers_of_runs hruns).sound e he) with hstage | hnone |
      ⟨j, other, result, uuid, tookUs, hj, hother, hresult, -, hresponse⟩
    · rw [hstage] at hr
      cases hr
    · rw [hi] at hnone
      cases hnone
    · obtain rfl := Option.some.inj (hj.symm.trans hi)
      obtain rfl := Option.some.inj (hother.symm.trans hsession)
      obtain rfl := Option.some.inj (hresult.symm.trans hreturned)
      exact ⟨_, Option.some.inj (hr.symm.trans hresponse), hw⟩
  · rw [hday, hcall]
    rfl

end Service

end Placements

section Sample

attribute [local instance] Unicode.asciiGreek

theorem ads_are_placements_sample : ∃ s log,
    Service.Runs samplePredOpt (fun _ => "") .default sampleService s log ∧
      ∃ auction campaigns w c kw, Placement .default campaigns auction w c kw ∧
        ∃ ch ∈ log, ch.campaign = c ∧ ch.price = w.price := by
  obtain ⟨s, log, hruns, hlog, hdone, -⟩ := exists_sampleService
  -- the one charge is shown by some response
  obtain ⟨ch, hch⟩ := List.exists_mem_of_length_pos (by omega : 0 < log.length)
  obtain ⟨e, he, hbill⟩ := List.mem_filterMap.mp
    ((Service.perm_bills hruns).subset (List.mem_map_of_mem (f := Charge.bill) hch))
  obtain ⟨r, hr⟩ : ∃ r, e.stage.response = some r := by
    rcases hstage : e.stage with _ | r | r
    · exact absurd hstage (hdone e he).1
    · exact ⟨r, rfl⟩
    · exact ⟨r, rfl⟩
  obtain ⟨k, hk⟩ := List.mem_iff_getElem?.mp he
  obtain ⟨_, _, _, _, auction, campaigns, w, c, kw, -, -, -, -, -, hplacement, -, ch', hch', hc,
    hprice, -⟩ :=
    Service.ads_are_placements hruns hk hr ((Service.ad_eq_billOf hruns he hr).trans hbill)
  exact ⟨s, log, hruns, auction, campaigns, w, c, kw, hplacement, ch', hch', hc, hprice⟩

end Sample

end AdMatch
