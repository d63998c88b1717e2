import AdMatch.Server.Exchanges

/-!
# What nothing depends on

The user identifier of a request is not read; its age bucket is, if the request is
personalised only; and the `debug` flag adds the ranking to the response and does nothing
else. Nor does it matter in which order the hash maps are iterated. All of this holds of
single requests, and it holds of the service over whole runs: erasing these things from the
requests projects the service onto itself (`AdMatch.Service.projects_erase`), so two runs
that differ in them only charge the same, count the same, and answer the same, where the
flags differ apart from the rankings (`AdMatch.Service.indistinguishable`).
-/

namespace AdMatch

open Walk

/-! ### Requests -/

/-- A request without what is not read; it asks for the ranking only if that is kept. -/
def MatchRequest.erase (ranked : Bool) (req : MatchRequest) : MatchRequest :=
  { req with
    ageBucket := if req.personalized then req.ageBucket else none
    debug := ranked && req.debug }

/-- A body without its user. -/
def MatchBody.erase (ranked : Bool) (body : MatchBody) : MatchBody :=
  ⟨body.toMatchRequest.erase ranked, 0⟩

def AuctionRequest.erase (ranked : Bool) (req : AuctionRequest) : AuctionRequest :=
  { req with debug := ranked && req.debug }

def Arrival.erase (ranked : Bool) (a : Arrival) : Arrival :=
  { a with body := a.body.map (MatchBody.erase ranked) }

/-- An outcome, with the ranking if that is kept. -/
def AuctionOutcome.erase (ranked : Bool) (outcome : AuctionOutcome) : AuctionOutcome :=
  if ranked then outcome else { outcome with ranking := none }

section Responses

variable (ranked : Bool)

/-- The auction sees the same. -/
theorem auctionRequest_erase (req : MatchRequest) :
    auctionRequest (req.erase ranked) = (auctionRequest req).map (AuctionRequest.erase ranked) := by
  have hage : parseAgeBucket (req.erase ranked).ageBucket (req.erase ranked).personalized =
      parseAgeBucket req.ageBucket req.personalized := by
    simp only [MatchRequest.erase]
    rcases req.personalized with _ | _
    · rcases req.ageBucket with _ | raw <;> rfl
    · rfl
  rw [auctionRequest, auctionRequest, hage]
  have hcountry : (req.erase ranked).country = req.country := rfl
  rw [hcountry]
  rcases parseCountry req.country with e | country
  · rfl
  · rcases parseAgeBucket req.ageBucket req.personalized with e | ageBucket <;> rfl

/-! ### Responses -/

/-- A body without the ranking. -/
def Body.unranked : Body → Body
  | .json (.obj members) => .json (.obj (members.filter fun m => m.1 ≠ "ranking"))
  | body => body

/-- A response, with the ranking if that is kept. -/
def Response.erase (r : Response) : Response :=
  if ranked then r else { r with body := r.body.unranked }

theorem Response.erase_status (r : Response) : (r.erase ranked).status = r.status := by
  cases ranked <;> rfl

def Stage.erase : Stage → Stage
  | .running => .running
  | .answered r => .answered (r.erase ranked)
  | .sent r => .sent (r.erase ranked)

def Exchange.erase (e : Exchange) : Exchange := { e with stage := e.stage.erase ranked }

/-- **A response without the ranking is the response to an outcome without it.** -/
theorem matchResponse_erase (uuid : String) (tookUs : ℕ)
    (result : Except QueryError AuctionOutcome) :
    matchResponse uuid tookUs (result.map (AuctionOutcome.erase ranked)) =
      (matchResponse uuid tookUs result).erase ranked := by
  rcases result with e | outcome
  · cases ranked <;> rfl
  · cases ranked with
    | true => rfl
    | false =>
      rcases hranking : outcome.ranking with _ | rows <;>
        simp [matchResponse, matchAnswer, Except.map, AuctionOutcome.erase, respond,
          Response.ofJson, Response.erase, Body.unranked, MatchResponse.toJson, hranking]

/-- What needs no auction shows no ranking. -/
theorem Immediate.erase {r : Response} (h : Immediate r) : r.erase ranked = r := by
  cases ranked <;> cases h <;> rfl

/-- An error shows no ranking. -/
theorem ApiError.erase_intoResponse (e : ApiError) :
    e.intoResponse.erase ranked = e.intoResponse := by
  cases ranked <;> rfl

/-- The error format is the same. -/
theorem jsonErrors_erase (r : Response) :
    jsonErrors (r.erase ranked) = (jsonErrors r).erase ranked := by
  cases ranked with
  | true => rfl
  | false =>
    have hiff : ((r.erase false).IsError ∧ ¬Response.IsJsonType (r.erase false).contentType) ↔
        (r.IsError ∧ ¬Response.IsJsonType r.contentType) := Iff.rfl
    rw [jsonErrors, jsonErrors]
    by_cases h : r.IsError ∧ ¬Response.IsJsonType r.contentType
    · rw [if_pos (hiff.mpr h), if_pos h]
      rfl
    · rw [if_neg (mt hiff.mp h), if_neg h]

end Responses

section Erasure

variable [Unicode] {Day : Type} (ranked : Bool)

/-! ### Auctions -/

namespace Call

/-- The call that an erased request makes. -/
def erase (call : Call Day) : Call Day :=
  { call with order := storageOrder, req := call.req.erase ranked }

variable (call : Call Day)

theorem ranking_erase : (call.erase ranked).ranking = call.ranking := by
  rcases hquery : normalize call.req.query with e | tokens
  · have hquery' : normalize (call.erase ranked).req.query = .error e := hquery
    rw [ranking, ranking, hquery, hquery']
  · have hquery' : normalize (call.erase ranked).req.query = .ok tokens := hquery
    rw [ranking_of_normalize hquery, ranking_of_normalize hquery']
    rfl

theorem prices_erase : (call.erase ranked).prices = call.prices := by
  rw [prices, prices, ranking_erase]
  rfl

theorem work_erase : (call.erase ranked).work = call.work := by
  rw [work, work, prices_erase]

theorem campaignAt_erase : (call.erase ranked).campaignAt = call.campaignAt := by
  funext i
  rw [campaignAt, campaignAt, ranking_erase]
  rfl

theorem attempt_erase [DecidableEq Day] : (call.erase ranked).attempt = call.attempt := by
  funext a budgets
  rw [attempt, attempt, ranking_erase]
  rfl

/-- **It returns the same, but for the ranking.** -/
theorem result_erase (found : Option (Micros × ℕ)) :
    (call.erase ranked).result found = (call.result found).map (AuctionOutcome.erase ranked) := by
  rcases hquery : normalize call.req.query with e | tokens
  · have hquery' : normalize (call.erase ranked).req.query = .error e := hquery
    rw [result, result, hquery, hquery']
    rfl
  · have hquery' : normalize (call.erase ranked).req.query = .ok tokens := hquery
    rw [result_of_normalize hquery, result_of_normalize hquery', prices_erase, ranking_erase,
      Snapshot.entries_eq, Snapshot.entries_eq]
    cases ranked <;> rfl

theorem returned_erase (p : Progress (Micros × ℕ)) :
    (call.erase ranked).returned p =
      (call.returned p).map (Except.map (AuctionOutcome.erase ranked)) := by
  rcases p with ⟨a, rest⟩ | found
  · rfl
  · exact congrArg some (call.result_erase ranked found)

end Call

/-! ### The server -/

def Session.erase (session : Session Day) : Session Day :=
  { session with call := session.call.erase ranked }

theorem Session.charge_erase (session : Session Day) :
    (session.erase ranked).charge = session.charge := by
  funext i
  have hcampaign : (session.erase ranked).call.campaignAt = session.call.campaignAt :=
    session.call.campaignAt_erase ranked
  rw [charge, charge, hcampaign]
  rfl

def ServerEvent.erase : ServerEvent Day → ServerEvent Day
  | .request _ req today => .request storageOrder (req.erase ranked) today
  | e => e

def Server.erase (server : Server Day) : Server Day :=
  { server with sessions := server.sessions.map (Session.erase ranked) }

variable [LinearOrder Day] (predOpt : Day → Option Day)

/-- **The server does the same for erased requests.** -/
theorem Server.projects_erase : Trace.Projects (Server.step predOpt) (Server.step predOpt)
    (Server.erase ranked) (ServerEvent.erase ranked) := by
  intro server e
  cases e with
  | load source | prune today => rfl
  | request order req today =>
    have hsnapshot : (server.erase ranked).app.snapshot = server.app.snapshot := rfl
    rw [ServerEvent.erase, step, step, auctionRequest_erase, hsnapshot]
    rcases auctionRequest req with e | auction
    · rfl
    · rcases server.app.snapshot with _ | snap
      · rfl
      · have hstart : Session.start ⟨storageOrder, snap, auction.erase ranked, today⟩ =
            (Session.start ⟨order, snap, auction, today⟩).erase ranked := by
          rw [Session.start, Session.start, Session.erase,
            ← Call.work_erase ranked ⟨order, snap, auction, today⟩]
          rfl
        simp only [Except.map, hstart, Server.erase, Option.map_some, Prod.map_apply,
          List.map_append, List.map_singleton, id]
  | spend i =>
    show (server.erase ranked).step predOpt (.spend i) = _
    rw [step, step, Server.erase, List.getElem?_map]
    rcases server.sessions[i]? with _ | session
    · rfl
    · rw [Option.map_some, Option.bind_some, Option.bind_some, Option.map_map]
      have hattempt : (session.erase ranked).call.attempt = session.call.attempt :=
        session.call.attempt_erase ranked
      rw [hattempt]
      refine Option.map_congr fun next _ => ?_
      have hcharge : ∀ p, Session.charge { session.erase ranked with progress := p } i =
          Session.charge { session with progress := p } i :=
        fun p => congrFun (Session.charge_erase ranked { session with progress := p }) i
      simp only [Function.comp_apply, Prod.map_apply, hcharge, id, Server.erase, List.map_set]
      rfl

/-! ### The service -/

/-- What the handling of an erased request gets to. -/
def Handling.erase : Handling → Handling
  | .answer r => .answer r
  | .auction req => .auction (req.erase ranked)

omit [LinearOrder Day] in
/-- **Handling goes the same way.** -/
theorem Arrival.handle_erase (a : Arrival) (snapshot : Option Snapshot) (rendered : String) :
    (a.erase ranked).handle snapshot rendered = (a.handle snapshot rendered).erase ranked := by
  have hcut : (a.erase ranked).cut = a.cut := rfl
  have hpath : (a.erase ranked).path = a.path := rfl
  have hmethod : (a.erase ranked).method = a.method := rfl
  have hplain : (a.erase ranked).plain = a.plain := rfl
  have hbody : (a.erase ranked).body = a.body.map (MatchBody.erase ranked) := rfl
  rw [handle, handle, hcut, hpath, hmethod, hplain, hbody]
  rcases a.cut with _ | cut
  · rcases Endpoint.ofPath a.path with _ | endpoint
    · rfl
    · by_cases hallowed : a.method ∉ endpoint.methods
      · simp only [if_pos hallowed]
        rfl
      · simp only [if_neg hallowed]
        rcases endpoint with _ | _ | _
        · rfl
        · rcases a.body with rejection | body <;> rfl
        · rfl
  · rfl

theorem Arrival.matchRequest_erase (a : Arrival) :
    (a.erase ranked).matchRequest = a.matchRequest.map (MatchRequest.erase ranked) := by
  rw [matchRequest, matchRequest, handle_erase]
  rcases a.handle none "" with r | req <;> rfl

def ServiceEvent.erase : ServiceEvent Day → ServiceEvent Day
  | .arrive a _ today => .arrive (a.erase ranked) storageOrder today
  | e => e

namespace Service

/-- The service as it is after erased requests. -/
def erase (s : Service Day) : Service Day :=
  { s with
    server := s.server.erase ranked
    exchanges := s.exchanges.map (Exchange.erase ranked) }

variable (render : Registry → String)

omit [LinearOrder Day] in
theorem exchangeOf_erase (s : Service Day) (a : Arrival) :
    (s.erase ranked).exchangeOf render (a.erase ranked) = (s.exchangeOf render a).erase ranked := by
  have hsnapshot : (s.erase ranked).server.app.snapshot = s.server.app.snapshot := rfl
  have hlength : (s.erase ranked).server.sessions.length = s.server.sessions.length :=
    List.length_map _
  have hadmission : ∀ req : MatchRequest, admission s.server.app.snapshot (req.erase ranked) =
      (admission s.server.app.snapshot req).map (Prod.map (AuctionRequest.erase ranked) id) := by
    intro req
    rw [admission, admission, auctionRequest_erase]
    rcases auctionRequest req with e | auction
    · rfl
    · rcases s.server.app.snapshot with _ | snap <;> rfl
  have hhandle := a.handle_erase ranked s.server.app.snapshot (render s.metrics)
  rw [exchangeOf, exchangeOf]
  rcases hr : a.handle s.server.app.snapshot (render s.metrics) with r | req
  · rw [hr] at hhandle
    have hhandle' : (a.erase ranked).handle (s.erase ranked).server.app.snapshot
        (render (s.erase ranked).metrics) = .answer r := hhandle
    rw [hhandle']
    simp only [Exchange.erase, Stage.erase, (immediate_of_handle hr).erase ranked]
    rfl
  · rw [hr] at hhandle
    have hhandle' : (a.erase ranked).handle (s.erase ranked).server.app.snapshot
        (render (s.erase ranked).metrics) = .auction (req.erase ranked) := hhandle
    rw [hhandle']
    simp only [hsnapshot, hadmission, hlength]
    rcases admission s.server.app.snapshot req with e | admitted
    · simp only [Except.map, Exchange.erase, Stage.erase, ApiError.erase_intoResponse]
      rfl
    · rfl

omit [Unicode] [LinearOrder Day] in
/-- The ranking is not recorded. -/
theorem recordResult_erase (metrics : Registry) (result : Except QueryError AuctionOutcome) :
    recordResult metrics (result.map (AuctionOutcome.erase ranked)) =
      recordResult metrics result := by
  rcases result with e | outcome
  · rfl
  · cases ranked <;> rfl

/-- **The service does the same for erased requests.** -/
theorem projects_erase : Trace.Projects (step predOpt render) (step predOpt render)
    (erase ranked) (ServiceEvent.erase ranked) := by
  intro s e
  -- an event of the server as well
  have hserver : ∀ (e' : ServerEvent Day)
      {f g : Server Day × Option (Charge Day) → Service Day × Option (Charge Day)},
      (∀ next, g (Prod.map (Server.erase ranked) id next) = Prod.map (erase ranked) id (f next)) →
      ((s.erase ranked).server.step predOpt (e'.erase ranked)).map g =
        ((s.server.step predOpt e').map f).map (Prod.map (erase ranked) id) := by
    intro e' f g hg
    have hstep : (s.erase ranked).server.step predOpt (e'.erase ranked) = _ :=
      Server.projects_erase ranked predOpt s.server e'
    rw [hstep, Option.map_map, Option.map_map]
    exact Option.map_congr fun next _ => hg next
  cases e with
  | load source =>
    show (s.erase ranked).step predOpt render (.load source) = _
    rw [step, step]
    exact hserver (.load source) fun _ => rfl
  | prune today =>
    show (s.erase ranked).step predOpt render (.prune today) = _
    rw [step, step]
    exact hserver (.prune today) fun _ => rfl
  | spend i =>
    show (s.erase ranked).step predOpt render (.spend i) = _
    rw [step, step]
    exact hserver (.spend i) fun _ => rfl
  | arrive a order today =>
    have hexchanges : (s.erase ranked).exchanges ++
          [(s.erase ranked).exchangeOf render (a.erase ranked)] =
        (s.exchanges ++ [s.exchangeOf render a]).map (Exchange.erase ranked) := by
      rw [exchangeOf_erase, List.map_append]
      rfl
    rw [ServiceEvent.erase, step, step, Arrival.matchRequest_erase, hexchanges]
    rcases a.matchRequest with _ | req
    · rfl
    · exact hserver (.request order req today) fun _ => rfl
  | conclude k uuid tookUs =>
    show (s.erase ranked).step predOpt render (.conclude k uuid tookUs) = _
    have hget : (s.erase ranked).exchanges[k]? = s.exchanges[k]?.map (Exchange.erase ranked) :=
      List.getElem?_map
    rw [step, step, hget]
    rcases hk : s.exchanges[k]? with _ | ⟨route, method, _ | i, _ | r | r⟩
    · rfl
    · rfl
    · rfl
    · rfl
    · have hsession : (s.erase ranked).server.sessions[i]? =
          s.server.sessions[i]?.map (Session.erase ranked) :=
        List.getElem?_map
      simp only [Option.map_some, Exchange.erase, Stage.erase, Option.bind_eq_bind,
        Option.bind_some, hsession]
      rcases s.server.sessions[i]? with _ | session
      · rfl
      · have hreturned : (session.erase ranked).returned =
            session.returned.map (Except.map (AuctionOutcome.erase ranked)) :=
          session.call.returned_erase ranked session.progress
        simp only [Option.map_some, Option.bind_some, hreturned]
        rcases session.returned with _ | result
        · rfl
        · simp only [Option.map_some, Option.bind_some, matchResponse_erase, recordResult_erase,
            pure, Option.map_some, Prod.map_apply, erase, List.map_set]
          rfl
    · rfl
    · rfl
  | send k =>
    show (s.erase ranked).step predOpt render (.send k) = _
    have hget : (s.erase ranked).exchanges[k]? = s.exchanges[k]?.map (Exchange.erase ranked) :=
      List.getElem?_map
    rw [step, step, hget]
    rcases s.exchanges[k]? with _ | ⟨route, method, session, _ | r | r⟩
    · rfl
    · rfl
    · simp only [Option.map_some, Exchange.erase, Stage.erase, Option.bind_eq_bind,
        Option.bind_some, jsonErrors_erase, Response.erase_status, pure, Prod.map_apply, erase,
        List.map_set]
      rfl
    · rfl

/-! ### Runs -/

section Runs

variable {predOpt render} {engine : EngineConfig} {events events₁ events₂ : List (ServiceEvent Day)}
  {s s₁ s₂ : Service Day} {log log₁ log₂ : List (Charge Day)}

omit [Unicode] [LinearOrder Day] in
theorem erase_eq_spend {e : ServiceEvent Day} {i : ℕ} :
    e.erase ranked = .spend i ↔ e = .spend i := by
  cases e <;> simp [ServiceEvent.erase]

omit [Unicode] [LinearOrder Day] in
theorem mem_prune_erase {today : Day} :
    ServiceEvent.prune today ∈ events.map (ServiceEvent.erase ranked) ↔
      ServiceEvent.prune today ∈ events := by
  rw [List.mem_map]
  constructor
  · rintro ⟨e, he, herase⟩
    cases e with
    | prune today' =>
      obtain rfl := ServiceEvent.prune.inj herase
      exact he
    | _ => cases herase
  · exact fun h => ⟨_, h, rfl⟩

/-- No attempt is late where none is before the erasure. -/
theorem Timely.of_erase {e₁ e₂ : ServiceEvent Day} (h : Timely predOpt events₁ s₁ e₁)
    (hevents : events₁.map (ServiceEvent.erase ranked) = events₂.map (ServiceEvent.erase ranked))
    (hs : s₁.erase ranked = s₂.erase ranked) (he : e₁.erase ranked = e₂.erase ranked) :
    Timely predOpt events₂ s₂ e₂ := by
  intro e' he' i session hspend hget today htoday
  obtain rfl : e₂ = .spend i := by
    rw [hspend] at he'
    cases e₂ with
    | spend j =>
      obtain rfl := ServerEvent.spend.inj (Option.some.inj he')
      rfl
    | arrive a order today' =>
      obtain ⟨req, -, hreq⟩ := Option.map_eq_some_iff.mp he'
      cases hreq
    | _ => cases he'
  obtain rfl := (erase_eq_spend ranked).mp he
  -- the request that attempts is the same, but for what is erased
  have hget' : (s₂.erase ranked).server.sessions[i]? = some (session.erase ranked) := by
    show (s₂.server.sessions.map (Session.erase ranked))[i]? = _
    rw [List.getElem?_map, hget, Option.map_some]
  rw [← hs] at hget'
  obtain ⟨session', hsession', herase⟩ := Option.map_eq_some_iff.mp
    (List.getElem?_map.symm.trans hget')
  have hday : session'.call.day = session.call.day := congrArg (fun s => s.call.day) herase
  rw [← hday]
  refine h (.spend i) rfl i session' rfl hsession' today ?_
  rw [ServiceEvent.mem_prune] at htoday ⊢
  rw [← mem_prune_erase ranked, hevents]
  exact (mem_prune_erase ranked).mpr htoday

/-- Other events with the same erasure can happen instead. -/
theorem exists_runs (h : Runs predOpt render engine events₁ s₁ log)
    (hsame : events₁.map (ServiceEvent.erase ranked) = events₂.map (ServiceEvent.erase ranked)) :
    ∃ s₂, Runs predOpt render engine events₂ s₂ log ∧ s₁.erase ranked = s₂.erase ranked := by
  induction h generalizing events₂ with
  | start =>
    obtain rfl := List.map_eq_nil_iff.mp hsame.symm
    exact ⟨_, .start, rfl⟩
  | @step events s log e s' charge _ htimely hstep ih =>
    rw [List.map_append] at hsame
    obtain ⟨before, last, rfl, hbefore, hlast⟩ := List.map_eq_append_iff.mp hsame.symm
    obtain ⟨d, rfl, hd⟩ := List.map_eq_singleton_iff.mp hlast
    obtain ⟨t, hruns, ht⟩ := ih hbefore.symm
    obtain ⟨t', hstep', ht'⟩ := (projects_erase ranked predOpt render).exists_step ht hd.symm hstep
    exact ⟨t', hruns.step (htimely.of_erase ranked hbefore.symm ht hd.symm) hstep', ht'⟩

/-- **User identifiers, age buckets without consent and hash orders make no difference.**
Whatever can happen with some of them can happen with any others, with the same charges; and
it then leaves the same metrics, index and budgets, and the same responses. Nor do the
`debug` flags make a difference, if nobody looks at the rankings. -/
theorem indistinguishable (h : Runs predOpt render engine events₁ s₁ log₁)
    (hsame : events₁.map (ServiceEvent.erase ranked) = events₂.map (ServiceEvent.erase ranked)) :
    (∃ s₂, Runs predOpt render engine events₂ s₂ log₁) ∧
      ∀ s₂ log₂, Runs predOpt render engine events₂ s₂ log₂ →
        log₂ = log₁ ∧ s₂.metrics = s₁.metrics ∧ s₂.server.app = s₁.server.app ∧
          s₂.exchanges.map (Exchange.erase ranked) = s₁.exchanges.map (Exchange.erase ranked) := by
  obtain ⟨t, hruns, ht⟩ := exists_runs ranked h hsame
  refine ⟨⟨t, hruns⟩, fun s₂ log₂ h₂ => ?_⟩
  obtain ⟨rfl, rfl⟩ := Prod.mk.inj (Option.some.inj
    ((trace_of_runs h₂).symm.trans (trace_of_runs hruns)))
  exact ⟨rfl, (congrArg Service.metrics ht).symm,
    (congrArg (fun s : Service Day => s.server.app) ht).symm, (congrArg Service.exchanges ht).symm⟩

end Runs

end Service

end Erasure

section Sample

attribute [local instance] Unicode.asciiGreek

theorem indistinguishable_sample : ∃ s log,
    Service.Runs samplePredOpt (fun _ => "") .default sampleService s log ∧
      ∃ s', Service.Runs samplePredOpt (fun _ => "") .default
        (sampleService.map (ServiceEvent.erase false)) s' log := by
  obtain ⟨s, log, hruns, -⟩ := exists_sampleService
  have hsame : sampleService.map (ServiceEvent.erase false) =
      (sampleService.map (ServiceEvent.erase false)).map (ServiceEvent.erase false) := rfl
  exact ⟨s, log, hruns, (Service.indistinguishable false hruns hsame).1⟩

end Sample

end AdMatch
