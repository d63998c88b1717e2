import AdMatch.Lib.Trace
import AdMatch.Server.Metrics

/-!
# The service

The running server as its clients see it. A request arrives; unless a layer, the router
or the first part of a handler answers it, its auction is one of those of the server
(`AdMatch.Server`), under way among others. Once the auction has returned, the handler
records it and answers; the answered request is counted on its way out, where an error
takes its final form.

Seen without its requests and metrics, the service is the server, with the same charges
(`AdMatch.Service.runs_server`), so what holds of the server – that budgets hold, for
one – holds of it.
-/

namespace AdMatch

open Walk

/-- How far the handling of a request has got. -/
inductive Stage
  /-- Its auction is under way. -/
  | running
  /-- It is answered, and not yet counted. -/
  | answered (response : Response)
  /-- It is counted, and its response has gone out. -/
  | sent (response : Response)

/-- **A request and what became of it.** -/
structure Exchange where
  /-- The labels that it is counted under. -/
  route : String
  method : String
  /-- Which of the auctions of the server is its own, if it has one. -/
  session : Option ℕ
  stage : Stage

namespace Stage

/-- The response, once there is one. -/
def response : Stage → Option Response
  | running => none
  | answered r => some r
  | sent r => some r

/-- The response that has gone out. -/
def sentResponse : Stage → Option Response
  | sent r => some r
  | _ => none

theorem sentResponse_eq_some {stage : Stage} {r : Response} :
    stage.sentResponse = some r ↔ stage = sent r := by
  rcases stage with _ | r' | r' <;> simp [sentResponse]

end Stage

section Service

variable [Unicode] {Day : Type}

/-- **The service**: the server, the metrics and the requests so far. -/
structure Service (Day : Type) where
  server : Server Day
  metrics : Registry
  exchanges : List Exchange

/-- What can happen to the service. -/
inductive ServiceEvent (Day : Type)
  /-- The index is reloaded from what was read: one event, although `keep_index_fresh`
  counts the build, sets the two gauges and stores the snapshot one after another. -/
  | load (source : Except LoadError (List Campaign))
  /-- Old budget days are pruned. -/
  | prune (today : Day)
  /-- A request arrives. -/
  | arrive (a : Arrival) (order : HashOrder) (today : Day)
  /-- An auction makes one attempt to spend. -/
  | spend (i : ℕ)
  /-- The auction of a request has returned; the handler records it and answers. -/
  | conclude (k : ℕ) (uuid : String) (tookUs : ℕ)
  /-- An answered request is counted, and its response goes out. -/
  | send (k : ℕ)

/-- The request that a match request makes to the server, if its handler gets to see
it. -/
def Arrival.matchRequest (a : Arrival) : Option MatchRequest :=
  match a.handle none "" with
  | .answer _ => none
  | .auction req => some req

/-- What the event is to the server, if anything. -/
def ServiceEvent.serverEvent : ServiceEvent Day → Option (ServerEvent Day)
  | .load source => some (.load source)
  | .prune today => some (.prune today)
  | .arrive a order today => a.matchRequest.map fun req => .request order req today
  | .spend i => some (.spend i)
  | .conclude _ _ _ => none
  | .send _ => none

/-- The server is pruned when the service is. -/
theorem ServiceEvent.mem_prune {events : List (ServiceEvent Day)} {today : Day} :
    ServerEvent.prune today ∈ events.filterMap ServiceEvent.serverEvent ↔
      ServiceEvent.prune today ∈ events := by
  rw [List.mem_filterMap]
  constructor
  · rintro ⟨event, hmem, hevent⟩
    cases event with
    | prune today' =>
      cases hevent
      exact hmem
    | arrive a order today' =>
      obtain ⟨req, -, hreq⟩ := Option.map_eq_some_iff.mp hevent
      cases hreq
    | load source | spend i | conclude k uuid tookUs | send k => cases hevent
  · exact fun hmem => ⟨_, hmem, rfl⟩

namespace Service

/-- A service that has just started. -/
def new (engine : EngineConfig) : Service Day := ⟨.new engine, .new, []⟩

variable [LinearOrder Day] (predOpt : Day → Option Day) (render : Registry → String)

/-- What the index task records of a load. -/
def recordLoad (metrics : Registry) (built : Except LoadError Snapshot) : Registry :=
  match built with
  | .ok snap => metrics.recordIndexBuild.recordIndexSize snap
  | .error _ => metrics.recordIndexBuildFailure

/-- The exchange that a request starts. -/
def exchangeOf (s : Service Day) (a : Arrival) : Exchange :=
  let started := fun session stage => ⟨routeLabel a.path, a.method, session, stage⟩
  match a.handle s.server.app.snapshot (render s.metrics) with
  | .answer response => started none (.answered response)
  | .auction req =>
    match admission s.server.app.snapshot req with
    | .error e => started none (.answered e.intoResponse)
    | .ok _ => started (some s.server.sessions.length) .running

/-- What a handler records of an auction that has returned. -/
def recordResult (metrics : Registry) (result : Except QueryError AuctionOutcome) : Registry :=
  match result with
  | .ok outcome => metrics.recordAuction outcome
  | .error _ => metrics

/-- **One event**, with the charge it makes. A load is one: that an index is served exactly
when a build is counted, and that the gauges are those of the index served, is said of the
moments between loads. A request handled inside a load can find the count and the gauges
ahead of the index. -/
def step (s : Service Day) : ServiceEvent Day → Option (Service Day × Option (Charge Day))
  | .load source => (s.server.step predOpt (.load source)).map fun next =>
    ({ s with
        server := next.1
        metrics := recordLoad s.metrics (buildSnapshot source s.server.app.engine) }, next.2)
  | .prune today => (s.server.step predOpt (.prune today)).map fun next =>
    ({ s with server := next.1 }, next.2)
  | .arrive a order today =>
    let exchanges := s.exchanges ++ [s.exchangeOf render a]
    match a.matchRequest with
    | none => some ({ s with exchanges }, none)
    | some req => (s.server.step predOpt (.request order req today)).map fun next =>
      ({ s with server := next.1, exchanges }, next.2)
  | .spend i => (s.server.step predOpt (.spend i)).map fun next =>
    ({ s with server := next.1 }, next.2)
  | .conclude k uuid tookUs => do
    let e ← s.exchanges[k]?
    let .running := e.stage | none
    let session ← s.server.sessions[← e.session]?
    let result ← session.returned
    let stage := Stage.answered (matchResponse uuid tookUs result)
    return ({ s with
      metrics := recordResult s.metrics result
      exchanges := s.exchanges.set k { e with stage } }, none)
  | .send k => do
    let e ← s.exchanges[k]?
    let .answered response := e.stage | none
    return ({ s with
      metrics := s.metrics.recordRequest e.route e.method response.status
      exchanges := s.exchanges.set k { e with stage := .sent (jsonErrors response) } }, none)

/-- No attempt to spend is late. -/
def Timely (events : List (ServiceEvent Day)) (s : Service Day) (e : ServiceEvent Day) : Prop :=
  ∀ e' ∈ e.serverEvent,
    Server.Timely predOpt (events.filterMap ServiceEvent.serverEvent) s.server e'

/-- **A run of the service**: the events so far, the service after them, and the log of
the charges they made. The attempts to spend of every run are timely, although only what is
said of the budgets, of the days kept and of one request after another rests on it. -/
inductive Runs (engine : EngineConfig) :
    List (ServiceEvent Day) → Service Day → List (Charge Day) → Prop
  | start : Runs engine [] (.new engine) []
  | step {events s log e s' charge} (h : Runs engine events s log)
    (timely : Timely predOpt events s e)
    (hstep : s.step predOpt render e = some (s', charge)) :
    Runs engine (events ++ [e]) s' (log ++ charge.toList)

/-- Only an attempt to spend can be late. -/
theorem timely_of_not_spend {events : List (ServiceEvent Day)} {s : Service Day}
    {e : ServiceEvent Day} (h : ∀ i, e.serverEvent ≠ some (.spend i)) :
    Timely predOpt events s e := by
  rintro e' he' i session rfl
  exact absurd he' (h i)

/-! ### What a step does -/

section Steps

variable {predOpt render} {s s' : Service Day} {charge : Option (Charge Day)}

/-- **What a handler does when its auction has returned.** -/
theorem step_conclude {k : ℕ} {uuid : String} {tookUs : ℕ}
    (h : s.step predOpt render (.conclude k uuid tookUs) = some (s', charge)) :
    charge = none ∧ ∃ e i session result, s.exchanges[k]? = some e ∧ e.stage = .running ∧
      e.session = some i ∧ s.server.sessions[i]? = some session ∧
      session.returned = some result ∧
      s' = { s with
        metrics := recordResult s.metrics result
        exchanges := s.exchanges.set k
          { e with stage := .answered (matchResponse uuid tookUs result) } } := by
  obtain ⟨e, he, h⟩ := Option.bind_eq_some_iff.mp h
  cases hstage : e.stage with
  | answered r | sent r =>
    rw [hstage] at h
    cases h
  | running =>
    rw [hstage] at h
    obtain ⟨i, hi, h⟩ := Option.bind_eq_some_iff.mp h
    obtain ⟨session, hsession, h⟩ := Option.bind_eq_some_iff.mp h
    obtain ⟨result, hresult, h⟩ := Option.bind_eq_some_iff.mp h
    obtain ⟨rfl, rfl⟩ := Prod.mk.inj (Option.some.inj h)
    exact ⟨rfl, e, i, session, result, he, hstage, hi, hsession, hresult, rfl⟩

/-- **What happens to an answered request.** -/
theorem step_send {k : ℕ} (h : s.step predOpt render (.send k) = some (s', charge)) :
    charge = none ∧ ∃ e r, s.exchanges[k]? = some e ∧ e.stage = .answered r ∧
      s' = { s with
        metrics := s.metrics.recordRequest e.route e.method r.status
        exchanges := s.exchanges.set k { e with stage := .sent (jsonErrors r) } } := by
  obtain ⟨e, he, h⟩ := Option.bind_eq_some_iff.mp h
  cases hstage : e.stage with
  | running | sent r =>
    rw [hstage] at h
    cases h
  | answered r =>
    rw [hstage] at h
    obtain ⟨rfl, rfl⟩ := Prod.mk.inj (Option.some.inj h)
    exact ⟨rfl, e, r, he, hstage, rfl⟩

/-- **A step of the service is a step of its server**, or leaves it alone. -/
theorem step_server {e : ServiceEvent Day} (h : s.step predOpt render e = some (s', charge)) :
    (e.serverEvent = none ∧ s'.server = s.server ∧ charge = none) ∨
      ∃ e', e.serverEvent = some e' ∧ s.server.step predOpt e' = some (s'.server, charge) := by
  have hmap : ∀ {e' : ServerEvent Day}
      {f : Server Day × Option (Charge Day) → Service Day × Option (Charge Day)},
      (s.server.step predOpt e').map f = some (s', charge) →
      (∀ next, (f next).1.server = next.1 ∧ (f next).2 = next.2) →
      s.server.step predOpt e' = some (s'.server, charge) := by
    intro e' f h hf
    obtain ⟨next, hnext, h⟩ := Option.map_eq_some_iff.mp h
    obtain ⟨hserver, hcharge⟩ := hf next
    rw [h] at hserver hcharge
    rw [hnext, hserver]
    exact congrArg (fun c => some (next.1, c)) hcharge.symm
  cases e with
  | load source =>
    rw [step] at h
    exact .inr ⟨_, rfl, hmap h fun _ => ⟨rfl, rfl⟩⟩
  | prune today =>
    rw [step] at h
    exact .inr ⟨_, rfl, hmap h fun _ => ⟨rfl, rfl⟩⟩
  | spend i =>
    rw [step] at h
    exact .inr ⟨_, rfl, hmap h fun _ => ⟨rfl, rfl⟩⟩
  | arrive a order today =>
    rw [step] at h
    cases hreq : a.matchRequest with
    | none =>
      rw [hreq] at h
      obtain ⟨rfl, rfl⟩ := Prod.mk.inj (Option.some.inj h)
      exact .inl ⟨by rw [ServiceEvent.serverEvent, hreq]; rfl, rfl, rfl⟩
    | some req =>
      rw [hreq] at h
      exact .inr ⟨.request order req today, by rw [ServiceEvent.serverEvent, hreq]; rfl,
        hmap h fun _ => ⟨rfl, rfl⟩⟩
  | conclude k uuid tookUs =>
    obtain ⟨rfl, e, i, session, result, -, -, -, -, -, rfl⟩ := step_conclude h
    exact .inl ⟨rfl, rfl, rfl⟩
  | send k =>
    obtain ⟨rfl, e, r, -, -, rfl⟩ := step_send h
    exact .inl ⟨rfl, rfl, rfl⟩

/-- A run is a function of its events. -/
theorem trace_of_runs {engine : EngineConfig} {events : List (ServiceEvent Day)}
    {log : List (Charge Day)} (h : Runs predOpt render engine events s log) :
    Trace.run (step predOpt render) events (.new engine) = some (s, log) := by
  induction h with
  | start => rfl
  | step _ _ hstep ih => exact Trace.run_concat ih hstep

/-- **The service refines its server**: its runs are runs of the server, with the same
charges. -/
theorem runs_server {engine : EngineConfig} {events : List (ServiceEvent Day)}
    {log : List (Charge Day)} (h : Runs predOpt render engine events s log) :
    Server.Runs predOpt engine (events.filterMap ServiceEvent.serverEvent) s.server log := by
  induction h with
  | start => exact .start
  | @step events s log e s' charge _ htimely hstep ih =>
    rw [List.filterMap_append]
    rcases step_server hstep with ⟨hnone, hserver, rfl⟩ | ⟨e', hsome, hserver⟩
    · rw [List.filterMap_cons_none hnone, List.filterMap_nil, List.append_nil, hserver,
        Option.toList_none, List.append_nil]
      exact ih
    · rw [List.filterMap_cons_some hsome, List.filterMap_nil]
      exact .step ih (htimely e' hsome) hserver

end Steps

end Service

end Service

/-! ### A sample -/

section Sample

attribute [local instance] Unicode.asciiGreek

/-- A request with nothing in its way. -/
def sampleArrival (method path : String) (body : Except JsonRejection MatchBody) : Arrival where
  method
  path
  cut := none
  plain := .empty
  body

/-- The index is loaded and a match request arrives on day one; a reload fails and old days
are pruned on day two before it is answered with an ad; and a method that is not allowed is
refused. -/
def sampleService : List (ServiceEvent ℕ) :=
  [.load (.ok sampleCampaigns),
   .arrive (sampleArrival "POST" "/v1/match"
     (.ok ⟨⟨"Photo editor!", "IN", true, some "18-24", true⟩, 7⟩)) storageOrder 1,
   .load (.error .source), .prune 2, .spend 0, .conclude 0 "" 0, .send 0,
   .arrive (sampleArrival "PUT" "/healthz" (.error .syntaxError)) storageOrder 2, .send 1]

theorem exists_sampleService : ∃ s log,
    Service.Runs samplePredOpt (fun _ => "") .default sampleService s log ∧ log.length = 1 ∧
      (∀ e ∈ s.exchanges, e.stage ≠ .running ∧ e.stage.sentResponse.isSome) ∧
        ∃ e ∈ s.exchanges, ∃ r, e.stage = .sent r ∧ r.status = 405 := by
  obtain ⟨s, log, hruns, hlog, hstatuses⟩ : ∃ s log,
      Service.Runs samplePredOpt (fun _ => "") .default sampleService s log ∧ log.length = 1 ∧
        s.exchanges.map (fun e => e.stage.sentResponse.map Response.status) =
          [some 200, some 405] := by
    refine ⟨_, _, .step (.step (.step (.step (.step (.step (.step (.step (.step .start ?_ rfl)
      ?_ rfl) ?_ rfl) ?_ rfl) ?_ rfl) ?_ rfl) ?_ rfl) ?_ rfl) ?_ rfl, rfl, rfl⟩
    case refine_5 =>
      -- the attempt is for day one, which a prune on day two keeps
      intro e' he' i session he hget today htoday
      obtain rfl := Option.some.inj he'
      obtain rfl : 0 = i := ServerEvent.spend.inj he
      obtain rfl : 2 = today := by simpa [ServiceEvent.serverEvent] using htoday
      obtain rfl := Option.some.inj hget
      decide
    all_goals exact Service.timely_of_not_spend _ fun i => nofun
  refine ⟨s, log, hruns, hlog, fun e he => ?_, ?_⟩
  · have hmem : e.stage.sentResponse.map Response.status ∈ [some 200, some 405] :=
      hstatuses ▸ List.mem_map_of_mem he
    have hsome : e.stage.sentResponse.isSome := by
      rcases h : e.stage.sentResponse with _ | r
      · rw [h] at hmem
        exact absurd hmem (by decide)
      · rfl
    refine ⟨fun hrunning => ?_, hsome⟩
    rw [hrunning] at hsome
    cases hsome
  · obtain ⟨e, he, hstatus⟩ := List.mem_map.mp
      (hstatuses ▸ List.mem_cons_of_mem (some 200) List.mem_cons_self : some 405 ∈ _)
    obtain ⟨r, hr, hstatus⟩ := Option.map_eq_some_iff.mp hstatus
    exact ⟨e, he, r, Stage.sentResponse_eq_some.mp hr, hstatus⟩

end Sample

end AdMatch
