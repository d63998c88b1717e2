import AdMatch.Lib.Tally
import AdMatch.Server.Service

/-!
# What the service answers

What holds of every request at every moment of a run, whatever else goes on: which
auction is its own, and that its response is either one that needs no auction or what
its auction returned (`AdMatch.Service.Answers`). From it follow the contract that
clients rely on (`AdMatch.Service.error_contract`), that the ads shown are the charges
made (`AdMatch.Service.shows_what_it_charges`), and when the service is ready
(`AdMatch.Service.ready_iff_loaded`).
-/

namespace AdMatch

open Walk Json

/-! ### Responses without an auction -/

/-- **The errors that clients can meet**, by status and code. -/
def errorCodes : List (ℕ × String) :=
  [(400, "malformed_request"), (404, "not_found"), (405, "method_not_allowed"),
    (413, "payload_too_large"), (422, "invalid_country"), (422, "invalid_age_bucket"),
    (422, "empty_query"), (422, "query_too_long"), (422, "too_many_tokens"), (503, "not_ready"),
    (503, "unavailable")]

/-- An error that clients can meet. -/
def ApiError.Known (e : ApiError) : Prop := (e.status, e.code) ∈ errorCodes

instance (e : ApiError) : Decidable e.Known := inferInstanceAs (Decidable (_ ∈ _))

theorem known_ofRejection (rejection : JsonRejection) :
    (ApiError.ofRejection rejection).Known := by
  cases rejection with
  | syntaxError | dataError | missingContentType => decide
  | bytes status =>
    rw [ApiError.ofRejection]
    split <;> decide

theorem known_queryError (e : QueryError) : (queryError e).Known := by
  cases e <;> decide

theorem known_of_parseCountry {raw : String} {e : ApiError} (h : parseCountry raw = .error e) :
    e.Known := by
  rw [parseCountry] at h
  split at h
  · cases h
  · rw [← Except.error.inj h]
    decide

theorem known_of_parseAgeBucket {raw : Option String} {personalized : Bool} {e : ApiError}
    (h : parseAgeBucket raw personalized = .error e) : e.Known := by
  rcases raw with _ | raw
  · cases h
  · rcases personalized with _ | _
    · cases h
    · rw [parseAgeBucket] at h
      split at h
      · cases h
      · rw [← Except.error.inj h]
        decide

theorem known_of_auctionRequest {req : MatchRequest} {e : ApiError}
    (h : auctionRequest req = .error e) : e.Known := by
  rw [auctionRequest] at h
  cases hcountry : parseCountry req.country with
  | error e' =>
    rw [hcountry] at h
    rw [← Except.error.inj h]
    exact known_of_parseCountry hcountry
  | ok country =>
    rw [hcountry] at h
    cases hage : parseAgeBucket req.ageBucket req.personalized with
    | error e' =>
      simp only [hage] at h
      rw [← Except.error.inj h]
      exact known_of_parseAgeBucket hage
    | ok bucket =>
      simp only [hage] at h
      cases h

/-- The responses that need no auction. -/
inductive Immediate : Response → Prop
  | error (e : ApiError) (h : e.Known) : Immediate e.intoResponse
  /-- The answer of a layer, or of the router. -/
  | plain (body : PlainBody) (status : ℕ) (h : status ∈ [405, 413, 503]) :
    Immediate (body.response status)
  | health (h : Health) : Immediate (.ofJson 200 h.toJson)
  | metrics (text : String) : Immediate ⟨200, some "text/plain; version=0.0.4", .text text⟩

section Handlers

variable [Unicode]

/-- Whatever is answered before an auction is a response that needs none. -/
theorem immediate_of_handle {a : Arrival} {snapshot : Option Snapshot} {rendered : String}
    {r : Response} (h : a.handle snapshot rendered = .answer r) : Immediate r := by
  rw [Arrival.handle] at h
  cases hcut : a.cut with
  | some cut =>
    rw [hcut] at h
    rw [← Handling.answer.inj h]
    exact .plain _ _ (by cases cut <;> decide)
  | none =>
    rw [hcut] at h
    cases hpath : Endpoint.ofPath a.path with
    | none =>
      simp only [hpath] at h
      rw [← Handling.answer.inj h]
      exact .error _ (by decide)
    | some endpoint =>
      simp only [hpath] at h
      split at h
      · rw [← Handling.answer.inj h]
        exact .plain _ _ (by decide)
      · cases endpoint with
        | healthz =>
          rw [← Handling.answer.inj h]
          cases snapshot with
          | none => exact .error _ (by decide)
          | some snap => exact .health _
        | metrics =>
          rw [← Handling.answer.inj h]
          exact .metrics _
        | matchAd =>
          cases hbody : a.body with
          | error rejection =>
            simp only [hbody] at h
            rw [← Handling.answer.inj h]
            exact .error _ (known_ofRejection rejection)
          | ok body =>
            simp only [hbody] at h
            cases h

end Handlers

/-- **What goes out**: a response in order, or an error that clients can meet. -/
def InOrder (r : Response) : Prop := r.status = 200 ∨ ∃ e : ApiError, e.Known ∧ r = e.intoResponse

/-- What needs no auction goes out in order. -/
theorem Immediate.jsonErrors {r : Response} (h : Immediate r) : InOrder (AdMatch.jsonErrors r) := by
  cases h with
  | error e he => exact .inr ⟨e, he, jsonErrors_ofJson _ _⟩
  | health h => exact .inl rfl
  | metrics text => exact .inl rfl
  | plain body status hstatus =>
    have hrange : 400 ≤ status ∧ status < 600 := by
      simp only [List.mem_cons, List.not_mem_nil, or_false] at hstatus
      omega
    refine .inr ⟨_, ?_, jsonErrors_plain body hrange⟩
    simp only [List.mem_cons, List.not_mem_nil, or_false] at hstatus
    rcases hstatus with rfl | rfl | rfl <;> decide

/-! ### Requests and their auctions -/

section Exchanges

variable [Unicode] {Day : Type}

/-- An auction that has returned stays as it is. -/
def Session.Kept (server server' : Server Day) : Prop :=
  ∀ (i : ℕ) (session : Session Day) (result : Except QueryError AuctionOutcome),
    server.sessions[i]? = some session → session.returned = some result →
    server'.sessions[i]? = some session

/-- **Where a response comes from**: what the auction of the request returned, if it has
one. -/
def Origin (server : Server Day) : Option ℕ → Response → Prop
  | none, r => Immediate r
  | some i, r => ∃ session result uuid tookUs, server.sessions[i]? = some session ∧
    session.returned = some result ∧ r = matchResponse uuid tookUs result

/-- A request is handled as it should be. -/
def Exchange.Sound (server : Server Day) (e : Exchange) : Prop :=
  match e.stage with
  | .running => ∃ i, e.session = some i
  | .answered r => Origin server e.session r
  | .sent r => ∃ r', Origin server e.session r' ∧ r = jsonErrors r'

/-- What the auction of a request has returned, once its handler has recorded it. -/
def Exchange.result (server : Server Day) (e : Exchange) :
    Option (Except QueryError AuctionOutcome) :=
  match e.stage with
  | .running => none
  | _ => (e.session.bind fun i => server.sessions[i]?).bind Session.returned

section Kept

variable {server server' : Server Day}

theorem Origin.kept (hkept : Session.Kept server server') {session : Option ℕ} {r : Response}
    (h : Origin server session r) : Origin server' session r := by
  cases session with
  | none => exact h
  | some i =>
    obtain ⟨session, result, uuid, tookUs, hget, hreturned, hr⟩ := h
    exact ⟨session, result, uuid, tookUs, hkept i session result hget hreturned, hreturned, hr⟩

theorem Exchange.Sound.kept (hkept : Session.Kept server server') {e : Exchange}
    (h : e.Sound server) : e.Sound server' := by
  obtain ⟨route, method, session, stage⟩ := e
  cases stage with
  | running => exact h
  | answered r => exact Origin.kept hkept h
  | sent r =>
    obtain ⟨r', hr', hr⟩ := h
    exact ⟨r', hr'.kept hkept, hr⟩

/-- What a request has recorded stays as it is. -/
theorem Exchange.result_kept (hkept : Session.Kept server server') {e : Exchange}
    (h : e.Sound server) : e.result server' = e.result server := by
  obtain ⟨route, method, session, stage⟩ := e
  have horigin : ∀ r, Origin server session r →
      (session.bind fun i => server'.sessions[i]?).bind Session.returned =
        (session.bind fun i => server.sessions[i]?).bind Session.returned := by
    intro r hr
    cases session with
    | none => rfl
    | some i =>
      obtain ⟨session, result, uuid, tookUs, hget, hreturned, hr⟩ := hr
      rw [Option.bind_some, Option.bind_some, hget, hkept i session result hget hreturned]
  cases stage with
  | running => rfl
  | answered r => exact horigin r h
  | sent r =>
    obtain ⟨r', hr', -⟩ := h
    exact horigin r' hr'

end Kept

namespace Server

variable [LinearOrder Day] {predOpt : Day → Option Day} {server server' : Server Day}
  {charge : Option (Charge Day)}

/-- **No event touches an auction that has returned.** -/
theorem step_kept {e : ServerEvent Day} (h : server.step predOpt e = some (server', charge)) :
    Session.Kept server server' := by
  intro i session result hget hreturned
  cases e with
  | load source | prune today =>
    obtain ⟨rfl, rfl⟩ := Prod.mk.inj (Option.some.inj h)
    exact hget
  | request order req today =>
    obtain ⟨-, -, hsame | ⟨call, hnew⟩⟩ := step_request h
    · rw [hsame]
      exact hget
    · rw [hnew, List.getElem?_append_left (List.getElem?_eq_some_iff.mp hget).1]
      exact hget
  | spend j =>
    obtain ⟨session', a, rest, p, hget', hprogress, -, hsessions, -, -⟩ := step_spend h
    have hne : j ≠ i := by
      rintro rfl
      obtain rfl := Option.some.inj (hget'.symm.trans hget)
      -- an auction that still makes an attempt has not returned
      rw [Session.returned, hprogress] at hreturned
      cases hreturned
    rw [hsessions, List.getElem?_set_ne hne]
    exact hget

/-- An event other than a request leaves the number of auctions as it is. -/
theorem step_length {e : ServerEvent Day} (h : server.step predOpt e = some (server', charge))
    (hrequest : ∀ order req today, e ≠ .request order req today) :
    server'.sessions.length = server.sessions.length := by
  cases e with
  | load source | prune today =>
    obtain ⟨rfl, rfl⟩ := Prod.mk.inj (Option.some.inj h)
    rfl
  | request order req today => exact absurd rfl (hrequest order req today)
  | spend i =>
    obtain ⟨session, a, rest, p, -, -, -, hsessions, -, -⟩ := step_spend h
    rw [hsessions, List.length_set]

end Server

namespace Arrival

variable {a : Arrival} {req : MatchRequest}

/-- **What reaches the auction**: a match request that nothing cuts off, with a body. -/
theorem handle_eq_auction {snapshot : Option Snapshot} {rendered : String} :
    a.handle snapshot rendered = .auction req ↔ a.cut = none ∧
      Endpoint.ofPath a.path = some .matchAd ∧ a.method ∈ Endpoint.matchAd.methods ∧
      ∃ body, a.body = .ok body ∧ body.toMatchRequest = req := by
  rw [handle]
  cases a.cut with
  | some cut => simp
  | none =>
    cases Endpoint.ofPath a.path with
    | none => simp
    | some endpoint =>
      by_cases hmethod : a.method ∈ endpoint.methods
      · cases endpoint with
        | healthz | metrics => simp [hmethod]
        | matchAd => cases a.body <;> simp [hmethod]
      · cases endpoint <;> simp [hmethod]

theorem matchRequest_eq_some {snapshot : Option Snapshot} {rendered : String} :
    a.matchRequest = some req ↔ a.handle snapshot rendered = .auction req := by
  have hsame : a.handle snapshot rendered = .auction req ↔ a.handle none "" = .auction req := by
    rw [handle_eq_auction, handle_eq_auction]
  rw [hsame, matchRequest]
  cases a.handle none "" <;> simp

end Arrival

namespace Service

section Steps

variable [LinearOrder Day] {predOpt : Day → Option Day} {render : Registry → String}
  {s s' : Service Day} {charge : Option (Charge Day)}

omit [LinearOrder Day] in
theorem exchangeOf_answer {a : Arrival} {r : Response}
    (h : a.handle s.server.app.snapshot (render s.metrics) = .answer r) :
    s.exchangeOf render a = ⟨routeLabel a.path, a.method, none, .answered r⟩ := by
  rw [exchangeOf]
  simp only [h]

omit [LinearOrder Day] in
theorem exchangeOf_refused {a : Arrival} {req : MatchRequest} {e : ApiError}
    (h : a.handle s.server.app.snapshot (render s.metrics) = .auction req)
    (he : admission s.server.app.snapshot req = .error e) :
    s.exchangeOf render a = ⟨routeLabel a.path, a.method, none, .answered e.intoResponse⟩ := by
  rw [exchangeOf]
  simp only [h, he]

omit [LinearOrder Day] in
theorem exchangeOf_admitted {a : Arrival} {req : MatchRequest}
    {admitted : AuctionRequest × Snapshot}
    (h : a.handle s.server.app.snapshot (render s.metrics) = .auction req)
    (hadmission : admission s.server.app.snapshot req = .ok admitted) : s.exchangeOf render a =
      ⟨routeLabel a.path, a.method, some s.server.sessions.length, .running⟩ := by
  rw [exchangeOf]
  simp only [h, hadmission]

/-- **What happens when a request arrives**: it is answered without an auction, or its
auction begins, on the current snapshot. -/
theorem step_arrive {a : Arrival} {order : HashOrder} {today : Day}
    (h : s.step predOpt render (.arrive a order today) = some (s', charge)) :
    charge = none ∧ s'.metrics = s.metrics ∧ s'.server.app = s.server.app ∧
      s'.exchanges = s.exchanges ++ [s.exchangeOf render a] ∧
      ((∃ r, Immediate r ∧ s'.server.sessions = s.server.sessions ∧
          s.exchangeOf render a = ⟨routeLabel a.path, a.method, none, .answered r⟩) ∨
        ∃ req auction snap, a.matchRequest = some req ∧ auctionRequest req = .ok auction ∧
          s.server.app.snapshot = some snap ∧
          s'.server.sessions = s.server.sessions ++ [.start ⟨order, snap, auction, today⟩] ∧
          s.exchangeOf render a =
            ⟨routeLabel a.path, a.method, some s.server.sessions.length, .running⟩) := by
  rw [step] at h
  cases hreq : a.matchRequest with
  | none =>
    rw [hreq] at h
    obtain ⟨rfl, rfl⟩ := Prod.mk.inj (Option.some.inj h)
    refine ⟨rfl, rfl, rfl, rfl, .inl ?_⟩
    cases hhandle : a.handle s.server.app.snapshot (render s.metrics) with
    | auction req =>
      rw [Arrival.matchRequest_eq_some.mpr hhandle] at hreq
      cases hreq
    | answer r => exact ⟨r, immediate_of_handle hhandle, rfl, exchangeOf_answer hhandle⟩
  | some req =>
    rw [hreq] at h
    obtain ⟨next, hnext, h⟩ := Option.map_eq_some_iff.mp h
    obtain ⟨rfl, rfl⟩ := Prod.mk.inj h
    have hhandle : a.handle s.server.app.snapshot (render s.metrics) = .auction req :=
      Arrival.matchRequest_eq_some.mp hreq
    rw [Server.step] at hnext
    cases hauction : auctionRequest req with
    | error e =>
      have hadmission : admission s.server.app.snapshot req = .error e := by
        rw [admission, hauction]
      rw [hauction] at hnext
      rw [← Option.some.inj hnext]
      exact ⟨rfl, rfl, rfl, rfl, .inl ⟨_, .error e (known_of_auctionRequest hauction), rfl,
        exchangeOf_refused hhandle hadmission⟩⟩
    | ok auction =>
      rw [hauction] at hnext
      cases hsnap : s.server.app.snapshot with
      | none =>
        have hadmission : admission s.server.app.snapshot req = .error .notReady := by
          rw [admission, hauction, hsnap]
        rw [hsnap] at hnext
        rw [← Option.some.inj hnext]
        exact ⟨rfl, rfl, rfl, rfl, .inl ⟨_, .error .notReady (by decide), rfl,
          exchangeOf_refused hhandle hadmission⟩⟩
      | some snap =>
        have hadmission : admission s.server.app.snapshot req = .ok (auction, snap) := by
          rw [admission, hauction, hsnap]
        rw [hsnap] at hnext
        rw [← Option.some.inj hnext]
        exact ⟨rfl, rfl, rfl, rfl, .inr ⟨req, auction, snap, rfl, hauction, rfl, rfl,
          exchangeOf_admitted hhandle hadmission⟩⟩

/-! ### Every request is handled as it should be -/

/-- **What holds of the requests at every moment**: their auctions are those of the
server, each for one of them, in order; and each is handled as it should be. -/
structure Answers (s : Service Day) : Prop where
  sessions : s.exchanges.filterMap Exchange.session = List.range s.server.sessions.length
  sound : ∀ e ∈ s.exchanges, e.Sound s.server

omit [LinearOrder Day] in
/-- A step that leaves the requests alone, and starts no auction. -/
theorem Answers.of_task (h : s.Answers) (hexchanges : s'.exchanges = s.exchanges)
    (hlength : s'.server.sessions.length = s.server.sessions.length)
    (hkept : Session.Kept s.server s'.server) : s'.Answers where
  sessions := by rw [hexchanges, hlength, h.sessions]
  sound e he := (h.sound e (hexchanges ▸ he)).kept hkept

omit [LinearOrder Day] in
/-- A request that moves on, with its auction still its own. -/
theorem Answers.of_set (h : s.Answers) {k : ℕ} {e : Exchange} (hget : s.exchanges[k]? = some e)
    (e' : Exchange) (hsession : e'.session = e.session) (hsound : e'.Sound s.server)
    (metrics : Registry) :
    Answers { s with metrics, exchanges := s.exchanges.set k e' } where
  sessions := by
    have hmap : ∀ l : List Exchange, l.filterMap Exchange.session =
        (l.map Exchange.session).filterMap id := fun l => by
      rw [List.filterMap_map]
      rfl
    rw [← h.sessions, hmap, hmap, Tally.map_set_of_eq hget hsession]
  sound e'' he := by
    rcases List.mem_or_eq_of_mem_set he with hold | rfl
    · exact h.sound e'' hold
    · exact hsound

/-- **A step keeps every request handled as it should be.** -/
theorem Answers.step (h : s.Answers) {e : ServiceEvent Day}
    (hstep : s.step predOpt render e = some (s', charge)) : s'.Answers := by
  have htask : ∀ e', e.serverEvent = some e' → (∀ order req today, e' ≠ .request order req today) →
      s'.exchanges = s.exchanges → s'.Answers := by
    intro e' he' hrequest hexchanges
    rcases step_server hstep with ⟨hnone, -, -⟩ | ⟨e'', he'', hserver⟩
    · rw [he'] at hnone
      cases hnone
    · obtain rfl := Option.some.inj (he'.symm.trans he'')
      exact h.of_task hexchanges (Server.step_length hserver hrequest) (Server.step_kept hserver)
  cases e with
  | load source | prune today | spend i =>
    refine htask _ rfl (by rintro _ _ _ ⟨⟩) ?_
    rw [Service.step] at hstep
    obtain ⟨next, -, hnext⟩ := Option.map_eq_some_iff.mp hstep
    rw [← (Prod.mk.inj hnext).1]
  | arrive a order today =>
    obtain ⟨-, -, -, hexchanges, ⟨r, hr, hsessions, hnew⟩ | ⟨req, auction, snap, -, -, -,
      hsessions, hnew⟩⟩ := step_arrive hstep
    · have hkept : Session.Kept s.server s'.server := fun i session result hget _ => by
        rw [hsessions]
        exact hget
      refine ⟨?_, fun e he => ?_⟩
      · rw [hexchanges, List.filterMap_append, h.sessions, hnew, hsessions]
        exact List.append_nil _
      · rw [hexchanges, hnew, List.mem_append, List.mem_singleton] at he
        rcases he with hold | rfl
        · exact (h.sound e hold).kept hkept
        · exact hr
    · have hkept : Session.Kept s.server s'.server := fun i session result hget _ => by
        rw [hsessions, List.getElem?_append_left (List.getElem?_eq_some_iff.mp hget).1]
        exact hget
      refine ⟨?_, fun e he => ?_⟩
      · rw [hexchanges, List.filterMap_append, h.sessions, hnew, hsessions, List.length_append,
          List.length_singleton, List.range_succ]
        rfl
      · rw [hexchanges, hnew, List.mem_append, List.mem_singleton] at he
        rcases he with hold | rfl
        · exact (h.sound e hold).kept hkept
        · exact ⟨_, rfl⟩
  | conclude k uuid tookUs =>
    obtain ⟨-, e, i, session, result, hget, -, hsession, hi, hresult, rfl⟩ := step_conclude hstep
    refine h.of_set hget { e with stage := .answered _ } rfl ?_ _
    change Origin s.server e.session _
    rw [hsession]
    exact ⟨session, result, uuid, tookUs, hi, hresult, rfl⟩
  | send k =>
    obtain ⟨-, e, r, hget, hstage, rfl⟩ := step_send hstep
    refine h.of_set hget { e with stage := .sent _ } rfl ⟨r, ?_, rfl⟩ _
    have hsound := h.sound e (List.mem_of_getElem? hget)
    rw [Exchange.Sound, hstage] at hsound
    exact hsound

theorem answers_of_runs {engine : EngineConfig} {events : List (ServiceEvent Day)}
    {log : List (Charge Day)} (h : Runs predOpt render engine events s log) : s.Answers := by
  induction h with
  | start => exact ⟨rfl, fun e he => absurd he List.not_mem_nil⟩
  | step _ _ hstep ih => exact ih.step hstep

/-! ### The contract -/

/-- **What has gone out is a success or an error of the contract.** -/
theorem sent_cases {engine : EngineConfig} {events : List (ServiceEvent Day)}
    {log : List (Charge Day)} (hruns : Runs predOpt render engine events s log) {e : Exchange}
    (he : e ∈ s.exchanges) {r : Response} (hr : e.stage = .sent r) :
    r.status = 200 ∨ ∃ err : ApiError, err.Known ∧ r = err.intoResponse := by
  have hsound := (answers_of_runs hruns).sound e he
  rw [Exchange.Sound, hr] at hsound
  obtain ⟨r', horigin, rfl⟩ := hsound
  cases hsession : e.session with
  | none =>
    rw [hsession] at horigin
    exact Immediate.jsonErrors horigin
  | some i =>
    rw [hsession] at horigin
    obtain ⟨session, result, uuid, tookUs, -, -, rfl⟩ := horigin
    rw [jsonErrors_matchResponse]
    rcases matchResponse_cases uuid tookUs result with ⟨outcome, v, -, hok⟩ | ⟨err, -, herr⟩
    · exact .inl (by rw [hok]; rfl)
    · exact .inr ⟨_, known_queryError err, herr⟩

end Steps

end Service

/-! ### What is shown is what is charged -/

/-- The ad that a response shows: its campaign, and what is paid for it. -/
def Response.ad (r : Response) : Option (ℤ × ℤ) :=
  match r.body with
  | .json v =>
    match v.get ["ad", "campaign_id"], v.get ["ad", "price_micros"] with
    | some (.int campaign), some (.int price) => some (campaign, price)
    | _, _ => none
  | .text _ => none

/-- What an auction shows. -/
def Winner.bill (w : Winner) : ℤ × ℤ := (w.campaignId.toInt, w.price.toInt)

/-- What is charged, to whom. -/
def Charge.bill (ch : Charge Day) : ℤ × ℤ := (ch.campaign.id.toInt, ch.price.toInt)

omit [Unicode] in
theorem ad_intoResponse (e : ApiError) : e.intoResponse.ad = none := rfl

omit [Unicode] in
theorem Immediate.ad {r : Response} (h : Immediate r) : r.ad = none := by
  cases h <;> rfl

omit [Unicode] in
theorem Immediate.ad_jsonErrors {r : Response} (h : Immediate r) :
    (AdMatch.jsonErrors r).ad = none := by
  rw [AdMatch.jsonErrors]
  split
  · rfl
  · exact h.ad

omit [Unicode] in
/-- **A response shows the winner** of its auction. -/
theorem ad_matchResponse (uuid : String) (tookUs : ℕ) (outcome : AuctionOutcome) :
    (matchResponse uuid tookUs (.ok outcome)).ad = outcome.winner.map Winner.bill := by
  rcases hw : outcome.winner with _ | w
  · rw [Response.ad, matchResponse, matchAnswer, hw]
    rfl
  · rw [Response.ad, matchResponse, matchAnswer, hw]
    rfl

/-- What the auction number `i` has charged. -/
def Server.chargeAt (server : Server Day) (i : ℕ) : Option (Charge Day) :=
  server.sessions[i]?.bind fun session => session.charge i

/-- **What an auction that has returned shows is what it has charged.** -/
theorem bill_charge {session : Session Day}
    (halong : session.progress.Along session.call.work)
    {result : Except QueryError AuctionOutcome} (hreturned : session.returned = some result)
    (i : ℕ) (uuid : String) (tookUs : ℕ) :
    (session.charge i).map Charge.bill = (matchResponse uuid tookUs result).ad := by
  rcases result with e | outcome
  · rw [show (matchResponse uuid tookUs (.error e)).ad = none from rfl]
    rcases hcharge : session.charge i with _ | ch
    · rfl
    · obtain ⟨-, -, -, outcome, w, hok, -⟩ := Server.shown_of_charge halong hcharge
      rw [hok] at hreturned
      cases hreturned
  · rw [ad_matchResponse]
    rcases hcharge : session.charge i with _ | ch
    · rcases hw : outcome.winner with _ | w
      · rfl
      · obtain ⟨ch, hch⟩ := Server.exists_charge_of_shown halong hreturned hw i
        rw [hcharge] at hch
        cases hch
    · obtain ⟨-, -, -, outcome', w, hok, hw, hid, hprice⟩ := Server.shown_of_charge halong hcharge
      obtain rfl : outcome' = outcome := Except.ok.inj (Option.some.inj (hok.symm.trans hreturned))
      rw [hw, Option.map_some, Option.map_some, Charge.bill, Winner.bill, hid, hprice]

namespace Service

variable [LinearOrder Day] {predOpt : Day → Option Day} {render : Registry → String}
  {s : Service Day} {engine : EngineConfig} {events : List (ServiceEvent Day)}
  {log : List (Charge Day)}

/-- The bill of a request: what its auction has charged, if anything. -/
def billOf (server : Server Day) (e : Exchange) : Option (ℤ × ℤ) :=
  (e.session.bind server.chargeAt).map Charge.bill

/-- **The log is made up of what the requests have charged.** -/
theorem perm_charges (hruns : Runs predOpt render engine events s log) :
    log.Perm (s.exchanges.filterMap fun e => e.session.bind s.server.chargeAt) := by
  have hinv := Server.inv_of_runs predOpt (runs_server hruns)
  have hlt : ∀ ch ∈ log, ch.session < s.server.sessions.length := by
    intro ch hch
    obtain ⟨session, hget, -⟩ := hinv.exists_session hch
    exact (List.getElem?_eq_some_iff.mp hget).1
  have hlog : ((List.range s.server.sessions.length).flatMap fun i =>
      log.filter fun ch => ch.session = i) =
        s.exchanges.filterMap fun e => e.session.bind s.server.chargeAt := by
    rw [List.flatMap_congr fun i _ => hinv.charged i, ← (answers_of_runs hruns).sessions,
      ← List.filterMap_filterMap, List.filterMap_eq_flatMap_toList s.server.chargeAt]
    rfl
  rw [← hlog]
  exact Tally.perm_flatMap_filter hlt

theorem perm_bills (hruns : Runs predOpt render engine events s log) :
    (log.map Charge.bill).Perm (s.exchanges.filterMap (billOf s.server)) := by
  have hbills : s.exchanges.filterMap (billOf s.server) =
      (s.exchanges.filterMap fun e => e.session.bind s.server.chargeAt).map Charge.bill := by
    rw [List.map_filterMap]
    rfl
  rw [hbills]
  exact (perm_charges hruns).map _

/-- The response to a request shows its bill. -/
theorem ad_eq_billOf (hruns : Runs predOpt render engine events s log) {e : Exchange}
    (he : e ∈ s.exchanges) {r : Response} (hr : e.stage.response = some r) :
    r.ad = billOf s.server e := by
  have hinv := Server.inv_of_runs predOpt (runs_server hruns)
  have hsound := (answers_of_runs hruns).sound e he
  have horigin : ∀ session r, Origin s.server session r →
      r.ad = (session.bind s.server.chargeAt).map Charge.bill ∧
        (jsonErrors r).ad = (session.bind s.server.chargeAt).map Charge.bill := by
    intro session r h
    rcases session with _ | i
    · have himmediate : Immediate r := h
      exact ⟨himmediate.ad, himmediate.ad_jsonErrors⟩
    · obtain ⟨session, result, uuid, tookUs, hget, hreturned, rfl⟩ := h
      have hbill := bill_charge (hinv.along session (List.mem_of_getElem? hget)) hreturned i uuid
        tookUs
      rw [jsonErrors_matchResponse, Option.bind_some, Server.chargeAt, hget, Option.bind_some,
        hbill]
      exact ⟨rfl, rfl⟩
  rcases hstage : e.stage with _ | r' | r'
  · rw [hstage] at hr
    cases hr
  · rw [hstage] at hr
    rw [Exchange.Sound, hstage] at hsound
    rw [← Option.some.inj hr]
    exact (horigin _ r' hsound).1
  · rw [hstage] at hr
    rw [Exchange.Sound, hstage] at hsound
    obtain ⟨r'', h, rfl⟩ := hsound
    rw [← Option.some.inj hr]
    exact (horigin _ r'' h).2

/-- **The contract of errors.** Whatever has gone out in a run is a success, or an error in
the one JSON form, with a status and a code that belong together and are among eleven; and
a request that was answered with an error has charged nothing. -/
theorem error_contract {engine : EngineConfig} {events : List (ServiceEvent Day)}
    {log : List (Charge Day)} (hruns : Runs predOpt render engine events s log) {e : Exchange}
    (he : e ∈ s.exchanges) {r : Response} (hr : e.stage = .sent r) :
    r.status = 200 ∨ ∃ err : ApiError, err.Known ∧ r = err.intoResponse ∧
      ∀ ch ∈ log, e.session ≠ some ch.session := by
  rcases sent_cases hruns he hr with hok | ⟨err, hknown, rfl⟩
  · exact .inl hok
  · refine .inr ⟨err, hknown, rfl, fun ch hch hi => ?_⟩
    -- an error shows no ad, so nothing was charged
    have had := ad_eq_billOf hruns he (r := err.intoResponse) (by rw [hr]; rfl)
    rw [ad_intoResponse, billOf, hi, Option.bind_some] at had
    have hcharge : s.server.chargeAt ch.session = none := Option.map_eq_none_iff.mp had.symm
    obtain ⟨session, hget, hcharged⟩ :=
      (Server.inv_of_runs predOpt (runs_server hruns)).exists_session hch
    rw [Server.chargeAt, hget, Option.bind_some, hcharged] at hcharge
    cases hcharge

/-- **The ads shown are the charges made.** At every moment of a run the responses show
ads that have been charged, each at the price charged and none more often than it was
charged; and whenever no auction is under way, the ads shown in all the responses so far
are exactly the charges of the log. -/
theorem shows_what_it_charges (hruns : Runs predOpt render engine events s log) :
    (s.exchanges.filterMap fun e => e.stage.response.bind Response.ad).Subperm
        (log.map Charge.bill) ∧
      ((∀ e ∈ s.exchanges, e.stage ≠ .running) →
        (s.exchanges.filterMap fun e => e.stage.response.bind Response.ad).Perm
          (log.map Charge.bill)) := by
  have hbills := perm_bills hruns
  have hshown : ∀ e ∈ s.exchanges, e.stage.response.bind Response.ad = none ∧ e.stage = .running ∨
      e.stage.response.bind Response.ad = billOf s.server e := by
    intro e he
    rcases hstage : e.stage with _ | r | r
    · exact .inl ⟨rfl, rfl⟩
    · exact .inr (ad_eq_billOf hruns he (by rw [hstage]; rfl))
    · exact .inr (ad_eq_billOf hruns he (by rw [hstage]; rfl))
  refine ⟨?_, fun hidle => ?_⟩
  · refine (List.Sublist.subperm ?_).trans hbills.symm.subperm
    exact Tally.filterMap_sublist fun e he => (hshown e he).imp And.left id
  · rw [List.filterMap_congr fun e he => (hshown e he).resolve_left fun h => hidle e he h.2]
    exact hbills.symm

end Service

end Exchanges

/-! ### A sample -/

section Sample

attribute [local instance] Unicode.asciiGreek

theorem error_contract_sample : ∃ s log e r err,
    Service.Runs samplePredOpt (fun _ => "") .default sampleService s log ∧ e ∈ s.exchanges ∧
      e.stage = .sent r ∧ r.status = 405 ∧ r = ApiError.intoResponse err ∧ err.Known := by
  obtain ⟨s, log, hruns, -, -, e, he, r, hr, hstatus⟩ := exists_sampleService
  rcases Service.error_contract hruns he hr with hok | ⟨err, hknown, herr, -⟩
  · omega
  · exact ⟨s, log, e, r, err, hruns, he, hr, hstatus, herr, hknown⟩

theorem shows_what_it_charges_sample : ∃ s log,
    Service.Runs samplePredOpt (fun _ => "") .default sampleService s log ∧ log.length = 1 ∧
      (s.exchanges.filterMap fun e => e.stage.response.bind Response.ad).Perm
        (log.map Charge.bill) := by
  obtain ⟨s, log, hruns, hlog, hsent, -⟩ := exists_sampleService
  exact ⟨s, log, hruns, hlog, (Service.shows_what_it_charges hruns).2 fun e he => (hsent e he).1⟩

end Sample

end AdMatch
