import AdMatch.Server.Loading

/-!
# What the metrics add up to

Every counter is, at every moment of a run, the sum of what the requests and the loads so
far have recorded (`AdMatch.Service.Counted`). So the metrics can be reconciled with
what happened: with the requests answered (`AdMatch.Service.requests_counted`), and, once
no auction is under way, with the charges of the log and with every attempt to spend
that was ever made (`AdMatch.Service.auctions_counted`). The gauges show the served index,
which is that of the last load that could be built (`AdMatch.Service.ready_iff_loaded`).
-/

namespace AdMatch

open Walk

section Accounting

variable [Unicode] {Day : Type}

/-! ### Attempts to spend -/

/-- The number of attempts to spend that a request has made. -/
def Session.attempts (session : Session Day) : ℕ :=
  match session.progress with
  | .trying _ rest => session.call.work.length - (rest.length + 1)
  | .stopped none => session.call.work.length
  | .stopped (some a) => a.2 + 1

namespace Session

theorem attempts_start (call : Call Day) : (Session.start call).attempts = 0 := by
  rw [attempts, start]
  rcases call.work with _ | ⟨a, rest⟩
  · rfl
  · exact Nat.sub_self _

theorem length_work (call : Call Day) : call.work.length = call.ranking.length := by
  rw [Call.work, List.length_zipIdx, Call.prices, length_gspPrices, List.length_map]

/-- What a request tries next is what comes after its attempts. -/
theorem getElem?_attempts {session : Session Day} {a : Micros × ℕ} {rest : List (Micros × ℕ)}
    (halong : session.progress.Along session.call.work) (h : session.progress = .trying a rest) :
    session.call.work[session.attempts]? = some a := by
  rw [h] at halong
  obtain ⟨done, hdone⟩ := halong
  have hattempts : session.attempts = done.length := by
    rw [attempts, h]
    simp only [← hdone, List.length_append, List.length_cons]
    omega
  rw [hattempts, ← hdone, List.getElem?_append_right (le_refl _), Nat.sub_self]
  rfl

/-- A candidate has the number of its position. -/
theorem snd_eq_of_getElem? {call : Call Day} {a : Micros × ℕ} {j : ℕ}
    (h : call.work[j]? = some a) : a.2 = j := by
  rw [Call.work, List.getElem?_zipIdx] at h
  obtain ⟨price, -, rfl⟩ := Option.map_eq_some_iff.mp h
  exact Nat.zero_add j

/-- **An attempt is one more attempt**, whether it goes through or not. -/
theorem attempts_step [DecidableEq Day] {session : Session Day}
    (halong : session.progress.Along session.call.work) {p : Progress (Micros × ℕ)}
    {budgets budgets' : BudgetStore Day}
    (h : Progress.step session.call.attempt session.progress budgets = some (p, budgets')) :
    Session.attempts { session with progress := p } = session.attempts + 1 := by
  rcases hprogress : session.progress with ⟨a, rest⟩ | found
  · -- the attempt is made at the position that its candidate has in the ranking
    have hpos : a.2 = session.attempts := snd_eq_of_getElem? (getElem?_attempts halong hprogress)
    rw [attempts, attempts, hprogress]
    rw [attempts, hprogress] at hpos
    rw [hprogress] at h halong
    have hlength := halong.length_le
    rw [List.length_cons] at hlength
    simp only at hpos ⊢
    rw [Progress.step] at h
    rcases hr : session.call.attempt a budgets with ⟨_ | _, after⟩
    · rw [hr] at h
      obtain ⟨rfl, -⟩ := Prod.mk.inj (Option.some.inj h)
      rcases rest with _ | ⟨b, rest⟩
      · simp only [Progress.start, List.length_nil] at hlength ⊢
        omega
      · simp only [Progress.start, List.length_cons] at hlength ⊢
        omega
    · rw [hr] at h
      obtain ⟨rfl, -⟩ := Prod.mk.inj (Option.some.inj h)
      simp only
      omega
  · rw [hprogress] at h
    cases h

/-- **What a request that has returned tells of its attempts**: those refused are the
budget skips, and the last one went through if there is a winner. -/
theorem attempts_of_returned {session : Session Day}
    (halong : session.progress.Along session.call.work) {outcome : AuctionOutcome}
    (h : session.returned = some (.ok outcome)) :
    session.attempts = outcome.budgetSkipped + if outcome.winner.isSome then 1 else 0 := by
  obtain ⟨found, hprogress, hresult⟩ := exists_stopped h
  rw [hprogress] at halong
  rw [attempts, hprogress]
  obtain ⟨tokens, hquery⟩ : ∃ tokens, normalize session.call.req.query = .ok tokens := by
    rw [Call.result] at hresult
    cases hquery : normalize session.call.req.query with
    | ok tokens => exact ⟨tokens, rfl⟩
    | error e =>
      rw [hquery] at hresult
      cases hresult
  have hskipped : outcome.budgetSkipped =
      (found.map Prod.snd).getD session.call.ranking.length := by
    rw [Call.result_of_normalize hquery] at hresult
    rw [← Except.ok.inj hresult]
    rfl
  rcases found with _ | ⟨price, i⟩
  · rw [Call.result_none hresult, hskipped]
    exact length_work session.call
  · obtain ⟨c, outcome', w, -, -, hok, hw, -⟩ := Call.result_some (halong (price, i) rfl)
    obtain rfl : outcome' = outcome := Except.ok.inj (hok.symm.trans hresult)
    rw [hskipped, hw]
    rfl

/-- A request whose query is invalid makes no attempt. -/
theorem attempts_of_error {session : Session Day} {e : QueryError}
    (halong : session.progress.Along session.call.work)
    (h : session.returned = some (.error e)) : session.attempts = 0 := by
  obtain ⟨found, hprogress, hresult⟩ := exists_stopped h
  rw [hprogress] at halong
  rw [attempts, hprogress]
  rcases found with _ | ⟨price, i⟩
  · rw [Call.result] at hresult
    cases hquery : normalize session.call.req.query with
    | ok tokens =>
      rw [hquery] at hresult
      cases hresult
    | error e' =>
      simp only [length_work, Call.ranking, hquery, List.length_nil]
  · obtain ⟨c, outcome, w, -, -, hok, -⟩ := Call.result_some (halong (price, i) rfl)
    rw [hok] at hresult
    cases hresult

end Session

/-- Whether an event is an attempt to spend. -/
def ServerEvent.isSpend : ServerEvent Day → Bool
  | .spend _ => true
  | _ => false

/-- Whether an event is an attempt to spend. -/
def ServiceEvent.isSpend : ServiceEvent Day → Bool
  | .spend _ => true
  | _ => false

/-- An attempt of the service is one of its server. -/
theorem ServiceEvent.isSpend_eq (e : ServiceEvent Day) :
    e.isSpend = (e.serverEvent.map ServerEvent.isSpend).getD false := by
  cases e with
  | arrive a order today =>
    rw [serverEvent]
    cases a.matchRequest <;> rfl
  | load source | prune today | spend i | conclude k uuid tookUs | send k => rfl

/-- The labels of a request that arrives. -/
def ServiceEvent.label : ServiceEvent Day → Option (String × String)
  | .arrive a _ _ => some (routeLabel a.path, a.method)
  | _ => none

namespace Server

variable [LinearOrder Day] {predOpt : Day → Option Day} {server : Server Day}
  {engine : EngineConfig} {log : List (Charge Day)}

/-- **Every attempt of a run is an attempt of one of its requests.** -/
theorem countP_isSpend {events : List (ServerEvent Day)}
    (h : Runs predOpt engine events server log) :
    events.countP ServerEvent.isSpend = Tally.sum Session.attempts server.sessions := by
  induction h with
  | start => rfl
  | @step events server log e server' charge hruns _ hstep ih =>
    rw [List.countP_append, ih, List.countP_singleton]
    cases e with
    | load source | prune today =>
      obtain ⟨rfl, rfl⟩ := Prod.mk.inj (Option.some.inj hstep)
      rfl
    | request order req today =>
      obtain ⟨-, -, hsame | ⟨call, hnew⟩⟩ := step_request hstep
      · rw [hsame]
        rfl
      · rw [hnew, Tally.sum_concat, Session.attempts_start]
        rfl
    | spend i =>
      obtain ⟨session, a, rest, p, hget, -, hp, hsessions, -, -⟩ := step_spend hstep
      have halong := (inv_of_runs predOpt hruns).along session (List.mem_of_getElem? hget)
      have hset := Tally.sum_set (f := Session.attempts) hget { session with progress := p }
      rw [Session.attempts_step halong hp] at hset
      rw [hsessions]
      change _ + 1 = _
      omega

end Server

namespace Service

/-! ### What is recorded -/

/-- What a handler adds to a counter when its auction has returned. -/
def resultCount (t : Series) : Except QueryError AuctionOutcome → ℕ
  | .ok outcome =>
    (if t = auctions (if outcome.winner.isSome then "win" else "no_ad") then 1 else 0) +
      if t = budgetRejections then outcome.budgetSkipped else 0
  | .error _ => 0

/-- What a request that has gone out has added to a counter. -/
def sentCount (t : Series) (e : Exchange) : ℕ :=
  e.stage.sentResponse.elim 0 fun r => if t = httpRequests e.route e.method r.status then 1 else 0

/-- **What a request has added to a counter so far.** -/
def counted (server : Server Day) (t : Series) (e : Exchange) : ℕ :=
  (e.result server).elim 0 (resultCount t) + sentCount t e

/-- What a request has added to the samples of a histogram. -/
def sampledBy (t : Series) (e : Exchange) : ℕ :=
  e.stage.sentResponse.elim 0 fun _ => if t = httpDuration e.route e.method then 1 else 0

/-- Whether an event is a load that builds an index, or one that fails. -/
def loads (engine : EngineConfig) (succeeds : Bool) : ServiceEvent Day → Bool
  | .load source => (buildSnapshot source engine).toOption.isSome == succeeds
  | _ => false

omit [Unicode] in
theorem count_recordResult (m : Registry) (result : Except QueryError AuctionOutcome)
    (t : Series) : (recordResult m result).count t = m.count t + resultCount t result := by
  rcases result with e | outcome
  · rfl
  · rw [recordResult, Registry.recordAuction, resultCount]
    by_cases hskipped : outcome.budgetSkipped > 0
    · rw [if_pos hskipped, Registry.count_increment, Registry.count_increment, Nat.add_assoc]
    · obtain hzero : outcome.budgetSkipped = 0 := by omega
      rw [if_neg hskipped, Registry.count_increment, hzero]
      simp

omit [Unicode] in
@[simp] theorem sampled_recordResult (m : Registry) (result : Except QueryError AuctionOutcome)
    (t : Series) : (recordResult m result).sampled t = m.sampled t := by
  rcases result with e | outcome
  · rfl
  · rw [recordResult, Registry.recordAuction]
    split <;> simp

theorem count_recordLoad (m : Registry) (built : Except LoadError Snapshot) (t : Series) :
    (recordLoad m built).count t =
      m.count t + if t = indexBuildFailures ∧ built.toOption.isSome = false then 1 else 0 := by
  rcases built with e | snap
  · rw [recordLoad, Registry.recordIndexBuildFailure, Registry.count_increment]
    simp [Except.toOption]
  · rw [recordLoad, Registry.recordIndexSize, Registry.recordIndexBuild]
    simp [Except.toOption]

theorem sampled_recordLoad (m : Registry) (built : Except LoadError Snapshot) (t : Series) :
    (recordLoad m built).sampled t =
      m.sampled t + if t = indexBuild ∧ built.toOption.isSome = true then 1 else 0 := by
  rcases built with e | snap
  · rw [recordLoad, Registry.recordIndexBuildFailure, Registry.sampled_increment]
    simp [Except.toOption]
  · rw [recordLoad, Registry.recordIndexSize, Registry.recordIndexBuild]
    simp [Except.toOption]

/-- A request whose auction is under way has recorded nothing. -/
theorem counted_running {server : Server Day} {t : Series} {e : Exchange}
    (hstage : e.stage = .running) : counted server t e = 0 := by
  rw [counted, sentCount, Exchange.result, hstage]
  rfl

/-- Once the handler has answered, the auction is recorded. -/
theorem counted_answered {server : Server Day} {t : Series} {e : Exchange} {i : ℕ}
    {session : Session Day} {result : Except QueryError AuctionOutcome} {r : Response}
    (hi : e.session = some i) (hsession : server.sessions[i]? = some session)
    (hresult : session.returned = some result) :
    counted server t { e with stage := .answered r } = resultCount t result := by
  rw [counted, Exchange.result]
  simp only [hi, Option.bind_some, hsession, hresult]
  rfl

/-- Once the response has gone out, so is the request. -/
theorem counted_sent {server : Server Day} {t : Series} {e : Exchange} {r : Response}
    (hstage : e.stage = .answered r) :
    counted server t { e with stage := .sent (jsonErrors r) } = counted server t e +
      if t = httpRequests e.route e.method r.status then 1 else 0 := by
  rw [counted, counted, sentCount, sentCount, Exchange.result, Exchange.result, hstage]
  simp only [Stage.sentResponse, Option.elim, jsonErrors_status]
  omega

omit [Unicode] in
/-- Before its response has gone out, a request is not sampled. -/
theorem sampledBy_eq_zero {t : Series} {e : Exchange} (h : e.stage.sentResponse = none) :
    sampledBy t e = 0 := by
  rw [sampledBy, h, Option.elim_none]

omit [Unicode] in
theorem sampledBy_sent (t : Series) (e : Exchange) (r : Response) :
    sampledBy t { e with stage := .sent r } =
      if t = httpDuration e.route e.method then 1 else 0 := rfl

section Runs

variable [LinearOrder Day] {predOpt : Day → Option Day} {render : Registry → String}
  {s s' : Service Day} {charge : Option (Charge Day)} {engine : EngineConfig}
  {events : List (ServiceEvent Day)} {log : List (Charge Day)}

/-! ### The counters -/

/-- **What the metrics have counted** is what the requests and the loads have
recorded. -/
structure Counted (engine : EngineConfig) (events : List (ServiceEvent Day)) (s : Service Day) :
    Prop where
  count : ∀ t, s.metrics.count t = Tally.sum (counted s.server t) s.exchanges +
    if t = indexBuildFailures then events.countP (loads engine false) else 0
  sampled : ∀ t, s.metrics.sampled t = Tally.sum (sampledBy t) s.exchanges +
    if t = indexBuild then events.countP (loads engine true) else 0

/-- No step touches an auction that has returned. -/
theorem step_kept {e : ServiceEvent Day} (h : s.step predOpt render e = some (s', charge)) :
    Session.Kept s.server s'.server := by
  rcases step_server h with ⟨-, hserver, -⟩ | ⟨e', -, hserver⟩
  · rw [hserver]
    exact fun _ _ _ hget _ => hget
  · exact Server.step_kept hserver

/-- **What one step records** is what its request, or its load, has recorded since. -/
theorem step_recorded (hanswers : s.Answers) {e : ServiceEvent Day}
    (h : s.step predOpt render e = some (s', charge)) (t : Series) :
    s'.metrics.count t + Tally.sum (counted s.server t) s.exchanges =
        s.metrics.count t + Tally.sum (counted s'.server t) s'.exchanges +
          (if t = indexBuildFailures ∧ loads s.server.app.engine false e then 1 else 0) ∧
      s'.metrics.sampled t + Tally.sum (sampledBy t) s.exchanges =
        s.metrics.sampled t + Tally.sum (sampledBy t) s'.exchanges +
          (if t = indexBuild ∧ loads s.server.app.engine true e then 1 else 0) := by
  have hsum : Tally.sum (counted s'.server t) s.exchanges =
      Tally.sum (counted s.server t) s.exchanges :=
    Tally.sum_congr fun e he => by
      rw [counted, counted, Exchange.result_kept (step_kept h) (hanswers.sound e he)]
  cases e with
  | load source =>
    rw [← hsum, step_load h]
    simp only [count_recordLoad, sampled_recordLoad, loads, beq_iff_eq]
    omega
  | prune today | spend i =>
    rw [step] at h
    obtain ⟨next, -, hnext⟩ := Option.map_eq_some_iff.mp h
    obtain ⟨rfl, -⟩ := Prod.mk.inj hnext
    rw [← hsum]
    simp [loads]
  | arrive a order today =>
    obtain ⟨-, hmetrics, -, hexchanges, hnew⟩ := step_arrive h
    -- a request that has only arrived has recorded nothing
    have hzero : counted s'.server t (s.exchangeOf render a) = 0 ∧
        sampledBy t (s.exchangeOf render a) = 0 := by
      rcases hnew with ⟨r, -, -, hnew⟩ | ⟨req, auction, snap, -, -, -, -, hnew⟩ <;>
        rw [hnew] <;> exact ⟨rfl, rfl⟩
    rw [hmetrics, hexchanges, Tally.sum_concat, Tally.sum_concat, hzero.1, hzero.2, hsum]
    simp [loads]
  | conclude k uuid tookUs =>
    obtain ⟨-, e, i, session, result, hget, hstage, hi, hsession, hresult, rfl⟩ := step_conclude h
    have hcount := Tally.sum_set (f := counted s.server t) hget
      { e with stage := .answered (matchResponse uuid tookUs result) }
    have hsample := Tally.sum_set (f := sampledBy t) hget
      { e with stage := .answered (matchResponse uuid tookUs result) }
    rw [counted_running hstage, counted_answered hi hsession hresult] at hcount
    rw [sampledBy_eq_zero (e := e) (by rw [hstage]; rfl), sampledBy_eq_zero rfl] at hsample
    simp only [count_recordResult, sampled_recordResult, loads, Bool.false_eq_true, and_false,
      if_false]
    omega
  | send k =>
    obtain ⟨-, e, r, hget, hstage, rfl⟩ := step_send h
    have hcount := Tally.sum_set (f := counted s.server t) hget
      { e with stage := .sent (jsonErrors r) }
    have hsample := Tally.sum_set (f := sampledBy t) hget { e with stage := .sent (jsonErrors r) }
    rw [counted_sent hstage] at hcount
    rw [sampledBy_eq_zero (e := e) (by rw [hstage]; rfl), sampledBy_sent] at hsample
    simp only [Registry.recordRequest, Registry.count_increment, Registry.count_record,
      Registry.sampled_increment, Registry.sampled_record, loads, Bool.false_eq_true, and_false,
      if_false]
    omega

/-- **Every counter is what has been recorded**, at every moment of a run. -/
theorem counted_of_runs (hruns : Runs predOpt render engine events s log) :
    Counted engine events s := by
  induction hruns with
  | start => exact ⟨fun t => by simp [new], fun t => by simp [new]⟩
  | @step events s log e s' charge hruns _ hstep ih =>
    have hrecorded := step_recorded (answers_of_runs hruns) hstep
    rw [engine_of_runs hruns] at hrecorded
    refine ⟨fun t => ?_, fun t => ?_⟩
    · have hstep := (hrecorded t).1
      have hbefore := ih.count t
      rw [List.countP_append, List.countP_singleton]
      by_cases ht : t = indexBuildFailures <;> simp only [ht, true_and, false_and, if_true,
        if_false] at hstep hbefore ⊢ <;> omega
    · have hstep := (hrecorded t).2
      have hbefore := ih.sampled t
      rw [List.countP_append, List.countP_singleton]
      by_cases ht : t = indexBuild <;> simp only [ht, true_and, false_and, if_true,
        if_false] at hstep hbefore ⊢ <;> omega

/-! ### Requests -/

omit [LinearOrder Day] in
theorem exchangeOf_label (s : Service Day) (render : Registry → String) (a : Arrival) :
    (s.exchangeOf render a).route = routeLabel a.path ∧
      (s.exchangeOf render a).method = a.method := by
  rw [exchangeOf]
  split
  · exact ⟨rfl, rfl⟩
  · split <;> exact ⟨rfl, rfl⟩

/-- **Every request that arrives is there**, once, under its labels. -/
theorem labels_of_runs (hruns : Runs predOpt render engine events s log) :
    s.exchanges.map (fun e => (e.route, e.method)) = events.filterMap ServiceEvent.label := by
  induction hruns with
  | start => rfl
  | @step events s log e s' charge hruns _ hstep ih =>
    rw [List.filterMap_append]
    cases e with
    | load source | prune today | spend i =>
      rw [step] at hstep
      obtain ⟨next, -, hnext⟩ := Option.map_eq_some_iff.mp hstep
      obtain ⟨rfl, -⟩ := Prod.mk.inj hnext
      exact ih.trans (List.append_nil _).symm
    | arrive a order today =>
      obtain ⟨-, -, -, hexchanges, -⟩ := step_arrive hstep
      obtain ⟨hroute, hmethod⟩ := s.exchangeOf_label render a
      rw [hexchanges, List.map_append, ih, List.map_singleton, hroute, hmethod]
      rfl
    | conclude k uuid tookUs =>
      obtain ⟨-, e, i, session, result, hget, -, -, -, -, rfl⟩ := step_conclude hstep
      refine (Tally.map_set_of_eq hget ?_).trans (ih.trans (List.append_nil _).symm)
      rfl
    | send k =>
      obtain ⟨-, e, r, hget, -, rfl⟩ := step_send hstep
      refine (Tally.map_set_of_eq hget ?_).trans (ih.trans (List.append_nil _).symm)
      rfl

omit [Unicode] [LinearOrder Day] in
/-- What an auction records is never counted as a request. -/
theorem resultCount_httpRequests (route method : String) (status : ℕ)
    (result : Except QueryError AuctionOutcome) :
    resultCount (httpRequests route method status) result = 0 := by
  rcases result with e | outcome
  · rfl
  · simp [resultCount, httpRequests, auctions, budgetRejections]

/-- **A request counter** shows how many responses with its labels have gone out. -/
theorem count_httpRequests (hruns : Runs predOpt render engine events s log)
    (route method : String) (status : ℕ) :
    s.metrics.count (httpRequests route method status) =
      s.exchanges.countP fun e => e.route = route ∧ e.method = method ∧
        (e.stage.sentResponse.map Response.status) = some status := by
  rw [(counted_of_runs hruns).count, if_neg (by simp [httpRequests, indexBuildFailures]),
    Nat.add_zero, ← Tally.sum_ite]
  refine Tally.sum_congr fun e _ => ?_
  have hresult : (e.result s.server).elim 0 (resultCount (httpRequests route method status)) =
      0 := by
    rcases e.result s.server with _ | result
    · rfl
    · exact resultCount_httpRequests _ _ _ _
  rw [counted, hresult, Nat.zero_add, sentCount]
  rcases e.stage.sentResponse with _ | r
  · simp
  · simp only [Option.elim_some, httpRequests_inj, Option.map_some, Option.some_inj, eq_comm]

/-- **No request is lost or counted twice.** A request counter shows how many responses
with that route, method and status have gone out. A latency histogram never has more
samples than requests with its labels have arrived, and just as many once they have all
been answered. -/
theorem requests_counted (hruns : Runs predOpt render engine events s log) :
    (∀ route method status, s.metrics.count (httpRequests route method status) =
        s.exchanges.countP fun e => e.route = route ∧ e.method = method ∧
          (e.stage.sentResponse.map Response.status) = some status) ∧
      ∀ route method,
        s.metrics.sampled (httpDuration route method) ≤
            (events.filterMap ServiceEvent.label).count (route, method) ∧
          ((∀ e ∈ s.exchanges, e.stage.sentResponse.isSome) →
            s.metrics.sampled (httpDuration route method) =
              (events.filterMap ServiceEvent.label).count (route, method)) := by
  have hcounted := counted_of_runs hruns
  refine ⟨count_httpRequests hruns, fun route method => ?_⟩
  · have harrived : (events.filterMap ServiceEvent.label).count (route, method) =
        Tally.sum (fun e => if e.route = route ∧ e.method = method then 1 else 0) s.exchanges := by
      rw [← labels_of_runs hruns, List.count, List.countP_map, Tally.sum_ite]
      refine List.countP_congr fun e _ => ?_
      simp
    have hsampled : s.metrics.sampled (httpDuration route method) =
        Tally.sum (sampledBy (httpDuration route method)) s.exchanges := by
      rw [hcounted.sampled, if_neg (by simp [httpDuration, indexBuild]), Nat.add_zero]
    rw [harrived, hsampled]
    refine ⟨Tally.sum_le fun e _ => ?_, fun hsent => Tally.sum_congr fun e he => ?_⟩
    · rw [sampledBy]
      rcases e.stage.sentResponse with _ | r
      · exact Nat.zero_le _
      · simp only [Option.elim_some, httpDuration_inj, eq_comm, le_refl]
    · obtain ⟨r, hr⟩ := Option.isSome_iff_exists.mp (hsent e he)
      rw [sampledBy, hr]
      simp only [Option.elim_some, httpDuration_inj, eq_comm]

/-! ### Auctions -/

omit [LinearOrder Day] in
/-- **What became of the auction of a request.** -/
theorem auction_cases {server : Server Day} {e : Exchange} (h : e.Sound server) :
    e.stage = .running ∨ e.session = none ∨ ∃ i session result uuid tookUs,
      e.session = some i ∧ server.sessions[i]? = some session ∧ session.returned = some result ∧
        e.result server = some result ∧
        e.stage.response = some (matchResponse uuid tookUs result) := by
  obtain ⟨route, method, session, stage⟩ := e
  rcases session with _ | i
  · exact .inr (.inl rfl)
  · rcases stage with _ | r | r
    · exact .inl rfl
    · obtain ⟨session, result, uuid, tookUs, hget, hreturned, hr⟩ := h
      refine .inr (.inr ⟨i, session, result, uuid, tookUs, rfl, hget, hreturned, ?_, ?_⟩)
      · rw [Exchange.result, Option.bind_some, hget]
        exact hreturned
      · exact congrArg some hr
    · obtain ⟨r', ⟨session, result, uuid, tookUs, hget, hreturned, hr'⟩, hr⟩ := h
      refine .inr (.inr ⟨i, session, result, uuid, tookUs, rfl, hget, hreturned, ?_, ?_⟩)
      · rw [Exchange.result, Option.bind_some, hget]
        exact hreturned
      · rw [hr', jsonErrors_matchResponse] at hr
        exact congrArg some hr

omit [LinearOrder Day] in
/-- Of the counters of auctions, only what auctions record counts. -/
theorem counted_eq {server : Server Day} {t : Series} (ht : t.name ≠ "http_requests_total")
    (e : Exchange) : counted server t e = (e.result server).elim 0 (resultCount t) := by
  have hne : ∀ r : Response, t ≠ httpRequests e.route e.method r.status :=
    fun r h => ht (congrArg Series.name h)
  rw [counted, sentCount]
  rcases e.stage.sentResponse with _ | r
  · rfl
  · rw [Option.elim_some, if_neg (hne r), Nat.add_zero]

omit [LinearOrder Day] in
theorem counted_no_session {server : Server Day} {t : Series}
    (ht : t.name ≠ "http_requests_total") {e : Exchange} (h : e.session = none) :
    counted server t e = 0 := by
  rw [counted_eq ht, Exchange.result, h]
  rcases e.stage with _ | r | r <;> rfl

omit [Unicode] [LinearOrder Day] in
/-- What an auction records: its outcome, and its budget skips. -/
theorem resultCount_ok (outcome : AuctionOutcome) :
    resultCount (auctions "win") (.ok outcome) = (if outcome.winner.isSome then 1 else 0) ∧
      resultCount (auctions "no_ad") (.ok outcome) = (if outcome.winner.isSome then 0 else 1) ∧
      resultCount budgetRejections (.ok outcome) = outcome.budgetSkipped := by
  rw [resultCount, resultCount, resultCount]
  by_cases hw : outcome.winner.isSome = true <;> simp [hw, auctions, budgetRejections]

/-- The attempts to spend that a request has made. -/
def attemptsOf (server : Server Day) (e : Exchange) : ℕ :=
  e.session.elim 0 fun i => server.sessions[i]?.elim 0 Session.attempts

omit [LinearOrder Day] in
/-- **An attempt ends in a win or in a rejection.** -/
theorem attempts_counted {server : Server Day} {e : Exchange} (h : e.Sound server)
    (halong : ∀ session ∈ server.sessions, session.progress.Along session.call.work) :
    counted server (auctions "win") e + counted server budgetRejections e ≤ attemptsOf server e ∧
      (e.stage ≠ .running → counted server (auctions "win") e +
        counted server budgetRejections e = attemptsOf server e) := by
  rcases auction_cases h with hstage | hsession | ⟨i, session, result, -, -, hi, hget, hreturned,
    hresult, -⟩
  · rw [counted_running hstage, counted_running hstage]
    exact ⟨Nat.zero_le _, fun hrunning => absurd hstage hrunning⟩
  · rw [counted_no_session (by decide) hsession, counted_no_session (by decide) hsession,
      attemptsOf, hsession]
    exact ⟨le_refl _, fun _ => rfl⟩
  · have hone := halong session (List.mem_of_getElem? hget)
    have hattempts : attemptsOf server e = session.attempts := by
      rw [attemptsOf, hi, Option.elim_some, hget, Option.elim_some]
    rw [counted_eq (by decide), counted_eq (by decide), hresult, hattempts, Option.elim_some,
      Option.elim_some]
    rcases result with err | outcome
    · rw [Session.attempts_of_error hone hreturned]
      exact ⟨le_refl _, fun _ => rfl⟩
    · obtain ⟨hwin, -, hskipped⟩ := resultCount_ok outcome
      rw [hwin, hskipped, Session.attempts_of_returned hone hreturned, Nat.add_comm]
      exact ⟨le_refl _, fun _ => rfl⟩

omit [LinearOrder Day] in
/-- **A win is a bill.** -/
theorem wins_counted {server : Server Day} {e : Exchange} (h : e.Sound server)
    (halong : ∀ session ∈ server.sessions, session.progress.Along session.call.work) :
    counted server (auctions "win") e ≤ (if (billOf server e).isSome then 1 else 0) ∧
      (e.stage ≠ .running →
        counted server (auctions "win") e = if (billOf server e).isSome then 1 else 0) := by
  rcases auction_cases h with hstage | hsession | ⟨i, session, result, uuid, tookUs, hi, hget,
    hreturned, hresult, -⟩
  · rw [counted_running hstage]
    exact ⟨Nat.zero_le _, fun hrunning => absurd hstage hrunning⟩
  · rw [counted_no_session (by decide) hsession, billOf, hsession]
    exact ⟨le_refl _, fun _ => rfl⟩
  · have hbill : billOf server e = (matchResponse uuid tookUs result).ad := by
      rw [billOf, hi, Option.bind_some, Server.chargeAt, hget, Option.bind_some,
        bill_charge (halong session (List.mem_of_getElem? hget)) hreturned i uuid tookUs]
    rw [counted_eq (by decide), hresult, hbill, Option.elim_some]
    rcases result with err | outcome
    · exact ⟨Nat.zero_le _, fun _ => rfl⟩
    · rw [(resultCount_ok outcome).1, ad_matchResponse, Option.isSome_map]
      exact ⟨le_refl _, fun _ => rfl⟩

omit [LinearOrder Day] in
/-- **An auction that is answered with success is recorded**, with or without an ad. -/
theorem outcomes_counted {server : Server Day} {e : Exchange} (h : e.Sound server) :
    counted server (auctions "win") e + counted server (auctions "no_ad") e =
      if e.session.isSome ∧ e.stage.response.map Response.status = some 200 then 1 else 0 := by
  rcases auction_cases h with hstage | hsession | ⟨i, session, result, uuid, tookUs, hi, -, -,
    hresult, hresponse⟩
  · rw [counted_running hstage, counted_running hstage, hstage]
    simp [Stage.response]
  · rw [counted_no_session (by decide) hsession, counted_no_session (by decide) hsession, hsession]
    simp
  · rw [counted_eq (by decide), counted_eq (by decide), hresult, hresponse, hi, Option.elim_some,
      Option.elim_some]
    rcases result with err | outcome
    · have hstatus : (matchResponse uuid tookUs (.error err)).status = 422 := by
        cases err <;> rfl
      simp [resultCount, hstatus]
    · have hstatus : (matchResponse uuid tookUs (.ok outcome)).status = 200 := rfl
      obtain ⟨hwin, hnone, -⟩ := resultCount_ok outcome
      rw [hwin, hnone, Option.map_some, hstatus]
      by_cases hw : outcome.winner.isSome = true <;> simp [hw]

/-- The attempts of the requests are all the attempts of the run. -/
theorem sum_attemptsOf (hruns : Runs predOpt render engine events s log) :
    Tally.sum (attemptsOf s.server) s.exchanges = events.countP ServiceEvent.isSpend := by
  have hspend : events.countP ServiceEvent.isSpend =
      (events.filterMap ServiceEvent.serverEvent).countP ServerEvent.isSpend := by
    rw [List.countP_filterMap]
    exact List.countP_congr fun e _ => by rw [e.isSpend_eq]
  rw [hspend, Server.countP_isSpend (runs_server hruns),
    ← Tally.sum_range_getElem? Session.attempts, ← (answers_of_runs hruns).sessions,
    Tally.sum_filterMap]
  rfl

/-- **Every attempt to spend is accounted for.** The wins counted never exceed the charges
of the log, nor the wins and the budget rejections together the attempts that were made;
and whenever no auction is under way they are the charges, and the attempts, exactly. At
every moment the outcomes counted are the match requests that were answered with success. -/
theorem auctions_counted (hruns : Runs predOpt render engine events s log) :
    s.metrics.count (auctions "win") ≤ log.length ∧
      s.metrics.count (auctions "win") + s.metrics.count budgetRejections ≤
        events.countP ServiceEvent.isSpend ∧
      s.metrics.count (auctions "win") + s.metrics.count (auctions "no_ad") =
        (s.exchanges.countP fun e =>
          e.session.isSome ∧ e.stage.response.map Response.status = some 200) ∧
      ((∀ e ∈ s.exchanges, e.stage ≠ .running) →
        s.metrics.count (auctions "win") = log.length ∧
          s.metrics.count (auctions "win") + s.metrics.count budgetRejections =
            events.countP ServiceEvent.isSpend) := by
  have hsound := (answers_of_runs hruns).sound
  have halong := (Server.inv_of_runs predOpt (runs_server hruns)).along
  have hlog : log.length =
      Tally.sum (fun e => if (billOf s.server e).isSome then 1 else 0) s.exchanges := by
    rw [← Tally.length_filterMap, ← (perm_bills hruns).length_eq, List.length_map]
  have hcount : ∀ t, t ≠ indexBuildFailures →
      s.metrics.count t = Tally.sum (counted s.server t) s.exchanges := by
    intro t ht
    rw [(counted_of_runs hruns).count, if_neg ht, Nat.add_zero]
  rw [hcount _ (by decide), hcount _ (by decide), hcount _ (by decide), ← Tally.sum_add,
    ← Tally.sum_add, hlog, ← sum_attemptsOf hruns, ← Tally.sum_ite]
  refine ⟨Tally.sum_le fun e he => (wins_counted (hsound e he) halong).1,
    Tally.sum_le fun e he => (attempts_counted (hsound e he) halong).1,
    Tally.sum_congr fun e he => outcomes_counted (hsound e he), fun hidle => ⟨?_, ?_⟩⟩
  · exact Tally.sum_congr fun e he => (wins_counted (hsound e he) halong).2 (hidle e he)
  · exact Tally.sum_congr fun e he => (attempts_counted (hsound e he) halong).2 (hidle e he)

/-! ### Loads -/

/-- **Every load is counted**, as a build or as a failure; and an index is served as soon
as a build is counted. -/
theorem loads_counted (hruns : Runs predOpt render engine events s log) :
    s.metrics.count indexBuildFailures = events.countP (loads engine false) ∧
      s.metrics.sampled indexBuild = events.countP (loads engine true) ∧
      (s.server.app.snapshot.isSome ↔ 0 < s.metrics.sampled indexBuild) := by
  have hfailures : ∀ e ∈ s.exchanges, counted s.server indexBuildFailures e = 0 := by
    intro e _
    rw [counted_eq (by decide)]
    rcases e.result s.server with _ | _ | outcome
    · rfl
    · rfl
    · simp [resultCount, indexBuildFailures, auctions, budgetRejections]
  have hbuilds : ∀ e ∈ s.exchanges, sampledBy indexBuild e = 0 := by
    intro e _
    rw [sampledBy]
    rcases e.stage.sentResponse with _ | r <;> simp [indexBuild, httpDuration]
  have hcounted := counted_of_runs hruns
  have hbuilt : s.metrics.sampled indexBuild = events.countP (loads engine true) := by
    rw [hcounted.sampled, Tally.sum_eq_zero hbuilds, if_pos rfl, Nat.zero_add]
  refine ⟨?_, hbuilt, ?_⟩
  · rw [hcounted.count, Tally.sum_eq_zero hfailures, if_pos rfl, Nat.zero_add]
  · rw [hbuilt, List.countP_pos_iff]
    have hserves := (serves_of_runs hruns).1
    rcases hsnap : s.server.app.snapshot with _ | snap <;> rw [hsnap] at hserves
    · refine ⟨fun hsome => absurd hsome (by simp), ?_⟩
      rintro ⟨e, hmem, he⟩
      cases e with
      | load source =>
        rcases hbuild : buildSnapshot source engine with err | snap
        · rw [loads, hbuild] at he
          cases he
        · obtain ⟨campaigns, rfl, hbuild'⟩ := buildSnapshot_eq_ok.mp hbuild
          exact absurd ⟨campaigns, snap, hmem, hbuild'⟩ hserves
      | prune today | arrive a order today | spend i | conclude k uuid tookUs | send k => cases he
    · refine ⟨fun _ => ?_, fun _ => rfl⟩
      obtain ⟨before, campaigns, after, rfl, hbuild, -⟩ := hserves
      refine ⟨_, List.mem_append_right _ List.mem_cons_self, ?_⟩
      rw [loads, buildSnapshot_eq_ok.mpr ⟨campaigns, rfl, hbuild⟩]
      rfl

end Runs

end Service

end Accounting

section Sample

attribute [local instance] Unicode.asciiGreek

theorem requests_counted_sample : ∃ s log,
    Service.Runs samplePredOpt (fun _ => "") .default sampleService s log ∧
      s.metrics.sampled (httpDuration "/healthz" "PUT") = 1 := by
  obtain ⟨s, log, hruns, -, hsent, -⟩ := exists_sampleService
  refine ⟨s, log, hruns, ?_⟩
  rw [((Service.requests_counted hruns).2 _ _).2 fun e he => (hsent e he).2]
  decide

theorem auctions_counted_sample : ∃ s log,
    Service.Runs samplePredOpt (fun _ => "") .default sampleService s log ∧
      s.metrics.count (auctions "win") = 1 ∧ s.metrics.count budgetRejections = 0 := by
  obtain ⟨s, log, hruns, hlog, hsent, -⟩ := exists_sampleService
  obtain ⟨-, -, -, hidle⟩ := Service.auctions_counted hruns
  obtain ⟨hwins, hattempts⟩ := hidle fun e he => (hsent e he).1
  have hspends : sampleService.countP ServiceEvent.isSpend = 1 := by decide
  exact ⟨s, log, hruns, hwins.trans hlog, by omega⟩

theorem loads_counted_sample : ∃ s log,
    Service.Runs samplePredOpt (fun _ => "") .default sampleService s log ∧
      s.metrics.count indexBuildFailures = 1 ∧ s.metrics.sampled indexBuild = 1 ∧
      s.server.app.snapshot.isSome := by
  obtain ⟨s, log, hruns, -⟩ := exists_sampleService
  obtain ⟨hfailed, hbuilt, hserved⟩ := Service.loads_counted hruns
  have hone : s.metrics.sampled indexBuild = 1 := hbuilt.trans (by decide)
  exact ⟨s, log, hruns, hfailed.trans (by decide), hone, hserved.mpr (by omega)⟩

end Sample

end AdMatch
