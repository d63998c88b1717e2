import AdMatch.Server.Accounting

/-!
# The series of the requests

Requests are labelled by their route and not by their path, so that a client cannot make
series at will by probing paths. In a run there are at most 28 series for each method that
has been sent (`AdMatch.Service.length_requestSeries_le`), whatever the paths, bodies and
answers were.

The method is a label as it is sent, though, and it can be any token: there is no bound
that holds for every run (`AdMatch.Service.exists_requestSeries`).
-/

namespace AdMatch

namespace Registry

/-- The request counters that have come into being. -/
def requestSeries (r : Registry) : List Series :=
  r.counters.keys.filter fun t => t.name = "http_requests_total"

/-- A counter comes into being by counting. -/
def Live (r : Registry) : Prop := ∀ t ∈ r.counters, 0 < r.count t

theorem Live.increment {r : Registry} (h : r.Live) (s : Series) {n : ℕ} (hn : 0 < n) :
    (r.increment s n).Live := by
  intro t ht
  rw [count_increment]
  split
  · omega
  · next hne =>
    rw [Registry.increment, HashMap.entryModify, AList.mem_insert] at ht
    have hold := h t (ht.resolve_left hne)
    omega

theorem Live.recordRequest {r : Registry} (h : r.Live) (route method : String) (status : ℕ) :
    (r.recordRequest route method status).Live := by
  rw [Registry.recordRequest]
  exact Live.increment (r := r.record _) h _ Nat.one_pos

theorem Live.recordResult {r : Registry} (h : r.Live)
    (result : Except QueryError AuctionOutcome) : (Service.recordResult r result).Live := by
  rcases result with e | outcome
  · exact h
  · rw [Service.recordResult, Registry.recordAuction]
    have hone := h.increment (auctions (if outcome.winner.isSome then "win" else "no_ad"))
      Nat.one_pos
    by_cases hskipped : outcome.budgetSkipped > 0
    · rw [if_pos hskipped]
      exact hone.increment _ hskipped
    · rw [if_neg hskipped]
      exact hone

theorem Live.recordLoad [Unicode] {r : Registry} (h : r.Live)
    (built : Except LoadError Snapshot) : (Service.recordLoad r built).Live := by
  rcases built with e | snap
  · exact h.increment _ Nat.one_pos
  · exact h

theorem Live.mem_requestSeries {r : Registry} (h : r.Live) {t : Series} :
    t ∈ r.requestSeries ↔ t.name = "http_requests_total" ∧ 0 < r.count t := by
  rw [requestSeries, List.mem_filter, ← AList.mem_keys, decide_eq_true_iff, and_comm]
  refine and_congr_right fun _ => ⟨h t, fun hcount => ?_⟩
  rw [Registry.count] at hcount
  by_contra hnot
  rw [AList.lookup_eq_none.mpr hnot] at hcount
  exact absurd hcount (Nat.lt_irrefl 0)

end Registry

/-- The statuses of responses. -/
def statuses : List ℕ := [200, 400, 404, 405, 413, 422, 503]

theorem ApiError.Known.status_mem {e : ApiError} (h : e.Known) : e.status ∈ statuses := by
  have hcodes : ∀ c ∈ errorCodes, c.1 ∈ statuses := by decide
  exact hcodes _ h

section Runs

variable [Unicode] {Day : Type}

/-- The methods that have been sent. -/
def methodsOf (events : List (ServiceEvent Day)) : List String :=
  ((events.filterMap ServiceEvent.label).map Prod.snd).dedup

namespace Service

variable [LinearOrder Day] {predOpt : Day → Option Day} {render : Registry → String}
  {s s' : Service Day} {charge : Option (Charge Day)} {engine : EngineConfig}
  {events : List (ServiceEvent Day)} {log : List (Charge Day)}

theorem live_step (h : s.metrics.Live) {e : ServiceEvent Day}
    (hstep : s.step predOpt render e = some (s', charge)) : s'.metrics.Live := by
  cases e with
  | load source =>
    rw [step_load hstep]
    exact h.recordLoad _
  | prune today | spend i =>
    rw [step] at hstep
    obtain ⟨next, -, hnext⟩ := Option.map_eq_some_iff.mp hstep
    obtain ⟨rfl, -⟩ := Prod.mk.inj hnext
    exact h
  | arrive a order today =>
    rw [(step_arrive hstep).2.1]
    exact h
  | conclude k uuid tookUs =>
    obtain ⟨-, e, i, session, result, -, -, -, -, -, rfl⟩ := step_conclude hstep
    exact h.recordResult _
  | send k =>
    obtain ⟨-, e, r, -, -, rfl⟩ := step_send hstep
    exact h.recordRequest _ _ _

theorem live_of_runs (hruns : Runs predOpt render engine events s log) : s.metrics.Live := by
  induction hruns with
  | start => exact fun t ht => absurd ht (AList.notMem_empty t)
  | step _ _ hstep ih => exact live_step ih hstep

/-- **A request series has come into being** once a request with its labels has been
answered. -/
theorem mem_requestSeries (hruns : Runs predOpt render engine events s log) {route method : String}
    {status : ℕ} : httpRequests route method status ∈ s.metrics.requestSeries ↔
      ∃ e ∈ s.exchanges, e.route = route ∧ e.method = method ∧
        e.stage.sentResponse.map Response.status = some status := by
  rw [(live_of_runs hruns).mem_requestSeries, count_httpRequests hruns, List.countP_pos_iff]
  simp [httpRequests]

/-- Every request counter has the labels of some request. -/
theorem exists_of_mem_requestSeries (hruns : Runs predOpt render engine events s log) {t : Series}
    (ht : t ∈ s.metrics.requestSeries) :
    ∃ e ∈ s.exchanges, ∃ r, e.stage = .sent r ∧ t = httpRequests e.route e.method r.status := by
  obtain ⟨hname, hcount⟩ := (live_of_runs hruns).mem_requestSeries.mp ht
  have hne : t ≠ indexBuildFailures := fun h => by
    rw [h] at hname
    exact absurd hname (by decide)
  rw [(counted_of_runs hruns).count, if_neg hne, Nat.add_zero] at hcount
  by_contra hnone
  push Not at hnone
  refine absurd hcount (Nat.not_lt.mpr (Nat.le_of_eq (Tally.sum_eq_zero fun e he => ?_)))
  have hresult : ∀ result, resultCount t result = 0 := by
    rintro (err | outcome)
    · rfl
    · have hauctions : ∀ o, t ≠ auctions o := fun o h => by
        rw [h] at hname
        exact absurd hname (by simp [auctions])
      have hrejections : t ≠ budgetRejections := fun h => by
        rw [h] at hname
        exact absurd hname (by decide)
      rw [resultCount, if_neg (hauctions _), if_neg hrejections]
  rw [counted, sentCount]
  rcases hstage : e.stage with _ | r | r
  · rcases e.result s.server with _ | result <;> simp [Stage.sentResponse, hresult]
  · rcases e.result s.server with _ | result <;> simp [Stage.sentResponse, hresult]
  · rcases e.result s.server with _ | result <;>
      simp [Stage.sentResponse, hresult, hnone e he r hstage]

/-- **No path makes a series.** For each method that has been sent there are at most 28
request series: one for each of four routes and seven statuses. -/
theorem length_requestSeries_le (hruns : Runs predOpt render engine events s log) :
    s.metrics.requestSeries.length ≤ 28 * (methodsOf events).length := by
  let routes := ["unmatched", "/healthz", "/v1/match", "/metrics"]
  have hsub : s.metrics.requestSeries ⊆ (routes ×ˢ methodsOf events ×ˢ statuses).map fun l =>
      httpRequests l.1 l.2.1 l.2.2 := by
    intro t ht
    obtain ⟨e, he, r, hr, rfl⟩ := exists_of_mem_requestSeries hruns ht
    have hlabel : (e.route, e.method) ∈ events.filterMap ServiceEvent.label := by
      rw [← labels_of_runs hruns]
      exact List.mem_map_of_mem he
    have hroute : e.route ∈ routes := by
      obtain ⟨event, -, hevent⟩ := List.mem_filterMap.mp hlabel
      cases event with
      | arrive a order today =>
        rw [← (Prod.mk.inj (Option.some.inj hevent)).1]
        exact routeLabel_mem a.path
      | load source | prune today | spend i | conclude k uuid tookUs | send k => cases hevent
    have hmethod : e.method ∈ methodsOf events :=
      List.mem_dedup.mpr (List.mem_map.mpr ⟨_, hlabel, rfl⟩)
    have hstatus : r.status ∈ statuses := by
      rcases sent_cases hruns he hr with hok | ⟨err, hknown, rfl⟩
      · rw [hok]
        exact List.mem_cons_self
      · exact hknown.status_mem
    exact List.mem_map.mpr ⟨(e.route, e.method, r.status), List.mem_product.mpr
      ⟨hroute, List.mem_product.mpr ⟨hmethod, hstatus⟩⟩, rfl⟩
  have hnodup : s.metrics.requestSeries.Nodup := (AList.keys_nodup _).filter _
  have hlength := (hnodup.subperm hsub).length_le
  rw [List.length_map, List.length_product, List.length_product,
    show routes.length = 4 from rfl, show statuses.length = 7 from rfl] at hlength
  omega

/-- A request with a method of its own, to a path that is no route. -/
def probe (n : ℕ) : Arrival where
  method := "X" ++ n.repr
  path := "/"
  cut := none
  plain := .empty
  body := .error .syntaxError

theorem probe_handle (n : ℕ) (snapshot : Option Snapshot) (rendered : String) :
    (probe n).handle snapshot rendered = .answer (ApiError.fromStatus 404).intoResponse := by
  have hpath : Endpoint.ofPath (probe n).path = none := by
    change Endpoint.ofPath "/" = none
    decide
  rw [Arrival.handle, hpath]
  rfl

omit [Unicode] in
theorem probe_method_inj {m n : ℕ} (h : (probe m).method = (probe n).method) : m = n := by
  have hrepr : (m.repr).toList = (n.repr).toList := by
    have hlist := congrArg String.toList h
    rw [probe, probe, String.toList_append, String.toList_append] at hlist
    exact List.append_cancel_left hlist
  rw [Nat.toList_repr, Nat.toList_repr] at hrepr
  rw [← Nat.ofDigitChars_ten_toDigits (n := m), hrepr, Nat.ofDigitChars_ten_toDigits]

omit [LinearOrder Day] in
theorem probe_exchange (s : Service Day) (n : ℕ) : s.exchangeOf render (probe n) =
    ⟨"unmatched", (probe n).method, none, .answered (ApiError.fromStatus 404).intoResponse⟩ := by
  rw [exchangeOf_answer (probe_handle n _ _)]
  rfl

variable (predOpt render) in
/-- A probe is answered and counted. -/
theorem probe_step (s : Service Day) (order : HashOrder) (today : Day) (n : ℕ) :
    ∃ s' s'', s.step predOpt render (.arrive (probe n) order today) = some (s', none) ∧
      s'.step predOpt render (.send s.exchanges.length) = some (s'', none) ∧
      s''.exchanges = s.exchanges ++ [⟨"unmatched", (probe n).method, none,
        .sent (jsonErrors (ApiError.fromStatus 404).intoResponse)⟩] := by
  have hreq : (probe n).matchRequest = none := by rw [Arrival.matchRequest, probe_handle]
  let answered : Exchange := ⟨"unmatched", (probe n).method, none,
    .answered (ApiError.fromStatus 404).intoResponse⟩
  let sent : Exchange := { answered with
    stage := .sent (jsonErrors (ApiError.fromStatus 404).intoResponse) }
  have hset : (s.exchanges ++ [answered]).set s.exchanges.length sent = s.exchanges ++ [sent] := by
    rw [List.set_append_right _ _ (Nat.le_refl _), Nat.sub_self]
    rfl
  refine ⟨{ s with exchanges := s.exchanges ++ [answered] }, { s with
    metrics := s.metrics.recordRequest "unmatched" (probe n).method 404
    exchanges := s.exchanges ++ [sent] }, ?_, ?_, rfl⟩
  · rw [step, hreq, probe_exchange]
  · rw [step, List.getElem?_concat_length, ← hset]
    rfl

/-- **No bound holds for every run.** Methods are labels too, so that requests with enough
methods make any number of series. -/
theorem exists_requestSeries (order : HashOrder) (today : Day) (n : ℕ) :
    ∃ events s log, Runs predOpt render engine events s log ∧
      n ≤ s.metrics.requestSeries.length := by
  have hrun : ∃ (events : List (ServiceEvent Day)) (s : Service Day) (log : List (Charge Day)),
      Runs predOpt render engine events s log ∧ ∀ k < n, ∃ e ∈ s.exchanges,
        e.route = "unmatched" ∧ e.method = (probe k).method ∧
          e.stage.sentResponse.map Response.status = some 404 := by
    induction n with
    | zero => exact ⟨[], _, [], .start, nofun⟩
    | succ n ih =>
      obtain ⟨events, s, log, hruns, hprobes⟩ := ih
      obtain ⟨s', s'', harrive, hsend, hexchanges⟩ :=
        probe_step predOpt render s order today n
      have htimely : (ServiceEvent.arrive (probe n) order today).serverEvent = none := by
        rw [ServiceEvent.serverEvent, Arrival.matchRequest, probe_handle]
        rfl
      have harrived := hruns.step (fun e' he' => by
        rw [htimely] at he'
        cases he') harrive
      have hsent := harrived.step (fun e' he' => by cases he') hsend
      refine ⟨_, s'', _, hsent, fun k hk => ?_⟩
      rw [hexchanges]
      rcases Nat.lt_succ_iff_lt_or_eq.mp hk with hlt | rfl
      · obtain ⟨e, he, hprobe⟩ := hprobes k hlt
        exact ⟨e, List.mem_append_left _ he, hprobe⟩
      · exact ⟨_, List.mem_append_right _ List.mem_cons_self, rfl, rfl,
          congrArg some (jsonErrors_status _)⟩
  obtain ⟨events, s, log, hruns, hprobes⟩ := hrun
  refine ⟨events, s, log, hruns, ?_⟩
  let series := (List.range n).map fun k => httpRequests "unmatched" (probe k).method 404
  have hsub : series ⊆ s.metrics.requestSeries := by
    intro t ht
    obtain ⟨k, hk, rfl⟩ := List.mem_map.mp ht
    exact (mem_requestSeries hruns).mpr (hprobes k (List.mem_range.mp hk))
  have hnodup : series.Nodup := List.nodup_range.map fun k k' h =>
    probe_method_inj (httpRequests_inj.mp h).2.1
  have hlength := (hnodup.subperm hsub).length_le
  rwa [List.length_map, List.length_range] at hlength

end Service

end Runs

section Sample

attribute [local instance] Unicode.asciiGreek

theorem length_requestSeries_le_sample : ∃ s log,
    Service.Runs samplePredOpt (fun _ => "") .default sampleService s log ∧
      s.metrics.requestSeries.length ≤ 56 := by
  obtain ⟨s, log, hruns, -⟩ := exists_sampleService
  have hmethods : (methodsOf sampleService).length = 2 := by decide
  exact ⟨s, log, hruns, (Service.length_requestSeries_le hruns).trans (by omega)⟩

end Sample

end AdMatch
