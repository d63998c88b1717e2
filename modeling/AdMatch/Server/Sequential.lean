import AdMatch.Lib.Sequential
import AdMatch.Server.Accounting

/-!
# The service, one request after another

The service works on many requests at a time, each down its own ranking. To its clients it
is as if every match request were handled at one moment, by one call of the whole handler
`AdMatch.matchAd`, with nothing in between: in the order in which the auctions return, each
call gives the response that its client gets, and together they leave the budgets as they
are (`AdMatch.Service.linearisable`). A request whose auction had returned when another
one arrived comes before it in that order.
-/

namespace AdMatch

open Walk Interleaving

section Linearisable

variable [Unicode] {Day : Type}

namespace Server

/-- The requests so far, as walks: what each has captured, and how far it has got. -/
def walks (server : Server Day) : List (Call Day × Progress (Micros × ℕ)) :=
  server.sessions.map fun session => (session.call, session.progress)

theorem walks_getElem? {server : Server Day} {i : ℕ} {session : Session Day}
    (h : server.sessions[i]? = some session) :
    server.walks[i]? = some (session.call, session.progress) := by
  rw [walks, List.getElem?_map, h, Option.map_some]

/-- A request that has returned is a walk that has stopped. -/
theorem walks_stopped {server : Server Day} {i : ℕ} {call : Call Day}
    {found : Option (Micros × ℕ)} : server.walks[i]? = some (call, .stopped found) ↔
      ∃ session, server.sessions[i]? = some session ∧ session.call = call ∧
        session.progress = .stopped found := by
  rw [walks, List.getElem?_map, Option.map_eq_some_iff]
  simp only [Prod.mk.injEq]

variable [LinearOrder Day] {predOpt : Day → Option Day} {server server' : Server Day}
  {events : List (ServerEvent Day)} {charge : Option (Charge Day)} {engine : EngineConfig}
  {log : List (Charge Day)}

/-- No prune so far has reached the counter. -/
def Unpruned (predOpt : Day → Option Day) (events : List (ServerEvent Day))
    (key : CampaignId × Day) : Prop :=
  ∀ today, ServerEvent.prune today ∈ events → yesterday predOpt today ≤ key.2

omit [Unicode] in
theorem Unpruned.before {e : ServerEvent Day} {key : CampaignId × Day}
    (h : Unpruned predOpt (events ++ [e]) key) : Unpruned predOpt events key :=
  fun today htoday => h today (List.mem_append_left _ htoday)

/-- The requests that have returned, one after another. -/
abbrev Sequential (predOpt : Day → Option Day) (events : List (ServerEvent Day))
    (server : Server Day) (results : List ((ℕ × Call Day) × Option (Micros × ℕ)))
    (S : CampaignId × Day → ℤ) : Prop :=
  Interleaving.Sequential Call.asks Call.work (Unpruned predOpt events) server.walks
    server.app.budgets.ledger results S

variable {results : List ((ℕ × Call Day) × Option (Micros × ℕ))} {S : CampaignId × Day → ℤ}

/-- The series holds the requests that have returned, and no other. -/
theorem mem_results_iff (h : Sequential predOpt events server results S) {i : ℕ} :
    i ∈ results.map (fun r => r.1.1) ↔
      ∃ session, server.sessions[i]? = some session ∧ session.returned.isSome := by
  constructor
  · intro hmem
    obtain ⟨⟨⟨j, call⟩, found⟩, hresult, rfl⟩ := List.mem_map.mp hmem
    obtain ⟨session, hsession, -, hprogress⟩ := walks_stopped.mp ((h.stopped _ _ _).mp hresult)
    refine ⟨session, hsession, ?_⟩
    rw [Session.returned, hprogress]
    rfl
  · rintro ⟨session, hsession, hreturned⟩
    obtain ⟨result, hresult⟩ := Option.isSome_iff_exists.mp hreturned
    obtain ⟨found, hprogress, -⟩ := Session.exists_stopped hresult
    exact List.mem_map.mpr ⟨((i, session.call), found), (h.stopped _ _ _).mpr
      (walks_stopped.mpr ⟨session, hsession, rfl, hprogress⟩), rfl⟩

/-- **One event**: requests that return with it come last. -/
theorem sequential_step (h : Sequential predOpt events server results S) {e : ServerEvent Day}
    (htimely : Timely predOpt events server e)
    (hstep : server.step predOpt e = some (server', charge)) :
    ∃ results' T, results <+: results' ∧ Sequential predOpt (events ++ [e]) server' results' T := by
  have hbefore : Interleaving.Sequential Call.asks Call.work (Unpruned predOpt (events ++ [e]))
      server.walks server.app.budgets.ledger results S :=
    h.env fun key hkey => ⟨hkey.before, rfl⟩
  cases e with
  | load source =>
    obtain ⟨rfl, -⟩ := Prod.mk.inj (Option.some.inj hstep)
    refine ⟨results, S, List.prefix_refl _, h.env fun key hkey => ⟨hkey.before, ?_⟩⟩
    rw [refresh_budgets]
  | prune today =>
    obtain ⟨rfl, -⟩ := Prod.mk.inj (Option.some.inj hstep)
    refine ⟨results, S, List.prefix_refl _, h.env fun key hkey => ⟨hkey.before, ?_⟩⟩
    rw [pruneBudgetDays, BudgetStore.ledger_dropDaysBefore]
    exact if_pos (hkey today (List.mem_append_right _ List.mem_cons_self))
  | request order req today =>
    obtain ⟨happ, -, hsame | ⟨call, hnew⟩⟩ := step_request hstep
    · have hwalks : server'.walks = server.walks := by rw [walks, hsame, walks]
      refine ⟨results, S, List.prefix_refl _, ?_⟩
      rw [Sequential, hwalks, happ]
      exact hbefore
    · obtain ⟨results', hextends, hstart⟩ := hbefore.start call
      have hwalks : server'.walks = server.walks ++ [(call, Progress.start call.work)] := by
        rw [walks, hnew, List.map_append]
        rfl
      refine ⟨results', S, hextends, ?_⟩
      rw [Sequential, hwalks, happ]
      exact hstart
  | spend i =>
    obtain ⟨session, a, rest, p, hget, -, hp, hsessions, -, -⟩ := step_spend hstep
    have hwalks : server'.walks = server.walks.set i (session.call, p) := by
      rw [walks, hsessions, List.map_set, walks]
    have hknown : ∀ a ∈ session.call.work,
        Unpruned predOpt (events ++ [.spend i]) (session.call.asks a).key := by
      intro a _ today htoday
      rw [session.call.asks_key_snd]
      refine htimely i session rfl hget today ?_
      rcases List.mem_append.mp htoday with hold | hlast
      · exact hold
      · cases List.mem_singleton.mp hlast
    obtain ⟨results', T, hextends, hseq⟩ := hbefore.step (walks_getElem? hget)
      (Progress.step_observe session.call.attempt_ledger hp) hknown
    refine ⟨results', T, hextends, ?_⟩
    rw [Sequential, hwalks]
    exact hseq

/-- A run is a function of its events. -/
theorem trace_of_runs (h : Runs predOpt engine events server log) :
    Trace.run (step predOpt) events (.new engine) = some (server, log) := by
  induction h with
  | start => rfl
  | step _ _ hstep ih => exact Trace.run_concat ih hstep

/-- **At every moment of a run**, the requests that have returned could have been handled
one after another, those first that had returned at any moment before. -/
theorem exists_sequential (h : Runs predOpt engine events server log) :
    ∃ results S, Sequential predOpt events server results S ∧
      ∀ before server₀ log₀, Runs predOpt engine before server₀ log₀ → before <+: events →
        ∃ results₀ S₀, Sequential predOpt before server₀ results₀ S₀ ∧ results₀ <+: results := by
  induction h with
  | start =>
    refine ⟨[], fun _ => 0, .nil, fun before server₀ log₀ hruns hextends => ?_⟩
    obtain rfl := List.prefix_nil.mp hextends
    obtain rfl : new engine = server₀ := (Prod.mk.inj (Option.some.inj (trace_of_runs hruns))).1
    exact ⟨[], fun _ => 0, .nil, List.prefix_refl _⟩
  | step hruns htimely hstep ih =>
    obtain ⟨results, S, hseq, hbefore⟩ := ih
    obtain ⟨results', T, hextends, hseq'⟩ := sequential_step hseq htimely hstep
    refine ⟨results', T, hseq', fun before server₀ log₀ hruns₀ hevents => ?_⟩
    rcases List.prefix_concat_iff.mp hevents with rfl | hearlier
    · have htrace := (trace_of_runs hruns₀).symm.trans (trace_of_runs (hruns.step htimely hstep))
      obtain rfl := (Prod.mk.inj (Option.some.inj htrace)).1
      exact ⟨results', T, hseq', List.prefix_refl _⟩
    · obtain ⟨results₀, S₀, hseq₀, hextends₀⟩ := hbefore before server₀ log₀ hruns₀ hearlier
      exact ⟨results₀, S₀, hseq₀, hextends₀.trans hextends⟩

/-- No event changes what a request has captured. -/
theorem step_call {e : ServerEvent Day} (hstep : server.step predOpt e = some (server', charge))
    {i : ℕ} {session : Session Day} (hget : server.sessions[i]? = some session) :
    ∃ session', server'.sessions[i]? = some session' ∧ session'.call = session.call := by
  cases e with
  | load source | prune today =>
    obtain ⟨rfl, -⟩ := Prod.mk.inj (Option.some.inj hstep)
    exact ⟨session, hget, rfl⟩
  | request order req today =>
    obtain ⟨-, -, hsame | ⟨call, hnew⟩⟩ := step_request hstep
    · rw [hsame]
      exact ⟨session, hget, rfl⟩
    · rw [hnew, List.getElem?_append_left (List.getElem?_eq_some_iff.mp hget).1]
      exact ⟨session, hget, rfl⟩
  | spend j =>
    obtain ⟨session', a, rest, p, hget', -, -, hsessions, -, -⟩ := step_spend hstep
    rw [hsessions]
    by_cases hij : i = j
    · subst hij
      obtain rfl := Option.some.inj (hget'.symm.trans hget)
      exact ⟨_, List.getElem?_set_self (List.getElem?_eq_some_iff.mp hget).1, rfl⟩
    · rw [List.getElem?_set_ne (Ne.symm hij)]
      exact ⟨session, hget, rfl⟩

end Server

/-! ### Calls of the handler -/

/-- **A call of the match endpoint** that gets as far as its auction. -/
structure Handler (Day : Type) where
  order : HashOrder
  snap : Snapshot
  today : Day
  req : MatchRequest
  /-- The request as the auction sees it. -/
  auction : AuctionRequest
  parsed : auctionRequest req = .ok auction
  uuid : String
  tookUs : ℕ

namespace Handler

/-- The auction that it runs. -/
def call (h : Handler Day) : Call Day := ⟨h.order, h.snap, h.auction, h.today⟩

variable [DecidableEq Day]

/-- The call. -/
def handle (h : Handler Day) (budgets : BudgetStore Day) :
    Except ApiError (MatchResponse String) × BudgetStore Day :=
  matchAd h.order (some h.snap) budgets h.today h.uuid h.tookUs h.req

/-- **The handler runs its auction and answers.** -/
theorem handle_eq (h : Handler Day) (budgets : BudgetStore Day) :
    h.handle budgets = Prod.map (matchAnswer h.uuid h.tookUs) id (h.call.run budgets) := by
  rw [handle, matchAd_eq, admission, h.parsed]
  rfl

/-- The handler, seen on the ledger. -/
theorem handle_ledger (w : ℕ × Handler Day) (budgets : BudgetStore Day) :
    Prod.map id BudgetStore.ledger (w.2.handle budgets) =
      Prod.map (fun found => matchAnswer w.2.uuid w.2.tookUs (w.2.call.result found)) id
        (wholeOf Call.asks Call.work (w.1, w.2.call) budgets.ledger) := by
  have hrun := w.2.call.run_ledger budgets
  rw [handle_eq]
  generalize w.2.call.run budgets = ran at hrun ⊢
  obtain ⟨hresult, hledger⟩ := Prod.mk.inj hrun
  exact Prod.ext (congrArg (matchAnswer w.2.uuid w.2.tookUs) hresult) hledger

end Handler

/-- What arrives with an event. -/
def ServiceEvent.arrival : ServiceEvent Day → Option (Arrival × HashOrder × Day)
  | .arrive a order today => some (a, order, today)
  | _ => none

namespace Service

/-- **The request number `k` is what the handler is called with**, and the snapshot is one
that was loaded. -/
structure Handles (engine : EngineConfig) (events : List (ServiceEvent Day)) (k : ℕ)
    (h : Handler Day) : Prop where
  arrived : ∃ a, (events.filterMap ServiceEvent.arrival)[k]? = some (a, h.order, h.today) ∧
    a.matchRequest = some h.req
  loaded : ∃ campaigns, ServiceEvent.load (.ok campaigns) ∈ events ∧
    Snapshot.build campaigns engine = .ok h.snap

theorem Handles.concat {engine : EngineConfig} {events : List (ServiceEvent Day)} {k : ℕ}
    {h : Handler Day} (hh : Handles engine events k h) (e : ServiceEvent Day) :
    Handles engine (events ++ [e]) k h where
  arrived := by
    obtain ⟨a, ha, hreq⟩ := hh.arrived
    refine ⟨a, ?_, hreq⟩
    rw [List.filterMap_append, List.getElem?_append_left (List.getElem?_eq_some_iff.mp ha).1]
    exact ha
  loaded := by
    obtain ⟨campaigns, hmem, hbuild⟩ := hh.loaded
    exact ⟨campaigns, List.mem_append_left _ hmem, hbuild⟩

/-- Every request with an auction has a handler for it. -/
structure Traced (engine : EngineConfig) (events : List (ServiceEvent Day)) (s : Service Day) :
    Prop where
  length : s.exchanges.length = (events.filterMap ServiceEvent.arrival).length
  handler : ∀ (k : ℕ) e i, s.exchanges[k]? = some e → e.session = some i →
    ∃ h session, Handles engine events k h ∧ s.server.sessions[i]? = some session ∧
      session.call = h.call

section Runs

variable [LinearOrder Day] {predOpt : Day → Option Day} {render : Registry → String}
  {s s' : Service Day} {charge : Option (Charge Day)} {engine : EngineConfig}
  {events : List (ServiceEvent Day)} {log : List (Charge Day)}

theorem step_call {e : ServiceEvent Day} (h : s.step predOpt render e = some (s', charge)) {i : ℕ}
    {session : Session Day} (hget : s.server.sessions[i]? = some session) :
    ∃ session', s'.server.sessions[i]? = some session' ∧ session'.call = session.call := by
  rcases step_server h with ⟨-, hserver, -⟩ | ⟨e', -, hserver⟩
  · rw [hserver]
    exact ⟨session, hget, rfl⟩
  · exact Server.step_call hserver hget

/-- What does not arrive keeps the requests that have. -/
theorem Traced.of_same (h : Traced engine events s) {e : ServiceEvent Day}
    (hstep : s.step predOpt render e = some (s', charge)) (he : e.arrival = none)
    (hexchanges : s'.exchanges.map Exchange.session = s.exchanges.map Exchange.session) :
    Traced engine (events ++ [e]) s' where
  length := by
    have hlength := congrArg List.length hexchanges
    rw [List.length_map, List.length_map] at hlength
    rw [hlength, h.length, List.filterMap_append, List.filterMap_cons_none he, List.filterMap_nil,
      List.append_nil]
  handler k e' i hk hi := by
    have hget : (s.exchanges.map Exchange.session)[k]? = some (some i) := by
      rw [← hexchanges, List.getElem?_map, hk, Option.map_some, hi]
    rw [List.getElem?_map] at hget
    obtain ⟨e₀, hk₀, hi₀⟩ := Option.map_eq_some_iff.mp hget
    obtain ⟨hd, session, hhandles, hsession, hcall⟩ := h.handler k e₀ i hk₀ hi₀
    obtain ⟨session', hsession', hcall'⟩ := step_call hstep hsession
    exact ⟨hd, session', hhandles.concat e, hsession', hcall'.trans hcall⟩

theorem traced_of_runs (hruns : Runs predOpt render engine events s log) :
    Traced engine events s := by
  induction hruns with
  | start => exact ⟨rfl, fun k e i hk => absurd hk (by simp [new])⟩
  | @step events s log e s' charge hruns _ hstep ih =>
    have hstep₀ := hstep
    cases e with
    | load source | prune today | spend i =>
      refine ih.of_same hstep₀ rfl ?_
      rw [step] at hstep
      obtain ⟨next, -, hnext⟩ := Option.map_eq_some_iff.mp hstep
      rw [← (Prod.mk.inj hnext).1]
    | conclude k uuid tookUs =>
      obtain ⟨-, e, i, session, result, hget, -, -, -, -, rfl⟩ := step_conclude hstep
      exact ih.of_same hstep₀ rfl (Tally.map_set_of_eq hget rfl)
    | send k =>
      obtain ⟨-, e, r, hget, -, rfl⟩ := step_send hstep
      exact ih.of_same hstep₀ rfl (Tally.map_set_of_eq hget rfl)
    | arrive a order today =>
      obtain ⟨-, -, -, hexchanges, hnew⟩ := step_arrive hstep
      have harrivals :
          (events ++ [ServiceEvent.arrive a order today]).filterMap ServiceEvent.arrival =
          events.filterMap ServiceEvent.arrival ++ [(a, order, today)] := by
        rw [List.filterMap_append]
        rfl
      refine ⟨?_, fun k e i hk hi => ?_⟩
      · rw [hexchanges, harrivals, List.length_append, List.length_append, ih.length]
        rfl
      · rw [hexchanges] at hk
        rcases Nat.lt_or_ge k s.exchanges.length with hlt | hge
        · rw [List.getElem?_append_left hlt] at hk
          obtain ⟨h, session, hhandles, hsession, hcall⟩ := ih.handler k e i hk hi
          obtain ⟨session', hsession', hcall'⟩ := step_call hstep₀ hsession
          exact ⟨h, session', hhandles.concat _, hsession', hcall'.trans hcall⟩
        · -- the request that has just arrived
          obtain rfl : k = s.exchanges.length := by
            have hlt := (List.getElem?_eq_some_iff.mp hk).1
            rw [List.length_append, List.length_singleton] at hlt
            omega
          rw [List.getElem?_concat_length] at hk
          obtain rfl := Option.some.inj hk
          rcases hnew with ⟨r, -, -, hnew⟩ |
            ⟨req, auction, snap, hreq, hauction, hsnap, hsessions, hnew⟩
          · rw [hnew] at hi
            cases hi
          · rw [hnew] at hi
            obtain rfl := Option.some.inj hi
            have hserves := (serves_of_runs hruns).1
            rw [hsnap] at hserves
            obtain ⟨before, campaigns, after, hevents, hbuild, -⟩ := hserves
            refine ⟨⟨order, snap, today, req, auction, hauction, "", 0⟩,
              .start ⟨order, snap, auction, today⟩, ⟨⟨a, ?_, hreq⟩, campaigns, ?_, hbuild⟩, ?_, rfl⟩
            · rw [harrivals, ih.length, List.getElem?_concat_length]
            · rw [hevents]
              simp
            · rw [hsessions, List.getElem?_concat_length]

/-- An auction is that of one request. -/
theorem unique_of_runs (hruns : Runs predOpt render engine events s log) {k k' i : ℕ}
    {e e' : Exchange} (hk : s.exchanges[k]? = some e) (hk' : s.exchanges[k']? = some e')
    (hi : e.session = some i) (hi' : e'.session = some i) : k = k' := by
  have hnodup : (s.exchanges.filterMap Exchange.session).Nodup := by
    rw [(answers_of_runs hruns).sessions]
    exact List.nodup_range
  rw [List.Nodup, List.pairwise_filterMap, List.pairwise_iff_getElem] at hnodup
  obtain ⟨hlt, rfl⟩ := List.getElem?_eq_some_iff.mp hk
  obtain ⟨hlt', rfl⟩ := List.getElem?_eq_some_iff.mp hk'
  rcases Nat.lt_trichotomy k k' with h | h | h
  · exact absurd rfl (hnodup k k' hlt hlt' h i hi i hi')
  · exact h
  · exact absurd rfl (hnodup k' k hlt' hlt h i hi' i hi)

/-- Every auction is that of a request, as it arrived. -/
theorem exists_exchange (hruns : Runs predOpt render engine events s log) {i : ℕ}
    {session : Session Day} (hsession : s.server.sessions[i]? = some session) :
    ∃ k e h, s.exchanges[k]? = some e ∧ e.session = some i ∧ Handles engine events k h ∧
      session.call = h.call := by
  have hmem : i ∈ s.exchanges.filterMap Exchange.session := by
    rw [(answers_of_runs hruns).sessions]
    exact List.mem_range.mpr (List.getElem?_eq_some_iff.mp hsession).1
  obtain ⟨e, he, hi⟩ := List.mem_filterMap.mp hmem
  obtain ⟨k, hk⟩ := List.mem_iff_getElem?.mp he
  obtain ⟨h, session', hhandles, hsession', hcall⟩ := (traced_of_runs hruns).handler k e i hk hi
  obtain rfl := Option.some.inj (hsession'.symm.trans hsession)
  exact ⟨k, e, h, hk, hi, hhandles, hcall⟩

/-- A request whose auction has returned can have been handled by a call that gives the
response that it gets. -/
theorem exists_handler (hruns : Runs predOpt render engine events s log) {i : ℕ} {call : Call Day}
    {found : Option (Micros × ℕ)} (hget : s.server.walks[i]? = some (call, .stopped found)) :
    ∃ h : Handler Day, h.call = call ∧ ∀ (k : ℕ) e, s.exchanges[k]? = some e →
      e.session = some i → Handles engine events k h ∧ ∀ r, e.stage.response = some r →
        r = respond MatchResponse.toJson (matchAnswer h.uuid h.tookUs (call.result found)) := by
  obtain ⟨session, hsession, rfl, hprogress⟩ := Server.walks_stopped.mp hget
  obtain ⟨k, e, h, hk, hi, hhandles, hcall⟩ := exists_exchange hruns hsession
  have hreturned : session.returned = some (session.call.result found) := by
    rw [Session.returned, hprogress]
    rfl
  obtain ⟨uuid, tookUs, hresponse⟩ : ∃ uuid tookUs, ∀ r, e.stage.response = some r →
      r = matchResponse uuid tookUs (session.call.result found) := by
    have hsound := (answers_of_runs hruns).sound e (List.mem_of_getElem? hk)
    rcases auction_cases hsound with hstage | hnone |
      ⟨j, other, result, uuid, tookUs, hj, hj', hresult, -, hresponse⟩
    · refine ⟨"", 0, fun r hr => ?_⟩
      rw [hstage] at hr
      cases hr
    · rw [hi] at hnone
      cases hnone
    · obtain rfl := Option.some.inj (hj.symm.trans hi)
      obtain rfl := Option.some.inj (hj'.symm.trans hsession)
      obtain rfl := Option.some.inj (hresult.symm.trans hreturned)
      exact ⟨uuid, tookUs, fun r hr => Option.some.inj (hr.symm.trans hresponse)⟩
  refine ⟨{ h with uuid, tookUs }, hcall.symm, fun k' e' hk' hi' => ?_⟩
  obtain rfl := unique_of_runs hruns hk' hk hi' hi
  obtain rfl := Option.some.inj (hk'.symm.trans hk)
  exact ⟨⟨hhandles.arrived, hhandles.loaded⟩, hresponse⟩

/-- Calls of the handler for all walks that have stopped. -/
theorem exists_order (hruns : Runs predOpt render engine events s log)
    {results : List ((ℕ × Call Day) × Option (Micros × ℕ))}
    (hresults : ∀ r ∈ results, s.server.walks[r.1.1]? = some (r.1.2, .stopped r.2)) :
    ∃ order : List (ℕ × Handler Day), order.map (Prod.map id Handler.call) = results.map Prod.fst ∧
      ∀ w ∈ order, ∃ found, s.server.walks[w.1]? = some (w.2.call, .stopped found) ∧
        ∀ (k : ℕ) e, s.exchanges[k]? = some e → e.session = some w.1 →
          Handles engine events k w.2 ∧ ∀ r, e.stage.response = some r → r =
            respond MatchResponse.toJson
              (matchAnswer w.2.uuid w.2.tookUs (w.2.call.result found)) := by
  induction results with
  | nil => exact ⟨[], rfl, fun w hw => absurd hw List.not_mem_nil⟩
  | cons r results ih =>
    obtain ⟨order, hcalls, horder⟩ := ih fun r' hr' => hresults r' (List.mem_cons_of_mem _ hr')
    obtain ⟨⟨i, call⟩, found⟩ := r
    have hget := hresults _ List.mem_cons_self
    obtain ⟨h, rfl, hhandles⟩ := exists_handler hruns hget
    refine ⟨(i, h) :: order, ?_, List.forall_mem_cons.mpr ⟨⟨found, hget, hhandles⟩, horder⟩⟩
    rw [List.map_cons, List.map_cons, hcalls]
    rfl

omit [LinearOrder Day] in
/-- **A series of calls of the handler** is a series of walks. -/
theorem serial_handle [DecidableEq Day] {order : List (ℕ × Handler Day)}
    {results : List ((ℕ × Call Day) × Option (Micros × ℕ))} {S : CampaignId × Day → ℤ}
    (hcalls : order.map (Prod.map id Handler.call) = results.map Prod.fst)
    (hserial : serial (wholeOf Call.asks Call.work) (results.map Prod.fst) (fun _ => 0) =
      (results, S)) :
    (serial (fun w : ℕ × Handler Day => w.2.handle) order .inMemory).2.ledger = S ∧
      ∀ w ∈ order, ∃ found, ((w.1, w.2.call), found) ∈ results ∧
        (w, matchAnswer w.2.uuid w.2.tookUs (w.2.call.result found)) ∈
          (serial (fun w : ℕ × Handler Day => w.2.handle) order .inMemory).1 := by
  rw [← hcalls, serial_map] at hserial
  obtain ⟨hresults, hlast⟩ := Prod.mk.inj hserial
  obtain ⟨hanswers, hledger⟩ := Prod.mk.inj (serial_observe Handler.handle_ledger order .inMemory)
  refine ⟨hledger.trans hlast, fun w hw => ?_⟩
  rw [← serial_fst (fun w => wholeOf Call.asks Call.work (Prod.map id Handler.call w)) order
    fun _ => 0] at hw
  obtain ⟨⟨w, found⟩, hmem, rfl⟩ := List.mem_map.mp hw
  refine ⟨found, ?_, ?_⟩
  · rw [← hresults]
    exact List.mem_map_of_mem (f := Prod.map (Prod.map id Handler.call) id) hmem
  · rw [show (serial (fun w : ℕ × Handler Day => w.2.handle) order .inMemory).1 = _ from hanswers]
    exact List.mem_map_of_mem hmem

/-- **The service is linearisable.** At every moment of a run there is a series of calls of
the whole match endpoint, exactly one for each match request whose auction has returned,
each for its request as it arrived, on its day and with a snapshot that was loaded, that
made one after another from empty budgets
* give every one of these requests the response that it got;
* leave what is spent as it is, on all days that no prune has reached;
* and come in the order in which the auctions returned: at any earlier moment, those that
  had returned by then are the first so many of the series. -/
theorem linearisable (hruns : Runs predOpt render engine events s log) :
    ∃ order : List (ℕ × Handler Day), (order.map Prod.fst).Nodup ∧
      (∀ i, i ∈ order.map Prod.fst ↔
        ∃ session, s.server.sessions[i]? = some session ∧ session.returned.isSome) ∧
      (∀ w ∈ order, ∃ (k : ℕ) (e : Exchange), s.exchanges[k]? = some e ∧ e.session = some w.1 ∧
        Handles engine events k w.2) ∧
      (∀ (k : ℕ) e i r, s.exchanges[k]? = some e → e.session = some i →
        e.stage.response = some r → ∃ h answer,
          ((i, h), answer) ∈ (serial (fun w : ℕ × Handler Day => w.2.handle) order .inMemory).1 ∧
            Handles engine events k h ∧ r = respond MatchResponse.toJson answer) ∧
      (∀ campaign d, (∀ today, ServiceEvent.prune today ∈ events → yesterday predOpt today ≤ d) →
        (serial (fun w : ℕ × Handler Day => w.2.handle) order .inMemory).2.spent campaign d =
          s.server.app.budgets.spent campaign d) ∧
      ∀ before s₀ log₀, Runs predOpt render engine before s₀ log₀ → before <+: events →
        ∃ n, ∀ i, i ∈ (order.take n).map Prod.fst ↔
          ∃ session, s₀.server.sessions[i]? = some session ∧ session.returned.isSome := by
  obtain ⟨results, S, hseq, hbefore⟩ := Server.exists_sequential (runs_server hruns)
  obtain ⟨order, hcalls, horder⟩ := exists_order hruns fun r hr =>
    (hseq.stopped r.1.1 r.1.2 r.2).mp hr
  obtain ⟨hledger, hseries⟩ := serial_handle hcalls hseq.serial
  have hnumbers : order.map Prod.fst = results.map fun r => r.1.1 := by
    have hfst := congrArg (List.map Prod.fst) hcalls
    rw [List.map_map, List.map_map] at hfst
    exact hfst
  refine ⟨order, ?_, fun i => ?_, fun w hw => ?_, fun k e i r hk hi hr => ?_,
    fun campaign d hd => ?_, ?_⟩
  · rw [hnumbers]
    exact hseq.nodup
  · rw [hnumbers]
    exact Server.mem_results_iff hseq
  · obtain ⟨found, hget, hhandles⟩ := horder w hw
    obtain ⟨session, hsession, -, -⟩ := Server.walks_stopped.mp hget
    obtain ⟨k, e, -, hk, hi, -, -⟩ := exists_exchange hruns hsession
    exact ⟨k, e, hk, hi, (hhandles k e hk hi).1⟩
  · rcases auction_cases ((answers_of_runs hruns).sound e (List.mem_of_getElem? hk)) with hstage |
      hnone | ⟨j, session, result, -, -, hj, hsession, hreturned, -, -⟩
    · rw [hstage] at hr
      cases hr
    · rw [hi] at hnone
      cases hnone
    · obtain rfl := Option.some.inj (hj.symm.trans hi)
      obtain ⟨found, hprogress, -⟩ := Session.exists_stopped hreturned
      have hmem := (hseq.stopped j session.call found).mpr
        (Server.walks_stopped.mpr ⟨session, hsession, rfl, hprogress⟩)
      obtain ⟨w, hw, hcall⟩ := List.mem_map.mp (hcalls ▸ List.mem_map_of_mem (f := Prod.fst) hmem)
      obtain ⟨found', hfound', hanswer⟩ := hseries w hw
      obtain ⟨found'', hget, hhandles⟩ := horder w hw
      obtain rfl : j = w.1 := (congrArg Prod.fst hcall).symm
      rw [(hseq.stopped _ _ _).mp hfound'] at hget
      cases hget
      obtain ⟨hhandled, hresponse⟩ := hhandles k e hk hi
      exact ⟨w.2, _, hanswer, hhandled, hresponse r hr⟩
  · refine Micros.toInt_injective ?_
    have hkey := hseq.agrees (campaign, d) fun today htoday =>
      hd today (ServiceEvent.mem_prune.mp htoday)
    rw [← hledger] at hkey
    exact hkey
  · intro before s₀ log₀ hruns₀ hextends
    obtain ⟨results₀, S₀, hseq₀, hresults⟩ := hbefore _ _ _ (runs_server hruns₀)
      (hextends.filterMap ServiceEvent.serverEvent)
    refine ⟨results₀.length, fun i => ?_⟩
    rw [List.map_take, hnumbers, ← List.map_take, ← List.prefix_iff_eq_take.mp hresults]
    exact Server.mem_results_iff hseq₀

end Runs

end Service

end Linearisable

section Sample

attribute [local instance] Unicode.asciiGreek

theorem linearisable_sample : ∃ s log order,
    Service.Runs samplePredOpt (fun _ => "") .default sampleService s log ∧
      order.map Prod.fst = [0] ∧
      (∀ w ∈ order, Service.Handles .default sampleService 0 w.2) ∧
      (∀ (k : ℕ) e i r, s.exchanges[k]? = some e → e.session = some i →
        e.stage.response = some r → ∃ h answer,
          ((i, h), answer) ∈ (serial (fun w : ℕ × Handler ℕ => w.2.handle) order .inMemory).1 ∧
            Service.Handles .default sampleService k h ∧
              r = respond MatchResponse.toJson answer) ∧
      ∀ campaign,
        (serial (fun w : ℕ × Handler ℕ => w.2.handle) order .inMemory).2.spent campaign 1 =
        s.server.app.budgets.spent campaign 1 := by
  obtain ⟨s, log, hruns, -⟩ := exists_sampleService
  obtain ⟨order, hnodup, hreturned, hhandles, hanswers, hspent, -⟩ := Service.linearisable hruns
  -- the one auction has returned, and it is that of the first request
  obtain ⟨hsessions, hexchanges⟩ :
      s.server.sessions.map (fun session => session.returned.isSome) = [true] ∧
        s.exchanges.map Exchange.session = [some 0, none] := by
    have hrun : ((Trace.run (Service.step samplePredOpt fun _ => "") sampleService
        (Service.new .default)).map fun x =>
          (x.1.server.sessions.map fun session => session.returned.isSome,
            x.1.exchanges.map Exchange.session)) = some ([true], [some 0, none]) := by
      decide
    rw [Service.trace_of_runs hruns, Option.map_some] at hrun
    exact Prod.mk.inj (Option.some.inj hrun)
  have hnumbers : order.map Prod.fst = [0] := by
    refine List.perm_singleton.mp ((List.perm_ext_iff_of_nodup hnodup (by decide)).mpr fun i => ?_)
    rw [hreturned i, List.mem_singleton]
    constructor
    · rintro ⟨session, hget, -⟩
      have hlt := (List.getElem?_eq_some_iff.mp hget).1
      have hlength := congrArg List.length hsessions
      rw [List.length_map, List.length_singleton] at hlength
      omega
    · rintro rfl
      have hfirst := congrArg (fun returned => returned[0]?) hsessions
      rw [List.getElem?_map] at hfirst
      exact Option.map_eq_some_iff.mp hfirst
  refine ⟨s, log, order, hruns, hnumbers, fun w hw => ?_, hanswers,
    fun campaign => hspent campaign 1 fun today htoday => ?_⟩
  · obtain ⟨k, e, hk, hi, hhandled⟩ := hhandles w hw
    have hsession : [some 0, none][k]? = some (some w.1) := by
      rw [← hexchanges, List.getElem?_map, hk, Option.map_some, hi]
    obtain rfl : k = 0 := by
      rcases k with _ | _ | k
      · rfl
      · cases hsession
      · cases hsession
    exact hhandled
  · obtain rfl : today = 2 := by simpa [sampleService] using htoday
    decide

end Sample

end AdMatch
