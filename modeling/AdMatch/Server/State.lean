import AdMatch.Engine.Concurrent
import AdMatch.Server.Routes

/-!
# The running server

The shared state – the current snapshot and the budget store – and what happens to
it: the index is reloaded, old budget days are pruned, requests arrive, capture
the snapshot and the day, and then try to spend, one attempt at a time and in any
order. The budget store outlives every snapshot, so no reload forgets what was
spent; and a prune keeps yesterday, so a request that is late by less than a day
still meets the counter of its own day.

A run keeps a log of its charges, which the server itself does not have. What the
log adds up to is what the store says, for every day not pruned
(`AdMatch.Server.budgets_hold`).
-/

namespace AdMatch

open Walk

section Server

variable [Unicode] {Day : Type}

/-! ### The shared state -/

/-- Why the index could not be loaded. -/
inductive LoadError
  /-- The campaigns could not be read, or the task that reads them failed. -/
  | source
  | build (error : BuildError)
  deriving DecidableEq

/-- What every request handler shares. -/
structure AppState (Day : Type) where
  /-- The current campaign index, or `none` before the first load. -/
  snapshot : Option Snapshot
  /-- Daily spend per campaign, outside the snapshot: reloading campaigns must
  not reset what has been spent. -/
  budgets : BudgetStore Day
  /-- The settings of every snapshot built by this process. -/
  engine : EngineConfig

namespace AppState

/-- No index yet, and nothing spent. -/
def new (engine : EngineConfig) : AppState Day := ⟨none, .inMemory, engine⟩

/-- Publishes a new snapshot. -/
def publish (state : AppState Day) (snapshot : Snapshot) : AppState Day :=
  { state with snapshot := some snapshot }

end AppState

/-- Builds a snapshot of the campaigns that were read, if they were. -/
def buildSnapshot (source : Except LoadError (List Campaign)) (engine : EngineConfig) :
    Except LoadError Snapshot :=
  match source with
  | .error e => .error e
  | .ok campaigns =>
    match Snapshot.build campaigns engine with
    | .error e => .error (.build e)
    | .ok snapshot => .ok snapshot

/-- One reload: a failed load leaves the previous snapshot in place. -/
def AppState.refresh (state : AppState Day) (source : Except LoadError (List Campaign)) :
    AppState Day :=
  match buildSnapshot source state.engine with
  | .ok snapshot => state.publish snapshot
  | .error _ => state

/-- The day before, or the day itself if the calendar starts with it. How the
calendar library finds the day before is a parameter. -/
def yesterday (predOpt : Day → Option Day) (today : Day) : Day := (predOpt today).getD today

/-- Drops budget counters for days before yesterday. -/
def pruneBudgetDays [LinearOrder Day] (predOpt : Day → Option Day) (budgets : BudgetStore Day)
    (today : Day) : BudgetStore Day :=
  budgets.dropDaysBefore (yesterday predOpt today)

/-! ### Requests under way -/

/-- A request under way: the call it makes, and how far it has got. -/
structure Session (Day : Type) where
  call : Call Day
  progress : Progress (Micros × ℕ)

/-- A charge, with the request that made it and its campaign as that request
knows it. -/
structure Charge (Day : Type) where
  session : ℕ
  campaign : Campaign
  day : Day
  price : Micros

/-- A charge, on the ledger. -/
def Charge.attempt (charge : Charge Day) : Ledger.Attempt (CampaignId × Day) :=
  BudgetStore.attemptOf charge.campaign.id charge.day charge.price charge.campaign.dailyBudget

namespace Session

/-- A request that has yet to make its first attempt. -/
def start (call : Call Day) : Session Day := ⟨call, .start call.work⟩

/-- What the request has returned. -/
def returned (session : Session Day) : Option (Except QueryError AuctionOutcome) :=
  session.call.returned session.progress

/-- A request that has returned has stopped, with what it returns. -/
theorem exists_stopped {session : Session Day} {result : Except QueryError AuctionOutcome}
    (h : session.returned = some result) :
    ∃ found, session.progress = .stopped found ∧ session.call.result found = result := by
  rw [returned] at h
  rcases hprogress : session.progress with ⟨a, rest⟩ | found
  · rw [hprogress] at h
    cases h
  · rw [hprogress] at h
    exact ⟨found, rfl, Option.some.inj h⟩

/-- What the request number `i` has charged. -/
def charge (session : Session Day) (i : ℕ) : Option (Charge Day) :=
  session.progress.found.bind fun a =>
    (session.call.campaignAt a.2).map fun c => ⟨i, c, session.call.day, a.1⟩

theorem charge_session {session : Session Day} {i : ℕ} {ch : Charge Day}
    (h : session.charge i = some ch) : ch.session = i := by
  obtain ⟨a, -, ha⟩ := Option.bind_eq_some_iff.mp h
  obtain ⟨c, -, rfl⟩ := Option.map_eq_some_iff.mp ha
  rfl

/-- A request that is still to make an attempt has charged nothing. -/
theorem charge_of_trying {session : Session Day} {a : Micros × ℕ} {rest : List (Micros × ℕ)}
    (h : session.progress = .trying a rest) (i : ℕ) : session.charge i = none := by
  rw [charge, h]
  rfl

end Session

/-- **The server**: the shared state and the requests so far. -/
structure Server (Day : Type) where
  app : AppState Day
  sessions : List (Session Day)

/-- What can happen to a server. -/
inductive ServerEvent (Day : Type)
  /-- The index is reloaded from what was read. -/
  | load (source : Except LoadError (List Campaign))
  /-- Old budget days are pruned. -/
  | prune (today : Day)
  /-- A request arrives. -/
  | request (order : HashOrder) (req : MatchRequest) (today : Day)
  /-- A request makes one attempt to spend. -/
  | spend (i : ℕ)

namespace Server

/-- A server that has just started. -/
def new (engine : EngineConfig) : Server Day := ⟨.new engine, []⟩

variable [LinearOrder Day] (predOpt : Day → Option Day)

/-- **One event**, with the charge it makes. A request that cannot be parsed, or
comes before the first snapshot, is answered at once. -/
def step (server : Server Day) : ServerEvent Day → Option (Server Day × Option (Charge Day))
  | .load source => some ({ server with app := server.app.refresh source }, none)
  | .prune today =>
    let budgets := pruneBudgetDays predOpt server.app.budgets today
    some ({ server with app := { server.app with budgets } }, none)
  | .request order req today =>
    match auctionRequest req, server.app.snapshot with
    | .ok auction, some snap =>
      some ({ server with sessions := server.sessions ++ [.start ⟨order, snap, auction, today⟩] },
        none)
    | _, _ => some (server, none)
  | .spend i =>
    server.sessions[i]?.bind fun session =>
      (Progress.step session.call.attempt session.progress server.app.budgets).map fun next =>
        let session := { session with progress := next.1 }
        ({ app := { server.app with budgets := next.2 }
           sessions := server.sessions.set i session },
          session.charge i)

/-- No attempt is late: none is for a day before the yesterday of a prune already
performed. -/
def Timely (events : List (ServerEvent Day)) (server : Server Day) (e : ServerEvent Day) : Prop :=
  ∀ i session, e = .spend i → server.sessions[i]? = some session →
    ∀ today, ServerEvent.prune today ∈ events → yesterday predOpt today ≤ session.call.day

/-- **A run of the server**: the events so far, the server after them, and the log
of the charges they made. -/
inductive Runs (engine : EngineConfig) :
    List (ServerEvent Day) → Server Day → List (Charge Day) → Prop
  | start : Runs engine [] (.new engine) []
  | step {events server log e server' charge} (h : Runs engine events server log)
    (timely : Timely predOpt events server e)
    (hstep : server.step predOpt e = some (server', charge)) :
    Runs engine (events ++ [e]) server' (log ++ charge.toList)

/-! ### What a step does -/

section Steps

variable {predOpt} {server server' : Server Day} {charge : Option (Charge Day)}

omit [LinearOrder Day] in
/-- A reload does not touch the budgets. -/
@[simp] theorem refresh_budgets (state : AppState Day)
    (source : Except LoadError (List Campaign)) :
    (state.refresh source).budgets = state.budgets := by
  rw [AppState.refresh]
  cases buildSnapshot source state.engine <;> rfl

/-- A request that arrives leaves the shared state alone, and charges nothing. -/
theorem step_request {order : HashOrder} {req : MatchRequest} {today : Day}
    (h : server.step predOpt (.request order req today) = some (server', charge)) :
    server'.app = server.app ∧ charge = none ∧
      (server'.sessions = server.sessions ∨
        ∃ call, server'.sessions = server.sessions ++ [.start call]) := by
  rw [step] at h
  split at h
  · obtain ⟨rfl, rfl⟩ := Prod.mk.inj (Option.some.inj h)
    exact ⟨rfl, rfl, .inr ⟨_, rfl⟩⟩
  · obtain ⟨rfl, rfl⟩ := Prod.mk.inj (Option.some.inj h)
    exact ⟨rfl, rfl, .inl rfl⟩

/-- **What an attempt to spend does**: it fits the ledger, the request stops and
the charge is made; or it does not, and the request goes on. -/
theorem step_spend {i : ℕ} (h : server.step predOpt (.spend i) = some (server', charge)) :
    ∃ session a rest p, server.sessions[i]? = some session ∧
      session.progress = .trying a rest ∧
      Progress.step session.call.attempt session.progress server.app.budgets =
        some (p, server'.app.budgets) ∧
      server'.sessions = server.sessions.set i { session with progress := p } ∧
      charge = Session.charge { session with progress := p } i ∧
      (Ledger.Fits server.app.budgets.ledger (session.call.asks a) ∧
          server'.app.budgets.ledger =
            Ledger.charge server.app.budgets.ledger (session.call.asks a) ∧
          (∃ ch, charge = some ch ∧ ch.attempt = session.call.asks a) ∨
        ¬Ledger.Fits server.app.budgets.ledger (session.call.asks a) ∧
          server'.app.budgets.ledger = server.app.budgets.ledger ∧ charge = none) := by
  obtain ⟨session, hsession, h⟩ := Option.bind_eq_some_iff.mp h
  obtain ⟨⟨p, budgets⟩, hstep, h⟩ := Option.map_eq_some_iff.mp h
  obtain ⟨rfl, rfl⟩ := Prod.mk.inj h
  cases hprogress : session.progress with
  | stopped found =>
    rw [hprogress] at hstep
    cases hstep
  | trying a rest =>
    refine ⟨session, a, rest, p, hsession, hprogress, hprogress ▸ hstep, rfl, rfl, ?_⟩
    rw [hprogress, Progress.step] at hstep
    have hledger := session.call.attempt_ledger a server.app.budgets
    rcases hr : session.call.attempt a server.app.budgets with ⟨b, budgets'⟩
    rw [hr] at hstep hledger
    by_cases hfits : Ledger.Fits server.app.budgets.ledger (session.call.asks a)
    · rw [Ledger.attempt_of_fits hfits] at hledger
      obtain ⟨rfl, hafter⟩ := Prod.mk.inj hledger
      obtain ⟨rfl, rfl⟩ := Prod.mk.inj (Option.some.inj hstep)
      obtain ⟨c, hc, hasks⟩ := Call.campaignAt_of_fits hfits
      refine .inl ⟨hfits, hafter, ⟨i, c, session.call.day, a.1⟩, ?_, hasks.symm⟩
      rw [Session.charge, Progress.found, Option.bind_some, hc, Option.map_some]
    · rw [Ledger.attempt_of_not_fits hfits] at hledger
      obtain ⟨rfl, hafter⟩ := Prod.mk.inj hledger
      obtain ⟨rfl, rfl⟩ := Prod.mk.inj (Option.some.inj hstep)
      refine .inr ⟨hfits, hafter, ?_⟩
      rw [Session.charge, Progress.found_start]
      rfl

/-! ### The invariant -/

variable (predOpt) in
/-- **What holds of every server reached**: on days not pruned the store says what
the log adds up to; every charge of the log, when it was made, was within the
budget of its campaign; every request is somewhere down its ranking; and the log
holds of each request what it has charged. -/
structure Inv (events : List (ServerEvent Day)) (server : Server Day) (log : List (Charge Day)) :
    Prop where
  exact : ∀ key, (∀ today, ServerEvent.prune today ∈ events → yesterday predOpt today ≤ key.2) →
    server.app.budgets.ledger key = Ledger.total (log.map Charge.attempt) key
  within : Ledger.Within (log.map Charge.attempt)
  along : ∀ session ∈ server.sessions, session.progress.Along session.call.work
  charged : ∀ i, log.filter (fun ch => ch.session = i) =
    (server.sessions[i]?.bind fun session => session.charge i).toList

variable {events : List (ServerEvent Day)} {log : List (Charge Day)}

theorem inv_new (engine : EngineConfig) : Inv predOpt [] (.new engine : Server Day) [] where
  exact _ _ := rfl
  within := Ledger.within_nil
  along _ h := absurd h List.not_mem_nil
  charged _ := rfl

/-- A reload keeps the invariant. -/
theorem Inv.load (h : Inv predOpt events server log) (source : Except LoadError (List Campaign)) :
    Inv predOpt (events ++ [.load source]) { server with app := server.app.refresh source }
      log where
  exact key hkey := by
    rw [refresh_budgets]
    exact h.exact key fun today htoday => hkey today (List.mem_append_left _ htoday)
  within := h.within
  along := h.along
  charged := h.charged

/-- A prune keeps the invariant. -/
theorem Inv.prune (h : Inv predOpt events server log) (today : Day) :
    Inv predOpt (events ++ [.prune today]) { server with app := { server.app with
      budgets := pruneBudgetDays predOpt server.app.budgets today } } log where
  exact key hkey := by
    have hlast := hkey today (List.mem_append_right _ List.mem_cons_self)
    rw [pruneBudgetDays, BudgetStore.ledger_dropDaysBefore, if_pos hlast]
    exact h.exact key fun today htoday => hkey today (List.mem_append_left _ htoday)
  within := h.within
  along := h.along
  charged := h.charged

/-- A request that arrives keeps the invariant. -/
theorem Inv.request (h : Inv predOpt events server log) {order : HashOrder} {req : MatchRequest}
    {today : Day}
    (hstep : server.step predOpt (.request order req today) = some (server', charge)) :
    Inv predOpt (events ++ [.request order req today]) server' (log ++ charge.toList) := by
  obtain ⟨happ, rfl, hsessions⟩ := step_request hstep
  rw [Option.toList_none, List.append_nil]
  refine ⟨fun key hkey => ?_, h.within, ?_, fun i => ?_⟩
  · rw [happ]
    exact h.exact key fun today htoday => hkey today (List.mem_append_left _ htoday)
  · rcases hsessions with hsame | ⟨call, hnew⟩
    · rw [hsame]
      exact h.along
    · intro session hsession
      rw [hnew, List.mem_append, List.mem_singleton] at hsession
      rcases hsession with hold | rfl
      · exact h.along session hold
      · exact Progress.along_start (List.suffix_refl _)
  · rw [h.charged i]
    rcases hsessions with hsame | ⟨call, hnew⟩
    · rw [hsame]
    · rw [hnew]
      rcases Nat.lt_trichotomy i server.sessions.length with hlt | rfl | hgt
      · rw [List.getElem?_append_left hlt]
      · -- the new request has charged nothing
        have hnone : (Session.start call).charge server.sessions.length = none := by
          rw [Session.charge, Session.start, Progress.found_start, Option.bind_none]
        rw [List.getElem?_concat_length, Option.bind_some, hnone,
          List.getElem?_eq_none_iff.mpr (le_refl _), Option.bind_none]
      · have hgt' : (server.sessions ++ [Session.start call]).length ≤ i := by
          rw [List.length_append, List.length_singleton]
          omega
        rw [List.getElem?_eq_none_iff.mpr hgt.le, List.getElem?_eq_none_iff.mpr hgt']

omit [LinearOrder Day] in
/-- When a request that had charged nothing has moved on, the log with the charge
it made, if any, holds of each request what it has charged. -/
theorem charged_set {sessions : List (Session Day)}
    (h : ∀ j, log.filter (fun ch => ch.session = j) =
      (sessions[j]?.bind fun session => session.charge j).toList) {i : ℕ}
    {session session' : Session Day} (hsession : sessions[i]? = some session)
    (hbefore : session.charge i = none) (hafter : charge = session'.charge i) (j : ℕ) :
    (log ++ charge.toList).filter (fun ch => ch.session = j) =
      ((sessions.set i session')[j]?.bind fun session => session.charge j).toList := by
  have hcharge : ∀ ch ∈ charge.toList, ch.session = i := fun ch hch =>
    Session.charge_session (hafter.symm.trans (Option.mem_toList.mp hch))
  rw [List.filter_append, h j]
  by_cases hj : j = i
  · subst hj
    have hall : charge.toList.filter (fun ch => ch.session = j) = charge.toList :=
      List.filter_eq_self.mpr fun ch hch => decide_eq_true (hcharge ch hch)
    rw [hall, List.getElem?_set_self (List.getElem?_eq_some_iff.mp hsession).1, hsession,
      Option.bind_some, Option.bind_some, hbefore, hafter, Option.toList_none, List.nil_append]
  · have hnone : charge.toList.filter (fun ch => ch.session = j) = [] :=
      List.filter_eq_nil_iff.mpr fun ch hch => by
        rw [hcharge ch hch, decide_eq_true_eq]
        exact Ne.symm hj
    rw [hnone, List.append_nil, List.getElem?_set_ne (Ne.symm hj)]

/-- **A timely attempt to spend keeps the invariant.** -/
theorem Inv.spend (h : Inv predOpt events server log) {i : ℕ}
    (htimely : Timely predOpt events server (.spend i))
    (hstep : server.step predOpt (.spend i) = some (server', charge)) :
    Inv predOpt (events ++ [.spend i]) server' (log ++ charge.toList) := by
  obtain ⟨session, a, rest, p, hsession, hprogress, hp, hsessions, hcharge, hor⟩ := step_spend hstep
  have hearlier : ∀ key : CampaignId × Day, (∀ today, ServerEvent.prune today ∈
      events ++ [.spend i] → yesterday predOpt today ≤ key.2) →
      server.app.budgets.ledger key = Ledger.total (log.map Charge.attempt) key :=
    fun key hkey => h.exact key fun today htoday => hkey today (List.mem_append_left _ htoday)
  have halong : ∀ s ∈ server'.sessions, s.progress.Along s.call.work := by
    intro s hs
    rw [hsessions] at hs
    rcases List.mem_or_eq_of_mem_set hs with hold | rfl
    · exact h.along s hold
    · exact (h.along session (List.mem_of_getElem? hsession)).step hp
  have hcharged : ∀ j, (log ++ charge.toList).filter (fun ch => ch.session = j) =
      (server'.sessions[j]?.bind fun session => session.charge j).toList := by
    rw [hsessions]
    exact charged_set h.charged hsession (Session.charge_of_trying hprogress i) hcharge
  rcases hor with ⟨hfits, hledger, ch, rfl, hattempt⟩ | ⟨-, hledger, rfl⟩
  · have hlog : (log ++ (some ch).toList).map Charge.attempt =
        log.map Charge.attempt ++ [session.call.asks a] := by
      rw [Option.toList_some, List.map_append, List.map_singleton, hattempt]
    -- the day of the attempt has not been pruned, so the store knows its total
    have hknown := h.exact (session.call.asks a).key fun today htoday => by
      rw [session.call.asks_key_snd]
      exact htimely i session rfl hsession today htoday
    refine ⟨fun key hkey => ?_, ?_, halong, hcharged⟩
    · rw [hledger, hlog, Ledger.total_concat, Ledger.charge_apply, Ledger.charge_apply,
        hearlier key hkey]
    · rw [hlog, Ledger.within_concat, ← hknown]
      exact ⟨h.within, hfits.2⟩
  · refine ⟨fun key hkey => ?_, ?_, halong, hcharged⟩
    · rw [hledger, Option.toList_none, List.append_nil]
      exact hearlier key hkey
    · rw [Option.toList_none, List.append_nil]
      exact h.within

variable (predOpt) in
/-- **Every server reached satisfies the invariant.** -/
theorem inv_of_runs {engine : EngineConfig} (h : Runs predOpt engine events server log) :
    Inv predOpt events server log := by
  induction h with
  | start => exact inv_new engine
  | @step events server log e server' charge _ htimely hstep ih =>
    cases e with
    | load source =>
      obtain ⟨rfl, rfl⟩ := Prod.mk.inj (Option.some.inj hstep)
      rw [Option.toList_none, List.append_nil]
      exact ih.load source
    | prune today =>
      obtain ⟨rfl, rfl⟩ := Prod.mk.inj (Option.some.inj hstep)
      rw [Option.toList_none, List.append_nil]
      exact ih.prune today
    | request order req today => exact ih.request hstep
    | spend i => exact ih.spend htimely hstep

/-- What is in the log some request has charged. -/
theorem Inv.exists_session (h : Inv predOpt events server log) {ch : Charge Day}
    (hch : ch ∈ log) : ∃ session, server.sessions[ch.session]? = some session ∧
      session.charge ch.session = some ch := by
  have hmem : ch ∈ log.filter fun ch' => ch'.session = ch.session :=
    List.mem_filter.mpr ⟨hch, decide_eq_true rfl⟩
  rw [h.charged, Option.mem_toList] at hmem
  exact Option.bind_eq_some_iff.mp hmem

/-- What a request has charged is in the log, and nothing else of that request. -/
theorem Inv.filter_log (h : Inv predOpt events server log) {i : ℕ} {session : Session Day}
    (hget : server.sessions[i]? = some session) {ch : Charge Day}
    (hcharge : session.charge i = some ch) : log.filter (fun ch' => ch'.session = i) = [ch] := by
  rw [h.charged, hget, Option.bind_some, hcharge, Option.toList_some]

theorem Inv.mem_log (h : Inv predOpt events server log) {i : ℕ} {session : Session Day}
    (hget : server.sessions[i]? = some session) {ch : Charge Day}
    (hcharge : session.charge i = some ch) : ch ∈ log := by
  have hmem : ch ∈ log.filter fun ch' => ch'.session = i := by
    rw [h.filter_log hget hcharge]
    exact List.mem_singleton_self ch
  exact (List.mem_filter.mp hmem).1

/-! ### Budgets hold -/

omit [LinearOrder Day] in
/-- What a request down its ranking has charged is what it shows: a request that
has charged has returned, with the ad of the campaign charged, at the price
charged. -/
theorem shown_of_charge {session : Session Day} (halong : session.progress.Along session.call.work)
    {i : ℕ} {ch : Charge Day} (h : session.charge i = some ch) :
    ch.session = i ∧ ch.day = session.call.day ∧ ch.campaign ∈ session.call.snap.campaigns ∧
      ∃ outcome w, session.returned = some (.ok outcome) ∧ outcome.winner = some w ∧
        w.campaignId = ch.campaign.id ∧ w.price = ch.price := by
  obtain ⟨⟨price, pos⟩, hfound, hch⟩ := Option.bind_eq_some_iff.mp h
  obtain ⟨c, hc, rfl⟩ := Option.map_eq_some_iff.mp hch
  cases hprogress : session.progress with
  | trying a rest =>
    rw [hprogress] at hfound
    cases hfound
  | stopped found =>
    rw [hprogress] at hfound halong
    obtain rfl : found = some (price, pos) := hfound
    obtain ⟨c', outcome, w, hc', hmem, hresult, hw, hid, hprice⟩ :=
      Call.result_some (halong (price, pos) rfl)
    obtain rfl : c' = c := Option.some.inj (hc'.symm.trans hc)
    refine ⟨rfl, rfl, hmem, outcome, w, ?_, hw, hid, hprice⟩
    rw [Session.returned, hprogress, Call.returned, hresult]

omit [LinearOrder Day] in
/-- A request that shows an ad has charged for it. -/
theorem exists_charge_of_shown {session : Session Day}
    (halong : session.progress.Along session.call.work) {outcome : AuctionOutcome} {w : Winner}
    (hreturned : session.returned = some (.ok outcome)) (hw : outcome.winner = some w) (i : ℕ) :
    ∃ ch, session.charge i = some ch := by
  obtain ⟨found, hprogress, hresult⟩ := Session.exists_stopped hreturned
  rw [hprogress] at halong
  rcases found with _ | ⟨price, pos⟩
  · rw [Call.result_none hresult] at hw
    cases hw
  · obtain ⟨c, -, -, hc, -⟩ := Call.result_some (halong (price, pos) rfl)
    refine ⟨⟨i, c, session.call.day, price⟩, ?_⟩
    rw [Session.charge, hprogress, Progress.found, Option.bind_some, hc, Option.map_some]

/-- **Budgets hold on a running server.** In every run whose attempts are timely:
at every charge, all that was ever charged to its campaign on its day is within
the budget that the campaign has in the snapshot of the charging request, so what
is charged in the whole run is within the budget of a snapshot used for that day;
reloads change nothing that was spent; a day not pruned shows as spent what was
charged; and every charge is the only one of its request, which returned the ad
of the campaign charged at the price charged – as every request does that
returned an ad. -/
theorem budgets_hold (predOpt : Day → Option Day) (engine : EngineConfig)
    (events : List (ServerEvent Day)) (server : Server Day) (log : List (Charge Day))
    (hruns : Runs predOpt engine events server log) :
    (∀ n ch, log[n]? = some ch → ∃ session, server.sessions[ch.session]? = some session ∧
      ch.day = session.call.day ∧ ch.campaign ∈ session.call.snap.campaigns ∧
      Ledger.total ((log.take (n + 1)).map Charge.attempt) (ch.campaign.id, ch.day) ≤
        ch.campaign.dailyBudget.toInt) ∧
    (∀ campaign d, (∃ ch ∈ log, ch.campaign.id = campaign ∧ ch.day = d) →
      ∃ session ∈ server.sessions, session.call.day = d ∧
        ∃ c ∈ session.call.snap.campaigns, c.id = campaign ∧
          Ledger.total (log.map Charge.attempt) (campaign, d) ≤ c.dailyBudget.toInt) ∧
    (∀ source server' charge, server.step predOpt (.load source) = some (server', charge) →
      charge = none ∧ ∀ campaign d,
        server'.app.budgets.spent campaign d = server.app.budgets.spent campaign d) ∧
    (∀ campaign d, (∀ today, ServerEvent.prune today ∈ events → yesterday predOpt today ≤ d) →
      (server.app.budgets.spent campaign d).toInt =
        Ledger.total (log.map Charge.attempt) (campaign, d)) ∧
    (∀ ch ∈ log, log.filter (fun ch' => ch'.session = ch.session) = [ch] ∧
      ∃ session outcome w, server.sessions[ch.session]? = some session ∧
        session.returned = some (.ok outcome) ∧ outcome.winner = some w ∧
        w.campaignId = ch.campaign.id ∧ w.price = ch.price) ∧
    ∀ i session outcome w, server.sessions[i]? = some session →
      session.returned = some (.ok outcome) → outcome.winner = some w →
      ∃ ch ∈ log, ch.session = i ∧ ch.campaign.id = w.campaignId ∧ ch.price = w.price := by
  have hinv := inv_of_runs predOpt hruns
  have hshown : ∀ ch ∈ log, ∃ session, server.sessions[ch.session]? = some session ∧
      session ∈ server.sessions ∧ ch.day = session.call.day ∧
      ch.campaign ∈ session.call.snap.campaigns := by
    intro ch hch
    obtain ⟨session, hget, hcharge⟩ := hinv.exists_session hch
    have hmem := List.mem_of_getElem? hget
    obtain ⟨-, hday, hcampaign, -⟩ := shown_of_charge (hinv.along session hmem) hcharge
    exact ⟨session, hget, hmem, hday, hcampaign⟩
  refine ⟨fun n ch hn => ?_, ?_, fun source server' charge hstep => ?_, fun campaign d hd =>
    hinv.exact (campaign, d) hd, fun ch hch => ?_, fun i session outcome w hget hreturned hw => ?_⟩
  · obtain ⟨session, hget, -, hday, hcampaign⟩ := hshown ch (List.mem_of_getElem? hn)
    refine ⟨session, hget, hday, hcampaign, ?_⟩
    have hle := hinv.within n ch.attempt (by rw [List.getElem?_map, hn, Option.map_some])
    rw [← List.map_take] at hle
    exact hle
  · rintro _ _ ⟨ch, hch, rfl, rfl⟩
    obtain ⟨a, ha, hkey, hle⟩ := hinv.within.exists_total_le (List.mem_map_of_mem hch)
    obtain ⟨ch', hch', rfl⟩ := List.mem_map.mp ha
    obtain ⟨hid, hday⟩ := Prod.mk.inj hkey
    obtain ⟨session, -, hmem, hday', hcampaign⟩ := hshown ch' hch'
    exact ⟨session, hmem, hday'.symm.trans hday, ch'.campaign, hcampaign, hid, hle⟩
  · obtain ⟨rfl, rfl⟩ := Prod.mk.inj (Option.some.inj hstep)
    exact ⟨rfl, fun campaign d => by rw [refresh_budgets]⟩
  · obtain ⟨session, hget, hcharge⟩ := hinv.exists_session hch
    obtain ⟨-, -, -, outcome, w, hreturned, hw, hid, hprice⟩ :=
      shown_of_charge (hinv.along session (List.mem_of_getElem? hget)) hcharge
    exact ⟨hinv.filter_log hget hcharge, session, outcome, w, hget, hreturned, hw, hid, hprice⟩
  · have halong := hinv.along session (List.mem_of_getElem? hget)
    obtain ⟨ch, hcharge⟩ := exists_charge_of_shown halong hreturned hw i
    obtain ⟨hi, -, -, outcome', w', hreturned', hw', hid, hprice⟩ := shown_of_charge halong hcharge
    obtain rfl : outcome' = outcome :=
      Except.ok.inj (Option.some.inj (hreturned'.symm.trans hreturned))
    obtain rfl : w' = w := Option.some.inj (hw'.symm.trans hw)
    exact ⟨ch, hinv.mem_log hget hcharge, hi, hid.symm, hprice.symm⟩

end Steps

end Server

end Server

section Sample

attribute [local instance] Unicode.asciiGreek

/-- The day before, on a calendar that starts on day zero. -/
def samplePredOpt (today : ℕ) : Option ℕ := if today = 0 then none else some (today - 1)

/-- The index is loaded, a request arrives on day one, and makes its first attempt
after a prune on day two. -/
def sampleRun : List (ServerEvent ℕ) :=
  [.load (.ok sampleCampaigns),
   .request storageOrder ⟨"Photo editor!", "IN", true, some "18-24", true⟩ 1,
   .prune 2, .spend 0]

theorem budgets_hold_sample : ∃ server log,
    Server.Runs samplePredOpt .default sampleRun server log ∧
    log.length = 1 ∧ ∀ campaign, (server.app.budgets.spent campaign 1).toInt =
      Ledger.total (log.map Charge.attempt) (campaign, 1) := by
  obtain ⟨server, log, hruns, hlog⟩ : ∃ server log,
      Server.Runs samplePredOpt .default sampleRun server log ∧ log.length = 1 := by
    refine ⟨_, _, .step (.step (.step (.step .start ?_ rfl) ?_ rfl) ?_ rfl) ?_ rfl, rfl⟩
    · intro i session he
      cases he
    · intro i session he
      cases he
    · intro i session he
      cases he
    · intro i session he hget today htoday
      obtain rfl : 0 = i := ServerEvent.spend.inj he
      obtain rfl : today = 2 := by simpa using htoday
      obtain rfl := Option.some.inj hget
      decide
  obtain ⟨-, -, -, hspent, -⟩ :=
    Server.budgets_hold samplePredOpt .default sampleRun server log hruns
  exact ⟨server, log, hruns, hlog, fun campaign => hspent campaign 1 fun today htoday => by
    obtain rfl : today = 2 := by simpa [sampleRun] using htoday
    decide⟩

end Sample

end AdMatch
