import AdMatch.Server.Sequential
import Mathlib.Data.List.ProdSigma

/-!
# Which counters the store keeps

The budget store creates a counter at the first attempt to spend for a campaign on a day,
whether the attempt goes through or not, and forgets it at the first prune for which its
day is older than yesterday. At every moment it has a counter for exactly what was tried
and not pruned (`AdMatch.Server.retained_of_runs`): none that a late attempt could miss is
forgotten, and none is kept beyond its time. So the store does not grow with the age of
the process: as long as no request is dated past the day of a prune, it has at most two
days for each campaign that was ever loaded (`AdMatch.Service.keeps_two_days`).
-/

namespace AdMatch

open Walk

namespace BudgetStore

variable {Day : Type}

/-- The counters there are. -/
def counterKeys (store : BudgetStore Day) : List (CampaignId × Day) :=
  match store with
  | .memory m => m.counters.keys

theorem nodup_counterKeys (store : BudgetStore Day) : store.counterKeys.Nodup := by
  obtain ⟨m⟩ := store
  exact m.counters.nodupKeys

/-- **A valid attempt leaves a counter**, whether it goes through or not. -/
theorem mem_counterKeys_trySpend [DecidableEq Day] {store : BudgetStore Day}
    {campaign : CampaignId} {day : Day} {amount dailyBudget : Micros} {key : CampaignId × Day} :
    key ∈ (store.trySpend campaign day amount dailyBudget).2.counterKeys ↔
      key ∈ store.counterKeys ∨ (campaign, day) = key ∧ 0 < amount.toInt := by
  obtain ⟨m⟩ := store
  have hiff : amount.val ≤ 0 ↔ amount.toInt ≤ 0 := Int64.le_iff_toInt_le
  have hinsert : ∀ counter : Int64, key ∈ (AList.insert (campaign, day) counter m.counters).keys ↔
      (campaign, day) = key ∨ key ∈ m.counters.keys := by
    intro counter
    rw [← AList.mem_keys, AList.mem_insert, AList.mem_keys, eq_comm]
  rw [trySpend, MemoryBudgets.trySpend]
  by_cases hpos : amount.val ≤ 0
  · rw [if_pos hpos]
    simp only [counterKeys, not_lt.mpr (hiff.mp hpos), and_false, or_false]
  · rw [if_neg hpos]
    simp only [not_le.mp (mt hiff.mpr hpos), and_true]
    rcases m.counters.lookup (campaign, day) with _ | counter <;>
      exact (hinsert _).trans or_comm

/-- A prune forgets the counters of older days. -/
theorem mem_counterKeys_dropDaysBefore [LinearOrder Day] {store : BudgetStore Day} {today : Day}
    {key : CampaignId × Day} : key ∈ (store.dropDaysBefore today).counterKeys ↔
      key ∈ store.counterKeys ∧ today ≤ key.2 := by
  obtain ⟨m⟩ := store
  simp only [dropDaysBefore, MemoryBudgets.dropDaysBefore, counterKeys, ← AList.mem_keys,
    ← AList.lookup_isSome, HashMap.lookup_retain, ge_iff_le, decide_eq_true_eq]
  split_ifs with hday <;> simp [hday]

end BudgetStore

section Retention

variable [Unicode] {Day : Type}

/-- An attempt leaves the counter that it asks for. -/
theorem Call.mem_counterKeys_attempt [DecidableEq Day] {call : Call Day} {a : Micros × ℕ}
    {budgets : BudgetStore Day} {key : CampaignId × Day} :
    key ∈ (call.attempt a budgets).2.counterKeys ↔
      key ∈ budgets.counterKeys ∨ (call.asks a).key = key ∧ 0 < (call.asks a).amount := by
  rw [attempt, Snapshot.tryPay, asks, campaignAt]
  cases call.ranking[a.2]?.bind fun m => call.snap.campaigns[m.campaignPos]? with
  | none => simp
  | some c => exact BudgetStore.mem_counterKeys_trySpend

/-- What a request has tried to spend so far. -/
def Session.tried (session : Session Day) : List (Ledger.Attempt (CampaignId × Day)) :=
  (session.call.work.take session.attempts).map session.call.asks

theorem Session.tried_start (call : Call Day) : (Session.start call).tried = [] := by
  rw [tried, attempts_start, List.take_zero, List.map_nil]

/-- An attempt is tried last. -/
theorem Session.tried_step [DecidableEq Day] {session : Session Day}
    (halong : session.progress.Along session.call.work) {a : Micros × ℕ}
    {rest : List (Micros × ℕ)} (hprogress : session.progress = .trying a rest)
    {p : Progress (Micros × ℕ)} {budgets budgets' : BudgetStore Day}
    (h : Progress.step session.call.attempt session.progress budgets = some (p, budgets')) :
    Session.tried { session with progress := p } = session.tried ++ [session.call.asks a] := by
  rw [tried, attempts_step halong h, List.take_add_one, getElem?_attempts halong hprogress,
    List.map_append]
  rfl

namespace Server

/-- Some request has tried to spend for the campaign on the day. -/
def Tried (server : Server Day) (key : CampaignId × Day) : Prop :=
  ∃ session ∈ server.sessions, ∃ t ∈ session.tried, t.key = key ∧ 0 < t.amount

variable [LinearOrder Day] {predOpt : Day → Option Day} {server server' : Server Day}
  {events : List (ServerEvent Day)} {charge : Option (Charge Day)} {engine : EngineConfig}
  {log : List (Charge Day)}

/-- The store has a counter for exactly what was tried and not pruned. -/
def Retained (predOpt : Day → Option Day) (events : List (ServerEvent Day))
    (server : Server Day) : Prop :=
  ∀ key, key ∈ server.app.budgets.counterKeys ↔ server.Tried key ∧ Unpruned predOpt events key

omit [Unicode] in
theorem unpruned_concat {e : ServerEvent Day} {key : CampaignId × Day} :
    Unpruned predOpt (events ++ [e]) key ↔ Unpruned predOpt events key ∧
      ∀ today, e = .prune today → yesterday predOpt today ≤ key.2 := by
  simp only [Unpruned, List.mem_append, List.mem_singleton, or_imp, forall_and, eq_comm]

omit [Unicode] in
/-- Only a prune prunes. -/
theorem unpruned_of_not_prune {e : ServerEvent Day} (h : ∀ today, e ≠ .prune today)
    {key : CampaignId × Day} :
    Unpruned predOpt (events ++ [e]) key ↔ Unpruned predOpt events key :=
  unpruned_concat.trans (and_iff_left fun today he => absurd he (h today))

/-- **One event** leaves a counter for exactly what was tried and not pruned. -/
theorem Retained.step (h : Retained predOpt events server)
    (halong : ∀ session ∈ server.sessions, session.progress.Along session.call.work)
    {e : ServerEvent Day} (htimely : Timely predOpt events server e)
    (hstep : server.step predOpt e = some (server', charge)) :
    Retained predOpt (events ++ [e]) server' := by
  intro key
  cases e with
  | load source =>
    obtain ⟨rfl, -⟩ := Prod.mk.inj (Option.some.inj hstep)
    rw [unpruned_of_not_prune (by simp), refresh_budgets]
    exact h key
  | prune today =>
    obtain ⟨rfl, -⟩ := Prod.mk.inj (Option.some.inj hstep)
    rw [unpruned_concat, ← and_assoc, pruneBudgetDays, BudgetStore.mem_counterKeys_dropDaysBefore]
    refine and_congr (h key) ⟨fun hday today' he => ?_, fun hday => hday today rfl⟩
    obtain rfl := ServerEvent.prune.inj he
    exact hday
  | request order req today =>
    obtain ⟨happ, -, hsessions⟩ := step_request hstep
    have htried : server'.Tried key ↔ server.Tried key := by
      rcases hsessions with hsame | ⟨call, hnew⟩
      · rw [Tried, hsame, Tried]
      · simp [Tried, hnew, or_and_right, exists_or, Session.tried_start]
    rw [unpruned_of_not_prune (by simp), happ, htried]
    exact h key
  | spend i =>
    obtain ⟨session, a, rest, p, hget, hprogress, hp, hsessions, -, -⟩ := step_spend hstep
    have hmem := List.mem_of_getElem? hget
    have hbudgets : (session.call.attempt a server.app.budgets).2 = server'.app.budgets := by
      rw [hprogress] at hp
      exact Progress.step_trying hp
    have htried : server'.Tried key ↔ server.Tried key ∨
        (session.call.asks a).key = key ∧ 0 < (session.call.asks a).amount := by
      rw [Tried, hsessions, Tried]
      refine Tally.exists_mem_set hget ?_
      rw [Session.tried_step (halong session hmem) hprogress hp]
      simp [or_and_right, exists_or]
    -- what is tried now has not been pruned, since no attempt is late
    have hunpruned : (session.call.asks a).key = key → Unpruned predOpt events key := by
      rintro rfl today htoday
      rw [session.call.asks_key_snd]
      exact htimely i session rfl hget today htoday
    rw [unpruned_of_not_prune (by simp), ← hbudgets, Call.mem_counterKeys_attempt, h key, htried]
    constructor
    · rintro (⟨hold, hkept⟩ | hnew)
      · exact ⟨.inl hold, hkept⟩
      · exact ⟨.inr hnew, hunpruned hnew.1⟩
    · rintro ⟨hold | hnew, hkept⟩
      · exact .inl ⟨hold, hkept⟩
      · exact .inr hnew

/-- **At every moment of a run** the store has a counter for exactly what was tried and not
pruned. -/
theorem retained_of_runs (h : Runs predOpt engine events server log) :
    Retained predOpt events server := by
  induction h with
  | start =>
    intro key
    refine iff_of_false List.not_mem_nil ?_
    rintro ⟨⟨session, hsession, -⟩, -⟩
    exact List.not_mem_nil hsession
  | step hruns htimely hstep ih => exact ih.step (inv_of_runs predOpt hruns).along htimely hstep

end Server

/-! ### Two days for each campaign -/

/-- The campaigns that a load reads. -/
def ServiceEvent.loadedIds : ServiceEvent Day → List CampaignId
  | .load (.ok campaigns) => campaigns.map Campaign.id
  | _ => []

namespace Service

variable [LinearOrder Day] {predOpt : Day → Option Day} {render : Registry → String}
  {s : Service Day} {engine : EngineConfig} {events : List (ServiceEvent Day)}
  {log : List (Charge Day)}

/-- What is tried is for a campaign that was loaded, on the day of a request. -/
theorem loaded_of_tried (hruns : Runs predOpt render engine events s log)
    {key : CampaignId × Day} (htried : s.server.Tried key) :
    key.1 ∈ (events.flatMap ServiceEvent.loadedIds).dedup ∧
      ∃ a order, ServiceEvent.arrive a order key.2 ∈ events := by
  obtain ⟨session, hsession, t, ht, rfl, hpos⟩ := htried
  obtain ⟨i, hi⟩ := List.mem_iff_getElem?.mp hsession
  obtain ⟨k, e, h, -, -, hhandles, hcall⟩ := exists_exchange hruns hi
  obtain ⟨a, -, rfl⟩ := List.mem_map.mp ht
  constructor
  · obtain ⟨campaigns, hload, hbuild⟩ := hhandles.loaded
    -- a request tries for candidates only, and these are campaigns of its snapshot
    obtain ⟨c, hc, hid⟩ :
        ∃ c ∈ session.call.snap.campaigns, (session.call.asks a).key.1 = c.id := by
      rw [Call.asks] at hpos ⊢
      rcases hat : session.call.campaignAt a.2 with _ | c
      · rw [hat] at hpos
        exact absurd hpos (lt_irrefl _)
      · obtain ⟨m, -, hc⟩ := Option.bind_eq_some_iff.mp hat
        exact ⟨c, List.mem_of_getElem? hc, rfl⟩
    rw [hcall, Handler.call, (build_eq hbuild).1] at hc
    rw [hid, List.mem_dedup, List.mem_flatMap]
    exact ⟨_, hload, List.mem_map_of_mem hc⟩
  · obtain ⟨arrival, harrival, -⟩ := hhandles.arrived
    obtain ⟨event, hevent, harrive⟩ := List.mem_filterMap.mp (List.mem_of_getElem? harrival)
    refine ⟨arrival, h.order, ?_⟩
    rw [session.call.asks_key_snd, hcall]
    cases event with
    | arrive a order today =>
      obtain ⟨rfl, hrest⟩ := Prod.mk.inj (Option.some.inj harrive)
      obtain ⟨rfl, rfl⟩ := Prod.mk.inj hrest
      exact hevent
    | _ => cases harrive

/-- **The store keeps two days.** At every moment of a run it has a counter for exactly the
campaigns and days for which a request has tried to spend and that no prune has reached; and
after a prune, as long as no request is dated past its day, these are at most two for each
campaign, and at most twice as many as there are campaigns that were ever loaded. -/
theorem keeps_two_days (hruns : Runs predOpt render engine events s log) :
    (∀ key, key ∈ s.server.app.budgets.counterKeys ↔ s.server.Tried key ∧
        ∀ today, ServiceEvent.prune today ∈ events → yesterday predOpt today ≤ key.2) ∧
      ∀ today, ServiceEvent.prune today ∈ events →
        (∀ d, yesterday predOpt today ≤ d → d ≤ today → d = yesterday predOpt today ∨ d = today) →
        (∀ a order d, ServiceEvent.arrive a order d ∈ events → d ≤ today) →
        (∀ campaign, (s.server.app.budgets.counterKeys.filter
            fun key => key.1 = campaign).length ≤ 2) ∧
          s.server.app.budgets.counterKeys.length ≤
            2 * (events.flatMap ServiceEvent.loadedIds).dedup.length := by
  have hkeys : ∀ key, key ∈ s.server.app.budgets.counterKeys ↔ s.server.Tried key ∧
      ∀ today, ServiceEvent.prune today ∈ events → yesterday predOpt today ≤ key.2 := by
    intro key
    rw [Server.retained_of_runs (runs_server hruns) key, Server.Unpruned]
    simp only [ServiceEvent.mem_prune]
  refine ⟨hkeys, fun today hprune hcalendar hclock => ?_⟩
  have hnodup := s.server.app.budgets.nodup_counterKeys
  have hmem : ∀ key ∈ s.server.app.budgets.counterKeys,
      key.1 ∈ (events.flatMap ServiceEvent.loadedIds).dedup ∧
        key.2 ∈ [yesterday predOpt today, today] := by
    intro key hkey
    obtain ⟨htried, hunpruned⟩ := (hkeys key).mp hkey
    obtain ⟨hid, a, order, harrive⟩ := loaded_of_tried hruns htried
    refine ⟨hid, ?_⟩
    rw [List.mem_pair]
    exact hcalendar key.2 (hunpruned today hprune) (hclock a order key.2 harrive)
  constructor
  · intro campaign
    have hsubset : s.server.app.budgets.counterKeys.filter (fun key => key.1 = campaign) ⊆
        [campaign] ×ˢ [yesterday predOpt today, today] := by
      intro key hkey
      obtain ⟨hkey, hid⟩ := List.mem_filter.mp hkey
      exact List.mem_product.mpr
        ⟨List.mem_singleton.mpr (of_decide_eq_true hid), (hmem key hkey).2⟩
    exact ((hnodup.filter _).subperm hsubset).length_le
  · have hsubset : s.server.app.budgets.counterKeys ⊆
        (events.flatMap ServiceEvent.loadedIds).dedup ×ˢ [yesterday predOpt today, today] :=
      fun key hkey => List.mem_product.mpr (hmem key hkey)
    have hle := (hnodup.subperm hsubset).length_le
    rw [List.length_product, Nat.mul_comm] at hle
    exact hle

end Service

end Retention

section Sample

attribute [local instance] Unicode.asciiGreek

theorem keeps_two_days_sample : ∃ s log,
    Service.Runs samplePredOpt (fun _ => "") .default sampleService s log ∧
      s.server.app.budgets.counterKeys.length ≤
        2 * (sampleService.flatMap ServiceEvent.loadedIds).dedup.length := by
  obtain ⟨s, log, hruns, -⟩ := exists_sampleService
  refine ⟨s, log, hruns, ((Service.keeps_two_days hruns).2 2 (by simp [sampleService])
    (fun d hlow hhigh => ?_) fun a order d ha => ?_).2⟩
  · have hday : yesterday samplePredOpt 2 = 1 := rfl
    rw [hday] at hlow ⊢
    omega
  · simp only [sampleService, List.mem_cons, ServiceEvent.arrive.injEq, List.not_mem_nil,
      reduceCtorEq, false_or, or_false] at ha
    rcases ha with ⟨-, -, rfl⟩ | ⟨-, -, rfl⟩ <;> decide

end Sample

end AdMatch
