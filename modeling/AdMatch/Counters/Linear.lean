import AdMatch.Counters.Log
import AdMatch.Counters.Series
import Mathlib.Data.Finset.Card

/-!
# Spending is linearisable

Whatever the interleaving of their steps, calls of `try_spend` and drops of days have
the results and leave the counters that they would have and leave one after another,
in the order in which they commit (`AdMatch.Counters.trySpend_linearisable`): a call
where it returns, which is between where it begins and where it has returned. When no
day is dropped that a call spends on, the calls alone do, and then each of them
succeeds exactly when the exact total stays within its budget – so that of equal calls
on a fresh counter exactly as many succeed as fit.

None of this says that a call returns: a compare-and-swap may fail again and again. But
one that is left alone does (`AdMatch.Counters.exists_returns`).
-/

namespace AdMatch

namespace Counters

variable {ι Day : Type} [DecidableEq ι] [LinearOrder Day]

/-! ### The run and the series -/

/-- No day is dropped that a call spends on. -/
def Spares (calls : ι → Spend Day) (events : List (Event ι Day)) : Prop :=
  ∀ today, Event.drop today ∈ events → ∀ i, today ≤ (calls i).day

/-- **A run is a series of operations**, calls and drops of days. -/
structure Linearises [Fintype ι] (calls : ι → Spend Day) (budgets : MemoryBudgets Day)
    (events : List (Event ι Day)) (s : State ι Day) (ops : List (Op ι Day)) : Prop where
  /-- The calls are those that have returned, each once. -/
  nodup : (ops.filterMap Op.call?).Nodup
  returned : ∀ i, i ∈ ops.filterMap Op.call? ↔ (s.stage i).result ≠ none
  /-- The drops are those of the run, in their order. -/
  drops : ops.filterMap Op.drop? = events.filterMap Event.drop?
  /-- What has returned, or was dropped, at some moment of the run comes first. -/
  realTime : ∀ pre post t, events = pre ++ post →
    Linear.run (step calls) pre (State.start budgets) = some t →
    ∃ earlier later, ops = earlier ++ later ∧
      (∀ i, i ∈ earlier.filterMap Op.call? ↔ (t.stage i).result ≠ none) ∧
      earlier.filterMap Op.drop? = pre.filterMap Event.drop?
  /-- Every call returns in the run what it returns in the series. -/
  results : ∀ i r, (.call i, some r) ∈ (Interleaving.serial (Op.perform calls) ops budgets).1 ↔
    (s.stage i).result = some r
  /-- The run leaves what the series leaves. -/
  spent : ∀ campaign day,
    (Interleaving.serial (Op.perform calls) ops budgets).2.spent campaign day = s.spent campaign day

/-- **A run is a series of calls alone**, in exact numbers. -/
structure LinearisesAlone (calls : ι → Spend Day) (budgets : MemoryBudgets Day)
    (events : List (Event ι Day)) (s : State ι Day) (order : List ι) : Prop where
  results : ∀ i r, (i, r) ∈ (Interleaving.serial (fun i => (calls i).perform) order budgets).1 ↔
    (s.stage i).result = some r
  spent : ∀ campaign day, (∀ today, Event.drop today ∈ events → today ≤ day) →
    (Interleaving.serial (fun i => (calls i).perform) order budgets).2.spent campaign day =
      s.spent campaign day
  /-- Each call returns what the exact total says. -/
  exact : ∀ earlier i later, order = earlier ++ i :: later →
    (s.stage i).result = some ((calls i).returns
      ((budgets.spent (calls i).campaign (calls i).day).toInt +
        added calls (fun j => (s.stage j).result) earlier (calls i).key +
        (calls i).amount.toInt))
  /-- The successful amounts, each once, are what is spent. -/
  total : ∀ campaign day, (∀ today, Event.drop today ∈ events → today ≤ day) →
    (s.spent campaign day).toInt = (budgets.spent campaign day).toInt +
      added calls (fun j => (s.stage j).result) order (campaign, day)

section Run

/-- The operations that commit in a run from the start, with their results. -/
def history [Fintype ι] (calls : ι → Spend Day) (budgets : MemoryBudgets Day)
    (events : List (Event ι Day)) : List (Op ι Day × Option (Except BudgetError Bool)) :=
  Linear.log (step calls) commit events (State.start budgets)

variable [Fintype ι] {calls : ι → Spend Day} {budgets : MemoryBudgets Day}
  {events : List (Event ι Day)} {s : State ι Day}

/-- **Every run keeps the invariant.** -/
theorem inv_of_run (hrun : Linear.run (step calls) events (State.start budgets) = some s) :
    Inv calls s :=
  Linear.run_induction (fun _ _ _ hs he => hs.step (steps_of_step he)) inv_start hrun

theorem mem_history (hrun : Linear.run (step calls) events (State.start budgets) = some s) {i : ι}
    {r : Except BudgetError Bool} :
    (Op.call i, some r) ∈ history calls budgets events ↔ (s.stage i).result = some r :=
  (mem_log hrun).trans ⟨fun h => h.2.2, fun h => ⟨rfl, Option.some_ne_none r, h⟩⟩

theorem mem_calls_history (hrun : Linear.run (step calls) events (State.start budgets) = some s)
    {i : ι} : i ∈ (history calls budgets events).filterMap (fun r => r.1.call?) ↔
      (s.stage i).result ≠ none :=
  (mem_calls_log hrun).trans (and_iff_right rfl)

theorem nodup_calls_history
    (hrun : Linear.run (step calls) events (State.start budgets) = some s) :
    ((history calls budgets events).filterMap fun r => r.1.call?).Nodup := nodup_calls_log hrun

/-- The run, as a series on the ledger. -/
theorem serial_onLedger (hrun : Linear.run (step calls) events (State.start budgets) = some s) :
    Interleaving.serial (Op.onLedger calls)
        ((history calls budgets events).map Prod.fst)
        (ledgerOf budgets) =
      (history calls budgets events, s.ledger) := by
  rw [← ledger_start (ι := ι)]
  exact (commits_step calls).serial_log inv_start hrun

/-- The run, as a series on the store. -/
theorem serial_perform (hrun : Linear.run (step calls) events (State.start budgets) = some s) :
    Prod.map id ledgerOf (Interleaving.serial (Op.perform calls)
        ((history calls budgets events).map Prod.fst) budgets) =
      (history calls budgets events, s.ledger) := by
  have hop : ∀ op m, Prod.map id ledgerOf (Op.perform calls op m) =
      Prod.map (fun r => r) id (Op.onLedger calls op (ledgerOf m)) := Op.perform_ledger calls
  rw [Interleaving.serial_observe hop, serial_onLedger hrun]
  exact Prod.ext (List.map_id _) rfl

/-- **Every run is a series** of the operations that commit in it. -/
theorem linearises (hrun : Linear.run (step calls) events (State.start budgets) = some s) :
    Linearises calls budgets events s
      ((history calls budgets events).map Prod.fst) := by
  have hseries := serial_perform hrun
  refine ⟨?_, fun i => ?_, ?_, fun pre post t hevents ht => ?_, fun i r => ?_,
    fun campaign day => Micros.toInt_injective ?_⟩
  · rw [List.filterMap_map]
    exact nodup_calls_history hrun
  · rw [List.filterMap_map]
    exact mem_calls_history hrun
  · rw [List.filterMap_map]
    exact drops_log hrun
  · subst hevents
    refine ⟨_, _, (congrArg (List.map Prod.fst) (Linear.log_append ht)).trans List.map_append,
      fun i => ?_, ?_⟩
    · rw [List.filterMap_map]
      exact mem_calls_history ht
    · rw [List.filterMap_map]
      exact drops_log ht
  · rw [← mem_history hrun]
    exact Iff.of_eq (congrArg (fun l => (Op.call i, some r) ∈ l) (congrArg Prod.fst hseries))
  · exact congrFun (congrArg Prod.snd hseries) (campaign, day)

/-- Whether the drops of a run leave a key alone. -/
def Untouched (events : List (Event ι Day)) (key : CampaignId × Day) : Prop :=
  ∀ today, Event.drop today ∈ events → today ≤ key.2

/-- The drops that commit are those of the run. -/
theorem drop_mem_of_history
    (hrun : Linear.run (step calls) events (State.start budgets) = some s) {today : Day}
    (hmem : Op.drop today ∈ (history calls budgets events).map Prod.fst) :
    Event.drop today ∈ events := by
  have htoday : today ∈ ((history calls budgets events).map Prod.fst).filterMap Op.drop? :=
    List.mem_filterMap.mpr ⟨_, hmem, rfl⟩
  rw [(linearises hrun).drops, List.mem_filterMap] at htoday
  obtain ⟨e, he, heq⟩ := htoday
  cases e with
  | drop day => rwa [Option.some.inj heq] at he
  | get | entry | load | swap | fail => cases heq

/-- The calls that commit, with what they return. -/
theorem mem_calls_results
    (hrun : Linear.run (step calls) events (State.start budgets) = some s) {i : ι}
    {r : Except BudgetError Bool} :
    (i, some r) ∈ (history calls budgets events).filterMap
      (fun r => r.1.call?.map fun i => (i, r.2)) ↔ (s.stage i).result = some r := by
  rw [List.mem_filterMap, ← mem_history hrun]
  constructor
  · rintro ⟨⟨o, r'⟩, hlog, heq⟩
    obtain ⟨j, hj, heq⟩ := Option.map_eq_some_iff.mp heq
    cases o with
    | drop today => cases hj
    | call k =>
      obtain rfl := Option.some.inj hj
      obtain ⟨rfl, rfl⟩ := Prod.mk.inj heq
      exact hlog
  · exact fun h => ⟨(.call i, some r), h, rfl⟩

/-- **Drops that spare the days of the calls do not matter to them**: the calls alone
return what they do in the run, and leave the same on what the drops leave alone. -/
theorem serial_alone (hrun : Linear.run (step calls) events (State.start budgets) = some s)
    (hspares : Spares calls events) :
    (∀ i r, (i, r) ∈ (Interleaving.serial (fun i => (calls i).onLedger)
        ((history calls budgets events).filterMap
          fun r => r.1.call?) (ledgerOf budgets)).1 ↔ (s.stage i).result = some r) ∧
    ∀ key, Untouched events key →
      (Interleaving.serial (fun i => (calls i).onLedger)
        ((history calls budgets events).filterMap
          fun r => r.1.call?) (ledgerOf budgets)).2 key = s.ledger key := by
  -- a drop is not seen where the drops of the run leave the counters alone
  have hskip : ∀ o ∈ (history calls budgets events).map Prod.fst,
      o.call? = none → ∀ s S : CampaignId × Day → ℤ,
        (∀ key, Untouched events key → s key = S key) →
        ∀ key, Untouched events key → (o.onLedger calls s).2 key = S key := by
    intro o ho hnone s S hagree key hkey
    cases o with
    | call i => cases hnone
    | drop today =>
      have hday : today ≤ key.2 := hkey today (drop_mem_of_history hrun ho)
      exact (if_pos hday).trans (hagree key hkey)
  -- a call depends on its own counter only, which they do leave alone
  have hpick : ∀ o ∈ (history calls budgets events).map Prod.fst,
      ∀ i, o.call? = some i → ∀ s S : CampaignId × Day → ℤ,
        (∀ key, Untouched events key → s key = S key) →
        (o.onLedger calls s).1 = some ((calls i).onLedger S).1 ∧
          ∀ key, Untouched events key →
            (o.onLedger calls s).2 key = ((calls i).onLedger S).2 key := by
    intro o ho i hsome s S hagree
    cases o with
    | drop today => cases hsome
    | call j =>
      obtain rfl := Option.some.inj hsome
      obtain ⟨hfst, hsnd⟩ := (calls j).onLedger_congr hagree fun today h => hspares today h j
      exact ⟨congrArg some hfst, hsnd⟩
  obtain ⟨hresults, hlast⟩ := Linear.serial_filterMap some
    (fun s S : CampaignId × Day → ℤ => ∀ key, Untouched events key → s key = S key) hskip hpick
    fun key _ => rfl
  rw [serial_onLedger hrun, List.filterMap_map] at hresults hlast
  refine ⟨fun i r => ?_, fun key hkey => (hlast key hkey).symm⟩
  rw [← mem_calls_results hrun, hresults, List.mem_map]
  constructor
  · exact fun h => ⟨(i, r), h, rfl⟩
  · rintro ⟨⟨j, r'⟩, hj, heq⟩
    obtain ⟨hi, hr⟩ := Prod.mk.inj heq
    obtain rfl : j = i := hi
    rwa [← Option.some.inj hr]

/-- **Every run is a series of calls alone**, when its drops spare their days. -/
theorem linearisesAlone (hrun : Linear.run (step calls) events (State.start budgets) = some s)
    (hspares : Spares calls events) : LinearisesAlone calls budgets events s
      ((history calls budgets events).filterMap fun r => r.1.call?) := by
  obtain ⟨hresults, hlast⟩ := serial_alone hrun hspares
  have hcall : ∀ i m, Prod.map id ledgerOf ((calls i).perform m) =
      Prod.map (fun r => r) id ((calls i).onLedger (ledgerOf m)) :=
    fun i m => (calls i).perform_ledger m
  have hseries := Interleaving.serial_observe hcall
    ((history calls budgets events).filterMap fun r => r.1.call?) budgets
  obtain ⟨hexact, htotal⟩ := serial_exact
    (fun key => Machine.minI64_le_toInt (budgets.spent key.1 key.2).val)
    fun i r => (hresults i r).mp
  refine ⟨fun i r => ?_, fun campaign day hday => Micros.toInt_injective ?_, hexact,
    fun campaign day hday => ?_⟩
  · rw [← hresults]
    have hfst := congrArg Prod.fst hseries
    rw [Prod.map_fst, Prod.map_fst, id, List.map_id'] at hfst
    rw [hfst]
  · exact (congrFun (congrArg Prod.snd hseries) (campaign, day)).trans (hlast (campaign, day) hday)
  · exact (hlast (campaign, day) hday).symm.trans (htotal (campaign, day))

/-! ### Single steps -/

/-- A counter that is live: in the map, or still referred to by a call. -/
def Live (calls : ι → Spend Day) (s : State ι Day) (key : CampaignId × Day) (a : ℕ) : Prop :=
  s.counters.lookup key = some a ∨ ∃ i, (calls i).key = key ∧ (s.stage i).guard = some a

omit [DecidableEq ι] [Fintype ι] in
/-- **There is one live counter for a key at most**, and none for two keys. -/
theorem live_iff (h : Inv calls s) {key key' : CampaignId × Day} {a a' : ℕ}
    (hlive : Live calls s key a) (hlive' : Live calls s key' a') : a = a' ↔ key = key' := by
  have hmap : ∀ key a, Live calls s key a → s.counters.lookup key = some a := by
    rintro key a (hlookup | ⟨i, rfl, hguard⟩)
    · exact hlookup
    · exact h.guarded i a hguard
  have ha := hmap key a hlive
  have ha' := hmap key' a' hlive'
  constructor
  · rintro rfl
    exact h.distinct key key' a ha ha'
  · rintro rfl
    exact Option.some.inj (ha.symm.trans ha')

/-- **A call that does not succeed changes nothing that is seen**, at any step. -/
theorem spent_eq_of_not_success {pre post : List (Event ι Day)} {e : Event ι Day}
    (hrun : Linear.run (step calls) (pre ++ e :: post) (State.start budgets) = some s)
    {t t' : State ι Day} (ht : Linear.run (step calls) pre (State.start budgets) = some t)
    (hstep : step calls t e = some t') {i : ι} (hcaller : e.caller = some i)
    (hi : (s.stage i).result ≠ some (.ok true)) (campaign : CampaignId) (day : Day) :
    t'.spent campaign day = t.spent campaign day := by
  obtain ⟨u, hu, hpost⟩ := Linear.run_append.mp hrun
  obtain rfl := Option.some.inj (ht.symm.trans hu)
  obtain ⟨u', hu', hrest⟩ := Linear.run_cons_eq_some.mp hpost
  obtain rfl := Option.some.inj (hstep.symm.trans hu')
  have hinv := inv_of_run ht
  have hledger : t'.ledger = t.ledger := by
    rcases (steps_of_step hstep).commit_cases hinv with ⟨-, heq⟩ | ⟨o, r, hcommit, hwhole⟩
    · exact heq
    · -- the step by which the call returns: it returns what it has in the end
      cases o with
      | drop today =>
        have hnone := commit_of_caller hcaller t'
        rw [hcommit] at hnone
        obtain ⟨r', -, heq⟩ := Option.map_eq_some_iff.mp hnone.symm
        cases heq
      | call j =>
        obtain ⟨hj, hr, heq⟩ := commit_eq_call.mp hcommit
        obtain rfl := Option.some.inj (hcaller.symm.trans hj)
        have hreturns : some ((calls i).onLedger t.ledger).1 = r := congrArg Prod.fst hwhole
        have hafter : ((calls i).onLedger t.ledger).2 = t'.ledger := congrArg Prod.snd hwhole
        rw [stage_of_returned hrest (by rwa [heq]), heq, ← hreturns] at hi
        rw [← hafter, Spend.onLedger_snd_of_ne fun h => hi (congrArg some h)]
  exact Micros.toInt_injective (congrFun hledger (campaign, day))

omit [LinearOrder Day] in
/-- Counting in a list without repeats. -/
theorem card_filter_univ {order : List ι} (hnodup : order.Nodup) {p : ι → Prop} [DecidablePred p]
    (h : ∀ i, p i → i ∈ order) :
    (Finset.univ.filter p).card = order.countP fun i => p i := by
  rw [List.countP_eq_length_filter, ← List.toFinset_card_of_nodup (hnodup.filter _)]
  refine congrArg Finset.card ?_
  ext i
  rw [Finset.mem_filter, List.mem_toFinset, List.mem_filter, decide_eq_true_eq]
  exact ⟨fun hi => ⟨h i hi.2, hi.2⟩, fun hi => ⟨Finset.mem_univ i, hi.2⟩⟩

/-- **Of equal calls on a fresh counter, as many succeed as fit.** -/
theorem card_success (hrun : Linear.run (step calls) events (State.start budgets) = some s)
    (hspares : Spares calls events) {key : CampaignId × Day} {a b : ℤ} (ha : 0 < a) (hb : 0 ≤ b)
    (hfresh : budgets.counters.lookup key = none)
    (hequal : ∀ i, (calls i).key = key → (calls i).amount.toInt = a ∧
      (calls i).dailyBudget.toInt = b ∧ (s.stage i).result ≠ none) :
    ((Finset.univ.filter fun i =>
        (calls i).key = key ∧ (s.stage i).result = some (.ok true)).card : ℤ) =
      min ((Finset.univ.filter fun i => (calls i).key = key).card : ℤ) (b / a) := by
  have hnodup := nodup_calls_history hrun
  have hzero : ledgerOf budgets key = 0 := by
    have hstore : ledgerOf budgets key = ((budgets.counters.lookup key).getD 0).toInt := rfl
    rw [hstore, hfresh]
    rfl
  rw [card_filter_univ hnodup fun i hi => (mem_calls_history hrun).mpr (hequal i hi.1).2.2,
    card_filter_univ hnodup fun i hi => (mem_calls_history hrun).mpr (hequal i hi).2.2]
  exact count_eq_min ha hb hzero (fun i _ hi => ⟨(hequal i hi).1, (hequal i hi).2.1⟩)
    (linearisesAlone hrun hspares).exact

end Run

/-! ### Calls that are left alone -/

section Alone

variable [Fintype ι] {calls : ι → Spend Day} {budgets : MemoryBudgets Day} {s : State ι Day} {i : ι}

/-- A call can return by steps of its own. -/
def CanReturn (calls : ι → Spend Day) (s : State ι Day) (i : ι) : Prop :=
  ∃ events, (∀ e ∈ events, Event.caller e = some i) ∧ ∃ t,
    Linear.run (step calls) events s = some t ∧ (t.stage i).result ≠ none

theorem CanReturn.of_step {e : Event ι Day} {t : State ι Day} (he : e.caller = some i)
    (hstep : step calls s e = some t) (h : CanReturn calls t i) : CanReturn calls s i := by
  obtain ⟨events, hevents, u, hu, hreturned⟩ := h
  refine ⟨e :: events, fun e' he' => ?_, u, Linear.run_cons_eq_some.mpr ⟨t, hstep, hu⟩, hreturned⟩
  rcases List.mem_cons.mp he' with rfl | he'
  · exact he
  · exact hevents e' he'

theorem canReturn_of_returned (h : (s.stage i).result ≠ none) : CanReturn calls s i :=
  ⟨[], fun _ he => absurd he List.not_mem_nil, s, rfl, h⟩

/-- Having read the latest value, a call gives up or replaces it. -/
theorem canReturn_of_proceed {a : ℕ} {c : Counter} (hheap : s.heap[a]? = some c)
    (hstage : s.stage i = (calls i).proceed a c.value) : CanReturn calls s i := by
  rw [Spend.proceed] at hstage
  cases hnext : (calls i).nextSpent c.value with
  | none =>
    rw [hnext] at hstage
    refine canReturn_of_returned ?_
    rw [hstage]
    exact Option.some_ne_none _
  | some next =>
    rw [hnext] at hstage
    have hstep : step calls s (.swap i) =
        some ((s.write a c next).advance i (.returned (.ok true))) := by
      simp only [step, hstage, hheap, hnext, if_true]
    refine .of_step rfl hstep (canReturn_of_returned ?_)
    rw [State.advance_stage_self]
    exact Option.some_ne_none _

/-- A call that refers to a counter can read its latest value. -/
theorem canReturn_of_guard (h : Inv calls s) {a : ℕ} (hguard : (s.stage i).guard = some a) :
    CanReturn calls s i := by
  obtain ⟨c, hheap⟩ : ∃ c, s.heap[a]? = some c :=
    ⟨_, List.getElem?_eq_getElem (h.allocated _ a (h.guarded i a hguard))⟩
  have hread : s.read a 0 = some c.value := by
    rw [State.read, hheap]
    rfl
  have hafter : CanReturn calls (s.advance i ((calls i).proceed a c.value)) i :=
    canReturn_of_proceed (by rwa [State.advance_heap]) (State.advance_stage_self _ _ _)
  -- a load reads the latest value if it likes, and so does a swap that fails
  cases hstage : s.stage i with
  | called | missed | returned =>
    rw [hstage] at hguard
    cases hguard
  | found b =>
    rw [hstage] at hguard
    obtain rfl := Option.some.inj hguard
    refine .of_step (e := .load i 0) rfl ?_ hafter
    simp only [step, hstage, hread, Option.map_some]
  | read b prev =>
    rw [hstage] at hguard
    obtain rfl := Option.some.inj hguard
    refine .of_step (e := .fail i 0) rfl ?_ hafter
    simp only [step, hstage, hread, Option.map_some]

/-- **A call that is left alone returns**, wherever it is. -/
theorem exists_returns (h : Inv calls s) (i : ι) : CanReturn calls s i := by
  -- after `entry` there is a counter, whether or not another call has made it
  have hmissed : ∀ {s : State ι Day}, Inv calls s → s.stage i = .missed → CanReturn calls s i := by
    intro s h hstage
    obtain ⟨t, ht, a, hguard⟩ : ∃ t, step calls s (.entry i) = some t ∧
        ∃ a, (t.stage i).guard = some a := by
      simp only [step, hstage]
      cases s.counters.lookup (calls i).key with
      | some a => exact ⟨_, rfl, a, by rw [State.advance_stage_self]; rfl⟩
      | none => exact ⟨_, rfl, _, by rw [State.advance_stage_self]; rfl⟩
    exact .of_step rfl ht (canReturn_of_guard (h.step (steps_of_step ht)) hguard)
  cases hstage : s.stage i with
  | called =>
    obtain ⟨t, ht, hafter⟩ : ∃ t, step calls s (.get i) = some t ∧
        ((t.stage i).result ≠ none ∨ t.stage i = .missed ∨ ∃ a, (t.stage i).guard = some a) := by
      simp only [step, hstage]
      split_ifs with hamount
      · exact ⟨_, rfl, .inl (by rw [State.advance_stage_self]; exact Option.some_ne_none _)⟩
      · cases s.counters.lookup (calls i).key with
        | some a => exact ⟨_, rfl, .inr (.inr ⟨a, by rw [State.advance_stage_self]; rfl⟩)⟩
        | none => exact ⟨_, rfl, .inr (.inl (State.advance_stage_self _ _ _))⟩
    have hinv := h.step (steps_of_step ht)
    refine .of_step rfl ht ?_
    rcases hafter with hreturned | hmiss | ⟨a, hguard⟩
    · exact canReturn_of_returned hreturned
    · exact hmissed hinv hmiss
    · exact canReturn_of_guard hinv hguard
  | missed => exact hmissed h hstage
  | found a =>
    refine canReturn_of_guard (a := a) h ?_
    rw [hstage]
    rfl
  | read a prev =>
    refine canReturn_of_guard (a := a) h ?_
    rw [hstage]
    rfl
  | returned r =>
    refine canReturn_of_returned ?_
    rw [hstage]
    exact Option.some_ne_none _

/-- **A call with nothing in between is `try_spend`.** -/
theorem exists_run_eq_perform (calls : ι → Spend Day) (budgets : MemoryBudgets Day) (i : ι) :
    ∃ events, (∀ e ∈ events, Event.caller e = some i) ∧ ∃ t,
      Linear.run (step calls) events (State.start budgets) = some t ∧
      (t.stage i).result = some ((calls i).perform budgets).1 ∧
      ∀ campaign day,
        t.spent campaign day = ((calls i).perform budgets).2.spent campaign day := by
  have hinv : Inv calls (State.start budgets) := inv_start
  obtain ⟨events, hevents, t, hrun, hreturned⟩ := exists_returns hinv i
  have hdrops : ∀ today, Event.drop today ∉ events := by
    intro today hmem
    cases hevents _ hmem
  have hspares : Spares calls events := fun today hmem => absurd hmem (hdrops today)
  have halone := linearisesAlone hrun hspares
  have horder : ((history calls budgets events).filterMap fun r => r.1.call?) = [i] := by
    refine List.perm_singleton.mp ((List.perm_ext_iff_of_nodup (nodup_calls_history hrun)
      (List.nodup_singleton i)).mpr fun j => ?_)
    rw [mem_calls_history hrun, List.mem_singleton]
    constructor
    · intro hj
      by_contra hne
      refine hj ?_
      rw [stage_of_no_step hrun fun e he hcaller =>
        hne (Option.some.inj (hcaller.symm.trans (hevents e he)))]
      rfl
    · rintro rfl
      exact hreturned
  rw [horder] at halone
  refine ⟨events, hevents, t, hrun, (halone.results i _).mp List.mem_cons_self, ?_⟩
  exact fun campaign day =>
    (halone.spent campaign day fun today hmem => absurd hmem (hdrops today)).symm

end Alone

/-! ### Linearisability -/

section Linearisable

variable [Fintype ι]

/-- **Spending is linearisable.** In whatever order the atomic steps of any number of
calls are taken, together with drops of days, at every moment:

* the run is a series of whole calls and drops, in the order in which they commit; and
  a series of the calls alone, in exact numbers, when no day is dropped that a call
  spends on;
* a key has one live counter at most, which is that of no other key;
* no step of a call that does not succeed changes what anything has spent;
* of equal calls on a fresh counter exactly as many succeed as fit, when all have
  returned. -/
theorem trySpend_linearisable (calls : ι → Spend Day) (budgets : MemoryBudgets Day)
    {events : List (Event ι Day)} {s : State ι Day}
    (hrun : Linear.run (step calls) events (State.start budgets) = some s) :
    (∃ ops, Linearises calls budgets events s ops ∧
      (Spares calls events →
        LinearisesAlone calls budgets events s (ops.filterMap Op.call?))) ∧
    (∀ key key' a a', Live calls s key a → Live calls s key' a' → (a = a' ↔ key = key')) ∧
    (∀ pre e post t t' i, events = pre ++ e :: post →
      Linear.run (step calls) pre (State.start budgets) = some t → step calls t e = some t' →
      e.caller = some i → (s.stage i).result ≠ some (.ok true) →
      ∀ campaign day, t'.spent campaign day = t.spent campaign day) ∧
    (Spares calls events → ∀ (key : CampaignId × Day) (a b : ℤ), 0 < a → 0 ≤ b →
      budgets.counters.lookup key = none →
      (∀ i, (calls i).key = key → (calls i).amount.toInt = a ∧
        (calls i).dailyBudget.toInt = b ∧ (s.stage i).result ≠ none) →
      ((Finset.univ.filter fun i =>
          (calls i).key = key ∧ (s.stage i).result = some (.ok true)).card : ℤ) =
        min ((Finset.univ.filter fun i => (calls i).key = key).card : ℤ) (b / a)) := by
  have hinv := inv_of_run hrun
  refine ⟨⟨_, linearises hrun, fun hspares => ?_⟩, fun key key' a a' => live_iff hinv, ?_, ?_⟩
  · rw [List.filterMap_map]
    exact linearisesAlone hrun hspares
  · rintro pre e post t t' i rfl ht hstep hcaller hi campaign day
    exact spent_eq_of_not_success hrun ht hstep hcaller hi campaign day
  · exact fun hspares key a b ha hb hfresh hequal =>
      card_success hrun hspares ha hb hfresh hequal

end Linearisable

section Sample

/-- Two calls that spend 7 out of 10 on the same day. -/
def sampleSpends (_ : Bool) : Spend ℕ := ⟨⟨42⟩, 1, ⟨7⟩, ⟨10⟩⟩

/-- Both find no counter; one creates it, the other joins; both read zero; one replaces
it, the other fails to, and reads again. -/
def sampleSteps : List (Event Bool ℕ) :=
  [.get true, .get false, .entry true, .entry false, .load true 0, .load false 0, .drop 1,
    .swap true, .fail false 1, .fail false 0]

theorem trySpend_linearisable_sample : ∃ s,
    Linear.run (step sampleSpends) sampleSteps (State.start MemoryBudgets.default) = some s ∧
      (s.stage true).result = some (.ok true) ∧ (s.stage false).result = some (.ok false) ∧
      ((Finset.univ.filter fun i => (sampleSpends i).key = (⟨42⟩, 1) ∧
          (s.stage i).result = some (.ok true)).card : ℤ) =
        min ((Finset.univ.filter fun i => (sampleSpends i).key = (⟨42⟩, 1)).card : ℤ) (10 / 7) := by
  obtain ⟨s, hrun, htrue, hfalse⟩ : ∃ s, Linear.run (step sampleSpends) sampleSteps
      (State.start MemoryBudgets.default) = some s ∧ (s.stage true).result = some (.ok true) ∧
        (s.stage false).result = some (.ok false) := ⟨_, rfl, rfl, rfl⟩
  obtain ⟨-, -, -, hcount⟩ := trySpend_linearisable sampleSpends MemoryBudgets.default hrun
  have hspares : Spares sampleSpends sampleSteps := by
    intro today htoday i
    have h1 : today = 1 := by simpa [sampleSteps] using htoday
    exact h1.le
  refine ⟨s, hrun, htrue, hfalse, hcount hspares _ 7 10 (by decide) (by decide) rfl fun i _ => ?_⟩
  refine ⟨rfl, rfl, ?_⟩
  rcases i with _ | _
  · exact hfalse ▸ Option.some_ne_none _
  · exact htrue ▸ Option.some_ne_none _

end Sample

end Counters

end AdMatch
