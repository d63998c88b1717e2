import AdMatch.Counters.Commit

/-!
# What a run leaves behind

A run starts from the counters of a store, each in a place of its own
(`AdMatch.Counters.State.start`), where the invariant holds. What a call returns it
returns once and for all (`AdMatch.Counters.stage_of_returned`), so the log of a run has
exactly the calls that return in it, each once and with what it returns
(`AdMatch.Counters.mem_log`, `AdMatch.Counters.nodup_calls_log`), and the drops of the
run (`AdMatch.Counters.drops_log`).
-/

namespace AdMatch

namespace Counters

variable {ι Day : Type} [DecidableEq ι] [LinearOrder Day]

/-! ### The start -/

section Start

variable {calls : ι → Spend Day} {budgets : MemoryBudgets Day}

omit [DecidableEq ι] in
theorem lookup_start {key : CampaignId × Day} {a : ℕ} :
    (State.start budgets : State ι Day).counters.lookup key = some a ↔
      ∃ v, budgets.counters.entries[a]? = some ⟨key, v⟩ := by
  rw [← Option.mem_def, AList.mem_lookup_iff, State.start]
  simp only [List.mem_map, Prod.exists, List.mem_zipIdx_iff_getElem?]
  constructor
  · rintro ⟨⟨k, v⟩, b, hb, heq⟩
    cases heq
    exact ⟨v, hb⟩
  · rintro ⟨v, hv⟩
    exact ⟨⟨key, v⟩, a, hv, rfl⟩

omit [DecidableEq ι] [LinearOrder Day] in
theorem heap_start (a : ℕ) : (State.start budgets : State ι Day).heap[a]? =
    (budgets.counters.entries[a]?).map fun e => ⟨e.2, []⟩ := List.getElem?_map

omit [DecidableEq ι] in
theorem inv_start : Inv calls (State.start budgets) := by
  refine ⟨fun key a ha => ?_, fun key key' a ha ha' => ?_, fun i a hi => (nomatch hi),
    fun i hi => ?_, fun a c hc v hv => ?_⟩
  · obtain ⟨v, hv⟩ := lookup_start.mp ha
    rw [State.start, List.length_map]
    exact (List.getElem?_eq_some_iff.mp hv).1
  · obtain ⟨v, hv⟩ := lookup_start.mp ha
    obtain ⟨v', hv'⟩ := lookup_start.mp ha'
    have heq := Option.some.inj (hv.symm.trans hv')
    cases heq
    rfl
  · rcases hi with hi | hi <;> cases hi
  · rw [heap_start, Option.map_eq_some_iff] at hc
    obtain ⟨e, -, rfl⟩ := hc
    rw [List.mem_singleton.mp hv]

omit [DecidableEq ι] in
theorem ledger_start : (State.start budgets : State ι Day).ledger = ledgerOf budgets := by
  funext key
  have hstore : ledgerOf budgets key = ((budgets.counters.lookup key).getD 0).toInt := rfl
  rw [hstore]
  cases hlookup : budgets.counters.lookup key with
  | some v =>
    obtain ⟨a, ha⟩ := List.mem_iff_getElem?.mp (AList.mem_lookup_iff.mp hlookup)
    refine State.ledger_of_lookup (lookup_start.mpr ⟨v, ha⟩) (c := ⟨v, []⟩) ?_
    rw [heap_start, ha, Option.map_some]
  | none =>
    refine State.ledger_of_lookup_none ?_
    rw [Option.eq_none_iff_forall_ne_some]
    intro a ha
    obtain ⟨v, hv⟩ := lookup_start.mp ha
    have hmem : budgets.counters.lookup key = some v :=
      AList.mem_lookup_iff.mpr (List.mem_of_getElem? hv)
    rw [hlookup] at hmem
    cases hmem

end Start

/-! ### Calls that return -/

section Returns

variable {calls : ι → Spend Day} {s t u : State ι Day} {e : Event ι Day} {i : ι}

/-- A step moves one call on only. -/
theorem Steps.stage_ne (h : Steps calls s e t) (hi : e.caller ≠ some i) :
    t.stage i = s.stage i := by
  have hne : ∀ j, e.caller = some j → i ≠ j := by
    rintro j hj rfl
    exact hi hj
  cases h with
  | refuse | hit | miss | join | swap => exact State.advance_stage_ne _ (hne _ rfl) _
  | create => exact State.advance_stage_ne _ (hne _ rfl) _
  | @read j n a v e he => exact State.advance_stage_ne _ (hne j (caller_of_read he)) _
  | drop => rfl

/-- A call that has returned takes no step. -/
theorem Steps.result_eq_none (h : Steps calls s e t) (hi : e.caller = some i) :
    (s.stage i).result = none := by
  cases h with
  | refuse hstage | hit hstage | miss hstage | join hstage | create hstage | swap hstage =>
    obtain rfl := Option.some.inj hi
    rw [hstage]
    rfl
  | @read j n a v e he hguard =>
    obtain rfl := Option.some.inj ((caller_of_read he).symm.trans hi)
    cases hstage : s.stage j with
    | called | missed | returned =>
      rw [hstage] at hguard
      cases hguard
    | found | read => rfl
  | drop => cases hi

omit [DecidableEq ι] [LinearOrder Day] in
/-- An event commits a call when it is the call's last step. -/
theorem commit_eq_call {r : Option (Except BudgetError Bool)} :
    commit e t = some (.call i, r) ↔ e.caller = some i ∧ r ≠ none ∧ (t.stage i).result = r := by
  cases hcaller : e.caller with
  | none =>
    cases e with
    | drop today => simp [commit]
    | get j | entry j | load j n | swap j | fail j n => cases hcaller
  | some j =>
    rw [commit_of_caller hcaller, Option.map_eq_some_iff]
    constructor
    · rintro ⟨r', hr', heq⟩
      cases heq
      exact ⟨rfl, Option.some_ne_none r', hr'⟩
    · rintro ⟨hj, hr, heq⟩
      obtain rfl := Option.some.inj hj
      obtain ⟨r', rfl⟩ := Option.ne_none_iff_exists'.mp hr
      exact ⟨r', heq, rfl⟩

variable [Fintype ι]

/-- **What a call has returned stays what it returned.** -/
theorem stage_of_returned {events : List (Event ι Day)}
    (h : Linear.run (step calls) events s = some t) (hi : (s.stage i).result ≠ none) :
    t.stage i = s.stage i := by
  refine Linear.run_induction (I := fun u => u.stage i = s.stage i) (fun u e u' hu hstep => ?_)
    rfl h
  have hsteps := steps_of_step hstep
  refine (hsteps.stage_ne fun hcaller => hi ?_).trans hu
  rw [← hu]
  exact hsteps.result_eq_none hcaller

/-- A call that takes no step stays where it is. -/
theorem stage_of_no_step {events : List (Event ι Day)}
    (h : Linear.run (step calls) events s = some t) (hi : ∀ e ∈ events, e.caller ≠ some i) :
    t.stage i = s.stage i := by
  induction events generalizing s with
  | nil => rw [Option.some.inj h]
  | cons e events ih =>
    obtain ⟨u, hu, hrest⟩ := Linear.run_cons_eq_some.mp h
    rw [ih hrest fun e he => hi e (List.mem_cons_of_mem _ he),
      (steps_of_step hu).stage_ne (hi e List.mem_cons_self)]

/-- **The log of a run** has the calls that return in it, with what they return. -/
theorem mem_log {events : List (Event ι Day)} (h : Linear.run (step calls) events s = some t)
    {r : Option (Except BudgetError Bool)} :
    (Op.call i, r) ∈ Linear.log (step calls) commit events s ↔
      (s.stage i).result = none ∧ r ≠ none ∧ (t.stage i).result = r := by
  induction events generalizing s with
  | nil =>
    obtain rfl := Option.some.inj h
    simp only [Linear.log, List.not_mem_nil, false_iff]
    rintro ⟨hnone, hr, heq⟩
    exact hr (heq.symm.trans hnone)
  | cons e events ih =>
    obtain ⟨u, hu, hrest⟩ := Linear.run_cons_eq_some.mp h
    have hsteps := steps_of_step hu
    rw [Linear.log_cons hu, List.mem_append, ih hrest, Option.mem_toList, commit_eq_call]
    constructor
    · rintro (⟨hcaller, hr, heq⟩ | ⟨hnone, hr, heq⟩)
      · refine ⟨hsteps.result_eq_none hcaller, hr, ?_⟩
        rw [stage_of_returned hrest (by rwa [heq]), heq]
      · refine ⟨?_, hr, heq⟩
        by_cases hcaller : e.caller = some i
        · exact hsteps.result_eq_none hcaller
        · rwa [← hsteps.stage_ne hcaller]
    · rintro ⟨hnone, hr, heq⟩
      by_cases hret : (u.stage i).result = none
      · exact .inr ⟨hret, hr, heq⟩
      · -- it has returned in this step
        refine .inl ⟨?_, hr, ?_⟩
        · by_contra hcaller
          exact hret (hsteps.stage_ne hcaller ▸ hnone)
        · rw [← heq, stage_of_returned hrest hret]

/-- The calls that return in a run are those that had not returned before. -/
theorem mem_calls_log {events : List (Event ι Day)}
    (h : Linear.run (step calls) events s = some t) :
    i ∈ (Linear.log (step calls) commit events s).filterMap (fun r => r.1.call?) ↔
      (s.stage i).result = none ∧ (t.stage i).result ≠ none := by
  rw [List.mem_filterMap]
  constructor
  · rintro ⟨⟨op, r⟩, hmem, hop⟩
    cases op with
    | drop today => cases hop
    | call j =>
      obtain rfl := Option.some.inj hop
      obtain ⟨hnone, hr, heq⟩ := (mem_log h).mp hmem
      exact ⟨hnone, heq ▸ hr⟩
  · rintro ⟨hnone, hr⟩
    exact ⟨(.call i, (t.stage i).result), (mem_log h).mpr ⟨hnone, hr, rfl⟩, rfl⟩

/-- **Every call returns at most once.** -/
theorem nodup_calls_log {events : List (Event ι Day)}
    (h : Linear.run (step calls) events s = some t) :
    ((Linear.log (step calls) commit events s).filterMap fun r => r.1.call?).Nodup := by
  induction events generalizing s with
  | nil => exact List.nodup_nil
  | cons e events ih =>
    obtain ⟨u, hu, hrest⟩ := Linear.run_cons_eq_some.mp h
    have hlater := ih hrest
    rw [Linear.log_cons hu, List.filterMap_append]
    cases hcommit : commit e u with
    | none => exact hlater
    | some c =>
      obtain ⟨op, r⟩ := c
      cases op with
      | drop today => exact hlater
      | call j =>
        refine List.nodup_cons.mpr ⟨fun hmem => ?_, hlater⟩
        -- a call that returns later has not returned yet
        obtain ⟨-, hr, heq⟩ := commit_eq_call.mp hcommit
        exact hr (heq.symm.trans ((mem_calls_log hrest).mp hmem).1)

/-- The drops of a log are those of the run. -/
theorem drops_log {events : List (Event ι Day)}
    (h : Linear.run (step calls) events s = some t) :
    (Linear.log (step calls) commit events s).filterMap (fun r => r.1.drop?) =
      events.filterMap Event.drop? := by
  induction events generalizing s with
  | nil => rfl
  | cons e events ih =>
    obtain ⟨u, hu, hrest⟩ := Linear.run_cons_eq_some.mp h
    rw [Linear.log_cons hu, List.filterMap_append, ih hrest]
    cases e with
    | drop today => rfl
    | get j | entry j | load j n | swap j | fail j n =>
      rw [List.filterMap_cons_none rfl, commit_of_caller rfl]
      cases (u.stage j).result <;> rfl

end Returns

end Counters

end AdMatch
