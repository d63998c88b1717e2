import AdMatch.Counters.Invariant

/-!
# Where a call takes effect

Seen through its counters, a state is a ledger (`AdMatch.Counters.State.ledger`), on
which a call as a whole is an attempt and a drop of days forgets
(`AdMatch.Counters.Op.onLedger`). A new counter is not seen, for it says what the
missing one said. So nothing changes the ledger but the step by which a call returns,
and that changes it as the whole call would at that moment
(`AdMatch.Counters.Steps.commit_cases`): it is the call's commit point, and the steps
linearise (`AdMatch.Counters.commits_step`).
-/

namespace AdMatch

namespace Counters

variable {ι Day : Type} [DecidableEq ι] [LinearOrder Day] {calls : ι → Spend Day}
  {s t : State ι Day} {e : Event ι Day}

/-! ### The ledger behind the counters -/

/-- **What the counters say**: the exact amount spent, for each campaign and day. -/
def State.ledger (s : State ι Day) (key : CampaignId × Day) : ℤ := (s.spent key.1 key.2).toInt

omit [DecidableEq ι] in
theorem State.ledger_of_lookup {key : CampaignId × Day} {a : ℕ} {c : Counter}
    (hlookup : s.counters.lookup key = some a) (hheap : s.heap[a]? = some c) :
    s.ledger key = c.value.toInt := by
  obtain ⟨campaign, day⟩ := key
  rw [State.ledger, State.spent, hlookup, Option.bind_some, hheap]
  rfl

omit [DecidableEq ι] in
theorem State.ledger_of_lookup_none {key : CampaignId × Day}
    (hlookup : s.counters.lookup key = none) : s.ledger key = 0 := by
  obtain ⟨campaign, day⟩ := key
  rw [State.ledger, State.spent, hlookup]
  rfl

omit [DecidableEq ι] in
/-- Counters in their places say the same. -/
theorem State.ledger_congr {key : CampaignId × Day}
    (hlookup : t.counters.lookup key = s.counters.lookup key)
    (hheap : ∀ a, s.counters.lookup key = some a → t.heap[a]? = s.heap[a]?) :
    t.ledger key = s.ledger key := by
  obtain ⟨campaign, day⟩ := key
  rw [State.ledger, State.ledger, State.spent, State.spent, hlookup]
  cases hs : s.counters.lookup (campaign, day) with
  | none => rfl
  | some a => rw [Option.bind_some, Option.bind_some, hheap a hs]

@[simp] theorem State.ledger_advance (s : State ι Day) (i : ι) (stage : Stage) :
    (s.advance i stage).ledger = s.ledger := rfl

namespace Inv

omit [DecidableEq ι] in
/-- **A new counter is not seen**: it says what the missing one said. -/
theorem ledger_create (h : Inv calls s) {key : CampaignId × Day}
    (hkey : s.counters.lookup key = none) : (s.create key).ledger = s.ledger := by
  funext key'
  rcases eq_or_ne key' key with rfl | hne
  · have hlookup : (s.create key').counters.lookup key' = some s.heap.length :=
      AList.lookup_insert _
    have hheap : (s.create key').heap[s.heap.length]? = some ⟨0, []⟩ := by
      rw [State.create, List.getElem?_append_right (le_refl _), Nat.sub_self]
      rfl
    rw [State.ledger_of_lookup hlookup hheap, State.ledger_of_lookup_none hkey]
    rfl
  · refine State.ledger_congr (AList.lookup_insert_ne hne) fun a ha => ?_
    exact List.getElem?_append_left (h.allocated key' a ha)

omit [DecidableEq ι] in
/-- **A written counter is seen at its key only.** -/
theorem ledger_write (h : Inv calls s) {key : CampaignId × Day} {a : ℕ} {c : Counter}
    (hkey : s.counters.lookup key = some a) (hc : s.heap[a]? = some c) (next : Int64) :
    (s.write a c next).ledger = Function.update s.ledger key next.toInt := by
  obtain ⟨hlt, -⟩ := List.getElem?_eq_some_iff.mp hc
  funext key'
  rcases eq_or_ne key' key with rfl | hne
  · rw [Function.update_self]
    have hlookup : (s.write a c next).counters.lookup key' = some a := hkey
    have hheap : (s.write a c next).heap[a]? = some ⟨next, c.held⟩ := List.getElem?_set_self hlt
    exact State.ledger_of_lookup hlookup hheap
  · rw [Function.update_of_ne hne]
    refine State.ledger_congr rfl fun b hb => ?_
    have hab : a ≠ b := by
      rintro rfl
      exact hne (h.distinct key' key a hb hkey)
    exact List.getElem?_set_ne hab

end Inv

omit [DecidableEq ι] in
/-- Dropped counters say nothing any more, the others what they said. -/
theorem State.ledger_drop (s : State ι Day) (today : Day) :
    State.ledger { s with counters := s.counters.retain fun key => key.2 ≥ today } =
      fun key => if today ≤ key.2 then s.ledger key else 0 := by
  funext key
  have hlookup := HashMap.lookup_retain (fun key : CampaignId × Day => decide (key.2 ≥ today))
    s.counters key
  split_ifs with hday
  · rw [if_pos (decide_eq_true hday)] at hlookup
    exact State.ledger_congr hlookup fun _ _ => rfl
  · rw [if_neg (by simpa using hday)] at hlookup
    exact State.ledger_of_lookup_none hlookup

/-! ### What takes effect at once -/

/-- A call as a whole, or a drop of days. -/
inductive Op (ι Day : Type)
  | call (i : ι)
  | drop (today : Day)
  deriving DecidableEq

namespace Op

/-- The call that an operation is. -/
def call? : Op ι Day → Option ι
  | call i => some i
  | drop _ => none

/-- The day that an operation drops up to. -/
def drop? : Op ι Day → Option Day
  | call _ => none
  | drop today => some today

end Op

/-- An operation on a store, with what the call returns. -/
def Op.perform (calls : ι → Spend Day) (op : Op ι Day) (budgets : MemoryBudgets Day) :
    Option (Except BudgetError Bool) × MemoryBudgets Day :=
  match op with
  | call i => Prod.map some id ((calls i).perform budgets)
  | drop today => (none, budgets.dropDaysBefore today)

/-- The attempt that a call makes on the ledger. -/
def Spend.attempt (call : Spend Day) : Ledger.Attempt (CampaignId × Day) :=
  ⟨call.key, call.amount.toInt, call.dailyBudget.toInt⟩

/-- **A call on the ledger**: refused as invalid, or an attempt. -/
def Spend.onLedger (call : Spend Day) (s : CampaignId × Day → ℤ) :
    Except BudgetError Bool × (CampaignId × Day → ℤ) :=
  if call.amount.toInt ≤ 0 then (.error (.invalidAmount call.amount), s)
  else Prod.map .ok id (Ledger.attempt call.attempt s)

/-- An operation on the ledger. -/
def Op.onLedger (calls : ι → Spend Day) (op : Op ι Day) (s : CampaignId × Day → ℤ) :
    Option (Except BudgetError Bool) × (CampaignId × Day → ℤ) :=
  match op with
  | call i => Prod.map some id ((calls i).onLedger s)
  | drop today => (none, fun key => if today ≤ key.2 then s key else 0)

/-- What a store says. -/
def ledgerOf (budgets : MemoryBudgets Day) : CampaignId × Day → ℤ :=
  (BudgetStore.memory budgets).ledger

omit [DecidableEq ι] in
/-- **On the ledger, a call is what it is on the store.** -/
theorem Spend.perform_ledger (call : Spend Day) (budgets : MemoryBudgets Day) :
    Prod.map id ledgerOf (call.perform budgets) = call.onLedger (ledgerOf budgets) := by
  have hledger := BudgetStore.trySpend_ledger call.campaign call.day call.amount call.dailyBudget
    (.memory budgets)
  have hiff : call.amount.val ≤ 0 ↔ call.amount.toInt ≤ 0 := Int64.le_iff_toInt_le
  rw [onLedger]
  split_ifs with hamount
  · rw [perform, MemoryBudgets.trySpend, if_pos (hiff.mpr hamount)]
    rfl
  · have hfst : BudgetStore.unwrapOrFalse (call.perform budgets).1 =
        (Ledger.attempt call.attempt (ledgerOf budgets)).1 := congrArg Prod.fst hledger
    have hsnd : ledgerOf (call.perform budgets).2 =
        (Ledger.attempt call.attempt (ledgerOf budgets)).2 := congrArg Prod.snd hledger
    refine Prod.ext ?_ hsnd
    -- a positive amount is no error, so the result is what is left of it on the ledger
    cases hr : (call.perform budgets).1 with
    | error e =>
      have hstore : ((BudgetStore.memory budgets).trySpend call.campaign call.day call.amount
          call.dailyBudget).1 = .error e := hr
      exact absurd (BudgetStore.trySpend_eq_error.mp ⟨e, hstore⟩) hamount
    | ok spent =>
      rw [hr] at hfst
      exact hr.trans (congrArg Except.ok hfst)

omit [DecidableEq ι] in
/-- On the ledger, so is every operation. -/
theorem Op.perform_ledger (calls : ι → Spend Day) (op : Op ι Day) (budgets : MemoryBudgets Day) :
    Prod.map id ledgerOf (op.perform calls budgets) = op.onLedger calls (ledgerOf budgets) := by
  cases op with
  | drop today =>
    refine Prod.ext rfl (funext fun key => ?_)
    exact BudgetStore.ledger_dropDaysBefore (.memory budgets) today key
  | call i =>
    rw [Op.onLedger, ← Spend.perform_ledger]
    rfl

/-- What an event has committed, from the state after it: a drop at once, a call when
it returns. -/
def commit (e : Event ι Day) (t : State ι Day) :
    Option (Op ι Day × Option (Except BudgetError Bool)) :=
  match e with
  | .drop today => some (.drop today, none)
  | .get i | .entry i | .load i _ | .swap i | .fail i _ =>
    (t.stage i).result.map fun r => (.call i, some r)

omit [DecidableEq ι] [LinearOrder Day] in
theorem commit_of_caller {i : ι} (he : e.caller = some i) (t : State ι Day) :
    commit e t = (t.stage i).result.map fun r => (.call i, some r) := by
  cases e with
  | drop today => cases he
  | get j | entry j | load j n | swap j | fail j n =>
    obtain rfl := Option.some.inj he
    rfl

omit [DecidableEq ι] in
/-- A call whose amount is positive is an attempt. -/
theorem Spend.onLedger_of_pos {call : Spend Day} (hpos : 0 < call.amount.toInt)
    (s : CampaignId × Day → ℤ) :
    call.onLedger s = Prod.map .ok id (Ledger.attempt call.attempt s) := if_neg hpos.not_ge

omit [DecidableEq ι] in
/-- **What a value read says of the counter**: if it refuses the call, so does the
latest. -/
theorem not_fits_of_read (h : Inv calls s) {i : ι} {a n : ℕ} {v : Int64}
    (hguard : (s.stage i).guard = some a) (hread : s.read a n = some v)
    (hover : (calls i).dailyBudget.toInt < v.toInt + (calls i).amount.toInt) :
    ¬Ledger.Fits s.ledger (calls i).attempt := by
  rintro ⟨-, hle⟩
  obtain ⟨c, hc, hv⟩ := Option.bind_eq_some_iff.mp hread
  have hledger : s.ledger (calls i).key = c.value.toInt :=
    State.ledger_of_lookup (h.guarded i a hguard) hc
  have hold := h.growing a c hc v (List.mem_of_getElem? hv)
  change s.ledger (calls i).key + (calls i).amount.toInt ≤ (calls i).dailyBudget.toInt at hle
  omega

omit [LinearOrder Day] in
/-- A call that moves on commits when it has returned. -/
theorem commit_advance {i : ι} (he : e.caller = some i) (s : State ι Day) (stage : Stage) :
    commit e (s.advance i stage) = stage.result.map fun r => (.call i, some r) := by
  rw [commit_of_caller he, State.advance_stage_self]

/-- **What a step does to the ledger**: nothing, unless it commits an operation, and
then what that operation does. -/
theorem Steps.commit_cases (hstep : Steps calls s e t) (h : Inv calls s) :
    (commit e t = none ∧ t.ledger = s.ledger) ∨
      ∃ o r, commit e t = some (o, r) ∧ o.onLedger calls s.ledger = (r, t.ledger) := by
  cases hstep with
  | @refuse i hstage hamount =>
    refine .inr ⟨.call i, some (.error (.invalidAmount (calls i).amount)), ?_, ?_⟩
    · exact commit_advance rfl s _
    · rw [Op.onLedger, Spend.onLedger, if_pos hamount]
      rfl
  | hit | miss | join => exact .inl ⟨commit_advance rfl s _, rfl⟩
  | create hstage hlookup => exact .inl ⟨commit_advance rfl _ _, h.ledger_create hlookup⟩
  | @read i n a v e he hguard hread =>
    rw [commit_advance (caller_of_read he), Spend.proceed]
    have hpos := h.pos_of_guard hguard
    cases hnext : (calls i).nextSpent v with
    | none =>
      have hover := Spend.nextSpent_eq_none hpos hnext
      refine .inr ⟨.call i, some (.ok false), rfl, ?_⟩
      rw [Op.onLedger, Spend.onLedger_of_pos hpos,
        Ledger.attempt_of_not_fits (not_fits_of_read h hguard hread hover)]
      rfl
    | some next => exact .inl ⟨rfl, rfl⟩
  | @swap i a c next hstage hheap hnext =>
    have hguard : (s.stage i).guard = some a := by
      rw [hstage]
      rfl
    have hpos := h.pos_of_guard hguard
    have hlookup := h.guarded i a hguard
    have hledger : s.ledger (calls i).key = c.value.toInt := State.ledger_of_lookup hlookup hheap
    obtain ⟨hval, hle⟩ := Spend.nextSpent_eq_some hpos hnext
    have hfits : Ledger.Fits s.ledger (calls i).attempt := by
      refine ⟨hpos, ?_⟩
      change s.ledger (calls i).key + (calls i).amount.toInt ≤ (calls i).dailyBudget.toInt
      rwa [hledger]
    refine .inr ⟨.call i, some (.ok true), commit_advance rfl _ _, ?_⟩
    rw [Op.onLedger, Spend.onLedger_of_pos hpos, Ledger.attempt_of_fits hfits,
      State.ledger_advance, h.ledger_write hlookup hheap, hval, ← hledger]
    rfl
  | @drop today hguard => exact .inr ⟨.drop today, none, rfl, by rw [State.ledger_drop]; rfl⟩

/-- **The steps linearise**: every change of the ledger is that of a call or a drop as
a whole, made when it commits. -/
theorem commits_step [Fintype ι] (calls : ι → Spend Day) :
    Linear.Commits (step calls) commit (Inv calls) State.ledger (Op.onLedger calls) where
  preserved _ _ _ h hstep := h.step (steps_of_step hstep)
  silent s e t h hstep hnone := by
    rcases (steps_of_step hstep).commit_cases h with ⟨-, heq⟩ | ⟨o, r, hsome, -⟩
    · exact heq
    · rw [hnone] at hsome
      cases hsome
  commits s e t o r h hstep hsome := by
    rcases (steps_of_step hstep).commit_cases h with ⟨hnone, -⟩ | ⟨o', r', hsome', heq⟩
    · rw [hnone] at hsome
      cases hsome
    · obtain ⟨rfl, rfl⟩ := Prod.mk.inj (Option.some.inj (hsome.symm.trans hsome'))
      exact heq

end Counters

end AdMatch
