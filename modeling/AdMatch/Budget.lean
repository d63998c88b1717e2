import AdMatch.Lib.HashMap
import AdMatch.Lib.Ledger
import AdMatch.Model

/-!
# Daily budgets

What each campaign has spent on each day, in one counter per (campaign, day).
Asking whether an amount still fits and adding it is one step. A counter is
created at zero by the first attempt of the day, and forgotten when its day is
dropped; a missing counter reads as zero, so neither is seen from outside.

The store refines a ledger over the integers (`AdMatch.BudgetStore.ledger`): an
attempt to spend is an attempt of the ledger
(`AdMatch.BudgetStore.trySpend_ledger`), the checked addition never deciding
anything that the comparison with the budget does not decide.

Days are those of the calendar library: a type with a linear order.
-/

namespace AdMatch

/-- Why a budget operation failed, as opposed to there being not enough budget
left. -/
inductive BudgetError
  /-- The amount is not positive. -/
  | invalidAmount (amount : Micros)
  deriving DecidableEq

/-- One counter per campaign and day, in the memory of the process. -/
structure MemoryBudgets (Day : Type) where
  counters : HashMap (CampaignId × Day) Int64

/-- The budget backends. -/
inductive BudgetStore (Day : Type)
  | memory (budgets : MemoryBudgets Day)

namespace MemoryBudgets

variable {Day : Type}

/-- No counters. -/
def default : MemoryBudgets Day := ⟨∅⟩

/-- Adds an amount to a counter if the sum exists and stays within the budget:
whether it did, and the counter afterwards. -/
def addWithin (counter : Int64) (amount dailyBudget : Micros) : Bool × Int64 :=
  match (Machine.checkedAddI64 counter amount.val).filter fun total => total ≤ dailyBudget.val with
  | some total => (true, total)
  | none => (false, counter)

/-- **Adding within a budget is exact**: it happens when the exact sum is within
the budget. -/
theorem addWithin_eq (dailyBudget : Micros) (counter : Int64) {amount : Micros}
    (hpos : 0 < amount.toInt) :
    (addWithin counter amount dailyBudget).1 =
        decide (counter.toInt + amount.toInt ≤ dailyBudget.toInt) ∧
      (addWithin counter amount dailyBudget).2.toInt =
        if counter.toInt + amount.toInt ≤ dailyBudget.toInt then counter.toInt + amount.toInt
        else counter.toInt := by
  rw [addWithin]
  cases hsum : Machine.checkedAddI64 counter amount.val with
  | none =>
    -- an overflow is past every budget there is
    have hover := Machine.checkedAddI64_eq_none hsum
    have hmin := Machine.minI64_le_toInt counter
    have hmax := dailyBudget.toInt_le
    have hle : ¬counter.toInt + amount.toInt ≤ dailyBudget.toInt := by
      rcases hover with h | h
      · have : Machine.maxI64 < counter.toInt + amount.toInt := h
        omega
      · have : counter.toInt + amount.toInt < Machine.minI64 := h
        omega
    rw [if_neg hle]
    exact ⟨(decide_eq_false hle).symm, rfl⟩
  | some total =>
    have htotal : total.toInt = counter.toInt + amount.toInt :=
      Machine.checkedAddI64_eq_some.mp hsum
    have hiff : total ≤ dailyBudget.val ↔ counter.toInt + amount.toInt ≤ dailyBudget.toInt := by
      rw [Int64.le_iff_toInt_le, htotal]
      rfl
    rw [Option.filter_some]
    by_cases hle : counter.toInt + amount.toInt ≤ dailyBudget.toInt
    · simp only [hiff.mpr hle, decide_true, if_true, hle, true_and]
      exact htotal
    · simp only [mt hiff.mp hle, decide_false, Bool.false_eq_true, if_false, hle, and_self]

section Store

variable [DecidableEq Day]

/-- Adds an amount to what a campaign spent on a day, if the total stays within
its budget. -/
def trySpend (budgets : MemoryBudgets Day) (campaign : CampaignId) (day : Day)
    (amount dailyBudget : Micros) : Except BudgetError Bool × MemoryBudgets Day :=
  if amount.val ≤ 0 then (.error (.invalidAmount amount), budgets)
  else
    let key := (campaign, day)
    match budgets.counters.lookup key with
    | some counter =>
      let (spent, counter) := addWithin counter amount dailyBudget
      (.ok spent, ⟨AList.insert key counter budgets.counters⟩)
    | none =>
      let (spent, counter) := addWithin 0 amount dailyBudget
      (.ok spent, ⟨AList.insert key counter budgets.counters⟩)

/-- What a campaign spent on a day, zero if nothing yet. -/
def spent (budgets : MemoryBudgets Day) (campaign : CampaignId) (day : Day) : Micros :=
  ⟨(budgets.counters.lookup (campaign, day)).getD 0⟩

end Store

/-- Forgets every counter for days before `today`. -/
def dropDaysBefore [LinearOrder Day] (budgets : MemoryBudgets Day) (today : Day) :
    MemoryBudgets Day :=
  ⟨budgets.counters.retain fun key => key.2 ≥ today⟩

end MemoryBudgets

namespace BudgetStore

variable {Day : Type}

/-- A fresh store with nothing spent yet. -/
def inMemory : BudgetStore Day := .memory MemoryBudgets.default

/-- Spends an amount if it fits in the budget. `ok false` means that it does
not. -/
def trySpend [DecidableEq Day] (store : BudgetStore Day) (campaign : CampaignId) (day : Day)
    (amount dailyBudget : Micros) : Except BudgetError Bool × BudgetStore Day :=
  match store with
  | .memory m =>
    let (result, m) := m.trySpend campaign day amount dailyBudget
    (result, .memory m)

/-- What a campaign spent on a day. -/
def spent [DecidableEq Day] (store : BudgetStore Day) (campaign : CampaignId) (day : Day) :
    Micros :=
  match store with
  | .memory m => m.spent campaign day

/-- Drops counters for days before `today`. -/
def dropDaysBefore [LinearOrder Day] (store : BudgetStore Day) (today : Day) : BudgetStore Day :=
  match store with
  | .memory m => .memory (m.dropDaysBefore today)

/-! ### The ledger behind the store -/

section Ledger

variable [DecidableEq Day]

/-- **What the store says**: the exact amount spent, for each campaign and
day. -/
def ledger (store : BudgetStore Day) (key : CampaignId × Day) : ℤ :=
  (store.spent key.1 key.2).toInt

/-- `unwrap_or(false)`: a failed operation counts as a refusal. -/
def unwrapOrFalse (result : Except BudgetError Bool) : Bool :=
  match result with
  | .ok spent => spent
  | .error _ => false

/-- The attempt that a call makes on the ledger. -/
def attemptOf (campaign : CampaignId) (day : Day) (amount dailyBudget : Micros) :
    Ledger.Attempt (CampaignId × Day) :=
  ⟨(campaign, day), amount.toInt, dailyBudget.toInt⟩

@[simp] theorem ledger_inMemory (key : CampaignId × Day) : ledger inMemory key = 0 := rfl

/-- What is spent after a counter is written. -/
theorem ledger_insert (counters : HashMap (CampaignId × Day) Int64) (key : CampaignId × Day)
    (counter : Int64) :
    ledger (.memory ⟨AList.insert key counter counters⟩) =
      Function.update (ledger (.memory ⟨counters⟩)) key counter.toInt := by
  funext k
  by_cases hk : k = key
  · subst hk
    rw [Function.update_self]
    change ((AList.lookup k (AList.insert k counter counters)).getD 0).toInt = counter.toInt
    rw [AList.lookup_insert, Option.getD_some]
  · rw [Function.update_of_ne hk]
    change ((AList.lookup k (AList.insert key counter counters)).getD 0).toInt = _
    rw [AList.lookup_insert_ne hk]
    rfl

/-- **An amount is invalid exactly when it is not positive**, and the store is
then left alone. -/
theorem trySpend_eq_error {store : BudgetStore Day} {campaign : CampaignId} {day : Day}
    {amount dailyBudget : Micros} :
    (∃ e, (store.trySpend campaign day amount dailyBudget).1 = .error e) ↔ amount.toInt ≤ 0 := by
  obtain ⟨m⟩ := store
  have hiff : amount.val ≤ 0 ↔ amount.toInt ≤ 0 := Int64.le_iff_toInt_le
  rw [← hiff]
  simp only [trySpend, MemoryBudgets.trySpend]
  split_ifs with hpos
  · simp [hpos]
  · simp only [hpos, iff_false, not_exists]
    intro e
    cases m.counters.lookup (campaign, day) <;> simp

/-- **Spending is an attempt on the ledger.** -/
theorem trySpend_ledger (campaign : CampaignId) (day : Day) (amount dailyBudget : Micros)
    (store : BudgetStore Day) :
    Prod.map unwrapOrFalse ledger (store.trySpend campaign day amount dailyBudget) =
      Ledger.attempt (attemptOf campaign day amount dailyBudget) store.ledger := by
  obtain ⟨⟨counters⟩⟩ := store
  have hiff : amount.val ≤ 0 ↔ amount.toInt ≤ 0 := Int64.le_iff_toInt_le
  by_cases hpos : amount.val ≤ 0
  · have hfits : ¬Ledger.Fits (ledger (.memory ⟨counters⟩))
        (attemptOf campaign day amount dailyBudget) := fun h => absurd (hiff.mp hpos) h.1.not_ge
    rw [Ledger.attempt_of_not_fits hfits]
    simp only [trySpend, MemoryBudgets.trySpend, if_pos hpos]
    rfl
  · have hamount : 0 < amount.toInt := not_le.mp (mt hiff.mpr hpos)
    -- both branches add to the counter that the ledger shows
    have hcall : (memory ⟨counters⟩).trySpend campaign day amount dailyBudget =
        let r := MemoryBudgets.addWithin ((counters.lookup (campaign, day)).getD 0) amount
          dailyBudget
        (.ok r.1, .memory ⟨AList.insert (campaign, day) r.2 counters⟩) := by
      simp only [trySpend, MemoryBudgets.trySpend, if_neg hpos]
      cases counters.lookup (campaign, day) <;> rfl
    obtain ⟨hok, hval⟩ := MemoryBudgets.addWithin_eq dailyBudget
      ((counters.lookup (campaign, day)).getD 0) hamount
    simp only [hcall, Prod.map_apply, ledger_insert, hval, unwrapOrFalse, hok]
    by_cases hle : ((counters.lookup (campaign, day)).getD 0).toInt + amount.toInt ≤
        dailyBudget.toInt
    · have hfits : Ledger.Fits (ledger (.memory ⟨counters⟩))
          (attemptOf campaign day amount dailyBudget) := ⟨hamount, hle⟩
      rw [Ledger.attempt_of_fits hfits, if_pos hle, decide_eq_true hle]
      rfl
    · have hfits : ¬Ledger.Fits (ledger (.memory ⟨counters⟩))
          (attemptOf campaign day amount dailyBudget) := fun h => hle h.2
      rw [Ledger.attempt_of_not_fits hfits, if_neg hle, decide_eq_false hle]
      exact congrArg (Prod.mk false) (Function.update_eq_self _ _)

end Ledger

/-- **Dropping days** forgets what was spent on them, and only that. -/
theorem ledger_dropDaysBefore [LinearOrder Day] (store : BudgetStore Day) (today : Day)
    (key : CampaignId × Day) :
    (store.dropDaysBefore today).ledger key = if today ≤ key.2 then store.ledger key else 0 := by
  obtain ⟨m⟩ := store
  change ((AList.lookup key (HashMap.retain _ m.counters)).getD 0).toInt = _
  rw [HashMap.lookup_retain]
  simp only [ge_iff_le, decide_eq_true_eq]
  split_ifs <;> rfl

end BudgetStore

end AdMatch
