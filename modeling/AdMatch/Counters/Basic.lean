import AdMatch.Budget
import AdMatch.Lib.Commits

/-!
# Spending, one atomic step at a time

`AdMatch.MemoryBudgets.trySpend` is what one call does when nothing comes between.
Here any number of calls run at once, and what is atomic is only what the program
relies on to be: looking a counter up in the map, finding or creating its entry,
loading the counter, one compare-and-swap, and dropping days. Between any two of them
the other calls may do anything.

* A lookup that finds nothing is followed by `entry`, which looks again, since another
  call may have created the counter meanwhile.
* A load is *relaxed*: it returns any value that the counter has held. So does a
  compare-and-swap that fails, and it may fail for no reason. One that succeeds finds
  the value that it expects to be the latest.
* A call refers to its counter until it returns, and as long as it does the map keeps
  it: dropping days waits.
-/

namespace AdMatch

namespace Counters

/-! ### Calls -/

/-- The arguments of one call of `try_spend`. -/
structure Spend (Day : Type) where
  campaign : CampaignId
  day : Day
  amount : Micros
  dailyBudget : Micros
  deriving DecidableEq

namespace Spend

variable {Day : Type}

/-- The key of the counter that a call adds to. -/
def key (call : Spend Day) : CampaignId × Day := (call.campaign, call.day)

/-- A call as a whole: `try_spend` with nothing in between. -/
def perform [DecidableEq Day] (call : Spend Day) (budgets : MemoryBudgets Day) :
    Except BudgetError Bool × MemoryBudgets Day :=
  budgets.trySpend call.campaign call.day call.amount call.dailyBudget

/-- What a call, having read a counter, wants to replace its value by: nothing if the
sum does not exist or is above the budget. -/
def nextSpent (call : Spend Day) (spent : Int64) : Option Int64 :=
  (Machine.checkedAddI64 spent call.amount.val).filter fun total => total ≤ call.dailyBudget.val

end Spend

/-- How far a call is. -/
inductive Stage
  /-- It has done nothing yet. -/
  | called
  /-- It found no counter for its key. -/
  | missed
  /-- It refers to a counter. -/
  | found (counter : ℕ)
  /-- It refers to a counter, has read a value of it, and is about to replace it. -/
  | read (counter : ℕ) (prev : Int64)
  | returned (result : Except BudgetError Bool)

namespace Stage

/-- The counter that a call refers to. -/
def guard : Stage → Option ℕ
  | found a => some a
  | read a _ => some a
  | _ => none

/-- What a call has returned. -/
def result : Stage → Option (Except BudgetError Bool)
  | returned r => some r
  | _ => none

end Stage

/-- What a call does with a value it has read: it gives up, or tries to replace it. -/
def Spend.proceed {Day : Type} (call : Spend Day) (counter : ℕ) (prev : Int64) : Stage :=
  match call.nextSpent prev with
  | none => .returned (.ok false)
  | some _ => .read counter prev

/-! ### The shared state -/

/-- An atomic counter: its value, and those that it had before, the latest first. -/
structure Counter where
  value : Int64
  earlier : List Int64

/-- What a relaxed load may return. -/
def Counter.held (c : Counter) : List Int64 := c.value :: c.earlier

/-- The counters, each in a place of its own; the map from keys to the places of the
counters; and how far each call is. -/
structure State (ι Day : Type) where
  counters : HashMap (CampaignId × Day) ℕ
  heap : List Counter
  stage : ι → Stage

/-- One atomic step. Where a value is read, `n` says which of those held. -/
inductive Event (ι Day : Type)
  /-- The check of the amount, and `get`. -/
  | get (i : ι)
  /-- `entry(key).or_default()`. -/
  | entry (i : ι)
  /-- The load that `fetch_update` starts with. -/
  | load (i : ι) (n : ℕ)
  /-- A compare-and-swap that succeeds. -/
  | swap (i : ι)
  /-- A compare-and-swap that fails. -/
  | fail (i : ι) (n : ℕ)
  /-- `drop_days_before`. -/
  | drop (today : Day)
  deriving DecidableEq

/-- The call that takes a step. -/
def Event.caller {ι Day : Type} : Event ι Day → Option ι
  | get i => some i
  | entry i => some i
  | load i _ => some i
  | swap i => some i
  | fail i _ => some i
  | drop _ => none

/-- The day that a step drops up to. -/
def Event.drop? {ι Day : Type} : Event ι Day → Option Day
  | drop today => some today
  | _ => none

namespace State

variable {ι Day : Type}

/-- A counter as a relaxed load sees it. -/
def read (s : State ι Day) (counter n : ℕ) : Option Int64 :=
  (s.heap[counter]?).bind fun c => c.held[n]?

section Advance

variable [DecidableEq ι]

/-- One call gets further, and nothing else happens. -/
def advance (s : State ι Day) (i : ι) (stage : Stage) : State ι Day :=
  { s with stage := Function.update s.stage i stage }

@[simp] theorem advance_heap (s : State ι Day) (i : ι) (stage : Stage) :
    (s.advance i stage).heap = s.heap := rfl

@[simp] theorem advance_stage_self (s : State ι Day) (i : ι) (stage : Stage) :
    (s.advance i stage).stage i = stage := Function.update_self _ _ _

theorem advance_stage_ne (s : State ι Day) {i j : ι} (h : j ≠ i) (stage : Stage) :
    (s.advance i stage).stage j = s.stage j := Function.update_of_ne h _ _

end Advance

section Shared

variable [DecidableEq Day]

/-- A new counter for a key. -/
def create (s : State ι Day) (key : CampaignId × Day) : State ι Day :=
  { s with
    counters := AList.insert key s.heap.length s.counters
    heap := s.heap ++ [⟨0, []⟩] }

/-- A counter is given a new value. -/
def write (s : State ι Day) (counter : ℕ) (c : Counter) (next : Int64) : State ι Day :=
  { s with heap := s.heap.set counter ⟨next, c.held⟩ }

/-- The total spent by a campaign on a day, as `spent` reads the latest value of the
counter. -/
def spent (s : State ι Day) (campaign : CampaignId) (day : Day) : Micros :=
  ⟨(((s.counters.lookup (campaign, day)).bind fun a => s.heap[a]?).map Counter.value).getD 0⟩

end Shared

/-- The counters of a store, before any call. -/
def start (budgets : MemoryBudgets Day) : State ι Day where
  counters :=
    { entries := budgets.counters.entries.zipIdx.map fun e => ⟨e.1.1, e.2⟩
      nodupKeys := by
        have hkeys := budgets.counters.nodupKeys
        rw [List.NodupKeys, List.keys] at hkeys ⊢
        rw [← List.zipIdx_map_fst 0 budgets.counters.entries, List.map_map] at hkeys
        rw [List.map_map]
        exact hkeys }
  heap := budgets.counters.entries.map fun e => ⟨e.2, []⟩
  stage _ := .called

end State

/-! ### Steps -/

section Step

variable {ι Day : Type} [DecidableEq ι] [Fintype ι] [LinearOrder Day]

/-- What one atomic step leads to, if it can be taken. -/
def step (calls : ι → Spend Day) (s : State ι Day) : Event ι Day → Option (State ι Day)
  | .get i =>
    match s.stage i with
    | .called =>
      -- refused before any counter is looked for
      if (calls i).amount.val ≤ 0 then
        some (s.advance i (.returned (.error (.invalidAmount (calls i).amount))))
      else
        match s.counters.lookup (calls i).key with
        | some a => some (s.advance i (.found a))
        | none => some (s.advance i .missed)
    | _ => none
  | .entry i =>
    match s.stage i with
    | .missed =>
      -- another call may have created the counter since `get` missed it
      match s.counters.lookup (calls i).key with
      | some a => some (s.advance i (.found a))
      | none => some ((s.create (calls i).key).advance i (.found s.heap.length))
    | _ => none
  | .load i n =>
    match s.stage i with
    | .found a => (s.read a n).map fun v => s.advance i ((calls i).proceed a v)
    | _ => none
  | .swap i =>
    match s.stage i with
    | .read a prev =>
      match s.heap[a]?, (calls i).nextSpent prev with
      | some c, some next =>
        if c.value = prev then some ((s.write a c next).advance i (.returned (.ok true))) else none
      | _, _ => none
    | _ => none
  | .fail i n =>
    match s.stage i with
    | .read a _ => (s.read a n).map fun v => s.advance i ((calls i).proceed a v)
    | _ => none
  | .drop today =>
    -- `retain` waits as long as a call holds an entry that it would remove
    if ∀ i, (s.stage i).guard.isSome → today ≤ (calls i).day then
      some { s with counters := s.counters.retain fun key => key.2 ≥ today }
    else none

end Step

end Counters

end AdMatch
