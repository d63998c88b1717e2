import AdMatch.Counters.Commit
import Mathlib.Algebra.Order.BigOperators.Group.List

/-!
# Calls one after another

What a series of calls does to a ledger, in exact numbers: a counter grows by the
amounts of the calls that succeed (`AdMatch.Counters.serial_exact`), and each call
succeeds exactly when the total, its own amount included, stays within its budget. Of
equal calls on a counter at zero, as many succeed as fit
(`AdMatch.Counters.count_eq_min`).
-/

namespace AdMatch

namespace Counters

variable {ι Day : Type} [LinearOrder Day]

/-- The numbers that an `i64` can be. -/
def InI64 (n : ℤ) : Prop := Machine.minI64 ≤ n ∧ n ≤ Machine.maxI64

instance (n : ℤ) : Decidable (InI64 n) := inferInstanceAs (Decidable (_ ∧ _))

variable {calls : ι → Spend Day} {result : ι → Option (Except BudgetError Bool)}

/-- What the successful calls of a list add to a counter. -/
def added (calls : ι → Spend Day) (result : ι → Option (Except BudgetError Bool))
    (order : List ι) (key : CampaignId × Day) : ℤ :=
  Ledger.total ((order.filter fun i => result i = some (.ok true)).map fun i => (calls i).attempt)
    key

@[simp] theorem added_nil (key : CampaignId × Day) : added calls result [] key = 0 := rfl

theorem added_cons (i : ι) (order : List ι) (key : CampaignId × Day) :
    added calls result (i :: order) key =
      (if result i = some (.ok true) ∧ (calls i).key = key then (calls i).amount.toInt else 0) +
        added calls result order key := by
  rw [added, List.filter_cons]
  by_cases hi : result i = some (.ok true)
  · simp only [hi, decide_true, if_true, List.map_cons, true_and]
    exact Ledger.total_cons _ _ _
  · simp only [hi, decide_false, Bool.false_eq_true, if_false, false_and, Int.zero_add]
    rfl

/-! ### One call -/

/-- What one call returns, on a ledger. -/
theorem Spend.onLedger_fst (call : Spend Day) (s : CampaignId × Day → ℤ) :
    (call.onLedger s).1 =
      if call.amount.toInt ≤ 0 then .error (.invalidAmount call.amount)
      else .ok (decide (s call.key + call.amount.toInt ≤ call.dailyBudget.toInt)) := by
  rw [onLedger]
  split_ifs with hamount
  · rfl
  · have hiff : Ledger.Fits s call.attempt ↔
        s call.key + call.amount.toInt ≤ call.dailyBudget.toInt :=
      and_iff_right (not_le.mp hamount)
    rw [Prod.map_fst, Ledger.attempt_fst]
    exact congrArg Except.ok (decide_eq_decide.mpr hiff)

/-- A call that succeeds adds its amount to its counter, any other nothing. -/
theorem Spend.onLedger_snd (call : Spend Day) (s : CampaignId × Day → ℤ)
    (key : CampaignId × Day) :
    (call.onLedger s).2 key =
      s key + if (call.onLedger s).1 = .ok true ∧ call.key = key then call.amount.toInt else 0 := by
  rw [onLedger_fst, onLedger]
  split_ifs with hamount h h
  · cases h.1
  · exact (Int.add_zero _).symm
  · have hle := of_decide_eq_true (Except.ok.inj h.1)
    have hfits : Ledger.Fits s call.attempt := ⟨not_le.mp hamount, hle⟩
    rw [Ledger.attempt_of_fits hfits]
    exact (Ledger.charge_apply s call.attempt key).trans (congrArg _ (if_pos h.2.symm))
  · rw [Int.add_zero, Prod.map_snd, id]
    by_cases hfits : Ledger.Fits s call.attempt
    · rw [Ledger.attempt_of_fits hfits]
      refine Ledger.charge_ne s _ fun hkey => h ⟨?_, hkey.symm⟩
      exact congrArg Except.ok (decide_eq_true hfits.2)
    · rw [Ledger.attempt_of_not_fits hfits]

/-- A call that does not succeed changes nothing. -/
theorem Spend.onLedger_snd_of_ne {call : Spend Day} {s : CampaignId × Day → ℤ}
    (h : (call.onLedger s).1 ≠ .ok true) : (call.onLedger s).2 = s := by
  funext key
  rw [onLedger_snd, if_neg fun hand => h hand.1, Int.add_zero]

/-- Counters never shrink. -/
theorem Spend.le_onLedger (call : Spend Day) (s : CampaignId × Day → ℤ)
    (key : CampaignId × Day) : s key ≤ (call.onLedger s).2 key := by
  rw [onLedger_snd, onLedger_fst]
  split_ifs with hamount h h
  · cases h.1
  · omega
  · omega
  · omega

/-- A call depends on its own counter only, and changes no other. -/
theorem Spend.onLedger_congr (call : Spend Day) {s S : CampaignId × Day → ℤ}
    {U : CampaignId × Day → Prop} (h : ∀ key, U key → s key = S key) (hkey : U call.key) :
    (call.onLedger s).1 = (call.onLedger S).1 ∧
      ∀ key, U key → (call.onLedger s).2 key = (call.onLedger S).2 key := by
  have hfst : (call.onLedger s).1 = (call.onLedger S).1 := by
    rw [onLedger_fst, onLedger_fst, h call.key hkey]
  refine ⟨hfst, fun key hU => ?_⟩
  rw [onLedger_snd, onLedger_snd, hfst, h key hU]

/-- What a call should return when the total, its own amount included, is `total`: it
succeeds when that is within the budget, and a number that the counter can hold. -/
def Spend.returns (call : Spend Day) (total : ℤ) : Except BudgetError Bool :=
  if call.amount.toInt ≤ 0 then .error (.invalidAmount call.amount)
  else .ok (decide (total ≤ call.dailyBudget.toInt ∧ InI64 total))

/-- **A call returns what it should.** -/
theorem Spend.onLedger_fst_eq_returns (call : Spend Day) {s : CampaignId × Day → ℤ}
    (hs : Machine.minI64 ≤ s call.key) :
    (call.onLedger s).1 = call.returns (s call.key + call.amount.toInt) := by
  rw [onLedger_fst, returns]
  split_ifs with hamount
  · rfl
  · refine congrArg Except.ok (decide_eq_decide.mpr (iff_self_and.mpr fun hle => ⟨?_, ?_⟩))
    · omega
    · exact hle.trans call.dailyBudget.toInt_le

/-! ### A series of calls -/

/-- **A series in exact numbers**: each call returns what the total says, and every
counter grows by what the successful calls add to it. -/
theorem serial_exact {order : List ι} {L : CampaignId × Day → ℤ}
    (hmin : ∀ key, Machine.minI64 ≤ L key)
    (hresult : ∀ i r, (i, r) ∈ (Interleaving.serial (fun i => (calls i).onLedger) order L).1 →
      result i = some r) :
    (∀ earlier i later, order = earlier ++ i :: later →
      result i = some ((calls i).returns (L (calls i).key +
        added calls result earlier (calls i).key + (calls i).amount.toInt))) ∧
    ∀ key, (Interleaving.serial (fun i => (calls i).onLedger) order L).2 key =
      L key + added calls result order key := by
  induction order generalizing L with
  | nil =>
    refine ⟨fun earlier i later h => ?_, fun key => (Int.add_zero _).symm⟩
    exact absurd h (by simp)
  | cons j order ih =>
    have hj : result j = some ((calls j).onLedger L).1 := hresult j _ List.mem_cons_self
    obtain ⟨hlater, htotal⟩ := @ih ((calls j).onLedger L).2
      (fun key => (hmin key).trans ((calls j).le_onLedger L key))
      fun i r hi => hresult i r (List.mem_cons_of_mem _ hi)
    -- what the first call adds is in the counters that the others meet
    have hmove : ∀ earlier key, ((calls j).onLedger L).2 key + added calls result earlier key =
        L key + added calls result (j :: earlier) key := by
      intro earlier key
      rw [Spend.onLedger_snd, added_cons, hj]
      simp only [Option.some.injEq]
      omega
    constructor
    · intro earlier i later h
      rcases earlier with _ | ⟨j', earlier⟩
      · obtain ⟨rfl, -⟩ := List.cons.inj h
        rw [hj, Spend.onLedger_fst_eq_returns _ (hmin _), added_nil, Int.add_zero]
      · obtain ⟨rfl, hrest⟩ := List.cons.inj h
        rw [hlater earlier i later hrest, hmove]
    · intro key
      rw [← hmove]
      exact htotal key

/-- Calls of one amount add it as many times as they succeed. -/
theorem added_eq_mul {order : List ι} {key : CampaignId × Day} {a : ℤ}
    (h : ∀ i ∈ order, (calls i).key = key → (calls i).amount.toInt = a) :
    added calls result order key =
      order.countP (fun i => (calls i).key = key ∧ result i = some (.ok true)) * a := by
  induction order with
  | nil => exact (Int.zero_mul a).symm
  | cons i order ih =>
    rw [added_cons, ih fun j hj => h j (List.mem_cons_of_mem i hj), List.countP_cons]
    by_cases hi : result i = some (.ok true) ∧ (calls i).key = key
    · rw [if_pos hi, if_pos (decide_eq_true hi.symm), h i List.mem_cons_self hi.2, Nat.cast_succ,
        Int.add_mul, Int.one_mul, Int.add_comm]
    · rw [if_neg hi, if_neg (by simpa using mt And.symm hi), Nat.add_zero, Int.zero_add]

/-- **Of equal calls on a counter at zero, as many succeed as fit.** -/
theorem count_eq_min {order : List ι} {L : CampaignId × Day → ℤ} {key : CampaignId × Day}
    {a b : ℤ} (ha : 0 < a) (hb : 0 ≤ b) (hzero : L key = 0)
    (hequal : ∀ i ∈ order, (calls i).key = key →
      (calls i).amount.toInt = a ∧ (calls i).dailyBudget.toInt = b)
    (hexact : ∀ earlier i later, order = earlier ++ i :: later →
      result i = some ((calls i).returns (L (calls i).key +
        added calls result earlier (calls i).key + (calls i).amount.toInt))) :
    (order.countP (fun i => (calls i).key = key ∧ result i = some (.ok true)) : ℤ) =
      min (order.countP fun i => (calls i).key = key : ℤ) (b / a) := by
  have hquot : 0 ≤ b / a := Int.ediv_nonneg hb ha.le
  induction order using List.reverseRecOn with
  | nil =>
    rw [List.countP_nil, List.countP_nil]
    omega
  | append_singleton order i ih =>
    have hbefore : ∀ j ∈ order, (calls j).key = key →
        (calls j).amount.toInt = a ∧ (calls j).dailyBudget.toInt = b :=
      fun j hj => hequal j (List.mem_append_left _ hj)
    have hcount := ih hbefore fun earlier j later h =>
      hexact earlier j (later ++ [i]) (by rw [h, List.append_assoc, List.cons_append])
    rw [List.countP_append, List.countP_append, List.countP_singleton, List.countP_singleton]
    by_cases hkey : (calls i).key = key
    · obtain ⟨hamount, hbudget⟩ := hequal i (List.mem_append_right _ List.mem_cons_self) hkey
      have hi := hexact order i [] rfl
      rw [Spend.returns, if_neg (by omega), hkey, hzero, Int.zero_add, hamount, hbudget,
        added_eq_mul fun j hj hjk => (hbefore j hj hjk).1] at hi
      -- one more fits as long as the quotient is not reached
      set n := order.countP fun i => (calls i).key = key ∧ result i = some (.ok true) with hn
      have hfits : n * a + a ≤ b ↔ n + 1 ≤ b / a := by
        rw [Int.le_ediv_iff_mul_le ha, Int.add_mul, Int.one_mul]
      by_cases hle : n * a + a ≤ b
      · have hrange : InI64 (n * a + a) := by
          have hmax : b ≤ Machine.maxI64 := hbudget ▸ (calls i).dailyBudget.toInt_le
          have hmin : Machine.minI64 ≤ 0 := by decide
          have hprod : 0 ≤ n * a := Int.mul_nonneg (Int.natCast_nonneg n) ha.le
          exact ⟨by omega, by omega⟩
        have hsuccess : (calls i).key = key ∧ result i = some (.ok true) := by
          rw [hi, decide_eq_true ⟨hle, hrange⟩]
          exact ⟨hkey, rfl⟩
        have := hfits.mp hle
        rw [if_pos (decide_eq_true hsuccess), if_pos (decide_eq_true hkey)]
        omega
      · have hfailure : ¬((calls i).key = key ∧ result i = some (.ok true)) := by
          rw [hi, decide_eq_false fun h => hle h.1]
          exact fun h => absurd h.2 (by decide)
        have := mt hfits.mpr hle
        rw [if_neg (by simpa using hfailure), if_pos (decide_eq_true hkey)]
        omega
    · have hother : ¬((calls i).key = key ∧ result i = some (.ok true)) := fun h => hkey h.1
      rw [if_neg (by simpa using hother), if_neg (by simpa using hkey), Nat.add_zero, Nat.add_zero]
      exact hcount

end Counters

end AdMatch
