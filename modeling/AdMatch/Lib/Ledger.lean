import AdMatch.Lib.Walk
import Mathlib.Algebra.BigOperators.Group.List.Basic
import Mathlib.Algebra.Order.Group.Int
import Mathlib.Algebra.Ring.Int.Defs
import Mathlib.Data.List.Induction
import Mathlib.Logic.Function.Basic
import Mathlib.Order.Lattice

/-!
# Ledgers with limits

A ledger holds an integer counter for each key. An attempt names a key, an
amount and a limit of its own; it goes through when the amount is positive and
the counter stays within the limit, and is then added to the counter. A failed
attempt changes nothing, so a walk down a list of attempts performs the first one
that fits (`AdMatch.Ledger.findFirst_attempt`); and counters never shrink, so an attempt
that does not fit never will (`AdMatch.Ledger.not_fits_of_le`).
-/

namespace AdMatch

namespace Ledger

variable {K : Type}

/-- A request to add an amount to a counter, within a limit. -/
structure Attempt (K : Type) where
  key : K
  amount : ℤ
  limit : ℤ
  deriving DecidableEq

/-- Whether an attempt goes through. -/
def Fits (s : K → ℤ) (a : Attempt K) : Prop := 0 < a.amount ∧ s a.key + a.amount ≤ a.limit

instance (s : K → ℤ) (a : Attempt K) : Decidable (Fits s a) :=
  inferInstanceAs (Decidable (_ ∧ _))

/-- **What does not fit never will**, as long as its counter does not shrink. -/
theorem not_fits_of_le {s t : K → ℤ} {a : Attempt K} (h : s a.key ≤ t a.key) (hs : ¬Fits s a) :
    ¬Fits t a := by
  rintro ⟨hpos, hle⟩
  exact hs ⟨hpos, by omega⟩

/-- Whether an attempt fits depends on its own counter only. -/
theorem fits_congr {s t : K → ℤ} {a : Attempt K} (h : s a.key = t a.key) :
    Fits s a ↔ Fits t a := by
  rw [Fits, Fits, h]

variable [DecidableEq K]

/-- The ledger after an attempt went through. -/
def charge (s : K → ℤ) (a : Attempt K) : K → ℤ :=
  Function.update s a.key (s a.key + a.amount)

@[simp] theorem charge_self (s : K → ℤ) (a : Attempt K) :
    charge s a a.key = s a.key + a.amount :=
  Function.update_self _ _ _

theorem charge_ne (s : K → ℤ) (a : Attempt K) {k : K} (h : k ≠ a.key) : charge s a k = s k :=
  Function.update_of_ne h _ _

/-- A charge changes a counter by its amount or not at all. -/
theorem charge_apply (s : K → ℤ) (a : Attempt K) (k : K) :
    charge s a k = s k + if k = a.key then a.amount else 0 := by
  split_ifs with h
  · subst h
    exact charge_self s a
  · rw [charge_ne s a h, Int.add_zero]

/-- Charges never shrink a counter. -/
theorem le_charge {s : K → ℤ} {a : Attempt K} (h : Fits s a) (k : K) : s k ≤ charge s a k := by
  have hpos := h.1
  rw [charge_apply]
  split_ifs <;> omega

/-- An attempt, and the ledger after it. -/
def attempt (a : Attempt K) (s : K → ℤ) : Bool × (K → ℤ) :=
  if Fits s a then (true, charge s a) else (false, s)

theorem attempt_of_fits {s : K → ℤ} {a : Attempt K} (h : Fits s a) :
    attempt a s = (true, charge s a) := if_pos h

theorem attempt_of_not_fits {s : K → ℤ} {a : Attempt K} (h : ¬Fits s a) :
    attempt a s = (false, s) := if_neg h

@[simp] theorem attempt_fst (a : Attempt K) (s : K → ℤ) : (attempt a s).1 = decide (Fits s a) := by
  rw [attempt]
  split_ifs with h <;> simp [h]

/-! ### Logs -/

/-- What the attempts of a log add up to, for each counter. -/
def total (log : List (Attempt K)) (k : K) : ℤ :=
  ((log.filter fun a => a.key = k).map Attempt.amount).sum

@[simp] theorem total_nil (k : K) : total ([] : List (Attempt K)) k = 0 := rfl

theorem total_cons (a : Attempt K) (log : List (Attempt K)) (k : K) :
    total (a :: log) k = (if a.key = k then a.amount else 0) + total log k := by
  rw [total, total, List.filter_cons]
  by_cases hk : a.key = k
  · simp only [hk, decide_true, if_true, List.map_cons, List.sum_cons]
  · simp only [hk, decide_false, Bool.false_eq_true, if_false, Int.zero_add]

/-- A total as a sum over the whole log. -/
theorem total_eq_sum (log : List (Attempt K)) (k : K) :
    total log k = (log.map fun a => if a.key = k then a.amount else 0).sum := by
  induction log with
  | nil => rfl
  | cons a log ih => rw [total_cons, List.map_cons, List.sum_cons, ih]

/-- One more entry is one more charge. -/
theorem total_concat (log : List (Attempt K)) (a : Attempt K) :
    total (log ++ [a]) = charge (total log) a := by
  funext k
  rw [total, List.filter_append, List.map_append, List.sum_append, charge_apply, total]
  by_cases hk : a.key = k
  · simp [hk]
  · simp [hk, Ne.symm hk]

/-- **A log within its limits**: every entry, when it was made, left its counter
within its limit. -/
def Within (log : List (Attempt K)) : Prop :=
  ∀ i a, log[i]? = some a → total (log.take (i + 1)) a.key ≤ a.limit

theorem within_nil : Within ([] : List (Attempt K)) := by
  intro i a h
  cases h

theorem within_concat {log : List (Attempt K)} {a : Attempt K} :
    Within (log ++ [a]) ↔ Within log ∧ total log a.key + a.amount ≤ a.limit := by
  have hbefore : ∀ i < log.length, (log ++ [a]).take (i + 1) = log.take (i + 1) := fun i hi =>
    List.take_append_of_le_length hi
  have hlast : total ((log ++ [a]).take (log.length + 1)) a.key = total log a.key + a.amount := by
    rw [List.take_of_length_le (by simp), total_concat, charge_self]
  constructor
  · intro h
    refine ⟨fun i b hb => ?_, ?_⟩
    · have hi := (List.getElem?_eq_some_iff.mp hb).1
      rw [← hbefore i hi]
      exact h i b (by rw [List.getElem?_append_left hi, hb])
    · rw [← hlast]
      exact h log.length a (by simp)
  · rintro ⟨h, ha⟩ i b hb
    rcases Nat.lt_or_ge i log.length with hi | hi
    · rw [hbefore i hi]
      exact h i b (by rwa [List.getElem?_append_left hi] at hb)
    · rw [List.getElem?_append_right hi, List.getElem?_singleton] at hb
      split_ifs at hb with hzero
      obtain rfl := Option.some.inj hb
      obtain rfl : i = log.length := by omega
      rwa [hlast]

/-- **The whole of a log within its limits**: what was added to a counter is at
most the limit of one of the entries. -/
theorem Within.exists_total_le {log : List (Attempt K)} (h : Within log) {a : Attempt K}
    (ha : a ∈ log) : ∃ b ∈ log, b.key = a.key ∧ total log a.key ≤ b.limit := by
  induction log using List.reverseRecOn with
  | nil => exact absurd ha List.not_mem_nil
  | append_singleton log b ih =>
    obtain ⟨hlog, hb⟩ := within_concat.mp h
    by_cases hkey : b.key = a.key
    · refine ⟨b, List.mem_append_right _ List.mem_cons_self, hkey, ?_⟩
      rw [total_concat, ← hkey, charge_self]
      exact hb
    · -- the last entry is another counter's
      have ha' : a ∈ log := by
        rcases List.mem_append.mp ha with ha | ha
        · exact ha
        · exact absurd (congrArg Attempt.key (List.mem_singleton.mp ha)).symm hkey
      obtain ⟨c, hc, hck, hle⟩ := ih hlog ha'
      refine ⟨c, List.mem_append_left _ hc, hck, ?_⟩
      rwa [total_concat, charge_ne _ _ (Ne.symm hkey)]

/-- What adds to counters adds up to no less than nothing. -/
theorem total_nonneg {log : List (Attempt K)} (hpos : ∀ a ∈ log, 0 < a.amount) (k : K) :
    0 ≤ total log k := by
  induction log with
  | nil => exact le_refl _
  | cons a log ih =>
    have hrest := ih fun b hb => hpos b (List.mem_cons_of_mem _ hb)
    have hamount := hpos a List.mem_cons_self
    rw [total_cons]
    split_ifs <;> omega

/-- **Only what has a limit above nothing is ever charged.** -/
theorem Within.limit_pos {log : List (Attempt K)} (h : Within log)
    (hpos : ∀ a ∈ log, 0 < a.amount) {a : Attempt K} (ha : a ∈ log) : 0 < a.limit := by
  obtain ⟨i, hi⟩ := List.mem_iff_getElem?.mp ha
  have hwithin := h i a hi
  have hbefore : 0 ≤ total (log.take i) a.key :=
    total_nonneg (fun b hb => hpos b (List.mem_of_mem_take hb)) a.key
  rw [List.take_add_one, hi, Option.toList_some, total_concat, charge_self] at hwithin
  have hamount := hpos a ha
  omega

/-! ### Walking down a list of attempts -/

/-- A failed attempt changes nothing. -/
theorem inert_attempt {α : Type} (f : α → Attempt K) : Walk.Inert fun a => attempt (f a) := by
  intro a s h
  rw [attempt_fst, decide_eq_false_iff_not] at h
  exact congrArg Prod.snd (attempt_of_not_fits h)

/-- **A walk charges the first attempt that fits at its start**, and nothing
else. -/
theorem findFirst_attempt {α : Type} (f : α → Attempt K) (l : List α) (s : K → ℤ) :
    Walk.findFirst (fun a => attempt (f a)) l s =
      (l.find? fun a => decide (Fits s (f a)),
        ((l.find? fun a => decide (Fits s (f a))).elim s fun a => charge s (f a))) := by
  rw [Walk.findFirst_of_inert (inert_attempt f)]
  simp only [attempt_fst]
  cases hfind : l.find? fun a => decide (Fits s (f a)) with
  | none => rfl
  | some a =>
    have hfits : Fits s (f a) := by simpa using List.find?_some hfind
    simp only [attempt_of_fits hfits, Option.elim_some]

end Ledger

end AdMatch
