import Mathlib.Algebra.Group.Int.Defs
import Mathlib.Algebra.Order.BigOperators.Group.List
import Mathlib.Algebra.Order.Group.Int
import Mathlib.Algebra.Ring.Int.Defs
import Mathlib.Algebra.Group.Nat.Defs
import Mathlib.Order.Lattice
import Mathlib.Data.Int.Notation

/-!
# Machine integers

The fixed-width operations the program performs on money and scores, each read
as an exact operation on the integers together with the range it may leave.
Signed 64-bit values are `Int64`; unsigned 128-bit values are natural numbers,
with the width written out wherever an operation could exceed it.

Every operation comes with the statement that ties it to unbounded arithmetic
(`AdMatch.Machine.checkedAddI64_eq_some`, `AdMatch.Machine.saturatingAddI64_toInt`),
and the development never unfolds it afterwards.
-/

namespace AdMatch

namespace Machine

/-! ### Signed 64-bit values -/

/-- The least `i64`. -/
def minI64 : ℤ := -2 ^ 63

/-- The greatest `i64`. -/
def maxI64 : ℤ := 2 ^ 63 - 1

theorem minI64_le_toInt (a : Int64) : minI64 ≤ a.toInt := a.le_toInt

theorem toInt_le_maxI64 (a : Int64) : a.toInt ≤ maxI64 := by
  have := a.toInt_lt
  unfold maxI64
  omega

/-- The value of a literal in range is the literal. -/
theorem toInt_ofInt {n : ℤ} (h₁ : minI64 ≤ n) (h₂ : n ≤ maxI64) : (Int64.ofInt n).toInt = n := by
  unfold minI64 at h₁
  unfold maxI64 at h₂
  exact Int64.toInt_ofInt_of_le h₁ (by omega)

/-- A sum of values that are not negative does not wrap if it fits. -/
theorem toInt_add_of_nonneg {a b : Int64} (ha : 0 ≤ a.toInt) (hb : 0 ≤ b.toInt)
    (h : a.toInt + b.toInt ≤ maxI64) : (a + b).toInt = a.toInt + b.toInt := by
  unfold maxI64 at h
  rw [Int64.toInt_add]
  exact Int.bmod_eq_of_le (by omega) (by omega)

/-- `i64::checked_add`: the sum, or nothing when it does not fit. -/
def checkedAddI64 (a b : Int64) : Option Int64 :=
  if minI64 ≤ a.toInt + b.toInt ∧ a.toInt + b.toInt ≤ maxI64 then
    some (Int64.ofInt (a.toInt + b.toInt))
  else none

/-- **A checked sum is the exact sum**, and it is missing exactly when that does
not fit. -/
theorem checkedAddI64_eq_some {a b c : Int64} :
    checkedAddI64 a b = some c ↔ c.toInt = a.toInt + b.toInt := by
  unfold checkedAddI64
  constructor
  · intro h
    split at h
    · rename_i hr
      rw [← Option.some.inj h]
      exact toInt_ofInt hr.1 hr.2
    · exact absurd h (by simp)
  · intro h
    have hr : minI64 ≤ a.toInt + b.toInt ∧ a.toInt + b.toInt ≤ maxI64 :=
      ⟨h ▸ minI64_le_toInt c, h ▸ toInt_le_maxI64 c⟩
    rw [if_pos hr]
    refine congrArg some (Int64.toInt_inj.mp ?_)
    rw [toInt_ofInt hr.1 hr.2, h]

theorem checkedAddI64_eq_none {a b : Int64} (h : checkedAddI64 a b = none) :
    maxI64 < a.toInt + b.toInt ∨ a.toInt + b.toInt < minI64 := by
  unfold checkedAddI64 at h
  split at h
  · exact absurd h (by simp)
  · omega

/-- `i64::saturating_add`: the sum, clamped to the range. -/
def saturatingAddI64 (a b : Int64) : Int64 :=
  Int64.ofInt (max minI64 (min maxI64 (a.toInt + b.toInt)))

theorem saturatingAddI64_toInt (a b : Int64) :
    (saturatingAddI64 a b).toInt = max minI64 (min maxI64 (a.toInt + b.toInt)) := by
  refine toInt_ofInt (le_max_left _ _) ?_
  unfold minI64 maxI64
  omega

/-- **A saturating loop over values that are not negative saturates once**: its
result is the exact sum, clamped at the greatest `i64`. -/
theorem foldl_saturatingAddI64_toInt {α : Type} {f : α → Int64} {l : List α}
    (hf : ∀ a ∈ l, 0 ≤ (f a).toInt) {total : Int64} (htotal : 0 ≤ total.toInt) :
    (l.foldl (fun total a => saturatingAddI64 total (f a)) total).toInt =
      min maxI64 (total.toInt + (l.map fun a => (f a).toInt).sum) := by
  induction l generalizing total with
  | nil =>
    have := toInt_le_maxI64 total
    simp only [List.foldl_nil, List.map_nil, List.sum_nil]
    omega
  | cons a l ih =>
    have hfa := hf a List.mem_cons_self
    have hrest : ∀ b ∈ l, 0 ≤ (f b).toInt := fun b hb => hf b (List.mem_cons_of_mem _ hb)
    have hsum : 0 ≤ (l.map fun a => (f a).toInt).sum := by
      refine List.sum_nonneg fun n hn => ?_
      obtain ⟨b, hb, rfl⟩ := List.mem_map.mp hn
      exact hrest b hb
    have hstep := saturatingAddI64_toInt total (f a)
    have hmin : minI64 ≤ 0 := by decide
    have hmax : 0 ≤ maxI64 := by decide
    rw [List.foldl_cons, ih hrest (by omega), hstep, List.map_cons, List.sum_cons]
    -- once the total is at the top, what is added no longer shows on either side
    omega

/-! ### Unsigned values -/

/-- `u128::try_from` of an `i64`: nothing when it is negative. -/
def u128OfI64 (a : Int64) : Option ℕ :=
  if 0 ≤ a.toInt then some a.toInt.toNat else none

/-- `u128::try_from(a).unwrap_or(0)` clamps a negative value to zero. -/
theorem u128OfI64_getD (a : Int64) : (u128OfI64 a).getD 0 = a.toInt.toNat := by
  unfold u128OfI64
  split
  · rfl
  · simp only [Option.getD_none]
    omega

/-- `i64::try_from` of a `u128`: nothing when it is too large. -/
def i64OfU128 (n : ℕ) : Option Int64 :=
  if (n : ℤ) ≤ maxI64 then some (Int64.ofInt n) else none

/-- A `u128` that fits converts to an `i64` of the same value. -/
theorem i64OfU128_eq_some {n : ℕ} (h : (n : ℤ) ≤ maxI64) :
    ∃ a, i64OfU128 n = some a ∧ a.toInt = n := by
  refine ⟨Int64.ofInt n, if_pos h, toInt_ofInt ?_ h⟩
  unfold minI64
  omega

/-- `u128` multiplication, wrapping at the width. -/
def mulU128 (a b : ℕ) : ℕ := a * b % 2 ^ 128

theorem mulU128_eq {a b : ℕ} (h : a * b < 2 ^ 128) : mulU128 a b = a * b :=
  Nat.mod_eq_of_lt h

/-- `u128::checked_add`. -/
def checkedAddU128 (a b : ℕ) : Option ℕ :=
  if a + b < 2 ^ 128 then some (a + b) else none

theorem checkedAddU128_eq {a b : ℕ} (h : a + b < 2 ^ 128) : checkedAddU128 a b = some (a + b) :=
  if_pos h

/-- `u128::div_ceil`. -/
def divCeil (a b : ℕ) : ℕ := (a + b - 1) / b

/-- The quotient rounded up is the least number whose multiple reaches the
dividend. -/
theorem divCeil_le_iff {a b n : ℕ} (hb : 0 < b) : divCeil a b ≤ n ↔ a ≤ n * b := by
  unfold divCeil
  rw [← Nat.lt_succ_iff, Nat.div_lt_iff_lt_mul hb, Nat.succ_mul]
  omega

/-- `i64::try_from` of a `usize`: nothing when it is too large. -/
def i64OfUsize (n : ℕ) : Option Int64 := i64OfU128 n

/-- A `usize` that fits needs no default. -/
theorem toInt_getD_i64OfUsize {n : ℕ} (h : (n : ℤ) ≤ maxI64) (d : Int64) :
    ((i64OfUsize n).getD d).toInt = n := by
  obtain ⟨a, ha, hval⟩ := i64OfU128_eq_some h
  rw [i64OfUsize, ha, Option.getD_some, hval]

/-- `Vec::push`: a vector never takes more than `isize::MAX` bytes, of which each of its
elements takes `size`. -/
def vecPush {α : Type} (size : ℕ) (xs : List α) (x : α) : Option (List α) :=
  if ((xs.length + 1) * size : ℕ) ≤ maxI64 then some (xs ++ [x]) else none

theorem vecPush_eq_some {α : Type} {size : ℕ} {xs ys : List α} {x : α} :
    vecPush size xs x = some ys ↔ ((xs.length + 1) * size : ℕ) ≤ maxI64 ∧ ys = xs ++ [x] := by
  rw [vecPush, Option.ite_none_right_eq_some, Option.some.injEq, eq_comm (a := ys)]

/-- `u32::try_from` of a `usize`: nothing when it is too large. -/
def u32OfUsize (n : ℕ) : Option UInt32 :=
  if n < 2 ^ 32 then some (UInt32.ofNat n) else none

theorem u32OfUsize_eq_some {n : ℕ} {i : UInt32} (h : u32OfUsize n = some i) : i.toNat = n := by
  unfold u32OfUsize at h
  split at h
  · rename_i hn
    rw [← Option.some.inj h]
    exact UInt32.toNat_ofNat_of_lt' hn
  · exact absurd h (by simp)

end Machine

end AdMatch
