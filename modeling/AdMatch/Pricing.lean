import AdMatch.Auction
import Mathlib.Algebra.Order.Floor.Ring
import Mathlib.Data.Rat.Floor

/-!
# What the auction charges, in exact arithmetic

The price of `AdMatch.gspPrice` is the formula over the integers,
`AdMatch.exactPrice`: the rounded-up quotient is that of the rational numbers,
the sum never leaves 128 bits and the result never leaves 64
(`AdMatch.gspPrice_toInt`). What the rest of the development uses of it are the
bounds: the price never exceeds the bid (`AdMatch.gspPrice_le_bid`), and that of a
bid that meets the reserve is at least the reserve (`AdMatch.reserve_le_gspPrice`).
-/

namespace AdMatch

/-- Rounding up in the natural numbers is rounding up. -/
theorem Machine.divCeil_eq_ceil (a : ℕ) {b : ℕ} (hb : 0 < b) :
    (Machine.divCeil a b : ℤ) = ⌈(a : ℚ) / b⌉ := by
  have hb' : (0 : ℚ) < b := by exact_mod_cast hb
  have hle : ∀ n : ℕ, ⌈(a : ℚ) / b⌉ ≤ n ↔ Machine.divCeil a b ≤ n := fun n => by
    rw [Int.ceil_le, div_le_iff₀ hb', Machine.divCeil_le_iff hb]
    exact_mod_cast Iff.rfl
  have hnonneg : 0 ≤ ⌈(a : ℚ) / b⌉ := Int.ceil_nonneg (by positivity)
  obtain ⟨n, hn⟩ := Int.eq_ofNat_of_zero_le hnonneg
  refine le_antisymm ?_ ((hle _).mpr (le_refl _))
  rw [hn]
  exact_mod_cast (hle n).mp hn.le

/-- **The price formula over the integers.** -/
def exactPrice (bidder : Bidder) (next : Option Bidder) (reserve increment : Micros) : ℤ :=
  match next with
  | none => min bidder.bid.toInt reserve.toInt
  | some next =>
    min bidder.bid.toInt (max reserve.toInt
      (⌈((max next.bid.toInt 0 * next.relevance.toNat : ℤ) : ℚ) /
        ((max bidder.relevance.toNat 1 : ℕ) : ℚ)⌉ + increment.toInt))

variable {bidder : Bidder} {next : Option Bidder} {reserve increment : Micros}

theorem asU128_lt (m : Micros) : asU128 m < 2 ^ 63 := by
  have := m.toInt_le
  rw [asU128_eq]
  simp only [Machine.maxI64] at this
  omega

theorem Bidder.score_lt (b : Bidder) : b.score < 2 ^ 95 := AdMatch.score_lt b.bid b.relevance

/-- A quotient is rounded up to at most the dividend. -/
theorem Machine.divCeil_le_self (a : ℕ) {b : ℕ} (hb : 0 < b) : Machine.divCeil a b ≤ a :=
  (Machine.divCeil_le_iff hb).mpr (Nat.le_mul_of_pos_right a hb)

/-- **The sum never overflows**: there is always a price before the cap. -/
theorem rawPrice_eq (bidder : Bidder) (next : Option Bidder) (reserve increment : Micros) :
    rawPrice bidder next reserve increment = some (match next with
      | none => asU128 reserve
      | some next => max (Machine.divCeil next.score (max bidder.relevance.toNat 1) +
          asU128 increment) (asU128 reserve)) := by
  cases next with
  | none => rfl
  | some next =>
    have hq : Machine.divCeil next.score (max bidder.relevance.toNat 1) < 2 ^ 95 :=
      (Machine.divCeil_le_self _ (by omega)).trans_lt next.score_lt
    have hsum : Machine.divCeil next.score (max bidder.relevance.toNat 1) + asU128 increment <
        2 ^ 128 := by
      have := asU128_lt increment
      omega
    rw [rawPrice, Machine.checkedAddU128_eq hsum, Option.map_some]

/-- **The price always converts back**: below the bid it fits in 64 bits. -/
theorem gspPrice_convert {price : ℕ} (h : price < asU128 bidder.bid) :
    ∃ p, Machine.i64OfU128 price = some p ∧ p.toInt = price := by
  refine Machine.i64OfU128_eq_some ?_
  have := asU128_lt bidder.bid
  simp only [Machine.maxI64]
  omega

/-- The price is the lesser of the bid and what was computed. -/
theorem gspPrice_eq_min {price : ℕ} (h : rawPrice bidder next reserve increment = some price) :
    (gspPrice bidder next reserve increment).toInt = min bidder.bid.toInt price := by
  rw [gspPrice, h]
  have hbid := asU128_eq bidder.bid
  by_cases hlt : price < asU128 bidder.bid
  · obtain ⟨p, hp, hval⟩ := gspPrice_convert hlt
    simp only [hlt, if_true, hp, Option.getD_some]
    rw [Micros.toInt, hval]
    omega
  · simp only [hlt, if_false]
    omega

/-- **The price is the formula over the integers.** -/
theorem gspPrice_toInt (hreserve : 0 ≤ reserve.toInt) (hincrement : 0 ≤ increment.toInt) :
    (gspPrice bidder next reserve increment).toInt =
      exactPrice bidder next reserve increment := by
  rw [gspPrice_eq_min (rawPrice_eq bidder next reserve increment)]
  have hr : (asU128 reserve : ℤ) = reserve.toInt := by
    rw [asU128_eq]
    omega
  have hi : (asU128 increment : ℤ) = increment.toInt := by
    rw [asU128_eq]
    omega
  cases next with
  | none => simp only [exactPrice, hr]
  | some next =>
    have hscore : (next.score : ℚ) =
        ((max next.bid.toInt 0 * next.relevance.toNat : ℤ) : ℚ) := by
      rw [Bidder.score, score_eq, ← Int.cast_natCast, Nat.cast_mul, Int.toNat_eq_max]
    simp only [exactPrice, Nat.cast_max, Nat.cast_add, hr, hi]
    rw [Machine.divCeil_eq_ceil _ (by omega), hscore, max_comm reserve.toInt]
    norm_cast

/-- The price never exceeds the bid. -/
theorem gspPrice_le_bid (bidder : Bidder) (next : Option Bidder) (reserve increment : Micros) :
    gspPrice bidder next reserve increment ≤ bidder.bid := by
  rw [Micros.le_def, gspPrice_eq_min (rawPrice_eq bidder next reserve increment)]
  exact min_le_left _ _

/-- **A bid that meets the reserve pays at least the reserve.** -/
theorem reserve_le_gspPrice (h : reserve ≤ bidder.bid) :
    reserve ≤ gspPrice bidder next reserve increment := by
  rw [Micros.le_def, gspPrice_eq_min (rawPrice_eq bidder next reserve increment)]
  refine le_min (Micros.le_def.mp h) ?_
  have hr : reserve.toInt ≤ asU128 reserve := by
    rw [asU128_eq]
    omega
  cases next with
  | none => exact hr
  | some next => exact hr.trans (by exact_mod_cast le_max_right _ _)

/-! ### The prices of a ranking -/

@[simp] theorem length_gspPrices (ranked : List Bidder) (reserve increment : Micros) :
    (gspPrices ranked reserve increment).length = ranked.length := by
  rw [gspPrices, List.length_map, List.length_zipIdx]

/-- Each position is priced against the next one. -/
theorem getElem?_gspPrices (ranked : List Bidder) (reserve increment : Micros) (i : ℕ) :
    (gspPrices ranked reserve increment)[i]? =
      ranked[i]?.map fun b => gspPrice b ranked[i + 1]? reserve increment := by
  rw [gspPrices, List.getElem?_map, List.getElem?_zipIdx, Option.map_map, Nat.zero_add]
  rfl

/-! ### Ranking -/

/-- Bidders of the same rank key are of the same campaign. -/
theorem Bidder.campaignId_eq_of_rankKey {a b : Bidder} (h : a.rankKey = b.rankKey) :
    a.campaignId = b.campaignId := by
  have hrest := congrArg (fun p => (ofLex p).2) h
  exact congrArg (fun p => OrderDual.ofDual (ofLex p).2) hrest

/-- The ranking compares rank keys, greatest first. -/
theorem rankOrder_comparesBy :
    Sorting.ComparesBy rankOrder fun b => OrderDual.toDual b.rankKey := by
  intro a b
  rw [rankOrder, OrderDual.toDual_lt_toDual]
  simp only [Ordering.then_eq_gt, compare_gt_iff_gt, compare_eq_iff_eq, Bidder.rankKey,
    Prod.Lex.toLex_lt_toLex, OrderDual.toDual_lt_toDual]
  tauto

end AdMatch
