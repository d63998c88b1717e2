import AdMatch.Model

/-!
# Relevance and score

The relevance of a match, in basis points, and the score `bid × relevance` by
which keywords are chosen and bidders ranked. The score is computed in 128 bits
and never reaches the width: it is the exact product
(`AdMatch.score_eq`), below `2 ^ 95` (`AdMatch.score_lt`).
-/

namespace AdMatch

/-- Relevance of an exact match. -/
def exactRelevanceBp : ℕ := 10000

/-- Upper weight of a broad match. -/
def broadWeightBp : ℕ := 7000

/-- Lowest relevance any match can have. -/
def minRelevanceBp : ℕ := 1

/-- The relevance with a given number of basis points. -/
def RelevanceBp.ofNat (n : ℕ) : RelevanceBp := ⟨UInt32.ofNat n⟩

/-- Relevance of a broad match, `max(1, 7000 × keyword tokens / query tokens)`,
in saturating 64-bit arithmetic. -/
def broadRelevance (keywordTokens queryTokens : ℕ) : RelevanceBp :=
  let kw := min keywordTokens (2 ^ 64 - 1)
  let q := max (min queryTokens (2 ^ 64 - 1)) 1
  let raw := min (broadWeightBp * kw) (2 ^ 64 - 1) / q
  let clamped := max minRelevanceBp (min raw broadWeightBp)
  ⟨(Machine.u32OfUsize clamped).getD (UInt32.ofNat broadWeightBp)⟩

/-- The auction score of one keyword: `bid × relevance`, a negative bid scoring
zero. -/
def score (bid : Micros) (relevance : RelevanceBp) : ℕ :=
  Machine.mulU128 ((Machine.u128OfI64 bid.val).getD 0) relevance.toNat

private theorem mul_lt_two_pow_95 (bid : Micros) (relevance : RelevanceBp) :
    bid.toInt.toNat * relevance.toNat < 2 ^ 95 := by
  have hb : bid.toInt.toNat < 2 ^ 63 := by
    have := bid.toInt_le
    simp only [Machine.maxI64] at this
    omega
  calc bid.toInt.toNat * relevance.toNat
      < 2 ^ 63 * 2 ^ 32 := Nat.mul_lt_mul'' hb relevance.toNat_lt
    _ = 2 ^ 95 := by decide

/-- **The score is the exact product.** -/
theorem score_eq (bid : Micros) (relevance : RelevanceBp) :
    score bid relevance = bid.toInt.toNat * relevance.toNat := by
  have hlt := mul_lt_two_pow_95 bid relevance
  rw [score, Machine.u128OfI64_getD]
  exact Machine.mulU128_eq (lt_trans hlt (by decide))

theorem score_lt (bid : Micros) (relevance : RelevanceBp) : score bid relevance < 2 ^ 95 := by
  rw [score_eq]
  exact mul_lt_two_pow_95 bid relevance

/-- A higher bid never scores less. -/
theorem score_mono {a b : Micros} (h : a ≤ b) (r : RelevanceBp) : score a r ≤ score b r := by
  rw [score_eq, score_eq]
  exact Nat.mul_le_mul_right _ (Int.toNat_le_toNat (Micros.le_def.mp h))

example : broadRelevance 2 3 = RelevanceBp.ofNat 4666 := by decide

example : broadRelevance 0 16 = RelevanceBp.ofNat minRelevanceBp := by decide

end AdMatch
