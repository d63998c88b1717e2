import AdMatch.Server.Validate
import Mathlib.Algebra.Order.BigOperators.Group.Finset

/-!
# The audience of a targeting

The audience table of the seed file, and the number of people a targeting reaches
in it. The program sums cell by cell, saturating at every step; the result is the
exact sum over the *set* of targeted cells, clamped once
(`AdMatch.audienceSize_toInt`). So neither the order nor the repetition of the
targeted countries and buckets matters, widening a targeting never loses anybody,
and the privacy gate opens only for an audience that really exceeds the threshold
(`AdMatch.audienceSize_is_exact`).
-/

namespace AdMatch

/-! ### The table -/

/-- One row of the audience table. -/
structure AudienceCell where
  country : Country
  ageBucket : AgeBucket
  /-- Number of users in this cell. -/
  users : Int64

namespace SeedFile

/-- The audience rows as the lookup table of the privacy rules. -/
def audienceTable (audienceCounts : List AudienceCell) : AudienceCounts :=
  audienceCounts.foldl (fun table cell => table.insert cell.country cell.ageBucket cell.users) .new

end SeedFile

namespace AudienceCounts

/-- The users of a cell, a missing one counting zero. -/
def users (counts : AudienceCounts) (cell : Country × AgeBucket) : ℤ :=
  ((counts.get cell.1 cell.2).getD 0).toInt

/-- **No cell has a negative count.** -/
def NonNegative (counts : AudienceCounts) : Prop :=
  ∀ country bucket users, counts.get country bucket = some users → 0 ≤ users.toInt

variable {counts : AudienceCounts}

theorem nonNegative_new : new.NonNegative := by
  intro country bucket users h
  cases h

/-- Setting a cell to a count that is not negative keeps the table so. -/
theorem NonNegative.insert (h : counts.NonNegative) (country : Country) (bucket : AgeBucket)
    {users : Int64} (husers : 0 ≤ users.toInt) :
    (counts.insert country bucket users).NonNegative := by
  intro country' bucket' users' hget
  rw [get, AudienceCounts.insert] at hget
  by_cases hcell : (country', bucket') = (country, bucket)
  · rw [hcell, AList.lookup_insert] at hget
    obtain rfl := Option.some.inj hget
    exact husers
  · rw [AList.lookup_insert_ne hcell] at hget
    exact h country' bucket' users' hget

/-- **Rows without negative counts make a table without negative counts.** -/
theorem nonNegative_audienceTable {rows : List AudienceCell}
    (h : ∀ row ∈ rows, 0 ≤ row.users.toInt) : (SeedFile.audienceTable rows).NonNegative := by
  refine Loop.foldl_induction (I := fun done (table : AudienceCounts) =>
    (∀ row ∈ done, 0 ≤ row.users.toInt) → table.NonNegative) ?_ (fun _ => nonNegative_new) rows h
  intro done row table ih hdone
  exact (ih fun r hr => hdone r (List.mem_append_left _ hr)).insert _ _
    (hdone row (List.mem_append_right _ List.mem_cons_self))

theorem users_nonneg (h : counts.NonNegative) (cell : Country × AgeBucket) :
    0 ≤ counts.users cell := by
  rw [users]
  rcases hget : counts.get cell.1 cell.2 with _ | n
  · exact le_refl _
  · exact h _ _ n hget

/-- **The exact audience**: the users of the distinct targeted cells. -/
def exactAudience (counts : AudienceCounts) (countries : List Country)
    (buckets : List AgeBucket) : ℤ :=
  ∑ cell ∈ countries.toFinset ×ˢ buckets.toFinset, counts.users cell

/-- Only the sets of countries and buckets matter. -/
theorem exactAudience_congr {countries countries' : List Country}
    {buckets buckets' : List AgeBucket} (hcountries : ∀ c, c ∈ countries ↔ c ∈ countries')
    (hbuckets : ∀ b, b ∈ buckets ↔ b ∈ buckets') :
    counts.exactAudience countries buckets = counts.exactAudience countries' buckets' := by
  have hc : countries.toFinset = countries'.toFinset := by
    ext c
    rw [List.mem_toFinset, List.mem_toFinset, hcountries]
  have hb : buckets.toFinset = buckets'.toFinset := by
    ext b
    rw [List.mem_toFinset, List.mem_toFinset, hbuckets]
  rw [exactAudience, exactAudience, hc, hb]

/-- **A wider targeting reaches no fewer.** -/
theorem exactAudience_mono (h : counts.NonNegative) {countries countries' : List Country}
    {buckets buckets' : List AgeBucket} (hcountries : countries ⊆ countries')
    (hbuckets : buckets ⊆ buckets') :
    counts.exactAudience countries buckets ≤ counts.exactAudience countries' buckets' := by
  refine Finset.sum_le_sum_of_subset_of_nonneg ?_ fun cell _ _ => users_nonneg h cell
  refine Finset.product_subset_product (fun c hc => ?_) fun b hb => ?_
  · exact List.mem_toFinset.mpr (hcountries (List.mem_toFinset.mp hc))
  · exact List.mem_toFinset.mpr (hbuckets (List.mem_toFinset.mp hb))

end AudienceCounts

variable {counts : AudienceCounts}

/-! ### The sum -/

/-- The two loops are one loop over the distinct cells. -/
theorem audienceSize_eq_foldl (countries : List Country) (buckets : List AgeBucket) :
    audienceSize counts countries buckets =
      (Sorting.sortDedup countries ×ˢ Sorting.sortDedup buckets).foldl (fun total cell =>
        Machine.saturatingAddI64 total ((counts.get cell.1 cell.2).getD 0)) 0 := by
  rw [audienceSize, show Sorting.sortDedup countries ×ˢ Sorting.sortDedup buckets =
    (Sorting.sortDedup countries).flatMap fun c => (Sorting.sortDedup buckets).map (Prod.mk c)
    from rfl, List.foldl_flatMap]
  simp only [List.foldl_map]

/-- **The audience size is the exact sum, clamped once.** -/
theorem audienceSize_toInt (h : counts.NonNegative) (countries : List Country)
    (buckets : List AgeBucket) :
    (audienceSize counts countries buckets).toInt =
      min Machine.maxI64 (counts.exactAudience countries buckets) := by
  have hnodup : (Sorting.sortDedup countries ×ˢ Sorting.sortDedup buckets).Nodup :=
    (Sorting.nodup_sortDedup _).product (Sorting.nodup_sortDedup _)
  have hcells : (Sorting.sortDedup countries ×ˢ Sorting.sortDedup buckets).toFinset =
      countries.toFinset ×ˢ buckets.toFinset := by
    ext cell
    rw [List.mem_toFinset, List.mem_product, Finset.mem_product, List.mem_toFinset,
      List.mem_toFinset, Sorting.mem_sortDedup, Sorting.mem_sortDedup]
  rw [audienceSize_eq_foldl, Machine.foldl_saturatingAddI64_toInt
    (fun cell _ => AudienceCounts.users_nonneg h cell) (by decide), AudienceCounts.exactAudience,
    ← hcells, List.sum_toFinset _ hnodup]
  exact congrArg _ (zero_add _)

section Gate

variable [Unicode]

/-- **The audience is exact, and the privacy gate holds.** In a table without
negative counts the audience size is the sum of the counts over the distinct
targeted cells, clamped at the greatest `i64`; it depends on the sets of targeted
countries and buckets only, does not decrease when they grow, and a targeted
campaign is accepted only if the exact sum is greater than the threshold. -/
theorem audienceSize_is_exact (h : counts.NonNegative) :
    (∀ countries buckets, (audienceSize counts countries buckets).toInt =
      min Machine.maxI64 (counts.exactAudience countries buckets)) ∧
    (∀ countries countries' buckets buckets', (∀ c, c ∈ countries ↔ c ∈ countries') →
      (∀ b, b ∈ buckets ↔ b ∈ buckets') →
      audienceSize counts countries buckets = audienceSize counts countries' buckets') ∧
    (∀ countries countries' buckets buckets', countries ⊆ countries' → buckets ⊆ buckets' →
      audienceSize counts countries buckets ≤ audienceSize counts countries' buckets') ∧
    ∀ (campaign : Campaign) (kTargeting : Int64) (buckets : List AgeBucket) (size : Option Int64),
      campaign.ageBuckets = some buckets →
      validateCampaign campaign counts kTargeting = .ok size →
      kTargeting.toInt < counts.exactAudience campaign.countries buckets := by
  refine ⟨audienceSize_toInt h, ?_, ?_, ?_⟩
  · intro countries countries' buckets buckets' hcountries hbuckets
    rw [← Int64.toInt_inj, audienceSize_toInt h, audienceSize_toInt h,
      AudienceCounts.exactAudience_congr hcountries hbuckets]
  · intro countries countries' buckets buckets' hcountries hbuckets
    rw [Int64.le_iff_toInt_le, audienceSize_toInt h, audienceSize_toInt h]
    exact min_le_min (le_refl _) (AudienceCounts.exactAudience_mono h hcountries hbuckets)
  · intro campaign kTargeting buckets size hage haccepted
    rcases (validateCampaign_eq_ok.mp haccepted).audience with hnone | ⟨buckets', hsome, -, hsize⟩
    · rw [hnone] at hage
      cases hage
    · obtain rfl : buckets' = buckets := Option.some.inj (hsome.symm.trans hage)
      rw [audienceSize_toInt h] at hsize
      exact hsize.trans_le (min_le_right _ _)

end Gate

section Sample

attribute [local instance] Unicode.asciiGreek

/-- A table with a cell at the greatest count. -/
def sampleRows : List AudienceCell :=
  [⟨.IN, .age18To24, 6000⟩, ⟨.US, .age18To24, 9223372036854775807⟩]

theorem audienceSize_is_exact_sample :
    (audienceSize (SeedFile.audienceTable sampleRows) [.US, .IN, .US] [.age18To24]).toInt =
        Machine.maxI64 ∧
      5000 < (SeedFile.audienceTable sampleRows).exactAudience [.IN] [.age18To24] := by
  have hrows : ∀ row ∈ sampleRows, 0 ≤ row.users.toInt := by decide
  obtain ⟨hexact, -, -, hgate⟩ :=
    audienceSize_is_exact (AudienceCounts.nonNegative_audienceTable hrows)
  constructor
  · rw [hexact]
    decide
  · exact hgate sampleSubmitted 5000 [.age18To24] (some 6000) rfl (by decide)

end Sample

end AdMatch
