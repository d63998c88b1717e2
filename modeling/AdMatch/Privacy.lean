import AdMatch.Lib.HashMap
import AdMatch.Lib.Sorting
import AdMatch.Model

/-!
# The privacy rule for age targeting

A campaign may target age buckets only if strictly more than `kTargeting` people
fall inside its targeting. The audience is the sum of the cells it targets, each
counted once; sums saturate.
-/

namespace AdMatch

/-- Why a targeting setup was refused. -/
inductive PrivacyError
  /-- The audience is at or below the threshold. -/
  | audienceTooSmall
  deriving DecidableEq, Repr

/-- Number of users in each (country, age bucket) cell. -/
structure AudienceCounts where
  cells : HashMap (Country × AgeBucket) Int64

namespace AudienceCounts

/-- An empty table. -/
def new : AudienceCounts := ⟨∅⟩

/-- Sets the user count of one cell, replacing any previous value. -/
def insert (counts : AudienceCounts) (country : Country) (bucket : AgeBucket) (users : Int64) :
    AudienceCounts :=
  ⟨AList.insert (country, bucket) users counts.cells⟩

/-- The user count of one cell, if it was ever set. -/
def get (counts : AudienceCounts) (country : Country) (bucket : AgeBucket) : Option Int64 :=
  counts.cells.lookup (country, bucket)

end AudienceCounts

/-- Total users across every (country, bucket) pair a campaign targets. -/
def audienceSize (counts : AudienceCounts) (countries : List Country) (buckets : List AgeBucket) :
    Int64 :=
  (Sorting.sortDedup countries).foldl (fun total country =>
    (Sorting.sortDedup buckets).foldl (fun total bucket =>
      Machine.saturatingAddI64 total ((counts.get country bucket).getD 0)) total) 0

/-- The targeting threshold: allowed only when the audience is strictly
larger. -/
def checkTargeting (size kTargeting : Int64) : Except PrivacyError Unit :=
  if size > kTargeting then .ok () else .error .audienceTooSmall

theorem checkTargeting_eq_ok {size kTargeting : Int64} :
    checkTargeting size kTargeting = .ok () ↔ kTargeting.toInt < size.toInt := by
  rw [← Int64.lt_iff_toInt_lt, checkTargeting]
  split_ifs with h
  · simpa using h
  · simpa using h

end AdMatch
