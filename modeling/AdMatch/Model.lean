import AdMatch.Lib.Machine
import Mathlib.Order.Lattice

/-!
# The shared data model

Identifiers, money, targeting enumerations and campaigns. Every identifier and
every amount of money is a one-field structure over the machine integer that
carries it, ordered by its value. Only the fields that the decision logic reads
are kept: a campaign's owner and its display name are not.
-/

namespace AdMatch

/-! ### Identifiers and money -/

/-- Identifies a campaign. -/
structure CampaignId where
  val : Int64
  deriving Repr

/-- Identifies a keyword. -/
structure KeywordId where
  val : Int64
  deriving Repr

/-- Money in micros, one millionth of a currency unit. -/
structure Micros where
  val : Int64
  deriving Repr

/-- Relevance in basis points: 10 000 is a perfect match. -/
structure RelevanceBp where
  val : UInt32
  deriving Repr

/-- A token interned to a small integer. -/
structure TokenId where
  val : UInt32
  deriving Repr

namespace CampaignId

def toInt (c : CampaignId) : ℤ := c.val.toInt

theorem toInt_injective : Function.Injective toInt := fun a b h => by
  cases a
  cases b
  exact congrArg _ (Int64.toInt_inj.mp h)

instance : LinearOrder CampaignId := LinearOrder.lift' toInt toInt_injective

end CampaignId

namespace KeywordId

def toInt (k : KeywordId) : ℤ := k.val.toInt

theorem toInt_injective : Function.Injective toInt := fun a b h => by
  cases a
  cases b
  exact congrArg _ (Int64.toInt_inj.mp h)

instance : LinearOrder KeywordId := LinearOrder.lift' toInt toInt_injective

end KeywordId

namespace Micros

def toInt (m : Micros) : ℤ := m.val.toInt

theorem toInt_injective : Function.Injective toInt := fun a b h => by
  cases a
  cases b
  exact congrArg _ (Int64.toInt_inj.mp h)

instance : LinearOrder Micros := LinearOrder.lift' toInt toInt_injective

theorem le_def {a b : Micros} : a ≤ b ↔ a.toInt ≤ b.toInt := Iff.rfl

theorem lt_def {a b : Micros} : a < b ↔ a.toInt < b.toInt := Iff.rfl

theorem toInt_le (m : Micros) : m.toInt ≤ Machine.maxI64 := Machine.toInt_le_maxI64 m.val

end Micros

namespace TokenId

def toNat (t : TokenId) : ℕ := t.val.toNat

theorem toNat_injective : Function.Injective toNat := fun a b h => by
  cases a
  cases b
  exact congrArg _ (UInt32.toNat_inj.mp h)

instance : LinearOrder TokenId := LinearOrder.lift' toNat toNat_injective

end TokenId

namespace RelevanceBp

def toNat (r : RelevanceBp) : ℕ := r.val.toNat

theorem toNat_injective : Function.Injective toNat := fun a b h => by
  cases a
  cases b
  exact congrArg _ (UInt32.toNat_inj.mp h)

instance : DecidableEq RelevanceBp := fun a b =>
  decidable_of_iff (a.toNat = b.toNat) toNat_injective.eq_iff

theorem toNat_lt (r : RelevanceBp) : r.toNat < 2 ^ 32 := r.val.toNat_lt

end RelevanceBp

/-! ### Targeting -/

/-- How a keyword is compared with a query. -/
inductive MatchType
  /-- The query has exactly the keyword's tokens, in any order. -/
  | exact
  /-- Every keyword token appears somewhere in the query. -/
  | broad
  deriving DecidableEq, Repr

/-- Whether a campaign may serve. -/
inductive CampaignStatus
  /-- Serving normally. -/
  | active
  /-- Kept in storage, never in an auction. -/
  | paused
  deriving DecidableEq, Repr

/-- The storefront countries. -/
inductive Country
  | IN | US | GB | AU | SG | AE | CA | DE | JP | NZ
  deriving Repr

namespace Country

/-- Every supported country, in declaration order. -/
def all : List Country := [.IN, .US, .GB, .AU, .SG, .AE, .CA, .DE, .JP, .NZ]

def asStr : Country → String
  | .IN => "IN"
  | .US => "US"
  | .GB => "GB"
  | .AU => "AU"
  | .SG => "SG"
  | .AE => "AE"
  | .CA => "CA"
  | .DE => "DE"
  | .JP => "JP"
  | .NZ => "NZ"

/-- Parses an exact, upper-case code. The error is the rejected text. -/
def fromStr (s : String) : Except String Country :=
  match all.find? fun c => c.asStr = s with
  | some c => .ok c
  | none => .error s

/-- The position of a country in its declaration, by which countries are
ordered. -/
def rank : Country → ℕ
  | .IN => 0
  | .US => 1
  | .GB => 2
  | .AU => 3
  | .SG => 4
  | .AE => 5
  | .CA => 6
  | .DE => 7
  | .JP => 8
  | .NZ => 9

theorem rank_injective : Function.Injective rank := by
  intro a b h
  cases a <;> cases b <;> first | rfl | exact absurd h (by decide)

instance : LinearOrder Country := LinearOrder.lift' rank rank_injective

/-- **A code parses back to its country.** -/
theorem fromStr_asStr (c : Country) : fromStr c.asStr = .ok c := by
  cases c <;> decide

end Country

/-- Age ranges for personalised targeting. -/
inductive AgeBucket
  | age18To24 | age25To34 | age35To44 | age45To54 | age55To64 | age65Plus
  deriving Repr

namespace AgeBucket

/-- Every age bucket, youngest first. -/
def all : List AgeBucket :=
  [.age18To24, .age25To34, .age35To44, .age45To54, .age55To64, .age65Plus]

def asStr : AgeBucket → String
  | .age18To24 => "18-24"
  | .age25To34 => "25-34"
  | .age35To44 => "35-44"
  | .age45To54 => "45-54"
  | .age55To64 => "55-64"
  | .age65Plus => "65+"

/-- Parses a label. The error is the rejected text. -/
def fromStr (s : String) : Except String AgeBucket :=
  match all.find? fun b => b.asStr = s with
  | some b => .ok b
  | none => .error s

/-- The position of a bucket, by which buckets are ordered. -/
def rank : AgeBucket → ℕ
  | .age18To24 => 0
  | .age25To34 => 1
  | .age35To44 => 2
  | .age45To54 => 3
  | .age55To64 => 4
  | .age65Plus => 5

theorem rank_injective : Function.Injective rank := by
  intro a b h
  cases a <;> cases b <;> first | rfl | exact absurd h (by decide)

instance : LinearOrder AgeBucket := LinearOrder.lift' rank rank_injective

/-- **A label parses back to its bucket.** -/
theorem fromStr_asStr (b : AgeBucket) : fromStr b.asStr = .ok b := by
  cases b <;> decide

end AgeBucket

/-! ### Campaigns -/

/-- A keyword a campaign bids on. -/
structure Keyword where
  id : KeywordId
  text : String
  matchType : MatchType
  /-- The most the advertiser pays for one tap. -/
  maxCptBid : Micros
  deriving DecidableEq

/-- A keyword that stops a campaign from serving. -/
structure NegativeKeyword where
  text : String
  matchType : MatchType
  deriving DecidableEq

/-- An advertiser's campaign: budget, targeting and keywords. -/
structure Campaign where
  id : CampaignId
  /-- Paused campaigns never serve. -/
  status : CampaignStatus
  /-- The most the campaign may spend in a day. -/
  dailyBudget : Micros
  countries : List Country
  /-- The age buckets it targets; `none` means no age targeting. -/
  ageBuckets : Option (List AgeBucket)
  /-- The number of people it targets, when known. -/
  audienceSize : Option Int64
  keywords : List Keyword
  negativeKeywords : List NegativeKeyword
  deriving DecidableEq

end AdMatch
