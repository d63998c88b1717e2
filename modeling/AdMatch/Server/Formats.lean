import AdMatch.Lib.Json
import AdMatch.Seedgen.Basic
import AdMatch.Server.State

/-!
# File and request formats

How campaigns, the seed file and the body of a match request are written and read as
JSON: the names of the fields and of the variants, the defaults, and which fields are
required. The seed generator and the server share these formats, so the file that one
writes is the file that the other reads (`AdMatch.readSeedFile_roundTrip`), whatever
order the members of its objects are in.

A campaign in a file also has an owner and a name, which nothing else looks at.
-/

namespace AdMatch

open Json

/-! ### Machine integers -/

namespace Machine

/-- An `i64`, if the number is in range. -/
def i64OfInt (n : ℤ) : Option Int64 :=
  if minI64 ≤ n ∧ n ≤ maxI64 then some (Int64.ofInt n) else none

theorem i64OfInt_toInt (a : Int64) : i64OfInt a.toInt = some a := by
  rw [i64OfInt, if_pos ⟨minI64_le_toInt a, toInt_le_maxI64 a⟩, Int64.ofInt_toInt]

/-- A `u64`, if the number is in range. -/
def u64OfInt (n : ℤ) : Option UInt64 :=
  if 0 ≤ n ∧ n < 2 ^ 64 then some (UInt64.ofNat n.toNat) else none

theorem u64OfInt_toNat (a : UInt64) : u64OfInt a.toNat = some a := by
  have hlt := a.toNat_lt
  rw [u64OfInt, if_pos ⟨by omega, by omega⟩, Int.toNat_natCast, UInt64.ofNat_toNat]

/-- The format of an `i64`. -/
def i64Codec : Codec Int64 :=
  .integer Int64.toInt i64OfInt i64OfInt_toInt fun a => ⟨a.le_toInt, by
    have := a.toInt_lt
    omega⟩

/-- The format of a `u64`. -/
def u64Codec : Codec UInt64 :=
  .integer (fun a => a.toNat) u64OfInt u64OfInt_toNat fun a => ⟨by omega, by
    have := a.toNat_lt
    omega⟩

end Machine

open Machine

/-! ### Identifiers and enumerations -/

def CampaignId.codec : Codec CampaignId := i64Codec.via val mk fun _ => rfl

def KeywordId.codec : Codec KeywordId := i64Codec.via val mk fun _ => rfl

def Micros.codec : Codec Micros := i64Codec.via val mk fun _ => rfl

/-- Identifies the advertiser that owns a campaign. -/
structure AdvertiserId where
  val : Int64
  deriving DecidableEq

def AdvertiserId.codec : Codec AdvertiserId := i64Codec.via val mk fun _ => rfl

/-- The name of a match type in a document. -/
def MatchType.name : MatchType → String
  | exact => "exact"
  | broad => "broad"

def MatchType.ofName (s : String) : Option MatchType :=
  [exact, broad].find? fun t => t.name = s

def MatchType.codec : Codec MatchType :=
  .enumeration name ofName fun t => by cases t <;> decide

/-- The name of a status in a document. -/
def CampaignStatus.name : CampaignStatus → String
  | active => "active"
  | paused => "paused"

def CampaignStatus.ofName (s : String) : Option CampaignStatus :=
  [active, paused].find? fun t => t.name = s

def CampaignStatus.codec : Codec CampaignStatus :=
  .enumeration name ofName fun t => by cases t <;> decide

/-- A country is written as its code, which is also what it is parsed from. -/
def Country.codec : Codec Country :=
  .enumeration asStr (fun s => (fromStr s).toOption) fun c => by rw [fromStr_asStr]; rfl

/-- An age bucket is written as its label, which is also what it is parsed from. -/
def AgeBucket.codec : Codec AgeBucket :=
  .enumeration asStr (fun s => (fromStr s).toOption) fun b => by rw [fromStr_asStr]; rfl

/-! ### Campaigns -/

def Keyword.codec : Codec Keyword :=
  Fields.record
    (.required "id" KeywordId.codec <| .required "text" .string <|
      .required "match_type" MatchType.codec <|
      .required "max_cpt_bid_micros" Micros.codec .nil)
    (fun k => (k.id, k.text, k.matchType, k.maxCptBid, ()))
    (fun (id, text, matchType, maxCptBid, _) => ⟨id, text, matchType, maxCptBid⟩)
    fun _ => rfl

def NegativeKeyword.codec : Codec NegativeKeyword :=
  Fields.record
    (.required "text" .string <| .required "match_type" MatchType.codec .nil)
    (fun n => (n.text, n.matchType, ()))
    (fun (text, matchType, _) => ⟨text, matchType⟩)
    fun _ => rfl

/-- A campaign as it is stored, with its owner and its name. -/
structure CampaignRecord extends Campaign where
  /-- Owner of the campaign. -/
  advertiserId : AdvertiserId
  name : String

/-- Paused campaigns, targeting and negative keywords may be left out. -/
def CampaignRecord.codec : Codec CampaignRecord :=
  Fields.record
    (.required "id" CampaignId.codec <| .required "advertiser_id" AdvertiserId.codec <|
      .required "name" .string <| .withDefault "status" CampaignStatus.codec .active <|
      .required "daily_budget_micros" Micros.codec <|
      .required "countries" (.list Country.codec) <|
      .withDefault "age_buckets" (.option (.list AgeBucket.codec) nofun) none <|
      .withDefault "audience_size" (.option i64Codec nofun) none <|
      .required "keywords" (.list Keyword.codec) <|
      .withDefault "negative_keywords" (.list NegativeKeyword.codec) [] .nil)
    (fun c => (c.id, c.advertiserId, c.name, c.status, c.dailyBudget, c.countries, c.ageBuckets,
      c.audienceSize, c.keywords, c.negativeKeywords, ()))
    (fun (id, advertiserId, name, status, dailyBudget, countries, ageBuckets, audienceSize,
        keywords, negativeKeywords, _) =>
      { id, advertiserId, name, status, dailyBudget, countries, ageBuckets, audienceSize, keywords,
        negativeKeywords })
    fun _ => rfl

/-! ### The seed file -/

def AudienceCell.codec : Codec AudienceCell :=
  Fields.record
    (.required "country" Country.codec <| .required "age_bucket" AgeBucket.codec <|
      .required "users" i64Codec .nil)
    (fun cell => (cell.country, cell.ageBucket, cell.users, ()))
    (fun (country, ageBucket, users, _) => ⟨country, ageBucket, users⟩)
    fun _ => rfl

/-- The seed file as it is stored. -/
structure SeedRecord where
  seed : UInt64
  campaigns : List CampaignRecord
  audienceCounts : List AudienceCell

namespace SeedRecord

/-- What the program looks at. -/
def file (record : SeedRecord) : SeedFile where
  seed := record.seed
  campaigns := record.campaigns.map CampaignRecord.toCampaign
  audienceCounts := record.audienceCounts

def codec : Codec SeedRecord :=
  Fields.record
    (.required "seed" u64Codec <| .required "campaigns" (.list CampaignRecord.codec) <|
      .required "audience_counts" (.list AudienceCell.codec) .nil)
    (fun f => (f.seed, f.campaigns, f.audienceCounts, ()))
    (fun (seed, campaigns, audienceCounts, _) => ⟨seed, campaigns, audienceCounts⟩)
    fun _ => rfl

end SeedRecord

/-- Why the seed file could not be loaded. -/
inductive SeedFileError
  /-- The file could not be read. -/
  | read (path : String)
  /-- The file is not valid seed JSON. -/
  | parse (path : String)
  deriving DecidableEq

/-- Reads and parses a seed file, given its contents if it could be read. -/
def readSeedFile (text : JsonText) (path : String) (contents : Option text.Text) :
    Except SeedFileError SeedRecord :=
  match contents with
  | none => .error (.read path)
  | some contents =>
    match (text.parse contents).bind SeedRecord.codec.decode with
    | none => .error (.parse path)
    | some record => .ok record

/-! ### Match requests -/

/-- The body of a match request as it is sent, with the identifier of the user, which
nothing looks at. -/
structure MatchBody extends MatchRequest where
  userId : Int64
  deriving DecidableEq

namespace MatchBody

/-- The country and the age bucket are any text here. -/
def fields : Fields (String × String × Int64 × Bool × Option String × Bool × Unit) :=
  .required "query" .string <| .required "country" .string <| .required "user_id" i64Codec <|
    .withDefault "personalized" .bool false <|
    .withDefault "age_bucket" (.option .string nofun) none <|
    .withDefault "debug" .bool false .nil

def codec : Codec MatchBody :=
  fields.record
    (fun b => (b.query, b.country, b.userId, b.personalized, b.ageBucket, b.debug, ()))
    (fun (query, country, userId, personalized, ageBucket, debug, _) =>
      { query, country, userId, personalized, ageBucket, debug })
    fun _ => rfl

end MatchBody

namespace Seedgen

/-- The members of a request line, as they are written. -/
def RequestLine.members (line : RequestLine) : List (String × Json) :=
  [("query", .str line.query), ("country", .str line.country.asStr),
    ("user_id", .int line.userId.toInt), ("personalized", .bool line.personalized),
    ("age_bucket", line.ageBucket.elim .null fun b => .str b.asStr), ("debug", .bool line.debug)]

/-- A request line as the server reads it. -/
def RequestLine.body (line : RequestLine) : MatchBody where
  query := line.query
  country := line.country.asStr
  userId := line.userId
  personalized := line.personalized
  ageBucket := line.ageBucket.map AgeBucket.asStr
  debug := line.debug

theorem RequestLine.encode_body (line : RequestLine) :
    MatchBody.codec.encode line.body = .obj line.members := by
  obtain ⟨query, country, userId, personalized, _ | ageBucket, debug⟩ := line <;> rfl

/-- **The server reads a request line as the generator meant it**, in any order of its
members and among any others. -/
theorem decode_requestLine {line : RequestLine} {members : List (String × Json)}
    (h : (members.filter fun m => m.1 ∈ MatchBody.fields.names).Perm line.members) :
    MatchBody.codec.decode (.obj members) = some line.body := by
  have hwrite : MatchBody.fields.write (line.query, line.country.asStr, line.userId,
      line.personalized, line.ageBucket.map AgeBucket.asStr, line.debug, ()) = line.members := by
    obtain ⟨query, country, userId, personalized, _ | ageBucket, debug⟩ := line <;> rfl
  change (MatchBody.fields.decode (.obj members)).map _ = _
  rw [MatchBody.fields.decode_of_perm (hwrite ▸ h)]
  rfl

end Seedgen

end AdMatch
