import AdMatch.Lib.Draw
import AdMatch.Server.Audience
import Mathlib.Data.Rat.Init
import Mathlib.Data.Rat.Defs

/-!
# The seed generator

Synthetic campaigns and load-test requests, drawn from one random generator. Campaigns
are drawn one after the other and validated as the server validates them; identifiers
are given to the accepted ones only. The requests come from the accepted campaigns: the
words of one of their keywords, with other words added, or words that nobody bids on.

A run is modelled over every sequence of values that the generator may return
(`AdMatch.Draw`), so the seed itself only ends up in the file. Floating-point numbers
serve to draw other values, and their operations are a parameter, `AdMatch.Floats`.
-/

namespace AdMatch

/-- The floating-point operations that values are drawn with. -/
class Floats where
  /-- A double. -/
  F64 : Type
  /-- The double nearest to a number, as for a literal or a conversion. -/
  ofRat : ℚ → F64
  pi : F64
  sub : F64 → F64 → F64
  mul : F64 → F64 → F64
  div : F64 → F64 → F64
  powf : F64 → F64 → F64
  ln : F64 → F64
  sqrt : F64 → F64
  cos : F64 → F64
  exp : F64 → F64
  round : F64 → F64
  clamp : F64 → F64 → F64 → F64
  /-- `as usize`, which truncates and saturates. -/
  toUsize : F64 → ℕ
  /-- `as i64`, which truncates and saturates. -/
  toI64 : F64 → Int64

/-- Contents of the seed file. -/
structure SeedFile where
  /-- The seed that the file was generated from. -/
  seed : UInt64
  /-- Campaigns that passed validation. -/
  campaigns : List Campaign
  /-- The synthetic population of each country and age bucket. -/
  audienceCounts : List AudienceCell

namespace Seedgen

open Draw

/-! ### Constants -/

/-- Vocabulary that keywords and queries are built from. -/
def vocabulary : List String :=
  ["photo", "editor", "free", "game", "music", "video", "fitness", "workout", "news", "cricket",
    "vpn", "budget", "notes", "scanner", "pdf", "recipe", "puzzle", "chess", "learn", "language",
    "weather", "maps", "camera", "filter", "collage", "player", "radio", "podcast", "streaming",
    "movies", "tv", "shows", "sports", "football", "live", "score", "scores", "yoga",
    "meditation", "sleep", "tracker", "calorie", "diet", "running", "cycling", "steps", "health",
    "doctor", "pharmacy", "bank", "banking", "wallet", "payments", "money", "expense", "invoice",
    "accounting", "tax", "stocks", "trading", "crypto", "bitcoin", "investing", "loan", "credit",
    "card", "shopping", "fashion", "shoes", "grocery", "delivery", "food", "restaurant", "pizza",
    "coffee", "taxi", "ride", "travel", "flight", "flights", "hotel", "booking", "train", "bus",
    "metro", "translator", "dictionary", "english", "spanish", "hindi", "french", "german",
    "japanese", "kids", "baby", "parenting", "school", "homework", "math", "science", "coding",
    "programming", "python", "study", "exam", "quiz", "flashcards", "reading", "books", "ebook",
    "audiobook", "comics", "manga", "novel", "writing", "journal", "diary", "planner",
    "calendar", "todo", "reminder", "habit", "focus", "timer", "alarm", "clock", "calculator",
    "converter", "unit", "currency", "file", "manager", "cleaner", "booster", "battery",
    "storage", "backup", "cloud", "drive", "sync", "email", "mail", "chat", "messenger",
    "social", "dating", "friends", "community", "forum", "voice", "call", "reels", "keyboard",
    "emoji", "stickers", "wallpaper", "themes", "launcher", "widget", "icons", "ringtone",
    "recorder", "audio", "sound", "equalizer", "piano", "guitar", "drums", "karaoke", "dj",
    "mixer", "beat", "maker", "draw", "drawing", "paint", "sketch", "art", "design", "logo",
    "poster", "flyer", "resume", "cv", "jobs", "job", "search", "freelance", "business",
    "office", "docs", "sheets", "slides", "presentation", "meeting", "zoom", "conference",
    "remote", "team", "project", "tasks", "kanban", "crm", "sales", "marketing", "analytics",
    "ads", "seo", "blog", "website", "builder", "store", "shop", "sell", "buy", "auction",
    "coupons", "deals", "cashback", "rewards", "points", "loyalty", "car", "parking", "fuel",
    "ev", "charging", "navigation", "gps", "compass", "hiking", "camping", "fishing", "hunting",
    "golf", "tennis", "badminton", "basketball", "baseball", "hockey", "racing", "bike",
    "motorcycle", "cars", "simulator", "strategy", "action", "adventure", "rpg", "shooter",
    "arcade", "casual", "word", "trivia", "sudoku", "crossword", "solitaire", "cards", "poker",
    "ludo", "carrom", "board", "tiles", "match", "blast", "candy", "farm", "city", "tower",
    "defense", "war", "zombie", "survival", "craft", "block", "world", "pets", "dog", "cat",
    "horse", "garden", "plants", "home", "interior", "decor", "furniture", "real", "estate",
    "rent", "apartment", "moving", "cleaning", "laundry", "beauty", "makeup", "hair", "salon",
    "skincare", "nails", "tattoo", "selfie", "face", "body", "sticker", "hd", "4k", "pro",
    "lite", "plus", "offline", "private", "secure", "fast", "simple", "easy", "best", "top",
    "new", "daily", "smart", "tools"]
/-- Share of the users of each country. -/
def countryWeights : List (Country × ℕ) :=
  [(.IN, 30), (.US, 25), (.GB, 8), (.DE, 8), (.JP, 8), (.CA, 6), (.AU, 5), (.SG, 4), (.AE, 4),
    (.NZ, 2)]

/-- Share of the users of each age bucket. -/
def bucketWeights : List (AgeBucket × ℕ) :=
  [(.age18To24, 20), (.age25To34, 28), (.age35To44, 22), (.age45To54, 15), (.age55To64, 10),
    (.age65Plus, 5)]

/-- Total synthetic population. -/
def population : Int64 := 2000000

/-- Syllables of made-up words. -/
def nonsense : List String := ["zor", "qua", "vex", "plim", "drob", "kest", "yul", "frin"]

/-- Settings for one generation run. -/
structure SeedOptions where
  seed : UInt64
  /-- Campaigns to generate, before validation. -/
  campaigns : ℕ
  /-- Request lines to generate. -/
  requests : ℕ
  /-- Privacy threshold that targeted campaigns are validated with. -/
  kTargeting : Int64

/-- The audience table: the population, times the share of the country, times that of
the bucket. -/
def audienceCells : List AudienceCell :=
  let countryTotal := (countryWeights.map fun w => Int64.ofNat w.2).sum
  let bucketTotal := (bucketWeights.map fun w => Int64.ofNat w.2).sum
  countryWeights.flatMap fun c => bucketWeights.map fun b =>
    { country := c.1, ageBucket := b.1
      users := population * Int64.ofNat c.2 * Int64.ofNat b.2 / (countryTotal * bucketTotal) }

/-! ### Words and numbers -/

/-- `str::split(' ')`. -/
def splitBlank (text : String) : List String := (text.toList.splitOn ' ').map String.ofList

/-- `words.join(" ")`. -/
def join (words : List String) : String := " ".intercalate words

/-- The item in whose share of the weights a roll falls. -/
def pickAt {α : Type} : List (α × ℕ) → ℕ → Option α
  | [], _ => none
  | (item, weight) :: items, roll =>
    if roll < weight then some item else pickAt items (roll - weight)

/-- Picks an item with probability proportional to its weight. -/
def pickWeighted {α : Type} (items : List (α × ℕ)) : Draw α := do
  let roll ← randomRange 0 (items.map Prod.snd).sum
  -- the first item stands in for a roll that is too large
  ofOption ((pickAt items roll).or (items.head?.map Prod.fst))

/-- `random::<f64>()`, in the unit interval. -/
def randomF64 [Floats] : Draw Floats.F64 := do
  let m ← randomRange 0 (2 ^ 53)
  return Floats.ofRat (m / 2 ^ 53)

/-- An index below `n`, the smaller the more probable. -/
def zipfIndex [Floats] (n : ℕ) : Draw ℕ := do
  let u ← randomF64
  let x := Floats.toUsize (Floats.powf (Floats.ofRat n) u)
  return min (x - 1) (n - 1)

/-- A log-normal bid, in whole thousands of micros. -/
def randomBid [Floats] : Draw Micros := do
  let u1 := Floats.sub (Floats.ofRat 1) (← randomF64)
  let u2 ← randomF64
  let z := Floats.mul (Floats.sqrt (Floats.mul (Floats.ofRat (-2)) (Floats.ln u1)))
    (Floats.cos (Floats.mul (Floats.mul (Floats.ofRat 2) Floats.pi) u2))
  let bid := Floats.mul (Floats.ofRat 1000000) (Floats.exp (Floats.mul (Floats.ofRat (6 / 10)) z))
  let thousands := Floats.toI64 (Floats.clamp
    (Floats.round (Floats.div bid (Floats.ofRat 1000))) (Floats.ofRat 20) (Floats.ofRat 20000))
  return ⟨thousands * 1000⟩

/-- `VOCABULARY[zipf_index(rng, VOCABULARY.len())]`. -/
def zipfWord [Floats] : Draw String := do
  let i ← zipfIndex vocabulary.length
  ofOption vocabulary[i]?

/-- `VOCABULARY[rng.random_range(0..VOCABULARY.len())]`. -/
def uniformWord : Draw String := do
  let i ← randomRange 0 vocabulary.length
  ofOption vocabulary[i]?

/-- One more word of a phrase, unless it has the word already. -/
def extendPhrase [Floats] (words : List String) : Draw (List String) := do
  let word ← zipfWord
  return if word ∈ words then words else words ++ [word]

/-- Words for one keyword: one to three distinct vocabulary words. -/
def randomPhrase [Floats] : Draw (List String) := do
  let len ← pickWeighted [(1, 40), (2, 45), (3, 15)]
  loopWhile (fun words => words.length < len) extendPhrase []

/-! ### Campaigns -/

/-- A match type that is broad in so many of a hundred cases. -/
def randomMatchType (broad : ℕ) : Draw MatchType := do
  return if ← randomRatio broad 100 then .broad else .exact

/-- The keywords of a campaign, as far as they have been drawn. -/
structure KeywordDraft where
  keywords : List Keyword
  seenTexts : Finset String
  /-- The words of the keywords. -/
  keywordWords : Finset String
  /-- The identifier of the next keyword. -/
  kid : Int64

/-- One more keyword, unless its text has been seen. -/
def draftKeyword [Floats] (draft : KeywordDraft) : Draw KeywordDraft := do
  let words ← randomPhrase
  let text := join words
  if text ∈ draft.seenTexts then return draft
  else
    let matchType ← randomMatchType 60
    let bid ← randomBid
    return { keywords := draft.keywords ++ [⟨⟨draft.kid⟩, text, matchType, bid⟩]
             seenTexts := insert text draft.seenTexts
             keywordWords := draft.keywordWords ∪ (words.flatMap splitBlank).toFinset
             kid := draft.kid + 1 }

/-- The keywords of a campaign, five to twenty, and their words. -/
def randomKeywords [Floats] (firstKeywordId : Int64) : Draw KeywordDraft := do
  let target ← randomRangeInclusive 5 20
  loopWhile (fun draft => draft.keywords.length < target) draftKeyword ⟨[], ∅, ∅, firstKeywordId⟩

/-- One more negative keyword, unless its word is one of the keywords' words or of a
negative keyword. -/
def draftNegative (keywordWords : Finset String) (negatives : List NegativeKeyword) :
    Draw (List NegativeKeyword) := do
  let word ← uniformWord
  if (∃ w ∈ splitBlank word, w ∈ keywordWords) ∨ ∃ n ∈ negatives, n.text = word then
    return negatives
  else
    let matchType ← randomMatchType 80
    return negatives ++ [⟨word, matchType⟩]

/-- The negative keywords of a campaign, three at most. -/
def randomNegatives (keywordWords : Finset String) : Draw (List NegativeKeyword) := do
  let n ← randomRangeInclusive 0 3
  times (draftNegative keywordWords) n []

/-- Distinct items picked by weight, one to three, in order. -/
def randomSet {α : Type} [LinearOrder α] (items : List (α × ℕ)) : Draw (List α) := do
  let n ← randomRangeInclusive 1 3
  loopWhile (fun set => set.length < n) (fun set => do
    let item ← pickWeighted items
    return Sorting.sortDedup (item :: set)) []

/-- The age buckets of a campaign, if it targets any, and its countries, which a narrow
targeting replaces. -/
def randomTargeting (countries : List Country) :
    Draw (List Country × Option (List AgeBucket)) := do
  if ← randomRatio 20 100 then
    if ← randomRatio 25 100 then
      let country ← choose [Country.NZ, .AE, .SG, .AU]
      let bucket ← choose [AgeBucket.age55To64, .age65Plus]
      return ([country.getD .NZ], some [bucket.getD .age65Plus])
    else
      let buckets ← randomSet bucketWeights
      return (countries, some buckets)
  else return (countries, none)

/-- One random campaign, whose keyword identifiers start at `firstKeywordId`. Its owner
and the word of its name are drawn too. -/
def randomCampaign [Floats] (id : CampaignId) (firstKeywordId : Int64) : Draw Campaign := do
  let draft ← randomKeywords firstKeywordId
  let negativeKeywords ← randomNegatives draft.keywordWords
  let countries ← randomSet countryWeights
  let (countries, ageBuckets) ← randomTargeting countries
  let active ← randomRatio 95 100
  let _nameWord ← uniformWord
  let _advertiserId ← randomRangeInclusive 1 2000
  let units ← randomRangeInclusive 10 500
  return { id, status := if active then .active else .paused
           dailyBudget := ⟨Int64.ofNat units * 1000000⟩
           countries, ageBuckets, audienceSize := none
           keywords := draft.keywords, negativeKeywords }

/-! ### Requests -/

/-- What a request is meant to be. -/
inductive RequestKind
  | exact | broad | negative | noMatch
  deriving DecidableEq

/-- The label that a kind is counted under. -/
def RequestKind.label : RequestKind → String
  | exact => "exact"
  | broad => "broad"
  | negative => "negative"
  | noMatch => "no_match"

/-- One line of the requests: a complete request body. -/
structure RequestLine where
  query : String
  country : Country
  userId : Int64
  personalized : Bool
  ageBucket : Option AgeBucket
  debug : Bool
  deriving DecidableEq

/-- What is picked for a request that comes from a keyword. The program does not keep it. -/
structure Source where
  /-- The position of the campaign, and of its keyword. -/
  campaignPos : ℕ
  keywordPos : ℕ
  /-- The words that were added to those of the keyword. -/
  added : List String
  /-- The negative keyword that was added. -/
  negative : Option NegativeKeyword

/-- A request line, the kind that it is counted as, and what was picked for it. -/
structure Request where
  line : RequestLine
  kind : RequestKind
  source : Option Source

/-- The campaigns and keywords that requests are drawn from, by position. -/
def keywordPool (campaigns : List Campaign) : List (ℕ × ℕ) :=
  campaigns.zipIdx.flatMap fun e => (List.range e.1.keywords.length).map fun ki => (e.2, ki)

/-- A query that matches nothing: one to three made-up words. -/
def nonsenseQuery : Draw String := do
  let n ← randomRangeInclusive 1 3
  let words ← times (fun words => do
    let a ← ofOption nonsense[← randomRange 0 nonsense.length]?
    let b ← ofOption nonsense[← randomRange 0 nonsense.length]?
    return words ++ [a ++ b]) n []
  return join words

/-- The words added to a keyword for a broad hit: one or two vocabulary words. -/
def addedWords [Floats] : Draw (List String) := do
  let n ← randomRangeInclusive 1 2
  times (fun words => do return words ++ [← zipfWord]) n []

/-- The country of a hit: in most cases one that the campaign serves. -/
def hitCountry (campaign : Campaign) (country : Country) : Draw Country := do
  if ← randomRatio 80 100 then
    let served ← choose campaign.countries
    return served.getD country
  else return country

/-- A query that is meant to hit a keyword. Without a negative keyword to add, a query
for one counts as broad. -/
def hitQuery [Floats] (campaigns : List Campaign) (pool : List (ℕ × ℕ)) (kind : RequestKind)
    (country : Country) : Draw (String × Country × RequestKind × Source) := do
  let (ci, ki) ← ofOption pool[← zipfIndex pool.length]?
  let campaign ← ofOption campaigns[ci]?
  let country ← hitCountry campaign country
  let keyword ← ofOption campaign.keywords[ki]?
  let added ← if kind = .broad then addedWords else pure []
  let negative ← if kind = .negative then choose campaign.negativeKeywords else pure none
  let kind := if kind = .negative ∧ negative = none then .broad else kind
  -- word order is shuffled: an exact match ignores it
  let words ← shuffle
    (splitBlank keyword.text ++ added ++ negative.toList.map NegativeKeyword.text)
  return (join words, country, kind, ⟨ci, ki, added, negative⟩)

/-- The line of a request: the query, and who asks. -/
def requestLine (query : String) (country : Country) : Draw RequestLine := do
  let personalized ← randomRatio 60 100
  let ageBucket ← if personalized then some <$> pickWeighted bucketWeights else pure none
  let userId ← randomRangeInclusive 1 population.toNatClampNeg
  return ⟨query, country, Int64.ofNat userId, personalized, ageBucket, false⟩

/-- One request. -/
def randomRequest [Floats] (campaigns : List Campaign) (pool : List (ℕ × ℕ)) : Draw Request := do
  let kind ← pickWeighted
    [(RequestKind.exact, 40), (.broad, 30), (.negative, 10), (.noMatch, 20)]
  let kind := if pool.isEmpty then .noMatch else kind
  let country ← pickWeighted countryWeights
  if kind = .noMatch then
    let line ← requestLine (← nonsenseQuery) country
    return ⟨line, kind, none⟩
  else
    let (query, country, kind, source) ← hitQuery campaigns pool kind country
    let line ← requestLine query country
    return ⟨line, kind, some source⟩

/-- The requests, each with what was picked for it, and how many there are of each kind. -/
def drawRequests [Floats] (campaigns : List Campaign) (count : ℕ) :
    Draw (List Request × HashMap String ℕ) :=
  times (fun state => do
    let request ← randomRequest campaigns (keywordPool campaigns)
    return (state.1 ++ [request], HashMap.bump state.2 request.kind.label)) count ([], ∅)

/-- The request lines, and how many there are of each kind. -/
def randomRequests [Floats] (campaigns : List Campaign) (count : ℕ) :
    Draw (List RequestLine × HashMap String ℕ) := do
  let (requests, byKind) ← drawRequests campaigns count
  return (requests.map Request.line, byKind)

/-! ### The whole generation -/

/-- Everything one run produces. -/
structure Generated where
  file : SeedFile
  requests : List RequestLine
  /-- Campaigns rejected by validation, by rejection code. -/
  rejected : HashMap String ℕ
  /-- Requests generated, by kind. -/
  requestsByKind : HashMap String ℕ

/-- The bytes that a campaign takes in a vector. -/
def campaignSize : ℕ := 168

/-- The campaigns generated so far. -/
structure Progress where
  campaigns : List Campaign
  rejected : HashMap String ℕ
  nextKeywordId : Int64

variable [Unicode]

/-- One more campaign, which only gets to keep its identifiers if it is accepted. -/
def generateCampaign [Floats] (table : AudienceCounts) (kTargeting : Int64) (progress : Progress) :
    Draw Progress := do
  let nextId := (Machine.i64OfUsize progress.campaigns.length).getD Int64.maxValue + 1
  let campaign ← randomCampaign ⟨nextId⟩ progress.nextKeywordId
  match validateCampaign campaign table kTargeting with
  | .ok size =>
    let campaigns ← ofOption
      (Machine.vecPush campaignSize progress.campaigns { campaign with audienceSize := size })
    return { campaigns, rejected := progress.rejected
             nextKeywordId := progress.nextKeywordId +
               (Machine.i64OfUsize campaign.keywords.length).getD 0 }
  | .error reason => return { progress with rejected := progress.rejected.bump reason.code }

/-- Runs the whole generation. -/
def generate [Floats] (opts : SeedOptions) : Draw Generated := do
  let audienceCounts := audienceCells
  let table := SeedFile.audienceTable audienceCounts
  let progress ← times (generateCampaign table opts.kTargeting) opts.campaigns ⟨[], ∅, 1⟩
  let (requests, byKind) ← randomRequests progress.campaigns opts.requests
  return { file := ⟨opts.seed, progress.campaigns, audienceCounts⟩
           requests, rejected := progress.rejected, requestsByKind := byKind }

end Seedgen

end AdMatch
