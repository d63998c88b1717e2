import AdMatch.Engine.Basic

/-!
# The match endpoint

`POST /v1/match`, from the decoded body on: the country and the age bucket arrive
as text and are parsed here, the auction runs on the current snapshot, and errors
become a status with a code and a message. The age bucket of a request that is
not personalised is never looked at, not even to parse it
(`AdMatch.matchAd_ageBucket`).

The identifier of an impression and the time taken come from outside and are
parameters.
-/

namespace AdMatch

/-- An error that is turned into an HTTP response. -/
structure ApiError where
  status : ℕ
  code : String
  message : String
  deriving DecidableEq

namespace ApiError

/-- 422: the body is well formed but a value breaks a rule. -/
def validation (code message : String) : ApiError := ⟨422, code, message⟩

/-- 503: the campaign index has not been loaded yet. -/
def notReady : ApiError := ⟨503, "not_ready", "the campaign index is not loaded yet"⟩

end ApiError

/-- The text of a query error. -/
def QueryError.message : QueryError → String
  | .empty => "query is empty after normalisation"
  | .tooLong => "query is longer than 200 characters"
  | .tooManyTokens => "query has more than 16 tokens"

/-- Maps a query error to a 422 response. -/
def queryError (err : QueryError) : ApiError :=
  let code := match err with
    | .empty => "empty_query"
    | .tooLong => "query_too_long"
    | .tooManyTokens => "too_many_tokens"
  ApiError.validation code err.message

/-- The decoded body of a match request. -/
structure MatchRequest where
  query : String
  country : String
  personalized : Bool
  ageBucket : Option String
  debug : Bool
  deriving DecidableEq

/-- The response to a match request. -/
structure MatchResponse (Uuid : Type) where
  impressionId : Option Uuid
  ad : Option Winner
  candidates : ℕ
  tookUs : ℕ
  ranking : Option (List RankedEntry)

/-- The country of a request. -/
def parseCountry (raw : String) : Except ApiError Country :=
  match Country.fromStr raw with
  | .ok country => .ok country
  | .error _ => .error <| .validation "invalid_country"
      "country must be one of IN, US, GB, AU, SG, AE, CA, DE, JP, NZ"

/-- The age bucket of a request, looked at only when the request is
personalised. -/
def parseAgeBucket (raw : Option String) (personalized : Bool) :
    Except ApiError (Option AgeBucket) :=
  match raw, personalized with
  | some raw, true =>
    match AgeBucket.fromStr raw with
    | .ok bucket => .ok (some bucket)
    | .error _ => .error <| .validation "invalid_age_bucket"
        "age_bucket must be one of 18-24, 25-34, 35-44, 45-54, 55-64, 65+"
  | _, _ => .ok none

/-- The request that the auction sees. -/
def auctionRequest (req : MatchRequest) : Except ApiError AuctionRequest :=
  match parseCountry req.country with
  | .error e => .error e
  | .ok country =>
    match parseAgeBucket req.ageBucket req.personalized with
    | .error e => .error e
    | .ok ageBucket => .ok ⟨req.query, country, req.personalized, ageBucket, req.debug⟩

variable [Unicode] {Day Uuid : Type} [DecidableEq Day]

/-- **The match endpoint**: validate, run the auction, respond. -/
def matchAd (order : HashOrder) (snapshot : Option Snapshot) (budgets : BudgetStore Day)
    (today : Day) (uuid : Uuid) (tookUs : ℕ) (req : MatchRequest) :
    Except ApiError (MatchResponse Uuid) × BudgetStore Day :=
  match auctionRequest req with
  | .error e => (.error e, budgets)
  | .ok auction =>
    match snapshot with
    | none => (.error .notReady, budgets)
    | some snap =>
      match snap.run order auction budgets today with
      | (.error e, budgets) => (.error (queryError e), budgets)
      | (.ok outcome, budgets) =>
        (.ok
          { impressionId := outcome.winner.map fun _ => uuid
            ad := outcome.winner
            candidates := outcome.candidates
            tookUs
            ranking := outcome.ranking }, budgets)

/-- **The age bucket of a request that is not personalised is not looked at**,
not even to parse it. -/
theorem matchAd_ageBucket (order : HashOrder) (snapshot : Option Snapshot)
    (budgets : BudgetStore Day) (today : Day) (uuid : Uuid) (tookUs : ℕ) {req : MatchRequest}
    (hreq : req.personalized = false) (ageBucket : Option String) :
    parseAgeBucket ageBucket req.personalized = .ok none ∧
      matchAd order snapshot budgets today uuid tookUs { req with ageBucket } =
        matchAd order snapshot budgets today uuid tookUs req := by
  have hparse : ∀ raw, parseAgeBucket raw req.personalized = .ok none := fun raw => by
    rw [hreq]
    cases raw <;> rfl
  have hauction : auctionRequest { req with ageBucket } = auctionRequest req := by
    rw [auctionRequest, auctionRequest, hparse, hparse]
  rw [matchAd, matchAd, hauction]
  exact ⟨hparse _, rfl⟩

end AdMatch
