import AdMatch.Server.Formats

/-!
# The HTTP interface

The endpoints, the responses they give, and what goes out in the end. Every error has
the same JSON form, `{"error": {"code", "message"}}`: handlers answer with an
`AdMatch.ApiError`, and what the layers and the router answer by themselves – a body
too large, a timeout, a method that is not allowed – is rewritten on its way out
(`AdMatch.jsonErrors`).

Which layer cuts a request off, what it writes then, and why a body could not be
extracted come from outside and are part of an arrival (`AdMatch.Arrival`).
-/

namespace AdMatch

open Json

/-! ### Responses -/

/-- The body of a response. -/
inductive Body
  | json (v : Json)
  | text (s : String)

/-- A response, as far as it matters here. -/
structure Response where
  status : ℕ
  /-- The `Content-Type` header, if it is text. -/
  contentType : Option String
  body : Body

namespace Response

/-- `is_client_error() || is_server_error()`. -/
def IsError (r : Response) : Prop := 400 ≤ r.status ∧ r.status < 600

instance (r : Response) : Decidable r.IsError := inferInstanceAs (Decidable (_ ∧ _))

/-- A content type that starts with `application/json`. -/
def IsJsonType (contentType : Option String) : Prop :=
  ∃ t ∈ contentType, "application/json".toList <+: t.toList

instance (contentType : Option String) : Decidable (IsJsonType contentType) :=
  match contentType with
  | none => .isFalse fun ⟨_, ht, _⟩ => Option.not_mem_none _ ht
  | some t => decidable_of_iff ("application/json".toList <+: t.toList)
    ⟨fun h => ⟨t, rfl, h⟩, fun ⟨_, ht, h⟩ => Option.mem_some.mp ht ▸ h⟩

/-- A JSON response. -/
def ofJson (status : ℕ) (v : Json) : Response := ⟨status, some "application/json", .json v⟩

end Response

open Response

namespace ApiError

/-- 400: the body is not the JSON object that is expected. -/
def malformed (message : String) : ApiError := ⟨400, "malformed_request", message⟩

/-- An error for a bare status code. -/
def fromStatus (status : ℕ) : ApiError :=
  let (code, message) :=
    if status = 404 then ("not_found", "no such route")
    else if status = 405 then ("method_not_allowed", "this route does not accept that method")
    else if status = 413 then ("payload_too_large", "request body is too large")
    else if status = 408 ∨ status = 503 then
      ("unavailable", "the server is overloaded or timed out, retry later")
    else if 400 ≤ status ∧ status < 500 then ("bad_request", "the request was rejected")
    else ("internal_error", "internal server error")
  ⟨status, code, message⟩

@[simp] theorem fromStatus_status (status : ℕ) : (fromStatus status).status = status := rfl

/-- The body of an error. -/
def toJson (e : ApiError) : Json :=
  .obj [("error", .obj [("code", .str e.code), ("message", .str e.message)])]

def intoResponse (e : ApiError) : Response := .ofJson e.status e.toJson

end ApiError

/-- What a handler returns, as a response. -/
def respond {α : Type} (toJson : α → Json) : Except ApiError α → Response
  | .ok a => .ofJson 200 (toJson a)
  | .error e => e.intoResponse

/-- Why a body could not be extracted. -/
inductive JsonRejection
  | syntaxError
  | dataError
  | missingContentType
  /-- Reading failed, with the status that this would be. -/
  | bytes (status : ℕ)
  deriving DecidableEq

/-- Every problem with a body is a 400 with a wording of its own; only a body that is too
large is a 413. -/
def ApiError.ofRejection : JsonRejection → ApiError
  | .syntaxError => malformed "request body is not valid JSON"
  | .dataError => malformed "request body has a missing field or a field of the wrong type"
  | .missingContentType => malformed "expected header Content-Type: application/json"
  | .bytes status =>
    if status = 413 then fromStatus 413 else malformed "request body could not be read"

/-! ### What a match request is answered -/

def ExclusionReason.name : ExclusionReason → String
  | negativeKeyword => "negative_keyword"
  | targeting => "targeting"
  | reserve => "reserve"
  | budget => "budget"

/-- A value that may be missing. -/
def nullable {α : Type} (toJson : α → Json) (a : Option α) : Json := a.elim .null toJson

def Winner.toJson (w : Winner) : Json :=
  .obj [("campaign_id", .int w.campaignId.toInt), ("keyword_id", .int w.keywordId.toInt),
    ("keyword", .str w.keywordText), ("match_type", .str w.matchType.name),
    ("max_cpt_bid_micros", .int w.maxCptBid.toInt), ("price_micros", .int w.price.toInt),
    ("relevance_bp", .int w.relevance.toNat)]

def RankedEntry.toJson (r : RankedEntry) : Json :=
  .obj [("campaign_id", .int r.campaignId.toInt), ("keyword_id", .int r.keywordId.toInt),
    ("bid_micros", .int r.bid.toInt), ("relevance_bp", .int r.relevance.toNat),
    ("score", .int r.score), ("would_pay_micros", nullable (fun p => .int p.toInt) r.wouldPay),
    ("excluded", nullable (fun e => .str e.name) r.excluded)]

/-- The ranking is left out where there is none. -/
def MatchResponse.toJson (r : MatchResponse String) : Json :=
  .obj ([("impression_id", nullable .str r.impressionId), ("ad", nullable Winner.toJson r.ad),
      ("candidates", .int r.candidates), ("took_us", .int r.tookUs)] ++
    r.ranking.toList.map fun rows => ("ranking", .arr (rows.map RankedEntry.toJson)))

/-- What is answered, once the auction has returned. -/
def matchAnswer (uuid : String) (tookUs : ℕ) :
    Except QueryError AuctionOutcome → Except ApiError (MatchResponse String)
  | .error e => .error (queryError e)
  | .ok outcome => .ok
    { impressionId := outcome.winner.map fun _ => uuid
      ad := outcome.winner
      candidates := outcome.candidates
      tookUs
      ranking := outcome.ranking }

/-- The response to a match request whose auction has returned. -/
def matchResponse (uuid : String) (tookUs : ℕ) (result : Except QueryError AuctionOutcome) :
    Response :=
  respond MatchResponse.toJson (matchAnswer uuid tookUs result)

section Handlers

variable [Unicode]

/-- What the auction needs: a request that it sees, and a snapshot. -/
def admission (snapshot : Option Snapshot) (req : MatchRequest) :
    Except ApiError (AuctionRequest × Snapshot) :=
  match auctionRequest req with
  | .error e => .error e
  | .ok auction =>
    match snapshot with
    | none => .error .notReady
    | some snap => .ok (auction, snap)

/-- **The match endpoint** admits a request, runs the auction, and answers. -/
theorem matchAd_eq {Day : Type} [DecidableEq Day] (order : HashOrder)
    (snapshot : Option Snapshot) (budgets : BudgetStore Day) (today : Day) (uuid : String)
    (tookUs : ℕ) (req : MatchRequest) :
    matchAd order snapshot budgets today uuid tookUs req =
      match admission snapshot req with
      | .error e => (.error e, budgets)
      | .ok (auction, snap) =>
        Prod.map (matchAnswer uuid tookUs) id (snap.run order auction budgets today) := by
  rw [matchAd, admission]
  rcases auctionRequest req with e | auction
  · rfl
  · rcases snapshot with _ | snap
    · rfl
    · simp only
      rcases snap.run order auction budgets today with ⟨_ | _, _⟩ <;> rfl

/-! ### Health -/

/-- The body of a healthy health check. -/
structure Health where
  status : String
  campaigns : ℕ
  keywords : ℕ

def Health.toJson (h : Health) : Json :=
  .obj [("status", .str h.status), ("campaigns", .int h.campaigns), ("keywords", .int h.keywords)]

namespace Snapshot

/-- The number of campaigns of a snapshot. -/
def campaignCount (snap : Snapshot) : ℕ := snap.campaigns.length

/-- The number of keywords, across all campaigns. -/
def keywordCount (snap : Snapshot) : ℕ := (snap.campaigns.map fun c => c.keywords.length).sum

end Snapshot

/-- Ready once an index is loaded. -/
def healthz (snapshot : Option Snapshot) : Except ApiError Health :=
  match snapshot with
  | none => .error .notReady
  | some snap => .ok ⟨"ok", snap.campaignCount, snap.keywordCount⟩

/-! ### Routing -/

/-- The endpoints. -/
inductive Endpoint
  | healthz | matchAd | metrics
  deriving DecidableEq

namespace Endpoint

def all : List Endpoint := [healthz, matchAd, metrics]

def path : Endpoint → String
  | healthz => "/healthz"
  | matchAd => "/v1/match"
  | metrics => "/metrics"

/-- The methods of a route. A route for `GET` also answers `HEAD`. -/
def methods : Endpoint → List String
  | healthz => ["GET", "HEAD"]
  | matchAd => ["POST"]
  | metrics => ["GET", "HEAD"]

/-- The endpoint of a path. -/
def ofPath (path : String) : Option Endpoint := all.find? fun e => e.path = path

end Endpoint

/-- The label of a path: its route, never the path itself if it is not one. -/
def routeLabel (path : String) : String := (Endpoint.ofPath path).elim "unmatched" Endpoint.path

/-! ### Arrivals -/

/-- What the router or a layer writes when it answers by itself: plain text, or
nothing. -/
structure PlainBody where
  contentType : Option String
  text : String
  not_json : ¬IsJsonType contentType

/-- Nothing. -/
def PlainBody.empty : PlainBody := ⟨none, "", by decide⟩

def PlainBody.response (body : PlainBody) (status : ℕ) : Response :=
  ⟨status, body.contentType, .text body.text⟩

/-- What cuts a request off before its handler runs. -/
inductive Cut
  /-- The body is declared longer than the limit. -/
  | tooLarge
  /-- The handler was still waiting for the body when the time was up. -/
  | timedOut
  deriving DecidableEq

def Cut.status : Cut → ℕ
  | tooLarge => 413
  | timedOut => 503

/-- A request that arrives, with what becomes of it outside the handlers. -/
structure Arrival where
  method : String
  path : String
  /-- Whether a layer cuts it off. -/
  cut : Option Cut
  /-- What is written if the router or a layer answers. -/
  plain : PlainBody
  /-- The body of a match request, if it can be extracted. -/
  body : Except JsonRejection MatchBody

/-- The first part of handling a request: either it is answered, or a match request is
there to be admitted. -/
inductive Handling
  | answer (response : Response)
  | auction (req : MatchRequest)

/-- **Routing**: the layers first, then the path, then the method, then the handler. -/
def Arrival.handle (a : Arrival) (snapshot : Option Snapshot) (rendered : String) : Handling :=
  match a.cut with
  | some cut => .answer (a.plain.response cut.status)
  | none =>
    match Endpoint.ofPath a.path with
    | none => .answer (ApiError.fromStatus 404).intoResponse
    | some endpoint =>
      if a.method ∉ endpoint.methods then .answer (a.plain.response 405)
      else match endpoint with
        | .healthz => .answer (respond Health.toJson (healthz snapshot))
        | .metrics => .answer ⟨200, some "text/plain; version=0.0.4", .text rendered⟩
        | .matchAd =>
          match a.body with
          | .error rejection => .answer (ApiError.ofRejection rejection).intoResponse
          | .ok body => .auction (MatchBody.toMatchRequest body)

end Handlers

/-! ### Errors on their way out -/

/-- **Every error response that is not JSON is rewritten**, its status kept. -/
def jsonErrors (r : Response) : Response :=
  if r.IsError ∧ ¬IsJsonType r.contentType then (ApiError.fromStatus r.status).intoResponse else r

theorem isJsonType_ofJson (status : ℕ) (v : Json) : IsJsonType (ofJson status v).contentType :=
  ⟨_, rfl, List.prefix_refl _⟩

/-- What is JSON already goes out as it is. -/
theorem jsonErrors_ofJson (status : ℕ) (v : Json) : jsonErrors (ofJson status v) =
    ofJson status v :=
  if_neg fun h => h.2 (isJsonType_ofJson status v)

/-- What a layer answers goes out as the error of its status. -/
theorem jsonErrors_plain (body : PlainBody) {status : ℕ} (h : 400 ≤ status ∧ status < 600) :
    jsonErrors (body.response status) = (ApiError.fromStatus status).intoResponse :=
  if_pos ⟨h, body.not_json⟩

@[simp] theorem jsonErrors_status (r : Response) : (jsonErrors r).status = r.status := by
  rw [jsonErrors]
  split <;> rfl

/-- The response of a match request whose auction has returned. -/
theorem matchResponse_cases (uuid : String) (tookUs : ℕ)
    (result : Except QueryError AuctionOutcome) :
    (∃ outcome v, result = .ok outcome ∧ matchResponse uuid tookUs result = .ofJson 200 v) ∨
      ∃ e, result = .error e ∧ matchResponse uuid tookUs result = (queryError e).intoResponse := by
  cases result with
  | ok outcome => exact .inl ⟨outcome, _, rfl, rfl⟩
  | error e => exact .inr ⟨e, rfl, rfl⟩

/-- What an auction returned goes out as it is. -/
theorem jsonErrors_matchResponse (uuid : String) (tookUs : ℕ)
    (result : Except QueryError AuctionOutcome) :
    jsonErrors (matchResponse uuid tookUs result) = matchResponse uuid tookUs result := by
  rcases matchResponse_cases uuid tookUs result with ⟨outcome, v, -, hr⟩ | ⟨e, -, hr⟩ <;>
    rw [hr] <;> exact jsonErrors_ofJson _ _

end AdMatch
