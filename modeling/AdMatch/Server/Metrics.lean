import AdMatch.Server.Http

/-!
# Metrics

The recorder and what is recorded: every finished request, every auction, the size of
the index, and how often it was built. A series is the name of a metric with its
labels; a counter or a histogram comes into being when it is first recorded.

The label of a route is one of four (`AdMatch.routeLabel_mem`), whatever path a client
asks for. The label of a method is the method as it was sent.

Times are left out: of a histogram only the number of its samples is kept.
-/

namespace AdMatch

/-- A time series: the name of a metric, with labels. -/
structure Series where
  name : String
  labels : List (String × String)
  deriving DecidableEq

/-- **What the recorder holds.** -/
structure Registry where
  counters : HashMap Series ℕ
  /-- The number of samples of each histogram. -/
  samples : HashMap Series ℕ
  gauges : HashMap Series ℕ

namespace Registry

/-- Nothing is recorded yet. -/
def new : Registry := ⟨∅, ∅, ∅⟩

/-- `counter!(..).increment(n)`. -/
def increment (r : Registry) (s : Series) (n : ℕ) : Registry :=
  { r with counters := r.counters.entryModify s 0 fun m => m + n }

/-- `histogram!(..).record(..)`. -/
def record (r : Registry) (s : Series) : Registry :=
  { r with samples := r.samples.entryModify s 0 fun m => m + 1 }

/-- `gauge!(..).set(n)`. -/
def set (r : Registry) (s : Series) (n : ℕ) : Registry :=
  { r with gauges := r.gauges.insert s n }

/-- The value of a counter. One that has not come into being counts zero. -/
def count (r : Registry) (s : Series) : ℕ := (r.counters.lookup s).getD 0

/-- The number of samples of a histogram. -/
def sampled (r : Registry) (s : Series) : ℕ := (r.samples.lookup s).getD 0

/-- The value of a gauge, once it is set. -/
def gauge (r : Registry) (s : Series) : Option ℕ := r.gauges.lookup s

variable (r : Registry) (s t : Series) (n : ℕ)

@[simp] theorem count_new : new.count s = 0 := rfl

@[simp] theorem sampled_new : new.sampled s = 0 := rfl

@[simp] theorem gauge_new : new.gauge s = none := rfl

@[simp] theorem count_increment :
    (r.increment s n).count t = r.count t + if t = s then n else 0 := by
  rw [count, increment]
  split
  · next h => rw [h, HashMap.lookup_entryModify_self, Option.getD_some, count]
  · next h => rw [HashMap.lookup_entryModify_ne _ h, Nat.add_zero, count]

@[simp] theorem sampled_increment : (r.increment s n).sampled t = r.sampled t := rfl

@[simp] theorem gauge_increment : (r.increment s n).gauge t = r.gauge t := rfl

@[simp] theorem count_record : (r.record s).count t = r.count t := rfl

@[simp] theorem sampled_record :
    (r.record s).sampled t = r.sampled t + if t = s then 1 else 0 := by
  rw [sampled, record]
  split
  · next h => rw [h, HashMap.lookup_entryModify_self, Option.getD_some, sampled]
  · next h => rw [HashMap.lookup_entryModify_ne _ h, Nat.add_zero, sampled]

@[simp] theorem gauge_record : (r.record s).gauge t = r.gauge t := rfl

@[simp] theorem count_set : (r.set s n).count t = r.count t := rfl

@[simp] theorem sampled_set : (r.set s n).sampled t = r.sampled t := rfl

@[simp] theorem gauge_set : (r.set s n).gauge t = if t = s then some n else r.gauge t := by
  rw [gauge, set]
  split
  · next h => rw [h, AList.lookup_insert]
  · next h => rw [AList.lookup_insert_ne h, gauge]

end Registry

/-! ### The metrics -/

/-- Requests served, by route, method and status. -/
def httpRequests (route method : String) (status : ℕ) : Series :=
  ⟨"http_requests_total",
    [("route", route), ("method", method), ("status", toString status)]⟩

/-- Request latency, by route and method. -/
def httpDuration (route method : String) : Series :=
  ⟨"http_request_duration_seconds", [("route", route), ("method", method)]⟩

/-- Auctions run, by outcome. -/
def auctions (outcome : String) : Series := ⟨"auction_outcomes_total", [("outcome", outcome)]⟩

/-- Candidates skipped because their daily budget could not cover the price. -/
def budgetRejections : Series := ⟨"budget_rejections_total", []⟩

/-- Campaigns in the served index. -/
def indexCampaigns : Series := ⟨"index_campaigns", []⟩

/-- Keywords in the served index. -/
def indexKeywords : Series := ⟨"index_keywords", []⟩

/-- Index loads that succeeded. -/
def indexBuild : Series := ⟨"index_build_duration_seconds", []⟩

/-- Index loads that failed. -/
def indexBuildFailures : Series := ⟨"index_build_failures_total", []⟩

namespace Registry

/-- Records one finished request. -/
def recordRequest (r : Registry) (route method : String) (status : ℕ) : Registry :=
  (r.record (httpDuration route method)).increment (httpRequests route method status) 1

/-- Records the result of one auction. Budget rejections are counted by the engine, not
by the rows of the debug ranking, which is cut. -/
def recordAuction (r : Registry) (outcome : AuctionOutcome) : Registry :=
  let r := r.increment (auctions (if outcome.winner.isSome then "win" else "no_ad")) 1
  if outcome.budgetSkipped > 0 then r.increment budgetRejections outcome.budgetSkipped else r

/-- Publishes the size of a newly loaded index. -/
def recordIndexSize [Unicode] (r : Registry) (snap : Snapshot) : Registry :=
  (r.set indexCampaigns snap.campaignCount).set indexKeywords snap.keywordCount

/-- Records an index load. -/
def recordIndexBuild (r : Registry) : Registry := r.record indexBuild

/-- Records a failed index load. -/
def recordIndexBuildFailure (r : Registry) : Registry := r.increment indexBuildFailures 1

end Registry

/-! ### Labels -/

theorem httpRequests_inj {route method route' method' : String} {status status' : ℕ} :
    httpRequests route method status = httpRequests route' method' status' ↔
      route = route' ∧ method = method' ∧ status = status' := by
  have hstatus : status.repr = status'.repr ↔ status = status' := by
    refine ⟨fun h => ?_, congrArg _⟩
    have hdigits : Nat.toDigits 10 status = Nat.toDigits 10 status' := by
      rw [← Nat.toList_repr, ← Nat.toList_repr, h]
    rw [← Nat.ofDigitChars_ten_toDigits (n := status), hdigits, Nat.ofDigitChars_ten_toDigits]
  simp [httpRequests, hstatus]

theorem httpDuration_inj {route method route' method' : String} :
    httpDuration route method = httpDuration route' method' ↔
      route = route' ∧ method = method' := by
  simp [httpDuration]

/-- **The label of a route is one of four.** -/
theorem routeLabel_mem (path : String) :
    routeLabel path ∈ ["unmatched", "/healthz", "/v1/match", "/metrics"] := by
  rw [routeLabel]
  cases Endpoint.ofPath path with
  | none => exact List.mem_cons_self
  | some endpoint => cases endpoint <;> decide

end AdMatch
