import AdMatch.Engine.Charging
import AdMatch.Lib.Serial

/-!
# Concurrent auctions

Calls of the auction that share a budget store. A call captures its snapshot, its
request and its day, and then asks the store for one candidate after another;
other calls may ask in between, and days may be dropped. Left alone it does what
`AdMatch.Snapshot.run` does (`AdMatch.Call.exec_alone`), and whatever the
interleaving, the calls could have been made one after another, in the order of
their last attempts to spend (`AdMatch.Call.serialisable`).
-/

namespace AdMatch

open Interleaving Walk

section Calls

variable [Unicode] {Day : Type}

/-- **A call of the auction**: what it has captured when it starts to spend. -/
structure Call (Day : Type) where
  order : HashOrder
  snap : Snapshot
  req : AuctionRequest
  day : Day

namespace Call

/-- The candidates, ranked. An invalid query has none. -/
def ranking (call : Call Day) : List KeywordMatch :=
  match normalize call.req.query with
  | .error _ => []
  | .ok tokens => (call.snap.entries call.order call.req tokens).eligible

/-- The price of every candidate. -/
def prices (call : Call Day) : List Micros :=
  gspPrices (call.ranking.map KeywordMatch.bidder) call.snap.cfg.reserve call.snap.cfg.increment

/-- What is tried: the prices, each with its position. -/
def work (call : Call Day) : List (Micros × ℕ) := call.prices.zipIdx

/-- What the call returns, once it is known which attempt went through. -/
def result (call : Call Day) (found : Option (Micros × ℕ)) : Except QueryError AuctionOutcome :=
  match normalize call.req.query with
  | .error e => .error e
  | .ok tokens => .ok (call.snap.outcome call.req (call.snap.entries call.order call.req tokens)
    ⟨found.map Prod.snd, call.prices, (found.map Prod.snd).getD call.ranking.length⟩)

/-- What the call has returned. -/
def returned (call : Call Day) : Progress (Micros × ℕ) → Option (Except QueryError AuctionOutcome)
  | .trying _ _ => none
  | .stopped found => some (call.result found)

/-- The campaign at a position of the ranking. -/
def campaignAt (call : Call Day) (i : ℕ) : Option Campaign :=
  call.ranking[i]?.bind fun m => call.snap.campaigns[m.campaignPos]?

/-! What a call whose query is accepted has to work with, in terms of its field. -/

section Accepted

variable {call : Call Day} {tokens : List String}

theorem ranking_of_normalize (h : normalize call.req.query = .ok tokens) : call.ranking =
    (rankedOffers call.snap.cfg call.req tokens.toFinset call.snap.campaigns).map placedMatch := by
  rw [ranking, h]
  simp only [call.snap.entries_eq]

theorem prices_of_normalize (h : normalize call.req.query = .ok tokens) : call.prices =
    (fieldOf call.snap.cfg call.req tokens.toFinset call.snap.campaigns).prices call.snap.cfg := by
  rw [prices, ← Snapshot.prices_entries call.snap call.order, ranking, h]

theorem result_of_normalize (h : normalize call.req.query = .ok tokens)
    (found : Option (Micros × ℕ)) :
    call.result found = .ok (call.snap.outcome call.req
      (call.snap.entries call.order call.req tokens)
      ⟨found.map Prod.snd, call.prices, (found.map Prod.snd).getD call.ranking.length⟩) := by
  rw [result, h]

/-- A call with something to try has an accepted query. -/
theorem exists_normalize_of_mem_work {a : Micros × ℕ} (h : a ∈ call.work) :
    ∃ tokens, normalize call.req.query = .ok tokens := by
  cases hquery : normalize call.req.query with
  | ok tokens => exact ⟨tokens, rfl⟩
  | error e =>
    rw [work, prices, ranking, hquery] at h
    cases h

end Accepted

/-- **What a call shows for an attempt that went through**: the campaign it was
for, at the price that was tried. -/
theorem result_some {call : Call Day} {price : Micros} {i : ℕ} (h : (price, i) ∈ call.work) :
    ∃ c outcome w, call.campaignAt i = some c ∧ c ∈ call.snap.campaigns ∧
      call.result (some (price, i)) = .ok outcome ∧ outcome.winner = some w ∧
      w.campaignId = c.id ∧ w.price = price := by
  obtain ⟨tokens, hquery⟩ := exists_normalize_of_mem_work h
  have hranking := ranking_of_normalize hquery
  have hprices := prices_of_normalize hquery
  set ranked := rankedOffers call.snap.cfg call.req tokens.toFinset call.snap.campaigns
  set field := fieldOf call.snap.cfg call.req tokens.toFinset call.snap.campaigns
  have heligible : field.eligible = ranked.map fun p => p.1.entrant := fieldOf_eligible
  have hplaced : ∀ p ∈ ranked, p ∈ placedOffers tokens.toFinset call.snap.campaigns :=
    fun p hp => (Snapshot.mem_rankedOffers hp).1
  have hprice := List.mem_zipIdx_iff_getElem?.mp h
  rw [hprices] at hprice
  -- the price is that of a candidate
  obtain ⟨p, hp⟩ : ∃ p, ranked[i]? = some p := by
    have hlt := (List.getElem?_eq_some_iff.mp hprice).1
    rw [Field.length_prices, heligible, List.length_map] at hlt
    exact ⟨_, List.getElem?_eq_getElem hlt⟩
  have hcampaign := (mem_placedOffers.mp (hplaced p (List.mem_of_getElem? hp))).1
  have he : field.eligible[i]? = some p.1.entrant := by
    rw [heligible, List.getElem?_map, hp, Option.map_some]
  have hwinner := call.snap.winnerOf_eq hplaced heligible (some ((p.1.entrant, price), i))
    (fun c hc => by
      rw [← Option.some.inj hc]
      exact List.mem_zipIdx_iff_getElem?.mpr ((Field.getElem?_priced _ _).mpr ⟨he, hprice⟩)) i
  refine ⟨p.1.campaign, _, p.1.entrant.winner price, ?_, List.mem_of_getElem? hcampaign,
    result_of_normalize hquery _, ?_, rfl, rfl⟩
  · rw [campaignAt, hranking, List.getElem?_map, hp]
    exact hcampaign
  · rw [call.snap.entries_eq, hprices]
    exact hwinner

/-- A call without an attempt that went through shows nothing. -/
theorem result_none {call : Call Day} {outcome : AuctionOutcome}
    (h : call.result none = .ok outcome) : outcome.winner = none := by
  rw [result] at h
  cases hquery : normalize call.req.query with
  | error e =>
    rw [hquery] at h
    cases h
  | ok tokens =>
    rw [hquery] at h
    rw [← Except.ok.inj h]
    rfl

section Spend

variable [DecidableEq Day]

/-- One attempt to spend. -/
def attempt (call : Call Day) (a : Micros × ℕ) (budgets : BudgetStore Day) :
    Bool × BudgetStore Day :=
  call.snap.tryPay call.ranking call.day a.2 a.1 budgets

/-- The call as a whole. -/
def run (call : Call Day) (budgets : BudgetStore Day) :
    Except QueryError AuctionOutcome × BudgetStore Day :=
  call.snap.run call.order call.req budgets call.day

/-- **A call is a walk** down its ranking. -/
theorem run_eq (call : Call Day) (budgets : BudgetStore Day) :
    call.run budgets = Prod.map call.result id (findFirst call.attempt call.work budgets) := by
  cases hquery : normalize call.req.query with
  | error e =>
    have hwork : call.work = [] := by
      rw [work, prices, ranking, hquery]
      rfl
    rw [run, Snapshot.run, hquery, hwork, findFirst, Prod.map_apply, result, hquery]
    rfl
  | ok tokens =>
    have hranking : call.ranking = (call.snap.entries call.order call.req tokens).eligible := by
      rw [ranking, hquery]
    rw [run, Snapshot.run, hquery]
    simp only [selectWinner, ← hranking, List.length_map]
    refine Prod.ext ?_ rfl
    rw [Prod.map_fst, result_of_normalize hquery]
    rfl

/-- **A call left alone does what the auction does**: it stops, with what the
auction returns and the store as the auction leaves it. -/
theorem exec_alone {ι ε : Type} [DecidableEq ι] (calls : ι → Call Day)
    (env : ε → BudgetStore Day → BudgetStore Day) (budgets : BudgetStore Day)
    (progress : ι → Progress (Micros × ℕ)) (i : ι) (hi : progress i = .start (calls i).work) :
    ∃ n p, exec (fun i => (calls i).attempt) env (List.replicate n (.step i)) budgets progress =
        some (((calls i).run budgets).2, Function.update progress i p) ∧
      (calls i).returned p = some ((calls i).run budgets).1 := by
  obtain ⟨n, -, hsteps⟩ := Progress.exists_steps_eq_findFirst (calls i).attempt (calls i).work
    budgets
  refine ⟨n, .stopped (findFirst (calls i).attempt (calls i).work budgets).1, ?_, ?_⟩
  · rw [exec_replicate, hi, hsteps, run_eq]
    rfl
  · rw [run_eq]
    rfl

/-- What an attempt asks of the ledger. Where there is no candidate it asks for
nothing, and is refused. -/
def asks (call : Call Day) (a : Micros × ℕ) : Ledger.Attempt (CampaignId × Day) :=
  match call.campaignAt a.2 with
  | some c => BudgetStore.attemptOf c.id call.day a.1 c.dailyBudget
  | none => ⟨(⟨0⟩, call.day), 0, 0⟩

omit [DecidableEq Day] in
/-- A call asks for its own day only. -/
theorem asks_key_snd (call : Call Day) (a : Micros × ℕ) : (call.asks a).key.2 = call.day := by
  rw [asks]
  cases call.campaignAt a.2 <;> rfl

omit [DecidableEq Day] in
/-- Only a candidate's attempt can go through. -/
theorem campaignAt_of_fits {call : Call Day} {a : Micros × ℕ} {s : CampaignId × Day → ℤ}
    (h : Ledger.Fits s (call.asks a)) : ∃ c, call.campaignAt a.2 = some c ∧
      call.asks a = BudgetStore.attemptOf c.id call.day a.1 c.dailyBudget := by
  rw [asks] at h ⊢
  cases hc : call.campaignAt a.2 with
  | some c => exact ⟨c, rfl, rfl⟩
  | none =>
    rw [hc] at h
    exact absurd h.1 (lt_irrefl _)

/-- **An attempt to spend is an attempt on the ledger.** -/
theorem attempt_ledger (call : Call Day) (a : Micros × ℕ) (budgets : BudgetStore Day) :
    Prod.map id BudgetStore.ledger (call.attempt a budgets) =
      Ledger.attempt (call.asks a) budgets.ledger := by
  rw [attempt, Snapshot.tryPay, asks, campaignAt]
  cases call.ranking[a.2]?.bind fun m => call.snap.campaigns[m.campaignPos]? with
  | none =>
    rw [Ledger.attempt_of_not_fits fun h => absurd h.1 (lt_irrefl _)]
    rfl
  | some c =>
    rw [← BudgetStore.trySpend_ledger]
    rfl

/-- A call as a whole, seen on the ledger. -/
theorem run_ledger (call : Call Day) (budgets : BudgetStore Day) :
    Prod.map id BudgetStore.ledger (call.run budgets) =
      Prod.map call.result id
        (findFirst (fun a => Ledger.attempt (call.asks a)) call.work budgets.ledger) := by
  rw [run_eq, ← findFirst_observe BudgetStore.ledger call.attempt
    (fun a => Ledger.attempt (call.asks a)) fun a _ => call.attempt_ledger a]
  rcases findFirst call.attempt call.work budgets with ⟨found, after⟩
  rfl

end Spend

section Serial

variable [LinearOrder Day] {ι : Type} [DecidableEq ι]

/-- **Concurrent auctions are serialisable.** Take any interleaving of the
attempts of finitely many calls, with days dropped in between but never the day of
a call that still makes an attempt. Once all calls have returned, making them one
after another in the order of their last attempts – there is such an order –
returns to each the same, and leaves the same amount spent by every campaign on
every day that was not dropped. -/
theorem serialisable [Fintype ι] (calls : ι → Call Day) (budgets after : BudgetStore Day)
    (events : List (Event ι Day)) (progress : ι → Progress (Micros × ℕ))
    (hexec : exec (fun i => (calls i).attempt) (fun today b => b.dropDaysBefore today) events
      budgets (fun i => .start (calls i).work) = some (after, progress))
    (hdone : ∀ i, ∃ r, (calls i).returned (progress i) = some r)
    (hdrops : events.Pairwise fun e e' => ∀ today i, e = .env today → e' = .step i →
      today ≤ (calls i).day) :
    (∃ order, ByLastStep events order) ∧
      ∀ order, ByLastStep events order →
        (∀ i r, (i, r) ∈ (serial (fun i => (calls i).run) order budgets).1 ↔
          (calls i).returned (progress i) = some r) ∧
        ∀ campaign d, (∀ today, Event.env today ∈ events → today ≤ d) →
          (serial (fun i => (calls i).run) order budgets).2.spent campaign d =
            after.spent campaign d := by
  refine ⟨exists_byLastStep events, fun order horder => ?_⟩
  have hstopped : ∀ i, ∃ found, progress i = .stopped found := fun i => by
    obtain ⟨r, hr⟩ := hdone i
    cases hp : progress i with
    | trying a rest =>
      rw [hp] at hr
      cases hr
    | stopped found => exact ⟨found, rfl⟩
  -- the run and the series, seen on the ledger
  have hledger : (exec (fun i => (calls i).attempt) (fun today b => b.dropDaysBefore today) events
      budgets fun i => .start (calls i).work).map (Prod.map BudgetStore.ledger id) =
      exec (fun i a => Ledger.attempt ((calls i).asks a))
        (fun today s key => if today ≤ key.2 then s key else 0) events budgets.ledger
        fun i => .start (calls i).work :=
    exec_observe (fun i => (calls i).attempt_ledger)
      (fun today b => funext (b.ledger_dropDaysBefore today)) events budgets _
  rw [hexec] at hledger
  obtain ⟨S, hserial, hS⟩ := serial_of_exec
    (fun (today : Day) (key : CampaignId × Day) => ¬today ≤ key.2)
    (fun today s key hkey => if_pos (not_not.mp hkey)) hledger.symm hstopped
    (hdrops.imp fun h today i he he' a _ => by
      rw [asks_key_snd, not_not]
      exact h today i he he') horder
  have hseries := serial_observe (fun i => (calls i).run_ledger) order budgets
  have hwhole : serial (fun i => findFirst (fun a => Ledger.attempt ((calls i).asks a))
      (calls i).work) order budgets.ledger =
      (order.map fun i => (i, (progress i).found), S) := hserial
  rw [hwhole] at hseries
  have hresults : (serial (fun i => (calls i).run) order budgets).1 =
      order.map fun i => (i, (calls i).result (progress i).found) := by
    refine (congrArg Prod.fst hseries).trans ?_
    rw [Prod.map_fst, List.map_map]
    rfl
  have hspent : (serial (fun i => (calls i).run) order budgets).2.ledger = S :=
    congrArg Prod.snd hseries
  refine ⟨fun i r => ?_, fun campaign d hd => Micros.toInt_injective ?_⟩
  · obtain ⟨found, hfound⟩ := hstopped i
    rw [hresults, List.mem_map, hfound]
    constructor
    · rintro ⟨j, -, hj⟩
      obtain ⟨rfl, rfl⟩ := Prod.mk.inj hj
      rw [hfound]
      rfl
    · intro hr
      refine ⟨i, horder.complete i, ?_⟩
      rw [hfound, ← Option.some.inj hr]
      rfl
  · have hkey := hS (campaign, d) fun today htoday => not_not.mpr (hd today htoday)
    rw [← hspent] at hkey
    exact hkey

end Serial

end Call

end Calls

section Sample

attribute [local instance] Unicode.asciiGreek

/-- Two equal calls. -/
def sampleCalls (_ : Bool) : Call ℕ := ⟨storageOrder, sampleSnapshot, sampleRequest, 0⟩

/-- A store in which the first sample campaign can pay its price once more. -/
def sampleSpent : BudgetStore ℕ := (BudgetStore.inMemory.trySpend ⟨1⟩ 0 ⟨500000⟩ ⟨1000000⟩).2

/-- One call is served by the first campaign, the other by the second. -/
def sampleEvents : List (Event Bool ℕ) := [.step true, .step false, .env 0, .step false]

theorem serialisable_sample : ∃ after progress,
    exec (fun i => (sampleCalls i).attempt) (fun today b => b.dropDaysBefore today) sampleEvents
      sampleSpent (fun i => .start (sampleCalls i).work) = some (after, progress) ∧
    ∃ order, ByLastStep sampleEvents order ∧
      ∀ campaign, (serial (fun i => (sampleCalls i).run) order sampleSpent).2.spent campaign 0 =
        after.spent campaign 0 := by
  have hreturned : ∀ i, ((exec (fun i => (sampleCalls i).attempt)
      (fun today b => b.dropDaysBefore today) sampleEvents sampleSpent
      (fun i => .start (sampleCalls i).work)).map fun r =>
        ((sampleCalls i).returned (r.2 i)).isSome) = some true := by decide
  obtain ⟨⟨after, progress⟩, hexec⟩ : ∃ r, exec (fun i => (sampleCalls i).attempt)
      (fun today b => b.dropDaysBefore today) sampleEvents sampleSpent
      (fun i => .start (sampleCalls i).work) = some r := ⟨_, rfl⟩
  rw [hexec] at hreturned
  obtain ⟨⟨order, horder⟩, hserial⟩ := Call.serialisable sampleCalls sampleSpent after sampleEvents
    progress hexec (fun i => Option.isSome_iff_exists.mp (Option.some.inj (hreturned i)))
    (by simp [sampleEvents, sampleCalls])
  exact ⟨after, progress, hexec, order, horder, fun campaign =>
    (hserial order horder).2 campaign 0 (by simp [sampleEvents])⟩

end Sample

end AdMatch
