import AdMatch.Server.Accounting

/-!
# What a request tries

The auctions under way spend from the same budgets, one attempt at a time and in any order.
Each goes down its own ranking all the same: it tries its candidates from the first on, each
once and at its own price, and is refused all of them but perhaps the last
(`AdMatch.Service.tries_in_order`). So however many others are under way, a request makes at
most as many attempts to spend as it has candidates, and the one that goes through, if any, is
that of the ad it is answered with.
-/

namespace AdMatch

open Walk

section Attempts

variable [Unicode] {Day : Type}

/-- An attempt to spend that was made: by which request, what it asked for, and whether a
charge came of it. -/
structure Try (Day : Type) where
  session : ℕ
  asked : Ledger.Attempt (CampaignId × Day)
  charged : Bool
  deriving DecidableEq

namespace Session

/-- What the request number `i` has tried so far. -/
def tries (session : Session Day) (i : ℕ) : List (Try Day) :=
  (session.call.work.take session.attempts).map fun a =>
    ⟨i, session.call.asks a, session.progress.found = some a⟩

theorem tries_start (call : Call Day) (i : ℕ) : (Session.start call).tries i = [] := by
  rw [tries, attempts_start, List.take_zero, List.map_nil]

/-- What is tried before a position has a smaller number. -/
theorem snd_lt_of_mem_take {call : Call Day} {a : Micros × ℕ} {n : ℕ}
    (h : a ∈ call.work.take n) : a.2 < n := by
  obtain ⟨j, hj⟩ := List.mem_iff_getElem?.mp h
  rw [List.getElem?_take] at hj
  split_ifs at hj with hlt
  rw [snd_eq_of_getElem? hj]
  exact hlt

/-- **An attempt is tried last**, after others that were refused. -/
theorem tries_step [DecidableEq Day] {session : Session Day}
    (halong : session.progress.Along session.call.work) {a : Micros × ℕ}
    {rest : List (Micros × ℕ)} (hprogress : session.progress = .trying a rest)
    {p : Progress (Micros × ℕ)} {budgets budgets' : BudgetStore Day}
    (h : Progress.step session.call.attempt session.progress budgets = some (p, budgets'))
    (i : ℕ) : Session.tries { session with progress := p } i = session.tries i ++
      [⟨i, session.call.asks a, (Session.charge { session with progress := p } i).isSome⟩] := by
  have hget := getElem?_attempts halong hprogress
  have hfound : p.found = none ∨ p.found = some a := by
    rw [hprogress] at h
    exact Progress.found_step h
  -- the attempt is charged exactly if it is what the walk finds
  have hcharged : (Session.charge { session with progress := p } i).isSome =
      decide (p.found = some a) := by
    obtain ⟨c, -, -, hc, -⟩ := Call.result_some (List.mem_of_getElem? hget)
    rw [charge]
    rcases hfound with hnone | hsome
    · rw [hnone]
      rfl
    · rw [hsome, Option.bind_some, hc, Option.map_some, Option.isSome_some, decide_eq_true rfl]
  -- none of the earlier ones is
  have hearlier : ∀ b ∈ session.call.work.take session.attempts,
      decide (p.found = some b) = decide (session.progress.found = some b) := by
    intro b hb
    have hlt := snd_lt_of_mem_take hb
    rw [← snd_eq_of_getElem? hget] at hlt
    rw [hprogress]
    refine decide_eq_decide.mpr (iff_of_false (fun hb => ?_) (Option.not_mem_none b))
    rcases hfound with hnone | hsome
    · rw [hnone] at hb
      cases hb
    · obtain rfl := Option.some.inj (hsome.symm.trans hb)
      exact lt_irrefl _ hlt
  rw [tries, attempts_step halong h, List.take_add_one, hget, List.map_append, tries, hcharged]
  refine congrArg (· ++ _) (List.map_congr_left fun b hb => ?_)
  rw [hearlier b hb]

end Session

namespace Server

/-- The attempt to spend that an event makes, which a charge may have come of. -/
def tryOf (server : Server Day) (e : ServerEvent Day) (charge : Option (Charge Day)) :
    Option (Try Day) :=
  match e with
  | .spend i => server.sessions[i]?.bind fun session =>
    match session.progress with
    | .trying a _ => some ⟨i, session.call.asks a, charge.isSome⟩
    | .stopped _ => none
  | _ => none

/-- What the request number `i` has tried so far, if there is one. -/
def triesOf (server : Server Day) (i : ℕ) : List (Try Day) :=
  server.sessions[i]?.elim [] fun session => session.tries i

variable [LinearOrder Day] {predOpt : Day → Option Day} {server server' : Server Day}
  {charge : Option (Charge Day)}

/-- **Only an attempt to spend tries something**, and adds it to what its request has
tried. -/
theorem tries_step (halong : ∀ session ∈ server.sessions, session.progress.Along session.call.work)
    {e : ServerEvent Day} (hstep : server.step predOpt e = some (server', charge)) :
    (server.tryOf e charge).isSome = e.isSpend ∧ ∀ i, server'.triesOf i = server.triesOf i ++
      (server.tryOf e charge).toList.filter fun t => t.session = i := by
  cases e with
  | load source | prune today =>
    obtain ⟨rfl, -⟩ := Prod.mk.inj (Option.some.inj hstep)
    exact ⟨rfl, fun i => (List.append_nil _).symm⟩
  | request order req today =>
    refine ⟨rfl, fun i => ?_⟩
    have hnone : server.tryOf (.request order req today) charge = none := rfl
    rw [hnone, Option.toList_none, List.filter_nil, List.append_nil, triesOf, triesOf]
    obtain ⟨-, -, hsame | ⟨call, hnew⟩⟩ := step_request hstep
    · rw [hsame]
    · rw [hnew]
      rcases Nat.lt_or_ge i server.sessions.length with hlt | hge
      · rw [List.getElem?_append_left hlt]
      · -- the request that has just arrived has tried nothing
        rw [List.getElem?_append_right hge, List.getElem?_eq_none hge, List.getElem?_singleton]
        split
        · exact Session.tries_start call i
        · rfl
  | spend j =>
    obtain ⟨session, a, rest, p, hget, hprogress, hp, hsessions, hcharge, -⟩ := step_spend hstep
    have htry : server.tryOf (.spend j) charge =
        some ⟨j, session.call.asks a, charge.isSome⟩ := by
      rw [tryOf, hget, Option.bind_some, hprogress]
    rw [htry]
    refine ⟨rfl, fun i => ?_⟩
    rw [triesOf, triesOf, hsessions, Option.toList_some]
    by_cases hij : j = i
    · subst hij
      rw [List.getElem?_set_self (List.getElem?_eq_some_iff.mp hget).1, hget, Option.elim_some,
        Option.elim_some, List.filter_cons_of_pos (by simp), List.filter_nil, hcharge]
      exact Session.tries_step (halong session (List.mem_of_getElem? hget)) hprogress hp j
    · rw [List.getElem?_set_ne hij, List.filter_cons_of_neg (by simpa using hij), List.filter_nil,
        List.append_nil]

end Server

namespace Service

variable [LinearOrder Day]

/-- **A step that puts out what it tries**, and not only what it charges. -/
def tryStep (predOpt : Day → Option Day) (render : Registry → String) (s : Service Day)
    (e : ServiceEvent Day) : Option (Service Day × Option (Try Day)) :=
  (s.step predOpt render e).map fun next =>
    (next.1, e.serverEvent.bind fun e' => s.server.tryOf e' next.2)

variable {predOpt : Day → Option Day} {render : Registry → String} {s s' : Service Day}
  {charge : Option (Charge Day)} {engine : EngineConfig} {events : List (ServiceEvent Day)}
  {log : List (Charge Day)}

/-- A step is an attempt to spend exactly if it tries something, which is then the last that
its request has tried. -/
theorem tries_step (halong : ∀ session ∈ s.server.sessions,
      session.progress.Along session.call.work) {e : ServiceEvent Day}
    (hstep : s.step predOpt render e = some (s', charge)) :
    ∃ tried, s.tryStep predOpt render e = some (s', tried) ∧ tried.isSome = e.isSpend ∧
      ∀ i, s'.server.triesOf i = s.server.triesOf i ++
        tried.toList.filter fun t => t.session = i := by
  refine ⟨_, by rw [tryStep, hstep]; rfl, ?_⟩
  rw [e.isSpend_eq]
  rcases step_server hstep with ⟨hnone, hserver, -⟩ | ⟨e', hsome, hserver⟩
  · rw [hnone, hserver]
    exact ⟨rfl, fun i => (List.append_nil _).symm⟩
  · rw [hsome]
    exact Server.tries_step halong hserver

omit [LinearOrder Day] in
/-- A request with an auction has one that is there. -/
theorem Answers.exists_session (h : s.Answers) {e : Exchange} (he : e ∈ s.exchanges) {i : ℕ}
    (hi : e.session = some i) : ∃ session, s.server.sessions[i]? = some session := by
  have hmem : i ∈ s.exchanges.filterMap Exchange.session := List.mem_filterMap.mpr ⟨e, he, hi⟩
  rw [h.sessions] at hmem
  exact ⟨_, List.getElem?_eq_getElem (List.mem_range.mp hmem)⟩

end Service

end Attempts

section Sample

attribute [local instance] Unicode.asciiGreek

end Sample

end AdMatch
