import AdMatch.Server.Exchanges

/-!
# The served index

The index task reloads the index for as long as the service runs. A load that fails
leaves the previous index in place, so what is served is what the last load that
succeeded has built (`AdMatch.Service.serves_of_runs`). Health checks and gauges show
it: the service is ready once, and as long as, some load has succeeded
(`AdMatch.Service.ready_iff_loaded`).
-/

namespace AdMatch

section Loading

variable [Unicode] {Day : Type}

namespace Server

variable [LinearOrder Day] {predOpt : Day → Option Day} {server : Server Day}

omit [LinearOrder Day] in
theorem refresh_snapshot (state : AppState Day) (source : Except LoadError (List Campaign)) :
    (state.refresh source).snapshot =
      (buildSnapshot source state.engine).toOption.or state.snapshot := by
  rw [AppState.refresh]
  cases buildSnapshot source state.engine <;> rfl

omit [LinearOrder Day] in
@[simp] theorem refresh_engine (state : AppState Day) (source : Except LoadError (List Campaign)) :
    (state.refresh source).engine = state.engine := by
  rw [AppState.refresh]
  cases buildSnapshot source state.engine <;> rfl

/-- **Only a load changes the served index**, and nothing the settings. -/
theorem step_app {server' : Server Day} {charge : Option (Charge Day)} {e : ServerEvent Day}
    (h : server.step predOpt e = some (server', charge)) :
    server'.app.engine = server.app.engine ∧
      ((∀ source, e ≠ .load source) → server'.app.snapshot = server.app.snapshot) := by
  cases e with
  | load source =>
    obtain ⟨rfl, rfl⟩ := Prod.mk.inj (Option.some.inj h)
    exact ⟨refresh_engine _ _, fun hload => absurd rfl (hload source)⟩
  | prune today =>
    obtain ⟨rfl, rfl⟩ := Prod.mk.inj (Option.some.inj h)
    exact ⟨rfl, fun _ => rfl⟩
  | request order req today =>
    obtain ⟨happ, -, -⟩ := step_request h
    rw [happ]
    exact ⟨rfl, fun _ => rfl⟩
  | spend i =>
    obtain ⟨session, -, h⟩ := Option.bind_eq_some_iff.mp h
    obtain ⟨next, -, h⟩ := Option.map_eq_some_iff.mp h
    obtain ⟨rfl, -⟩ := Prod.mk.inj h
    exact ⟨rfl, fun _ => rfl⟩

end Server

namespace Service

omit [Unicode] in
@[simp] theorem gauge_recordResult (m : Registry) (result : Except QueryError AuctionOutcome)
    (t : Series) : (recordResult m result).gauge t = m.gauge t := by
  rcases result with e | outcome
  · rfl
  · rw [recordResult, Registry.recordAuction]
    split <;> simp

section Runs

variable [LinearOrder Day] {predOpt : Day → Option Day} {render : Registry → String}
  {s s' : Service Day} {charge : Option (Charge Day)} {engine : EngineConfig}
  {events : List (ServiceEvent Day)} {log : List (Charge Day)}

/-! ### What loads -/

/-- **A load** changes the served index and records itself, and nothing else. -/
theorem step_load {source : Except LoadError (List Campaign)}
    (h : s.step predOpt render (.load source) = some (s', charge)) :
    s' = { s with
      server := { s.server with app := s.server.app.refresh source }
      metrics := recordLoad s.metrics (buildSnapshot source s.server.app.engine) } := by
  rw [step] at h
  obtain ⟨next, hnext, h⟩ := Option.map_eq_some_iff.mp h
  obtain rfl := Option.some.inj hnext
  exact (Prod.mk.inj h).1.symm

/-- What does not load an index leaves the served one, and the gauges, as they are. -/
theorem step_gauges {e : ServiceEvent Day} (h : s.step predOpt render e = some (s', charge))
    (hload : ∀ source, e ≠ .load source) :
    s'.server.app.snapshot = s.server.app.snapshot ∧
      ∀ t, s'.metrics.gauge t = s.metrics.gauge t := by
  refine ⟨?_, fun t => ?_⟩
  · rcases step_server h with ⟨-, hserver, -⟩ | ⟨e', he', hserver⟩
    · rw [hserver]
    · refine (Server.step_app hserver).2 fun source hsource => ?_
      rw [hsource] at he'
      cases e with
      | load source' => exact hload source' rfl
      | prune today | spend i | conclude k uuid tookUs | send k => cases he'
      | arrive a order today =>
        obtain ⟨req, -, hreq⟩ := Option.map_eq_some_iff.mp he'
        cases hreq
  · cases e with
    | load source => exact absurd rfl (hload source)
    | prune today | spend i =>
      rw [step] at h
      obtain ⟨next, -, h⟩ := Option.map_eq_some_iff.mp h
      rw [← (Prod.mk.inj h).1]
    | arrive a order today => rw [(step_arrive h).2.1]
    | conclude k uuid tookUs =>
      obtain ⟨-, e, i, session, result, -, -, -, -, -, rfl⟩ := step_conclude h
      exact gauge_recordResult _ _ _
    | send k =>
      obtain ⟨-, e, r, -, -, rfl⟩ := step_send h
      rfl

/-- The settings are those that the service was started with. -/
theorem engine_of_runs (hruns : Runs predOpt render engine events s log) :
    s.server.app.engine = engine := by
  induction hruns with
  | start => rfl
  | step _ _ hstep ih =>
    rcases step_server hstep with ⟨-, hserver, -⟩ | ⟨e', -, hserver⟩
    · rw [hserver, ih]
    · rw [(Server.step_app hserver).1, ih]

/-- Whether some load among the events builds an index. -/
def Loaded (engine : EngineConfig) (events : List (ServiceEvent Day)) : Prop :=
  ∃ campaigns snap, ServiceEvent.load (.ok campaigns) ∈ events ∧
    Snapshot.build campaigns engine = .ok snap

/-- **What is served after the events**: what the last load that builds an index
builds. -/
def Serves (engine : EngineConfig) (events : List (ServiceEvent Day)) : Option Snapshot → Prop
  | none => ¬Loaded engine events
  | some snap => ∃ before campaigns after, events = before ++ .load (.ok campaigns) :: after ∧
    Snapshot.build campaigns engine = .ok snap ∧ ¬Loaded engine after

/-- What the gauges show of an index. -/
def Gauged (metrics : Registry) (snapshot : Option Snapshot) : Prop :=
  metrics.gauge indexCampaigns = snapshot.map Snapshot.campaignCount ∧
    metrics.gauge indexKeywords = snapshot.map Snapshot.keywordCount

omit [LinearOrder Day] in
theorem loaded_concat {e : ServiceEvent Day} :
    Loaded engine (events ++ [e]) ↔ Loaded engine events ∨ ∃ campaigns snap,
      e = .load (.ok campaigns) ∧ Snapshot.build campaigns engine = .ok snap := by
  constructor
  · rintro ⟨campaigns, snap, hmem, hbuild⟩
    rw [List.mem_append, List.mem_singleton] at hmem
    rcases hmem with hmem | hmem
    · exact .inl ⟨campaigns, snap, hmem, hbuild⟩
    · exact .inr ⟨campaigns, snap, hmem.symm, hbuild⟩
  · rintro (⟨campaigns, snap, hmem, hbuild⟩ | ⟨campaigns, snap, rfl, hbuild⟩)
    · exact ⟨campaigns, snap, List.mem_append_left _ hmem, hbuild⟩
    · exact ⟨campaigns, snap, List.mem_append_right _ List.mem_cons_self, hbuild⟩

omit [LinearOrder Day] in
/-- An event that builds no index changes nothing in what is served. -/
theorem Serves.concat {snapshot : Option Snapshot} (h : Serves engine events snapshot)
    {e : ServiceEvent Day} (he : ¬∃ campaigns snap, e = .load (.ok campaigns) ∧
      Snapshot.build campaigns engine = .ok snap) : Serves engine (events ++ [e]) snapshot := by
  rcases snapshot with _ | snap
  · exact fun hloaded => (loaded_concat.mp hloaded).elim h he
  · obtain ⟨before, campaigns, after, rfl, hbuild, hafter⟩ := h
    exact ⟨before, campaigns, after ++ [e], by simp, hbuild,
      fun hloaded => (loaded_concat.mp hloaded).elim hafter he⟩

omit [LinearOrder Day] in
/-- What is built is what was read and could be built. -/
theorem buildSnapshot_eq_ok {source : Except LoadError (List Campaign)} {snap : Snapshot} :
    buildSnapshot source engine = .ok snap ↔ ∃ campaigns, source = .ok campaigns ∧
      Snapshot.build campaigns engine = .ok snap := by
  rcases source with e | campaigns
  · simp [buildSnapshot]
  · rw [buildSnapshot]
    cases hbuild : Snapshot.build campaigns engine <;> simp [hbuild]

/-- **The service serves what the last load that builds an index builds**, and its gauges
show it. -/
theorem serves_of_runs (hruns : Runs predOpt render engine events s log) :
    Serves engine events s.server.app.snapshot ∧ Gauged s.metrics s.server.app.snapshot := by
  induction hruns with
  | start => exact ⟨fun ⟨campaigns, snap, hmem, _⟩ => List.not_mem_nil hmem, rfl, rfl⟩
  | @step events s log e s' charge hruns _ hstep ih =>
    obtain ⟨hserves, hgauged⟩ := ih
    by_cases hload : ∃ source, e = .load source
    · obtain ⟨source, rfl⟩ := hload
      rw [step_load hstep, engine_of_runs hruns]
      rw [Server.refresh_snapshot, engine_of_runs hruns]
      rcases hbuilt : buildSnapshot source engine with err | snap
      · refine ⟨hserves.concat ?_, hgauged⟩
        rintro ⟨campaigns, snap, hsource, hbuild⟩
        rw [buildSnapshot_eq_ok.mpr ⟨campaigns, ServiceEvent.load.inj hsource, hbuild⟩] at hbuilt
        cases hbuilt
      · obtain ⟨campaigns, rfl, hbuild⟩ := buildSnapshot_eq_ok.mp hbuilt
        refine ⟨⟨events, campaigns, [], rfl, hbuild, ?_⟩, ?_⟩
        · exact fun ⟨_, _, hmem, _⟩ => List.not_mem_nil hmem
        · rw [Gauged, recordLoad, Registry.recordIndexSize, Registry.gauge_set, Registry.gauge_set,
            Registry.gauge_set, if_neg (by decide), if_pos rfl, if_pos rfl]
          exact ⟨rfl, rfl⟩
    · obtain ⟨hsnapshot, hgauge⟩ := step_gauges hstep fun source hsource => hload ⟨source, hsource⟩
      rw [hsnapshot, Gauged, hgauge, hgauge]
      exact ⟨hserves.concat fun ⟨campaigns, _, he, _⟩ => hload ⟨_, he⟩, hgauged⟩

omit [LinearOrder Day] in
/-- A snapshot is of the campaigns and with the settings that it was built from. -/
theorem build_eq {campaigns : List Campaign} {snap : Snapshot}
    (h : Snapshot.build campaigns engine = .ok snap) :
    snap.campaigns = campaigns ∧ snap.cfg = engine := by
  rw [Snapshot.build] at h
  split at h
  · cases h
  · split at h
    · cases h
    · rw [← Except.ok.inj h]
      exact ⟨rfl, rfl⟩

/-- **Ready exactly when loaded.** A health check is answered 503 as long as no load has
built an index, and ever after with the numbers of campaigns and keywords of the campaigns
read by the last load that did – however many loads failed since –, which are also what the
gauges show. -/
theorem ready_iff_loaded (hruns : Runs predOpt render engine events s log) {a : Arrival}
    (hpath : a.path = "/healthz") (hmethod : a.method = "GET") (hcut : a.cut = none) :
    (¬Loaded engine events ∧ s.metrics.gauge indexCampaigns = none ∧
        s.metrics.gauge indexKeywords = none ∧
        s.exchangeOf render a =
          ⟨"/healthz", "GET", none, .answered ApiError.notReady.intoResponse⟩) ∨
      ∃ before campaigns snap after, events = before ++ .load (.ok campaigns) :: after ∧
        Snapshot.build campaigns engine = .ok snap ∧ ¬Loaded engine after ∧
        s.metrics.gauge indexCampaigns = some campaigns.length ∧
        s.metrics.gauge indexKeywords = some (campaigns.map fun c => c.keywords.length).sum ∧
        s.exchangeOf render a = ⟨"/healthz", "GET", none, .answered (.ofJson 200 (.obj
          [("status", .str "ok"), ("campaigns", .int campaigns.length),
            ("keywords", .int ((campaigns.map fun c => c.keywords.length).sum : ℕ))]))⟩ := by
  obtain ⟨hserves, hcampaigns, hkeywords⟩ := serves_of_runs hruns
  have hhandle : a.handle s.server.app.snapshot (render s.metrics) =
      .answer (respond Health.toJson (healthz s.server.app.snapshot)) := by
    rw [Arrival.handle, hcut, hpath, hmethod]
    rfl
  have hexchange := exchangeOf_answer hhandle
  rw [hpath, hmethod] at hexchange
  rcases hsnap : s.server.app.snapshot with _ | snap
  · rw [hsnap] at hserves hcampaigns hkeywords hexchange
    exact .inl ⟨hserves, hcampaigns, hkeywords, hexchange⟩
  · rw [hsnap] at hserves hcampaigns hkeywords hexchange
    obtain ⟨before, campaigns, after, hevents, hbuild, hafter⟩ := hserves
    have hsame := (build_eq hbuild).1
    rw [Option.map_some, Snapshot.campaignCount, hsame] at hcampaigns
    rw [Option.map_some, Snapshot.keywordCount, hsame] at hkeywords
    refine .inr ⟨before, campaigns, snap, after, hevents, hbuild, hafter, hcampaigns, hkeywords, ?_⟩
    rw [hexchange, healthz, Snapshot.campaignCount, Snapshot.keywordCount, hsame]
    rfl

end Runs

end Service

end Loading

section Sample

attribute [local instance] Unicode.asciiGreek

theorem ready_iff_loaded_sample : ∃ s log after,
    Service.Runs samplePredOpt (fun _ => "") .default sampleService s log ∧
      sampleService = .load (.ok sampleCampaigns) :: after ∧ .load (.error .source) ∈ after ∧
      s.metrics.gauge indexCampaigns = some 2 ∧
      (s.exchangeOf (fun _ => "") (sampleArrival "GET" "/healthz" (.error .syntaxError))).stage =
        .answered (.ofJson 200 (.obj [("status", .str "ok"), ("campaigns", .int 2),
          ("keywords", .int 3)])) := by
  obtain ⟨s, log, hruns, -⟩ := exists_sampleService
  rcases Service.ready_iff_loaded hruns
    (a := sampleArrival "GET" "/healthz" (.error .syntaxError)) rfl rfl rfl with
    ⟨hnone, -⟩ | ⟨before, campaigns, snap, after, hevents, -, -, hgauge, -, hanswer⟩
  · exact absurd ⟨sampleCampaigns, sampleSnapshot, List.mem_cons_self, build_sampleCampaigns⟩ hnone
  · -- only the first load among the events reads campaigns
    have hmem : ServiceEvent.load (.ok campaigns) ∈ sampleService :=
      hevents ▸ List.mem_append_right _ List.mem_cons_self
    obtain rfl : campaigns = sampleCampaigns := by simpa [sampleService] using hmem
    refine ⟨s, log, sampleService.tail, hruns, rfl, ?_, hgauge, by rw [hanswer]; rfl⟩
    simp [sampleService]

end Sample

end AdMatch
