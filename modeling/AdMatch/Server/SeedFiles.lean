import AdMatch.Lib.JsonText
import AdMatch.Seedgen.Summary
import AdMatch.Server.Http

/-!
# From the generator to the server

The generator writes a seed file and request lines, the server reads the one and is sent
the others. Whatever is drawn, the file is read as it was written
(`AdMatch.readSeedFile_roundTrip`), its campaigns make a snapshot, and every line is a
request that is read as it was drawn, admitted, and answered without an error
(`AdMatch.Seedgen.generate_serves`).
-/

namespace AdMatch

open Json

/-! ### Seed files -/

theorem readSeedFile_eq_ok {text : JsonText} (path : String) {contents : text.Text}
    {record : SeedRecord} (h : (text.parse contents).bind SeedRecord.codec.decode = some record) :
    readSeedFile text path (some contents) = .ok record := by
  simp only [readSeedFile, h]

/-- **A seed file is read as it was written**, whatever order its members are in, by every
text format that keeps documents. -/
theorem readSeedFile_roundTrip {text : JsonText} (htext : text.Keeps) (path : String)
    (record : SeedRecord) {v : Json} (hv : Reorders (SeedRecord.codec.encode record) v) :
    readSeedFile text path (some (text.print v)) = .ok record :=
  readSeedFile_eq_ok path (htext.decode_print SeedRecord.codec (by decide) hv)

/-- A seed file with one campaign, aimed at an age bucket. -/
def sampleSeedRecord : SeedRecord where
  seed := 7
  campaigns :=
    [{ id := ⟨1⟩
       advertiserId := ⟨3⟩
       name := "Photos"
       status := .active
       dailyBudget := ⟨5000000⟩
       countries := [.NZ]
       ageBuckets := some [.age65Plus]
       audienceSize := some 6000
       keywords := [⟨⟨1⟩, "photo editor", .exact, ⟨600000⟩⟩, ⟨⟨2⟩, "photo", .broad, ⟨400000⟩⟩]
       negativeKeywords := [⟨"free", .broad⟩] }]
  audienceCounts := [⟨.NZ, .age65Plus, 6000⟩]

/-- The same file, the members of all objects in reverse. -/
def sampleSeedDocument : Json :=
  .obj [("audience_counts", .arr [.obj [("users", .int 6000), ("age_bucket", .str "65+"),
      ("country", .str "NZ")]]),
    ("campaigns", .arr [.obj
      [("negative_keywords", .arr [.obj [("match_type", .str "broad"), ("text", .str "free")]]),
        ("keywords", .arr [
          .obj [("max_cpt_bid_micros", .int 600000), ("match_type", .str "exact"),
            ("text", .str "photo editor"), ("id", .int 1)],
          .obj [("max_cpt_bid_micros", .int 400000), ("match_type", .str "broad"),
            ("text", .str "photo"), ("id", .int 2)]]),
        ("audience_size", .int 6000), ("age_buckets", .arr [.str "65+"]),
        ("countries", .arr [.str "NZ"]), ("daily_budget_micros", .int 5000000),
        ("status", .str "active"), ("name", .str "Photos"), ("advertiser_id", .int 3),
        ("id", .int 1)]]),
    ("seed", .int 7)]

/-- Members in reverse are members reordered. -/
theorem reorders_reverse (ms : List (String × Json)) : Reorders (.obj ms) (.obj ms.reverse) :=
  .obj (List.reverse_perm ms).symm rfl (List.forall₂_same.mpr fun v _ => .refl v)

theorem reorders_sampleSeedDocument :
    Reorders (SeedRecord.codec.encode sampleSeedRecord) sampleSeedDocument := by
  refine .obj (List.reverse_perm _).symm rfl (.cons (.arr (.cons ?_ .nil))
    (.cons (.arr (.cons ?_ .nil)) (.cons (.refl _) .nil)))
  · exact reorders_reverse _
  · refine .obj (List.reverse_perm _).symm rfl (.cons (.arr (.cons ?_ .nil))
      (.cons (.arr (.cons ?_ (.cons ?_ .nil))) (List.forall₂_same.mpr fun v _ => .refl v)))
    · exact reorders_reverse _
    · exact reorders_reverse _
    · exact reorders_reverse _

theorem readSeedFile_roundTrip_sample :
    readSeedFile compact "data/seed.json" (some (compact.print sampleSeedDocument)) =
      .ok sampleSeedRecord :=
  readSeedFile_roundTrip compact_keeps _ _ reorders_sampleSeedDocument

namespace Seedgen

open Draw

/-! ### Request lines -/

/-- What the auction sees of a request line. -/
def RequestLine.auction (line : RequestLine) : AuctionRequest :=
  ⟨line.query, line.country, line.personalized, line.ageBucket, line.debug⟩

/-- **A proper request line is admitted as it was drawn.** -/
theorem Proper.auctionRequest {line : RequestLine} (h : Proper line) :
    auctionRequest line.body.toMatchRequest = .ok line.auction := by
  have hcountry : parseCountry line.country.asStr = .ok line.country := by
    rw [parseCountry, Country.fromStr_asStr]
  have hage : parseAgeBucket (line.ageBucket.map AgeBucket.asStr) line.personalized =
      .ok line.ageBucket := by
    rw [← h.ageBucket]
    rcases line.ageBucket with _ | bucket
    · rfl
    · rw [Option.map_some, Option.isSome_some, parseAgeBucket, AgeBucket.fromStr_asStr]
  rw [AdMatch.auctionRequest]
  simp only [RequestLine.body, hcountry, hage]
  rfl

/-! ### Serving -/

/-- The tokens of a made-up query are its words. -/
theorem Nonsense.normalize [Unicode] [Unicode.PlainSettles] {words : List String}
    (h : Nonsense words) : normalize (join words) = .ok words :=
  normalize_join (fun w hw => (h.words w hw).1) h.ne_nil (by
    have := h.length_le
    omega)

/-- **Whatever a request comes from, its query is accepted.** -/
theorem Origin.normalize [Unicode] [Unicode.PlainSettles] {campaigns : List Campaign} {r : Request}
    (h : Origin campaigns r) (hwording : ∀ c ∈ campaigns, Wording c) :
    ∃ tokens, normalize r.line.query = .ok tokens := by
  cases h with
  | nonsense words hkind hwords hquery =>
    rw [hquery]
    exact ⟨words, hwords.normalize⟩
  | hit s hsource c k words h =>
    exact ⟨words, h.normalize (hwording c (List.mem_of_getElem? h.campaign))⟩

/-- A request that is admitted with an accepted query is answered. -/
theorem exists_matchAd [Unicode] {Day : Type} [DecidableEq Day] {req : MatchRequest}
    {auction : AuctionRequest} (hauction : auctionRequest req = .ok auction)
    {tokens : List String} (htokens : normalize auction.query = .ok tokens) (order : HashOrder)
    (snap : Snapshot) (budgets : BudgetStore Day) (today : Day) (uuid : String) (tookUs : ℕ) :
    ∃ response, (matchAd order (some snap) budgets today uuid tookUs req).1 = .ok response := by
  obtain ⟨outcome, hrun⟩ : ∃ outcome, (snap.run order auction budgets today).1 = .ok outcome := by
    rw [Snapshot.run, htokens]
    exact ⟨_, rfl⟩
  rw [matchAd_eq, admission, hauction]
  simp only [Prod.map_fst, hrun]
  exact ⟨_, rfl⟩

section Serves

variable [Unicode] [Floats] [Unicode.PlainSettles]

/-- **What is generated can be served**, for all options and whatever is drawn. The seed file
is read as it was written, by every text format that keeps documents and with its members in
any order; under every configuration its campaigns make a snapshot; and every request line
is read by the server, in any order of its members and among any others, is seen by the
auction as it was drawn, and is answered without an error, whatever the budgets are. -/
theorem generate_serves {text : JsonText} (htext : text.Keeps) (path : String)
    {opts : SeedOptions} {draws rest : List ℕ} {g : Generated}
    (hrun : (generate opts).run draws = some (g, rest)) {record : SeedRecord}
    (hrecord : record.file = g.file) {v : Json}
    (hv : Reorders (SeedRecord.codec.encode record) v) (cfg : EngineConfig) :
    readSeedFile text path (some (text.print v)) = .ok record ∧
      ∃ snap, buildSnapshot (.ok record.file.campaigns) cfg = .ok snap ∧
        ∀ line ∈ g.requests,
          (text.parse (text.print (.obj line.members))).bind MatchBody.codec.decode =
            some line.body ∧
          (∀ members,
            (members.filter fun m => m.1 ∈ MatchBody.fields.names).Perm line.members →
            MatchBody.codec.decode (.obj members) = some line.body) ∧
          auctionRequest line.body.toMatchRequest = .ok line.auction ∧
          ∀ {Day : Type} [DecidableEq Day] (order : HashOrder) (budgets : BudgetStore Day)
            (today : Day) (uuid : String) (tookUs : ℕ), ∃ response,
            (matchAd order (some snap) budgets today uuid tookUs line.body.toMatchRequest).1 =
              .ok response := by
  obtain ⟨nextKeywordId, hkept⟩ := ensures_generate opts draws g rest hrun
  refine ⟨readSeedFile_eq_ok path (htext.decode_print SeedRecord.codec (by decide) hv), ?_⟩
  obtain ⟨snap, hsnap⟩ := exists_build hkept.ids hkept.keywordIds hkept.wording cfg
  refine ⟨snap, ?_, fun line hline => ?_⟩
  · rw [hrecord, buildSnapshot]
    simp only [hsnap]
  · obtain ⟨requests, hlines, -, -, hrequests⟩ := ensures_requests opts draws g rest hrun
    rw [hlines] at hline
    obtain ⟨r, hr, rfl⟩ := List.mem_map.mp hline
    obtain ⟨hproper, horigin⟩ := hrequests r hr
    obtain ⟨tokens, htokens⟩ := horigin.normalize hkept.wording
    refine ⟨?_, fun members => decode_requestLine, hproper.auctionRequest, ?_⟩
    · rw [← r.line.encode_body]
      exact htext.decode_print MatchBody.codec (by decide) (.refl _)
    · intro Day _ order budgets today uuid tookUs
      exact exists_matchAd hproper.auctionRequest htokens order snap budgets today uuid tookUs

end Serves

section Sample

attribute [local instance] Unicode.asciiGreek rationalFloats

/-- A file as it is stored, with an owner and a name for each campaign. -/
def recordOf (file : SeedFile) : SeedRecord where
  seed := file.seed
  campaigns := file.campaigns.map fun c => { c with advertiserId := ⟨1⟩, name := "photo app" }
  audienceCounts := file.audienceCounts

theorem file_recordOf (file : SeedFile) : (recordOf file).file = file := by
  rw [SeedRecord.file, recordOf, List.map_map]
  exact congrArg (fun campaigns => SeedFile.mk file.seed campaigns file.audienceCounts)
    (List.map_id _)

theorem generate_serves_sample : ∃ g snap,
    (generate sampleServed).run (sampleDraws ++ requestDraws) = some (g, []) ∧
      g.requests.length = 4 ∧
      readSeedFile compact "data/seed.json"
        (some (compact.print (SeedRecord.codec.encode (recordOf g.file)))) =
          .ok (recordOf g.file) ∧
      buildSnapshot (.ok (recordOf g.file).file.campaigns) .default = .ok snap ∧
      ∀ line ∈ g.requests, ∃ response,
        (matchAd storageOrder (some snap) BudgetStore.inMemory (3 : ℕ) ""
          0 line.body.toMatchRequest).1 = .ok response := by
  obtain ⟨⟨g, rest⟩, hrun, hg⟩ := Option.map_eq_some_iff.mp run_sampleServed
  obtain ⟨hlength, rfl⟩ := Prod.mk.inj hg
  obtain ⟨hread, snap, hsnap, hlines⟩ := generate_serves compact_keeps "data/seed.json" hrun
    (file_recordOf g.file) (.refl _) .default
  exact ⟨g, snap, hrun, hlength, hread, hsnap, fun line hline =>
    (hlines line hline).2.2.2 storageOrder .inMemory 3 "" 0⟩

end Sample

end Seedgen

end AdMatch
