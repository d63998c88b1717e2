import AdMatch.Lib.Tally
import AdMatch.Seedgen.Requests

/-!
# What the generator reports

A run of the generator prints how many campaigns were accepted and how many rejected, by
code, and how many requests there are, by kind. The numbers add up
(`AdMatch.Seedgen.summary_adds_up`): to the campaigns and to the requests that were asked
for. A campaign is only ever rejected for the size of its audience, or for a bid, which
depends on floating point and is not known to be positive here.
-/

namespace AdMatch

namespace Seedgen

open Draw

/-! ### Request lines -/

/-- **A request line as it is drawn**: with an age bucket exactly if it is personalised,
never for debugging, by one of the users. -/
structure Proper (line : RequestLine) : Prop where
  ageBucket : line.ageBucket.isSome = line.personalized
  debug : line.debug = false
  userId : 1 ≤ line.userId.toInt ∧ line.userId.toInt ≤ population.toInt

theorem ensures_proper (query : String) (country : Country) :
    Ensures (requestLine query country) Proper := by
  have huser : ∀ v, 1 ≤ v ∧ v ≤ population.toNatClampNeg →
      1 ≤ (Int64.ofNat v).toInt ∧ (Int64.ofNat v).toInt ≤ population.toInt := by
    rintro v ⟨hlo, hhi⟩
    have hpopulation : population.toNatClampNeg = 2000000 := by decide
    have hvalue : (Int64.ofNat v).toInt = v := by
      rw [Int64.toInt_ofNat_of_lt (by omega)]
    have hpopulation' : population.toInt = 2000000 := by decide
    omega
  refine ensures_bind fun personalized => ensures_ite (fun hp => ?_) fun hp => ?_
  · have hsome : Ensures (some <$> pickWeighted bucketWeights) fun o => o.isSome = true :=
      ensures_bind fun bucket => ensures_pure rfl
    refine hsome.bind fun bucket hbucket => (ensures_randomRangeInclusive 1 _).bind fun v hv =>
      ensures_pure ⟨?_, rfl, huser v hv⟩
    exact hbucket.trans hp.symm
  · refine ensures_pure_bind <| (ensures_randomRangeInclusive 1 _).bind fun v hv =>
      ensures_pure ⟨?_, rfl, huser v hv⟩
    exact (Bool.eq_false_iff.mpr hp).symm

theorem ensures_proper_request [Floats] (campaigns : List Campaign) (pool : List (ℕ × ℕ)) :
    Ensures (randomRequest campaigns pool) fun r => Proper r.line := by
  refine ensures_bind fun kind => ensures_bind fun country => ensures_ite (fun _ => ?_) fun _ => ?_
  · exact ensures_bind fun query => (ensures_proper query country).bind fun line hline =>
      ensures_pure hline
  · exact ensures_bind fun r => (ensures_proper r.1 r.2.1).bind fun line hline =>
      ensures_pure hline

/-- **All request lines are proper**, and there are as many as asked for. -/
theorem ensures_proper_requests [Floats] (campaigns : List Campaign) (count : ℕ) :
    Ensures (drawRequests campaigns count) fun state =>
      state.1.length = count ∧ ∀ r ∈ state.1, Proper r.line := by
  refine ensures_times (I := fun i (state : List Request × HashMap String ℕ) =>
    state.1.length = i ∧ ∀ r ∈ state.1, Proper r.line) (fun i state _ hstate => ?_)
    ⟨rfl, fun r hr => absurd hr List.not_mem_nil⟩
  refine (ensures_proper_request campaigns _).bind fun r hr => ensures_pure ⟨?_, ?_⟩
  · rw [List.length_append, List.length_singleton, hstate.1]
  · exact List.forall_mem_append.mpr ⟨hstate.2, List.forall_mem_singleton.mpr hr⟩

section Generate

variable [Unicode] [Floats]

/-- **Where the request lines come from.** -/
theorem ensures_requests (opts : SeedOptions) : Ensures (generate opts) fun g =>
    ∃ requests : List Request, g.requests = requests.map Request.line ∧
      requests.length = opts.requests ∧
      g.requestsByKind = (requests.map fun r => r.kind.label).foldl HashMap.bump ∅ ∧
      ∀ r ∈ requests, Proper r.line ∧ Origin g.file.campaigns r := by
  refine ensures_bind fun progress => ?_
  have hrequests : Ensures (drawRequests progress.campaigns opts.requests) fun state =>
      state.1.length = opts.requests ∧
        state.2 = (state.1.map fun r => r.kind.label).foldl HashMap.bump ∅ ∧
        ∀ r ∈ state.1, Proper r.line ∧ Origin progress.campaigns r := by
    intro draws state rest hrun
    obtain ⟨hlength, hproper⟩ := ensures_proper_requests _ _ draws state rest hrun
    obtain ⟨horigin, hcounts⟩ := ensures_drawRequests _ _ draws state rest hrun
    exact ⟨hlength, hcounts, fun r hr => ⟨hproper r hr, horigin r hr⟩⟩
  have hlines : Ensures (randomRequests progress.campaigns opts.requests) fun state =>
      ∃ requests : List Request, state.1 = requests.map Request.line ∧
        requests.length = opts.requests ∧
        state.2 = (requests.map fun r => r.kind.label).foldl HashMap.bump ∅ ∧
        ∀ r ∈ requests, Proper r.line ∧ Origin progress.campaigns r :=
    hrequests.bind fun state hstate => ensures_pure ⟨state.1, rfl, hstate⟩
  exact hlines.bind fun state hstate => ensures_pure hstate

/-! ### Rejections -/

/-- **A campaign as drawn**, apart from its words: with a budget, somewhere to serve, and
age buckets if it targets any. -/
structure Shaped (c : Campaign) : Prop where
  budget : 0 < c.dailyBudget.toInt
  countries : c.countries ≠ []
  ageBuckets : c.ageBuckets ≠ some []

omit [Unicode] [Floats] in
theorem ensures_randomSet {α : Type} [LinearOrder α] (items : List (α × ℕ)) :
    Ensures (randomSet items) fun set => set ≠ [] := by
  refine (ensures_randomRangeInclusive 1 3).bind fun n hn => ?_
  refine (ensures_loopWhile (I := fun _ => True) (fun _ _ _ _ _ _ _ => trivial) trivial).mono
    fun set hset => ?_
  rintro rfl
  exact absurd hn.1 (by simpa using hset.2)

omit [Unicode] [Floats] in
theorem ensures_randomTargeting {countries : List Country} (h : countries ≠ []) :
    Ensures (randomTargeting countries) fun r => r.1 ≠ [] ∧ r.2 ≠ some [] := by
  refine ensures_bind fun targeted => ensures_ite (fun _ => ?_) fun _ => ensures_pure ⟨h, nofun⟩
  refine ensures_bind fun narrow => ensures_ite (fun _ => ?_) fun _ => ?_
  · exact ensures_bind fun country => ensures_bind fun bucket => ensures_pure ⟨nofun, nofun⟩
  · exact (ensures_randomSet _).bind fun buckets hbuckets =>
      ensures_pure ⟨h, fun heq => hbuckets (Option.some.inj heq)⟩

omit [Unicode] in
theorem ensures_shaped (id : CampaignId) (first : Int64) :
    Ensures (randomCampaign id first) Shaped := by
  have hbudget : ∀ units ≤ 500, 10 ≤ units → 0 < (Int64.ofNat units * 1000000).toInt := by
    decide +kernel
  refine ensures_bind fun draft => ensures_bind fun negatives =>
    (ensures_randomSet _).bind fun countries hcountries =>
      (ensures_randomTargeting hcountries).bind fun targeting htargeting => ensures_bind fun _ =>
        ensures_bind fun _ => ensures_bind fun _ =>
          (ensures_randomRangeInclusive 10 500).bind fun units hunits => ensures_pure ?_
  exact ⟨hbudget units hunits.2 hunits.1, htargeting.1, htargeting.2⟩

/-- The codes that a generated campaign can be rejected with. -/
def rejectionCodes : List String :=
  [CampaignRejection.audienceTooSmall.code, CampaignRejection.nonPositiveBid.code]

variable [Unicode.PlainSettles]

omit [Floats] in
/-- A negative keyword is an accepted text. -/
theorem Wording.normalize_negative {c : Campaign} (h : Wording c) {n : NegativeKeyword}
    (hn : n ∈ c.negativeKeywords) : ∃ tokens, normalize n.text = .ok tokens := by
  have hword := vocabulary_words _ (h.negatives n hn)
  refine ⟨[n.text], ?_⟩
  have hjoin : join [n.text] = n.text := by
    rw [join, String.intercalate_singleton]
  rw [← hjoin]
  exact normalize_join (fun w hw => List.mem_singleton.mp hw ▸ hword) (List.cons_ne_nil _ _)
    (Nat.succ_le_succ (Nat.zero_le _))

omit [Floats] in
/-- **What a drawn campaign can be rejected for.** -/
theorem code_mem_rejectionCodes {c : Campaign} {id : CampaignId} {first : ℤ}
    (hdrawn : Drawn id first c) (hshaped : Shaped c) {counts : AudienceCounts}
    {kTargeting : Int64} {reason : CampaignRejection}
    (h : validateCampaign c counts kTargeting = .error reason) : reason.code ∈ rejectionCodes := by
  have hbroken := (first_of_validateCampaign h).1
  have hlength := hdrawn.le_length
  cases reason with
  | nonPositiveBudget => exact absurd hshaped.budget (not_lt.mpr hbroken)
  | noCountries => exact absurd hbroken hshaped.countries
  | noKeywords =>
    rw [show c.keywords = [] from hbroken] at hlength
    exact absurd hlength (by decide)
  | invalidKeywordText =>
    obtain ⟨text, htext, hinvalid⟩ := hbroken
    rcases List.mem_append.mp htext with hmem | hmem
    · obtain ⟨k, hk, rfl⟩ := List.mem_map.mp hmem
      exact absurd (hdrawn.wording.normalize_keyword hk) (hinvalid _)
    · obtain ⟨n, hn, rfl⟩ := List.mem_map.mp hmem
      exact (hdrawn.wording.normalize_negative hn).elim fun tokens ht => absurd ht (hinvalid _)
  | emptyAgeBuckets => exact absurd hbroken hshaped.ageBuckets
  | nonPositiveBid => decide
  | audienceTooSmall => decide

omit [Unicode] [Unicode.PlainSettles] [Floats] in
theorem count_rejectionCodes {code : String} (h : code ∈ rejectionCodes) :
    rejectionCodes.countP (fun c => c = code) = 1 := by
  have hnodup : rejectionCodes.Nodup := by decide
  have hcount := List.count_eq_one_of_mem hnodup h
  rw [List.count] at hcount
  rw [← hcount]
  exact List.countP_congr fun c _ => by simp

/-- **The campaigns so far, in numbers**: the accepted ones and, code by code, the rejected
ones are all that were drawn. -/
structure Tallied (drawn : ℕ) (progress : Progress) : Prop where
  codes : ∀ code ∈ progress.rejected, code ∈ rejectionCodes
  counted : progress.campaigns.length +
    Tally.sum (fun code => (progress.rejected.lookup code).getD 0) rejectionCodes = drawn

omit [Unicode] [Unicode.PlainSettles] [Floats] in
theorem Tallied.reject {drawn : ℕ} {progress : Progress} (h : Tallied drawn progress)
    {code : String} (hcode : code ∈ rejectionCodes) :
    Tallied (drawn + 1) { progress with rejected := progress.rejected.bump code } where
  codes c hc := by
    rw [HashMap.bump, HashMap.entryModify, AList.mem_insert] at hc
    rcases hc with rfl | hc
    · exact hcode
    · exact h.codes c hc
  counted := by
    have hlookup : ∀ c ∈ rejectionCodes, ((progress.rejected.bump code).lookup c).getD 0 =
        (progress.rejected.lookup c).getD 0 + if c = code then 1 else 0 := by
      intro c _
      split
      · next heq => rw [heq, HashMap.bump, HashMap.lookup_entryModify_self, Option.getD_some]
      · next hne => rw [HashMap.bump, HashMap.lookup_entryModify_ne _ hne, Nat.add_zero]
    rw [Tally.sum_congr hlookup, Tally.sum_add, Tally.sum_ite, count_rejectionCodes hcode,
      ← Nat.add_assoc, h.counted]

/-- **One more campaign** is accepted, or counted under one of the codes. -/
theorem ensures_tallied {table : AudienceCounts} {kTargeting : Int64} {drawn : ℕ}
    {progress : Progress} (hkept : Kept table kTargeting drawn progress)
    (h : Tallied drawn progress) :
    Ensures (generateCampaign table kTargeting progress) (Tallied (drawn + 1)) := by
  have hfits := hkept.fits
  have hfew := hkept.few
  have hnext := hkept.next
  have hmax : Machine.maxI64 = 2 ^ 63 - 1 := rfl
  rw [campaignSize] at hfits
  have hboth : ∀ id, Ensures (randomCampaign id progress.nextKeywordId) fun c =>
      Drawn id progress.nextKeywordId.toInt c ∧ Shaped c := fun id draws c rest hrun =>
    ⟨ensures_randomCampaign id (by omega) (by omega) draws c rest hrun,
      ensures_shaped id _ draws c rest hrun⟩
  refine (hboth _).bind fun campaign hcampaign => ?_
  split
  · refine (ensures_ofOption fun campaigns hpush => Machine.vecPush_eq_some.mp hpush).bind ?_
    rintro campaigns ⟨-, rfl⟩
    refine ensures_pure ⟨h.codes, ?_⟩
    rw [List.length_append, List.length_singleton, Nat.add_right_comm, h.counted]
  · next reason hrejected =>
    exact ensures_pure (h.reject (code_mem_rejectionCodes hcampaign.1 hcampaign.2 hrejected))

theorem ensures_rejected (opts : SeedOptions) : Ensures (generate opts) fun g =>
    ∃ nextKeywordId, Tallied opts.campaigns ⟨g.file.campaigns, g.rejected, nextKeywordId⟩ := by
  have hloop := ensures_times (I := fun drawn progress =>
      Kept (SeedFile.audienceTable audienceCells) opts.kTargeting drawn progress ∧
        Tallied drawn progress)
    (fun drawn progress _ h draws next rest hrun =>
      ⟨ensures_generateCampaign h.1 draws next rest hrun,
        ensures_tallied h.1 h.2 draws next rest hrun⟩)
    (n := opts.campaigns) (s := ⟨[], ∅, 1⟩)
    ⟨⟨rfl, by decide, rfl, rfl, le_rfl, by decide, by simp, by simp⟩, by simp, by decide⟩
  exact hloop.bind fun progress hprogress => ensures_bind fun requests =>
    ensures_pure ⟨progress.nextKeywordId, hprogress.2⟩

/-! ### Kinds -/

/-- The labels that requests are counted under. -/
def kindLabels : List String :=
  [RequestKind.exact, .broad, .negative, .noMatch].map RequestKind.label

omit [Unicode] [Unicode.PlainSettles] [Floats] in
theorem RequestKind.count_kindLabels (kind : RequestKind) : kindLabels.count kind.label = 1 := by
  cases kind <;> decide

omit [Unicode] [Unicode.PlainSettles] [Floats] in
/-- **Label by label, the requests are all there.** -/
theorem sum_requestsByKind (requests : List Request) :
    Tally.sum (fun label => (((requests.map fun r => r.kind.label).foldl HashMap.bump ∅).lookup
      label).getD 0) kindLabels = requests.length := by
  rw [Tally.sum_congr fun label _ => HashMap.getD_tally_empty _ label]
  exact Tally.sum_countP fun r _ => r.kind.count_kindLabels

/-- **The summary adds up**, for all options and whatever is drawn. Campaigns are rejected
under no other codes than `rejectionCodes`, and with the accepted ones they are as many as
were asked for; the requests are as many as were asked for, and each is counted under one
of the labels. -/
theorem summary_adds_up {opts : SeedOptions} {draws rest : List ℕ} {g : Generated}
    (hrun : (generate opts).run draws = some (g, rest)) :
    (∀ code ∈ g.rejected, code ∈ rejectionCodes) ∧
      g.file.campaigns.length +
        Tally.sum (fun code => (g.rejected.lookup code).getD 0) rejectionCodes = opts.campaigns ∧
      g.requests.length = opts.requests ∧
      (∀ label ∈ g.requestsByKind, label ∈ kindLabels) ∧
      Tally.sum (fun label => (g.requestsByKind.lookup label).getD 0) kindLabels =
        opts.requests := by
  obtain ⟨_, htallied⟩ := ensures_rejected opts draws g rest hrun
  obtain ⟨requests, hlines, hlength, hkinds, -⟩ := ensures_requests opts draws g rest hrun
  refine ⟨htallied.codes, htallied.counted, ?_, fun label hlabel => ?_, ?_⟩
  · rw [hlines, List.length_map, hlength]
  · obtain ⟨n, hn⟩ := Option.isSome_iff_exists.mp (AList.lookup_isSome.mpr hlabel)
    rw [hkinds, HashMap.lookup_tally_empty] at hn
    have hmem := List.count_pos_iff.mp (Nat.pos_of_ne_zero fun hzero => hn.2 (hn.1 ▸ hzero))
    obtain ⟨r, -, rfl⟩ := List.mem_map.mp hmem
    exact List.count_pos_iff.mp (r.kind.count_kindLabels ▸ Nat.zero_lt_one)
  · rw [hkinds, sum_requestsByKind, hlength]

end Generate

/-! ### A sample -/

section Sample

attribute [local instance] Unicode.asciiGreek rationalFloats

/-- The options of the sample, with four requests. -/
def sampleServed : SeedOptions := ⟨7, 2, 4, 5000⟩

theorem run_sampleServed : ((generate sampleServed).run (sampleDraws ++ requestDraws)).map
    (fun r => (r.1.requests.length, r.2)) = some (4, []) := by
  decide +kernel

theorem summary_adds_up_sample : ∃ g,
    (generate sampleServed).run (sampleDraws ++ requestDraws) = some (g, []) ∧
      Tally.sum (fun label => (g.requestsByKind.lookup label).getD 0) kindLabels = 4 := by
  obtain ⟨⟨g, rest⟩, hrun, hg⟩ := Option.map_eq_some_iff.mp run_sampleServed
  obtain ⟨-, rfl⟩ := Prod.mk.inj hg
  exact ⟨g, hrun, (summary_adds_up hrun).2.2.2.2⟩

end Sample

end Seedgen

end AdMatch
