import AdMatch.Engine.Targeting

/-!
# Campaign validation

The rules a campaign must pass before it is stored. They are written apart from
the engine, and agree with it: an accepted campaign, stored with the audience
size that the validation returned, matches each of its own keywords as a query,
enters the auction for the requests it targets, and is blocked by each of its own
negatives (`AdMatch.accepted_campaigns_serve`).
-/

namespace AdMatch

/-- Why a campaign was refused. -/
inductive CampaignRejection
  /-- The daily budget is zero or negative. -/
  | nonPositiveBudget
  /-- The campaign targets no country, so it could never serve. -/
  | noCountries
  /-- The campaign has no keywords, so it could never match. -/
  | noKeywords
  /-- A keyword or negative normalises to nothing or is too long. -/
  | invalidKeywordText
  /-- A keyword bid is zero or negative. -/
  | nonPositiveBid
  /-- The age buckets are present but empty. -/
  | emptyAgeBuckets
  /-- The targeted audience is at or below the privacy threshold. -/
  | audienceTooSmall
  deriving DecidableEq

namespace CampaignRejection

/-- The API error code of a rejection. -/
def code : CampaignRejection → String
  | nonPositiveBudget => "invalid_budget"
  | noCountries => "no_countries"
  | noKeywords => "no_keywords"
  | invalidKeywordText => "invalid_keyword"
  | nonPositiveBid => "invalid_bid"
  | emptyAgeBuckets => "empty_age_buckets"
  | audienceTooSmall => "audience_too_small"

end CampaignRejection

section Validate

variable [Unicode]

/-- Checks a campaign and, for an age-targeted one, computes its audience size. -/
def validateCampaign (campaign : Campaign) (counts : AudienceCounts) (kTargeting : Int64) :
    Except CampaignRejection (Option Int64) :=
  if campaign.dailyBudget.val ≤ 0 then .error .nonPositiveBudget
  else if campaign.countries = [] then .error .noCountries
  else if campaign.keywords = [] then .error .noKeywords
  else
    let texts := campaign.keywords.map Keyword.text ++
      campaign.negativeKeywords.map NegativeKeyword.text
    if texts.any fun text => !(normalize text).isOk then .error .invalidKeywordText
    else if campaign.keywords.any fun k => k.maxCptBid.val ≤ 0 then .error .nonPositiveBid
    else
      match campaign.ageBuckets with
      | none => .ok none
      | some buckets =>
        if buckets = [] then .error .emptyAgeBuckets
        else
          let size := audienceSize counts campaign.countries buckets
          match checkTargeting size kTargeting with
          | .error _ => .error .audienceTooSmall
          | .ok _ => .ok (some size)

/-- What the validation returns for an audience: nothing without age targeting,
else a size above the threshold. -/
inductive AcceptedAudience (campaign : Campaign) (counts : AudienceCounts) (kTargeting : Int64) :
    Option Int64 → Prop
  | contextual (h : campaign.ageBuckets = none) : AcceptedAudience campaign counts kTargeting none
  | targeted (buckets : List AgeBucket) (h : campaign.ageBuckets = some buckets)
    (hne : buckets ≠ [])
    (hsize : kTargeting.toInt < (audienceSize counts campaign.countries buckets).toInt) :
    AcceptedAudience campaign counts kTargeting
      (some (audienceSize counts campaign.countries buckets))

/-- **What an accepted campaign is.** -/
structure Accepted (campaign : Campaign) (counts : AudienceCounts) (kTargeting : Int64)
    (size : Option Int64) : Prop where
  budget : 0 < campaign.dailyBudget.toInt
  countries : campaign.countries ≠ []
  keywords : campaign.keywords ≠ []
  keywordTexts : ∀ k ∈ campaign.keywords, ∃ tokens, normalize k.text = .ok tokens
  negativeTexts : ∀ n ∈ campaign.negativeKeywords, ∃ tokens, normalize n.text = .ok tokens
  bids : ∀ k ∈ campaign.keywords, 0 < k.maxCptBid.toInt
  audience : AcceptedAudience campaign counts kTargeting size

variable {campaign : Campaign} {counts : AudienceCounts} {kTargeting : Int64} {size : Option Int64}

theorem normalize_isOk {text : String} :
    (normalize text).isOk = true ↔ ∃ tokens, normalize text = .ok tokens := by
  cases normalize text with
  | error e => simp [Except.isOk, Except.toBool]
  | ok tokens => simp [Except.isOk, Except.toBool]

/-- No text is refused when every keyword and every negative normalises. -/
theorem any_not_isOk_eq_false :
    ((campaign.keywords.map Keyword.text ++ campaign.negativeKeywords.map NegativeKeyword.text).any
        fun text => !(normalize text).isOk) = false ↔
      (∀ k ∈ campaign.keywords, ∃ tokens, normalize k.text = .ok tokens) ∧
        ∀ n ∈ campaign.negativeKeywords, ∃ tokens, normalize n.text = .ok tokens := by
  simp only [List.any_eq_false, List.mem_append, List.mem_map, Bool.not_eq_true', Bool.not_eq_false,
    normalize_isOk, or_imp, forall_and, forall_exists_index, and_imp, forall_apply_eq_imp_iff₂]

omit [Unicode] in
theorem any_bid_eq_false : (campaign.keywords.any fun k => k.maxCptBid.val ≤ 0) = false ↔
    ∀ k ∈ campaign.keywords, 0 < k.maxCptBid.toInt := by
  simp only [List.any_eq_false, decide_eq_true_eq, Int64.le_iff_toInt_le, not_le]
  rfl

/-- **The validation accepts exactly the campaigns that pass its rules.** -/
theorem validateCampaign_eq_ok :
    validateCampaign campaign counts kTargeting = .ok size ↔
      Accepted campaign counts kTargeting size := by
  have hbudget : campaign.dailyBudget.val ≤ 0 ↔ ¬0 < campaign.dailyBudget.toInt := by
    rw [not_lt]
    exact Int64.le_iff_toInt_le
  simp only [validateCampaign, hbudget]
  constructor
  · intro h
    split_ifs at h with h1 h2 h3 h4 h5
    have htexts := any_not_isOk_eq_false.mp (Bool.eq_false_iff.mpr h4)
    refine ⟨h1, h2, h3, htexts.1, htexts.2,
      any_bid_eq_false.mp (Bool.eq_false_iff.mpr h5), ?_⟩
    cases hage : campaign.ageBuckets with
    | none =>
      rw [hage] at h
      obtain rfl := Except.ok.inj h
      exact .contextual hage
    | some buckets =>
      simp only [hage] at h
      split_ifs at h with hne
      split at h
      · cases h
      · rename_i hcheck
        obtain rfl := Except.ok.inj h
        exact .targeted buckets hage hne (checkTargeting_eq_ok.mp hcheck)
  · rintro ⟨h1, h2, h3, h4, h5, h6, haudience⟩
    rw [if_neg (not_not.mpr h1), if_neg h2, if_neg h3,
      if_neg (Bool.eq_false_iff.mp (any_not_isOk_eq_false.mpr ⟨h4, h5⟩)),
      if_neg (Bool.eq_false_iff.mp (any_bid_eq_false.mpr h6))]
    rcases haudience with hage | ⟨buckets, hage, hne, hsize⟩
    · rw [hage]
    · simp only [hage, if_neg hne, checkTargeting_eq_ok.mpr hsize]

namespace CampaignRejection

/-- **The rule that a rejection stands for is broken.** -/
def Broken (campaign : Campaign) (counts : AudienceCounts) (kTargeting : Int64) :
    CampaignRejection → Prop
  | nonPositiveBudget => campaign.dailyBudget.toInt ≤ 0
  | noCountries => campaign.countries = []
  | noKeywords => campaign.keywords = []
  | invalidKeywordText =>
    ∃ text ∈ campaign.keywords.map Keyword.text ++
      campaign.negativeKeywords.map NegativeKeyword.text, ∀ tokens, normalize text ≠ .ok tokens
  | nonPositiveBid => ∃ k ∈ campaign.keywords, k.maxCptBid.toInt ≤ 0
  | emptyAgeBuckets => campaign.ageBuckets = some []
  | audienceTooSmall => ∃ buckets, campaign.ageBuckets = some buckets ∧
    (audienceSize counts campaign.countries buckets).toInt ≤ kTargeting.toInt

/-- The rules, in the order in which they are checked. -/
def rules : List CampaignRejection :=
  [nonPositiveBudget, noCountries, noKeywords, invalidKeywordText, nonPositiveBid, emptyAgeBuckets,
    audienceTooSmall]

/-- **The first rule that is broken.** -/
def First (campaign : Campaign) (counts : AudienceCounts) (kTargeting : Int64)
    (reason : CampaignRejection) : Prop :=
  reason.Broken campaign counts kTargeting ∧
    ∀ earlier ∈ rules.takeWhile (· ≠ reason), ¬earlier.Broken campaign counts kTargeting

end CampaignRejection

theorem any_not_isOk_eq_true :
    ((campaign.keywords.map Keyword.text ++ campaign.negativeKeywords.map NegativeKeyword.text).any
        fun text => !(normalize text).isOk) = true ↔
      CampaignRejection.invalidKeywordText.Broken campaign counts kTargeting := by
  rw [List.any_eq_true]
  refine exists_congr fun text => and_congr_right fun _ => ?_
  rw [Bool.not_eq_true', ← Bool.not_eq_true, normalize_isOk, not_exists]

theorem any_bid_eq_true : (campaign.keywords.any fun k => k.maxCptBid.val ≤ 0) = true ↔
    CampaignRejection.nonPositiveBid.Broken campaign counts kTargeting := by
  rw [List.any_eq_true]
  refine exists_congr fun k => and_congr_right fun _ => ?_
  rw [decide_eq_true_eq]
  exact Int64.le_iff_toInt_le

/-- What a campaign is refused for is the first rule that it breaks. -/
theorem first_of_validateCampaign {reason : CampaignRejection}
    (h : validateCampaign campaign counts kTargeting = .error reason) :
    reason.First campaign counts kTargeting := by
  have hbudget : campaign.dailyBudget.val ≤ 0 ↔ campaign.dailyBudget.toInt ≤ 0 :=
    Int64.le_iff_toInt_le
  simp only [validateCampaign, hbudget] at h
  split_ifs at h with h1 h2 h3 h4 h5
  · obtain rfl := Except.error.inj h
    exact ⟨h1, List.forall_mem_nil _⟩
  · obtain rfl := Except.error.inj h
    exact ⟨h2, List.forall_mem_singleton.mpr h1⟩
  · obtain rfl := Except.error.inj h
    exact ⟨h3, List.forall_mem_cons.mpr ⟨h1, List.forall_mem_singleton.mpr h2⟩⟩
  · obtain rfl := Except.error.inj h
    exact ⟨any_not_isOk_eq_true.mp h4, List.forall_mem_cons.mpr ⟨h1, List.forall_mem_cons.mpr
      ⟨h2, List.forall_mem_singleton.mpr h3⟩⟩⟩
  · obtain rfl := Except.error.inj h
    exact ⟨any_bid_eq_true.mp h5, List.forall_mem_cons.mpr ⟨h1, List.forall_mem_cons.mpr
      ⟨h2, List.forall_mem_cons.mpr ⟨h3, List.forall_mem_singleton.mpr
        (mt any_not_isOk_eq_true.mpr h4)⟩⟩⟩⟩
  · have hbefore : ∀ earlier ∈ CampaignRejection.rules.take 5,
        ¬earlier.Broken campaign counts kTargeting :=
      List.forall_mem_cons.mpr ⟨h1, List.forall_mem_cons.mpr ⟨h2, List.forall_mem_cons.mpr
        ⟨h3, List.forall_mem_cons.mpr ⟨mt any_not_isOk_eq_true.mpr h4,
          List.forall_mem_singleton.mpr (mt any_bid_eq_true.mpr h5)⟩⟩⟩⟩
    cases hage : campaign.ageBuckets with
    | none =>
      rw [hage] at h
      cases h
    | some buckets =>
      simp only [hage] at h
      split_ifs at h with hne
      · obtain rfl := Except.error.inj h
        exact ⟨hage.trans (congrArg some hne), hbefore⟩
      · split at h
        · next hcheck =>
          obtain rfl := Except.error.inj h
          refine ⟨⟨buckets, hage, not_lt.mp fun hlt => ?_⟩, List.forall_mem_append.mpr
            ⟨hbefore, List.forall_mem_singleton.mpr fun hempty => ?_⟩⟩
          · rw [checkTargeting_eq_ok.mpr hlt] at hcheck
            cases hcheck
          · exact hne (Option.some.inj (hage.symm.trans hempty))
        · cases h

omit [Unicode] in
/-- An accepted audience passes the age rule of an engine whose threshold is no
greater, for a request that it targets. -/
theorem AcceptedAudience.ageRule (h : AcceptedAudience campaign counts kTargeting size)
    {cfg : EngineConfig} (hk : cfg.kTargeting ≤ kTargeting) {req : AuctionRequest}
    (hreq : ∀ buckets, campaign.ageBuckets = some buckets →
      req.personalized = true ∧ ∃ b ∈ buckets, req.ageBucket = some b) :
    AgeRule cfg req { campaign with audienceSize := size } := by
  rcases h with hage | ⟨buckets, hage, -, hsize⟩
  · exact .inl hage
  · obtain ⟨hpersonalized, b, hb, hbucket⟩ := hreq buckets hage
    exact .inr ⟨hpersonalized, ⟨buckets, b, hage, hbucket, hb⟩, _, rfl,
      (Int64.le_iff_toInt_le.mp hk).trans_lt hsize⟩

/-- An accepted text has tokens. -/
theorem tokenSet_nonempty_of_normalize {text : String} {tokens : List String}
    (h : normalize text = .ok tokens) : (tokenSet text).Nonempty := by
  obtain ⟨rfl, hne, -⟩ := normalize_eq_ok.mp h
  exact tokenSet_nonempty.mpr hne

/-- **Validation agrees with serving.** An accepted campaign, stored with its
audience size, in a snapshot whose threshold is no greater: each of its keywords
is a valid query that matches the campaign with at least the score of that
keyword, and puts it into the auction for every request that it targets, unless a
negative of its own matches or the chosen keyword bids below the reserve; and
each of its negatives is a valid query that blocks it. -/
theorem accepted_campaigns_serve (order : HashOrder) {c : Campaign}
    (haccepted : validateCampaign c counts kTargeting = .ok size) {snap : Snapshot}
    (hstored : { c with audienceSize := size } ∈ snap.campaigns)
    (hk : snap.cfg.kTargeting ≤ kTargeting) :
    (∀ kw ∈ c.keywords, ∃ tokens, normalize kw.text = .ok tokens ∧
      ∃ m ∈ snap.index.bestMatches order (snap.index.prepare tokens), ∃ k,
        snap.campaigns[m.campaignPos]? = some { c with audienceSize := size } ∧
        m.campaignId = c.id ∧ Chosen (tokenSet kw.text) c k ∧ m.keywordId = k.id ∧
        score kw.maxCptBid (relevanceOf kw.matchType (tokenSet kw.text) (tokenSet kw.text)) ≤
          m.score ∧
        (c.status = .active → ∀ req : AuctionRequest, req.query = kw.text →
          req.country ∈ c.countries →
          (∀ buckets, c.ageBuckets = some buckets →
            req.personalized = true ∧ ∃ b ∈ buckets, req.ageBucket = some b) →
          ¬Blocked (tokenSet kw.text) c → snap.cfg.reserve ≤ k.maxCptBid →
          ∃ i, snap.CandidateAt order req c.id i)) ∧
    ∀ n ∈ c.negativeKeywords, ∃ tokens, normalize n.text = .ok tokens ∧
      ∀ pos, snap.campaigns[pos]? = some { c with audienceSize := size } →
        snap.index.negativeMatches pos (snap.index.prepare tokens) = true := by
  have haccepted := validateCampaign_eq_ok.mp haccepted
  refine ⟨fun kw hkw => ?_, fun n hn => ?_⟩
  · obtain ⟨tokens, htokens⟩ := haccepted.keywordTexts kw hkw
    have hq := tokenSet_of_normalize htokens
    have hmatch := matches_self (tokenSet_nonempty_of_normalize htokens) kw.matchType
    have hmatch' : Matches kw.matchType (tokenSet kw.text) tokens.toFinset := by
      rw [← hq]
      exact hmatch
    obtain ⟨pos, k, hpos, hchosen, hbest, hmem⟩ :=
      snap.exists_mem_bestMatches order hstored hkw hmatch'
    rw [← hq] at hchosen hbest hmem
    refine ⟨tokens, htokens, _, hmem, k, hpos, rfl,
      ⟨hchosen.mem, hchosen.matched, hchosen.greatest⟩, rfl,
      Prod.Lex.monotone_fst _ _ (hchosen.greatest kw hkw hmatch), ?_⟩
    · intro hactive req hquery hcountry hreq hblocked hreserve
      have hel : eligibilityOf snap.cfg req (tokenSet kw.text)
          (offerOf (tokenSet kw.text) { c with audienceSize := size } k) = .eligible :=
        eligibility_eq_eligible.mpr ⟨hactive, hcountry,
          ageAllowed_iff.mpr (haccepted.audience.ageRule hk hreq), decide_eq_false hblocked,
          hreserve⟩
      obtain ⟨i, hi⟩ := List.mem_iff_getElem?.mp (mem_fieldOf_eligible.mpr
        ⟨_, hstored, hbest, hel, rfl⟩)
      exact ⟨i, Snapshot.candidateAt_iff.mpr ⟨tokens, _, hquery ▸ htokens, hq ▸ hi, rfl⟩⟩
  · obtain ⟨tokens, htokens⟩ := haccepted.negativeTexts n hn
    refine ⟨tokens, htokens, fun pos hpos => ?_⟩
    refine (KeywordIndex.negativeMatches_iff snap.represents pos).mpr ⟨_, hpos, n, hn, ?_⟩
    rw [← tokenSet_of_normalize htokens]
    exact matches_self (tokenSet_nonempty_of_normalize htokens) n.matchType

end Validate

section Sample

attribute [local instance] Unicode.asciiGreek

/-- The second sample campaign, as submitted. -/
def sampleSubmitted : Campaign where
  id := ⟨2⟩
  status := .active
  dailyBudget := ⟨300000⟩
  countries := [.IN]
  ageBuckets := some [.age18To24]
  audienceSize := none
  keywords := [⟨⟨3⟩, "photo", .broad, ⟨600000⟩⟩]
  negativeKeywords := []

theorem accepted_campaigns_serve_sample :
    validateCampaign sampleSubmitted (AudienceCounts.new.insert .IN .age18To24 6000) 5000 =
        .ok (some 6000) ∧
      ∃ m ∈ sampleSnapshot.index.bestMatches storageOrder (sampleSnapshot.index.prepare ["photo"]),
        m.campaignId = ⟨2⟩ := by
  have haccepted : validateCampaign sampleSubmitted
      (AudienceCounts.new.insert .IN .age18To24 6000) 5000 = .ok (some 6000) := by decide
  have hstored : { sampleSubmitted with audienceSize := some 6000 } ∈ sampleSnapshot.campaigns :=
    List.mem_cons_of_mem _ List.mem_cons_self
  obtain ⟨hserve, -⟩ := accepted_campaigns_serve storageOrder haccepted hstored (by decide)
  obtain ⟨tokens, htokens, m, hm, -, -, hid, -⟩ := hserve _ List.mem_cons_self
  have hphoto : normalize "photo" = .ok ["photo"] := by decide
  obtain rfl : tokens = ["photo"] := Except.ok.inj (htokens.symm.trans hphoto)
  exact ⟨haccepted, m, hm, hid⟩

end Sample

end AdMatch
