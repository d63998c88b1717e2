import AdMatch.Seedgen.Campaigns

/-!
# What the requests are labelled

Each request line is counted as a kind: an exact hit, a broad hit, a hit of a negative
keyword, or no match. The words of a request are chosen by its kind alone, and the match
type of the keyword or negative keyword that they come from is not looked at, while the
index goes by it. So a request is not always what it is labelled
(`AdMatch.Seedgen.requests_not_asLabelled`).

It is exactly if its words fit the match types (`AdMatch.Seedgen.Fits`): exact hits and
requests without a match always are, a hit of a negative keyword is if that is Broad, and
a broad hit is if its keyword is Broad, up to words that happen to make up something else
of the same campaign (`AdMatch.Seedgen.randomRequests_asLabelled_iff`). With Broad keywords
and Broad negative keywords only, all requests are (`AdMatch.Seedgen.drawRequests_asLabelled`).
-/

namespace AdMatch

namespace Seedgen

open Draw

/-! ### Labels -/

section Labels

variable [Unicode]

/-- **What a request line is labelled**, with respect to the keyword and the campaign
that it comes from. -/
def AsLabelled (order : HashOrder) (campaigns : List Campaign) (snap : Snapshot) (r : Request) :
    Prop :=
  ∃ tokens, normalize r.line.query = .ok tokens ∧
    match r.kind with
    | .exact => ∃ s ∈ r.source, ∃ c ∈ campaigns[s.campaignPos]?, ∃ k ∈ c.keywords[s.keywordPos]?,
      tokenSet r.line.query = tokenSet k.text ∧
      ∃ m ∈ snap.index.bestMatches order (snap.index.prepare tokens), m.campaignPos = s.campaignPos
    | .broad => ∃ s ∈ r.source,
      ∃ m ∈ snap.index.bestMatches order (snap.index.prepare tokens), m.campaignPos = s.campaignPos
    | .negative => ∃ s ∈ r.source,
      snap.index.negativeMatches s.campaignPos (snap.index.prepare tokens) = true
    | .noMatch => snap.index.bestMatches order (snap.index.prepare tokens) = []

end Labels

/-- **Words that fit a keyword of a campaign** when others are added to its own: it is
Broad, or nothing new is added, or what comes out matches another keyword. -/
def FitsBroad (c : Campaign) (k : Keyword) (added : List String) : Prop :=
  k.matchType = .broad ∨ (∀ w ∈ added, w ∈ splitBlank k.text) ∨
    ∃ k' ∈ c.keywords, k' ≠ k ∧
      Matches k'.matchType (splitBlank k'.text).toFinset (splitBlank k.text ++ added).toFinset

/-- **When what is drawn fits the match types.** -/
def Fits (campaigns : List Campaign) (r : Request) : Prop :=
  match r.kind with
  | .broad => ∃ s ∈ r.source, ∃ c ∈ campaigns[s.campaignPos]?, ∃ k ∈ c.keywords[s.keywordPos]?,
    FitsBroad c k s.added
  | .negative => ∃ s ∈ r.source, ∃ n ∈ s.negative, n.matchType = .broad
  | .exact | .noMatch => True

instance (c : Campaign) (k : Keyword) (added : List String) : Decidable (FitsBroad c k added) :=
  inferInstanceAs (Decidable (_ ∨ _ ∨ _))

instance (campaigns : List Campaign) : (r : Request) → Decidable (Fits campaigns r)
  | ⟨_, .broad, source⟩ => inferInstanceAs (Decidable (∃ s ∈ source,
    ∃ c ∈ campaigns[s.campaignPos]?, ∃ k ∈ c.keywords[s.keywordPos]?, FitsBroad c k s.added))
  | ⟨_, .negative, source⟩ => inferInstanceAs (Decidable (∃ s ∈ source, ∃ n ∈ s.negative,
    n.matchType = .broad))
  | ⟨_, .exact, _⟩ | ⟨_, .noMatch, _⟩ => .isTrue trivial

/-! ### How a request is composed -/

/-- **Words without a match**: a few made-up ones. -/
structure Nonsense (words : List String) : Prop where
  ne_nil : words ≠ []
  length_le : words.length ≤ 3
  words : ∀ w ∈ words, IsWord w ∧ w ∉ vocabulary

theorem ensures_nonsenseQuery :
    Ensures nonsenseQuery fun query => ∃ words, Nonsense words ∧ query = join words := by
  refine (ensures_randomRangeInclusive 1 3).bind fun n hn => ?_
  have hsyllable : ∀ i : ℕ, Ensures (ofOption nonsense[i]?) fun a => a ∈ nonsense :=
    fun i => ensures_ofOption fun a ha => List.mem_of_getElem? ha
  refine Ensures.bind (P := fun words => words.length = n ∧ ∀ w ∈ words, IsWord w ∧ w ∉ vocabulary)
    (ensures_times_append (fun words => ?_) n) fun words hwords =>
    ensures_pure ⟨words, ⟨?_, ?_, hwords.2⟩, rfl⟩
  · exact ensures_bind fun i => (hsyllable i).bind fun a ha => ensures_bind fun j =>
      (hsyllable j).bind fun b hb => ensures_pure ⟨a ++ b, nonsense_words ha hb, rfl⟩
  · refine List.ne_nil_of_length_pos ?_
    omega
  · omega

/-- The words added for a broad hit are one or two words of the vocabulary. -/
theorem ensures_addedWords [Floats] :
    Ensures addedWords fun words => words.length ≤ 2 ∧ ∀ w ∈ words, w ∈ vocabulary := by
  refine (ensures_randomRangeInclusive 1 2).bind fun n hn => ?_
  refine (ensures_times_append (fun words => ensures_zipfWord.bind fun word hword =>
    ensures_pure ⟨word, hword, rfl⟩) n).mono fun words hwords => ?_
  exact ⟨hwords.1.trans_le hn.2, hwords.2⟩

/-- **What is added to the words of a keyword**, by kind: nothing, or words of the
vocabulary, or a negative keyword of the campaign. -/
inductive Adds (c : Campaign) : RequestKind → List String → Option NegativeKeyword → Prop
  | exact : Adds c .exact [] none
  | broad {added : List String} (hlength : added.length ≤ 2) (hmem : ∀ w ∈ added, w ∈ vocabulary) :
    Adds c .broad added none
  | negative {n : NegativeKeyword} (hmem : n ∈ c.negativeKeywords) : Adds c .negative [] (some n)

/-- **How a query that comes from a keyword is composed**: of the words of the keyword
and what is added, in any order. -/
structure Composed (campaigns : List Campaign) (s : Source) (kind : RequestKind) (query : String)
    (c : Campaign) (k : Keyword) (words : List String) : Prop where
  campaign : campaigns[s.campaignPos]? = some c
  keyword : c.keywords[s.keywordPos]? = some k
  adds : Adds c kind s.added s.negative
  query : query = join words
  perm : words.Perm
    (splitBlank k.text ++ s.added ++ s.negative.toList.map NegativeKeyword.text)

theorem ensures_hitQuery [Floats] {campaigns : List Campaign} {pool : List (ℕ × ℕ)}
    {kind : RequestKind} {country : Country} (hkind : kind ≠ .noMatch) :
    Ensures (hitQuery campaigns pool kind country) fun r =>
      ∃ c k words, Composed campaigns r.2.2.2 r.2.2.1 r.1 c k words := by
  refine ensures_bind fun i => ensures_bind fun place => ?_
  refine (ensures_ofOption (P := fun c => campaigns[place.1]? = some c) fun c hc => hc).bind
    fun c hc => ensures_bind fun country' => ?_
  refine (ensures_ofOption (P := fun k => c.keywords[place.2]? = some k) fun k hk => hk).bind
    fun k hk => ?_
  have hrest : ∀ {kind' added negative}, Adds c kind' added negative →
      Ensures (do
        let words ← shuffle (splitBlank k.text ++ added ++ negative.toList.map NegativeKeyword.text)
        return (join words, country', kind', Source.mk place.1 place.2 added negative)) fun r =>
          ∃ c k words, Composed campaigns r.2.2.2 r.2.2.1 r.1 c k words := by
    intro kind' added negative hadds
    exact (ensures_shuffle _).bind fun words hwords =>
      ensures_pure ⟨c, k, words, hc, hk, hadds, rfl, hwords⟩
  cases kind with
  | exact =>
    exact ensures_ite (by rintro ⟨⟩) fun _ => ensures_pure_bind <|
      ensures_ite (by rintro ⟨⟩) fun _ => ensures_pure_bind <| hrest .exact
  | broad =>
    exact ensures_ite (fun _ => ensures_addedWords.bind fun added hadded =>
      ensures_ite (by rintro ⟨⟩) fun _ => ensures_pure_bind <| hrest (.broad hadded.1 hadded.2))
      fun h => absurd rfl h
  | negative =>
    refine ensures_ite (by rintro ⟨⟩) fun _ => ensures_pure_bind <| ensures_ite (fun _ =>
      (ensures_choose c.negativeKeywords).bind fun negative hnegative => ?_) fun h => absurd rfl h
    cases negative with
    | none => exact hrest (.broad (Nat.zero_le _) fun w hw => absurd hw List.not_mem_nil)
    | some n => exact hrest (.negative (hnegative n rfl))
  | noMatch => exact absurd rfl hkind

/-- **Where a request comes from**: made-up words, or a keyword. -/
inductive Origin (campaigns : List Campaign) (r : Request) : Prop
  | nonsense (words : List String) (hkind : r.kind = .noMatch) (hwords : Nonsense words)
    (hquery : r.line.query = join words)
  | hit (s : Source) (hsource : r.source = some s) (c : Campaign) (k : Keyword)
    (words : List String) (h : Composed campaigns s r.kind r.line.query c k words)

theorem ensures_requestLine (query : String) (country : Country) :
    Ensures (requestLine query country) fun line => line.query = query := by
  refine ensures_bind fun personalized => ?_
  exact ensures_ite (fun _ => ensures_bind fun _ => ensures_bind fun _ => ensures_pure rfl)
    fun _ => ensures_bind fun _ => ensures_bind fun _ => ensures_pure rfl

theorem ensures_randomRequest [Floats] (campaigns : List Campaign) (pool : List (ℕ × ℕ)) :
    Ensures (randomRequest campaigns pool) (Origin campaigns) := by
  refine ensures_bind fun kind => ensures_bind fun country => ensures_ite (fun hno => ?_)
    fun hno => ?_
  · refine ensures_nonsenseQuery.bind fun query hquery => ?_
    obtain ⟨words, hwords, rfl⟩ := hquery
    exact (ensures_requestLine _ country).bind fun line hline =>
      ensures_pure (.nonsense words hno hwords hline)
  · refine (ensures_hitQuery hno).bind fun r hr => ?_
    obtain ⟨c, k, words, hcomposed⟩ := hr
    refine (ensures_requestLine r.1 r.2.1).bind fun line hline => ensures_pure ?_
    exact .hit r.2.2.2 rfl c k words (hline ▸ hcomposed)

/-- **A whole run**: every request is composed as it should be, and the counts are those
of the labels. -/
theorem ensures_drawRequests [Floats] (campaigns : List Campaign) (count : ℕ) :
    Ensures (drawRequests campaigns count) fun state =>
      (∀ r ∈ state.1, Origin campaigns r) ∧
        state.2 = (state.1.map fun r => r.kind.label).foldl HashMap.bump ∅ := by
  refine ensures_times (I := fun _ (state : List Request × HashMap String ℕ) =>
    (∀ r ∈ state.1, Origin campaigns r) ∧
      state.2 = (state.1.map fun r => r.kind.label).foldl HashMap.bump ∅)
    (fun i state _ hstate => ?_) ⟨by simp, rfl⟩
  refine (ensures_randomRequest campaigns _).bind fun r hr => ensures_pure ⟨?_, ?_⟩
  · exact List.forall_mem_append.mpr ⟨hstate.1, List.forall_mem_singleton.mpr hr⟩
  · rw [List.map_append, List.foldl_append, ← hstate.2]
    rfl

theorem RequestKind.label_injective : Function.Injective RequestKind.label := by
  intro a b h
  cases a <;> cases b <;> first | rfl | exact absurd h (by decide)

/-- **The counts are those of the kinds.** -/
theorem getD_lookup_labels (requests : List Request) (kind : RequestKind) :
    (((requests.map fun r => r.kind.label).foldl HashMap.bump ∅).lookup kind.label).getD 0 =
      requests.countP fun r => r.kind = kind := by
  have hcount : (requests.map fun r => r.kind.label).count kind.label =
      requests.countP fun r => r.kind = kind := by
    rw [List.count, List.countP_map]
    refine List.countP_congr fun r _ => ?_
    simp only [Function.comp_apply, beq_iff_eq, decide_eq_true_eq]
    exact RequestKind.label_injective.eq_iff
  rw [HashMap.lookup_tally, hcount]
  split_ifs with hzero
  · rw [hzero]
    rfl
  · exact Nat.zero_add _

/-! ### Labels and match types -/

section Serving

variable [Unicode] [Unicode.PlainSettles] {campaigns : List Campaign} {snap : Snapshot}

omit [Unicode.PlainSettles] [Unicode] in
/-- What is added are words of the vocabulary, two at most. -/
theorem Adds.words {c : Campaign} (hwording : Wording c) {kind : RequestKind} {added : List String}
    {negative : Option NegativeKeyword} (h : Adds c kind added negative) :
    (added ++ negative.toList.map NegativeKeyword.text).length ≤ 2 ∧
      ∀ w ∈ added ++ negative.toList.map NegativeKeyword.text, w ∈ vocabulary := by
  cases h with
  | exact => exact ⟨Nat.zero_le _, fun w hw => absurd hw List.not_mem_nil⟩
  | broad hlength hmem =>
    rw [Option.toList_none, List.map_nil, List.append_nil]
    exact ⟨hlength, hmem⟩
  | negative hmem =>
    refine ⟨Nat.le_succ 1, fun w hw => ?_⟩
    rw [List.mem_singleton.mp hw]
    exact hwording.negatives _ hmem

variable {s : Source} {kind : RequestKind} {query : String} {c : Campaign} {k : Keyword}
  {words : List String}

omit [Unicode.PlainSettles] [Unicode] in
theorem Composed.mem_keywords (h : Composed campaigns s kind query c k words) : k ∈ c.keywords :=
  List.mem_of_getElem? h.keyword

/-- **The tokens of a query are the words that it is composed of.** -/
theorem Composed.normalize (h : Composed campaigns s kind query c k words)
    (hwording : Wording c) : normalize query = .ok words := by
  have hphrase := hwording.phrases k h.mem_keywords
  obtain ⟨hadded, hmem⟩ := h.adds.words hwording
  have hperm := h.perm
  rw [List.append_assoc] at hperm
  have hlength := hperm.length_eq
  have hphraselength := hphrase.length_le
  rw [List.length_append] at hlength
  rw [h.query]
  refine normalize_join (fun w hw => ?_) ?_ (by omega)
  · rcases List.mem_append.mp (hperm.mem_iff.mp hw) with hw | hw
    · exact hphrase.words w hw
    · exact vocabulary_words w (hmem w hw)
  · rintro rfl
    exact hphrase.ne_nil (List.append_eq_nil_iff.mp hperm.symm.eq_nil).1

omit [Unicode.PlainSettles] [Unicode] in
theorem Composed.toFinset (h : Composed campaigns s kind query c k words) : words.toFinset =
    (splitBlank k.text ++ s.added ++ s.negative.toList.map NegativeKeyword.text).toFinset :=
  List.toFinset_eq_of_perm _ _ h.perm

/-- **A broad hit** matches its campaign exactly if its words fit. -/
theorem exists_matches_iff_fitsBroad (hwording : Wording c) (hk : k ∈ c.keywords)
    (added : List String) : (∃ k' ∈ c.keywords, Matches k'.matchType (tokenSet k'.text)
      (splitBlank k.text ++ added).toFinset) ↔ FitsBroad c k added := by
  have hne : (splitBlank k.text).toFinset.Nonempty :=
    List.toFinset_nonempty_iff _ |>.mpr (hwording.phrases k hk).ne_nil
  have hsub : (splitBlank k.text).toFinset ⊆ (splitBlank k.text ++ added).toFinset := by
    rw [List.toFinset_append]
    exact Finset.subset_union_left
  constructor
  · rintro ⟨k', hk', hmatch⟩
    rw [hwording.tokenSet_keyword hk'] at hmatch
    by_cases hsame : k' = k
    · subst hsame
      cases hmt : k'.matchType with
      | exact =>
        rw [hmt] at hmatch
        refine .inr (.inl fun w hw => List.mem_toFinset.mp ?_)
        rw [(matches_exact.mp hmatch).2]
        exact List.mem_toFinset.mpr (List.mem_append_right _ hw)
      | broad => exact .inl hmt
    · exact .inr (.inr ⟨k', hk', hsame, hmatch⟩)
  · rintro (hbroad | hold | ⟨k', hk', -, hmatch⟩)
    · refine ⟨k, hk, ?_⟩
      rw [hwording.tokenSet_keyword hk, hbroad]
      exact matches_broad.mpr ⟨hne, hsub⟩
    · -- nothing new is added, so either match type will do
      have hsame : (splitBlank k.text ++ added).toFinset = (splitBlank k.text).toFinset := by
        rw [List.toFinset_append, Finset.union_eq_left]
        exact fun w hw => List.mem_toFinset.mpr (hold w (List.mem_toFinset.mp hw))
      refine ⟨k, hk, ?_⟩
      rw [hwording.tokenSet_keyword hk, hsame]
      exact matches_self hne k.matchType
    · exact ⟨k', hk', by rwa [hwording.tokenSet_keyword hk']⟩

/-- **A hit of a negative keyword** is blocked exactly if that keyword is Broad: an Exact
one asks for a query without the words of the keyword. -/
theorem blocked_iff_broad (hwording : Wording c) (hk : k ∈ c.keywords) {n : NegativeKeyword}
    (hn : n ∈ c.negativeKeywords) :
    Blocked (splitBlank k.text ++ [n.text]).toFinset c ↔ n.matchType = .broad := by
  constructor
  · rintro ⟨n', hn', hmatch⟩
    rw [hwording.tokenSet_negative hn'] at hmatch
    have hmem : n'.text ∈ splitBlank k.text ++ [n.text] :=
      List.mem_toFinset.mp (Finset.singleton_subset_iff.mp hmatch.subset)
    -- it is not a word of the keyword, so it is the one that was added
    have htext : n'.text = n.text := by
      rcases List.mem_append.mp hmem with hmem | hmem
      · exact absurd hmem (hwording.apart n' hn' k hk)
      · exact List.mem_singleton.mp hmem
    obtain rfl : n' = n := List.inj_on_of_nodup_map hwording.distinct hn' hn htext
    cases hmt : n'.matchType with
    | broad => rfl
    | exact =>
      rw [hmt] at hmatch
      obtain ⟨w, hw⟩ := List.exists_mem_of_ne_nil _ (hwording.phrases k hk).ne_nil
      have hw' : w ∈ (splitBlank k.text ++ [n'.text]).toFinset :=
        List.mem_toFinset.mpr (List.mem_append_left _ hw)
      rw [← (matches_exact.mp hmatch).2, Finset.mem_singleton] at hw'
      exact absurd (hw' ▸ hw) (hwording.apart n' hn' k hk)
  · intro hbroad
    refine ⟨n, hn, ?_⟩
    rw [hwording.tokenSet_negative hn, hbroad]
    refine matches_broad.mpr ⟨Finset.singleton_nonempty _, Finset.singleton_subset_iff.mpr ?_⟩
    exact List.mem_toFinset.mpr (List.mem_append_right _ (List.mem_singleton_self _))

/-- **Made-up words match nothing.** -/
theorem bestMatches_nonsense (order : HashOrder) (hsnap : ∀ c ∈ snap.campaigns, Wording c)
    (hwords : Nonsense words) :
    snap.index.bestMatches order (snap.index.prepare words) = [] := by
  refine List.eq_nil_iff_forall_not_mem.mpr fun m hm => ?_
  obtain ⟨c, hc, k, hk, hmatch⟩ := (snap.exists_match_at order).mp ⟨m, hm, rfl⟩
  have hwording := hsnap c (List.mem_of_getElem? hc)
  obtain ⟨w, hw⟩ := List.exists_mem_of_ne_nil _ (hwording.phrases k hk).ne_nil
  have hmem : w ∈ tokenSet k.text := by
    rw [hwording.tokenSet_keyword hk]
    exact List.mem_toFinset.mpr hw
  exact (hwords.words w (List.mem_toFinset.mp (hmatch.subset hmem))).2
    ((hwording.phrases k hk).mem w hw)

/-- **A query matches the campaign that it comes from** exactly if what was added fits,
negative keywords apart. -/
theorem Composed.exists_match_iff (h : Composed campaigns s kind query c k words)
    (hwording : Wording c) (hsnap : snap.campaigns = campaigns) (order : HashOrder)
    (hnegative : s.negative = none) :
    (∃ m ∈ snap.index.bestMatches order (snap.index.prepare words),
      m.campaignPos = s.campaignPos) ↔ FitsBroad c k s.added := by
  rw [← exists_matches_iff_fitsBroad hwording h.mem_keywords, snap.exists_match_at order,
    h.toFinset, hnegative, Option.toList_none, List.map_nil, List.append_nil, hsnap]
  constructor
  · rintro ⟨c', hc', hmatch⟩
    rwa [Option.some.inj (hc'.symm.trans h.campaign)] at hmatch
  · exact fun hmatch => ⟨c, h.campaign, hmatch⟩

/-- **A query with a negative keyword** is blocked for the campaign that it comes from
exactly if that keyword is Broad. -/
theorem Composed.negativeMatches_iff (h : Composed campaigns s kind query c k words)
    (hwording : Wording c) (hsnap : snap.campaigns = campaigns) {n : NegativeKeyword}
    (hn : n ∈ c.negativeKeywords) (hadded : s.added = []) (hnegative : s.negative = some n) :
    snap.index.negativeMatches s.campaignPos (snap.index.prepare words) = true ↔
      n.matchType = .broad := by
  rw [← blocked_iff_broad hwording h.mem_keywords hn,
    KeywordIndex.negativeMatches_iff snap.represents, h.toFinset, hnegative, hadded,
    List.append_nil, Option.toList_some, List.map_singleton, hsnap]
  constructor
  · rintro ⟨c', hc', hblocked⟩
    rwa [Option.some.inj (hc'.symm.trans h.campaign)] at hblocked
  · exact fun hblocked => ⟨c, h.campaign, hblocked⟩

/-- **A request that comes from a keyword** is what it is labelled exactly if its words
fit. -/
theorem Composed.asLabelled_iff {line : RequestLine}
    (h : Composed campaigns s kind line.query c k words) (hwording : Wording c)
    (hsnap : snap.campaigns = campaigns) (order : HashOrder) :
    AsLabelled order campaigns snap ⟨line, kind, some s⟩ ↔ Fits campaigns ⟨line, kind, some s⟩ := by
  have hnormalize := h.normalize hwording
  obtain ⟨ci, ki, added, negative⟩ := s
  cases hadds : h.adds with
  | exact =>
    refine iff_of_true ⟨words, hnormalize, _, rfl, c, h.campaign, k, h.keyword, ?_, ?_⟩ trivial
    · rw [tokenSet_of_normalize hnormalize, h.toFinset, hwording.tokenSet_keyword h.mem_keywords,
        List.append_nil, Option.toList_none, List.map_nil, List.append_nil]
    · exact (h.exists_match_iff hwording hsnap order rfl).mpr (.inr (.inl (by simp)))
  | broad hlength hmem =>
    have hmatch := h.exists_match_iff hwording hsnap order rfl
    constructor
    · rintro ⟨tokens, htokens, s, hs, hm⟩
      obtain rfl := Option.some.inj hs
      obtain rfl := Except.ok.inj (hnormalize.symm.trans htokens)
      exact ⟨_, rfl, c, h.campaign, k, h.keyword, hmatch.mp hm⟩
    · rintro ⟨s, hs, c', hc', k', hk', hfits⟩
      obtain rfl := Option.some.inj hs
      obtain rfl := Option.some.inj (h.campaign.symm.trans hc')
      obtain rfl := Option.some.inj (h.keyword.symm.trans hk')
      exact ⟨words, hnormalize, _, rfl, hmatch.mpr hfits⟩
  | negative hn =>
    have hblocked := h.negativeMatches_iff hwording hsnap hn rfl rfl
    constructor
    · rintro ⟨tokens, htokens, s, hs, hneg⟩
      obtain rfl := Option.some.inj hs
      obtain rfl := Except.ok.inj (hnormalize.symm.trans htokens)
      exact ⟨_, rfl, _, rfl, hblocked.mp hneg⟩
    · rintro ⟨s, hs, n, hn', hbroad⟩
      obtain rfl := Option.some.inj hs
      obtain rfl := Option.some.inj hn'
      exact ⟨words, hnormalize, _, rfl, hblocked.mpr hbroad⟩

/-- **A request is what it is labelled exactly if its words fit.** -/
theorem Origin.asLabelled_iff {r : Request} (h : Origin campaigns r) (order : HashOrder)
    (hwording : ∀ c ∈ campaigns, Wording c) (hsnap : snap.campaigns = campaigns) :
    AsLabelled order campaigns snap r ↔ Fits campaigns r := by
  obtain ⟨line, kind, source⟩ := r
  cases h with
  | nonsense words hkind hwords hquery =>
    obtain rfl : kind = .noMatch := hkind
    have hlength := hwords.length_le
    refine iff_of_true ⟨words, ?_, ?_⟩ trivial
    · rw [hquery]
      exact normalize_join (fun w hw => (hwords.words w hw).1) hwords.ne_nil (by omega)
    · exact bestMatches_nonsense order (hsnap ▸ hwording) hwords
  | hit s hsource c k words h =>
    obtain rfl : source = some s := hsource
    exact h.asLabelled_iff (hwording c (List.mem_of_getElem? h.campaign)) hsnap order

omit [Unicode] [Unicode.PlainSettles] in
/-- **Whatever is picked fits Broad keywords and Broad negative keywords.** -/
theorem Origin.fits_of_broad {r : Request} (h : Origin campaigns r)
    (hkeywords : ∀ c ∈ campaigns, ∀ k ∈ c.keywords, k.matchType = .broad)
    (hnegatives : ∀ c ∈ campaigns, ∀ n ∈ c.negativeKeywords, n.matchType = .broad) :
    Fits campaigns r := by
  obtain ⟨line, kind, source⟩ := r
  cases h with
  | nonsense words hkind hwords hquery =>
    obtain rfl : kind = .noMatch := hkind
    trivial
  | hit s hsource c k words h =>
    obtain rfl : source = some s := hsource
    have hc := List.mem_of_getElem? h.campaign
    obtain ⟨ci, ki, added, negative⟩ := s
    cases h.adds with
    | exact => trivial
    | broad hlength hmem =>
      exact ⟨_, rfl, c, h.campaign, k, h.keyword, .inl (hkeywords c hc k h.mem_keywords)⟩
    | negative hn => exact ⟨_, rfl, _, rfl, hnegatives c hc _ hn⟩

/-! ### Whole runs -/

variable [Floats]

/-- **A list of campaigns that a run of the generator accepted.** -/
def Seeded (campaigns : List Campaign) : Prop :=
  ∃ opts draws g rest, (generate opts).run draws = some (g, rest) ∧ g.file.campaigns = campaigns

omit [Unicode.PlainSettles] in
theorem Seeded.wording (h : Seeded campaigns) : ∀ c ∈ campaigns, Wording c := by
  obtain ⟨opts, draws, g, rest, hrun, rfl⟩ := h
  obtain ⟨nextKeywordId, hkept⟩ := ensures_generate opts draws g rest hrun
  exact hkept.wording

/-- **With Broad keywords and Broad negative keywords only**, every request line is what it is
labelled, whatever is drawn. -/
theorem drawRequests_asLabelled (order : HashOrder) (hseeded : Seeded campaigns)
    {cfg : EngineConfig} (hbuild : Snapshot.build campaigns cfg = .ok snap)
    (hkeywords : ∀ c ∈ campaigns, ∀ k ∈ c.keywords, k.matchType = .broad)
    (hnegatives : ∀ c ∈ campaigns, ∀ n ∈ c.negativeKeywords, n.matchType = .broad) (count : ℕ) :
    Ensures (drawRequests campaigns count) fun state =>
      ∀ r ∈ state.1, AsLabelled order campaigns snap r :=
  (ensures_drawRequests campaigns count).mono fun _ hstate r hr =>
    ((hstate.1 r hr).asLabelled_iff order hseeded.wording (Snapshot.build_eq_ok hbuild).1).mpr
      ((hstate.1 r hr).fits_of_broad hkeywords hnegatives)

/-- **When requests are what they are labelled.** For every list of campaigns that the
generator accepted, served from its snapshot, and whatever is drawn: each request line is
what it is counted as exactly if the words drawn for it fit the match types. -/
theorem randomRequests_asLabelled_iff (order : HashOrder) (hseeded : Seeded campaigns)
    {cfg : EngineConfig} (hbuild : Snapshot.build campaigns cfg = .ok snap) {count : ℕ}
    {draws rest : List ℕ} {lines : List RequestLine} {byKind : HashMap String ℕ}
    (hrun : (randomRequests campaigns count).run draws = some ((lines, byKind), rest)) :
    ∃ requests, (drawRequests campaigns count).run draws = some ((requests, byKind), rest) ∧
      lines = requests.map Request.line ∧
      (∀ kind : RequestKind, (byKind.lookup kind.label).getD 0 =
        requests.countP fun r => r.kind = kind) ∧
      ∀ r ∈ requests, AsLabelled order campaigns snap r ↔ Fits campaigns r := by
  obtain ⟨⟨requests, byKind'⟩, mid, hdraw, hpure⟩ := run_bind.mp hrun
  obtain ⟨heq, rfl⟩ := run_pure.mp hpure
  obtain ⟨rfl, rfl⟩ := Prod.mk.inj heq
  obtain ⟨horigin, hcounts⟩ := ensures_drawRequests campaigns count draws _ _ hdraw
  refine ⟨requests, hdraw, rfl, fun kind => ?_, fun r hr => ?_⟩
  · rw [show byKind = _ from hcounts, getD_lookup_labels]
  · exact (horigin r hr).asLabelled_iff order hseeded.wording (Snapshot.build_eq_ok hbuild).1

end Serving

/-! ### Exact keywords -/

section Sample

attribute [local instance] Unicode.asciiGreek rationalFloats

theorem seeded_sampleSeeded : Seeded [sampleSeeded] := by
  obtain ⟨⟨g, rest⟩, hrun, hg⟩ := Option.map_eq_some_iff.mp run_sampleDraws
  exact ⟨sampleOptions, sampleDraws, g, rest, hrun, (Prod.mk.inj hg).1⟩

/-- The snapshot of the campaign. -/
def sampleServing : Snapshot := (Snapshot.build [sampleSeeded] .default).toOption.get (by decide)

/-- One request of each kind, all from the keyword for photos. -/
def requestDraws : List ℕ :=
  [0, 0, 0, 99, 0, 99, 1] ++ [40, 0, 0, 99, 1, 4 * 2 ^ 48, 1, 0, 99, 1] ++
    [70, 0, 0, 99, 0, 0, 1, 99, 1] ++ [80, 0, 1, 0, 1, 99, 1]

theorem run_requestDraws : ((drawRequests [sampleSeeded] 4).run requestDraws).map
    (fun r => (r.1.1.map fun q => (q.kind, decide (Fits [sampleSeeded] q)), r.2)) =
      some ([(.exact, true), (.broad, false), (.negative, false), (.noMatch, true)], []) := by
  decide +kernel

/-- The exact hit fits, and so does the request without a match; the others do not. -/
theorem exists_requestDraws : ∃ requests byKind,
    (drawRequests [sampleSeeded] 4).run requestDraws = some ((requests, byKind), []) ∧
      ∀ kind fits, (kind, fits) ∈
        [(RequestKind.exact, true), (.broad, false), (.negative, false), (.noMatch, true)] →
        ∃ r ∈ requests, r.kind = kind ∧ decide (Fits [sampleSeeded] r) = fits := by
  obtain ⟨⟨⟨requests, byKind⟩, rest⟩, hrun, hmap⟩ := Option.map_eq_some_iff.mp run_requestDraws
  obtain ⟨hfits, rfl⟩ := Prod.mk.inj hmap
  refine ⟨requests, byKind, hrun, fun kind fits hmem => ?_⟩
  rw [← hfits] at hmem
  obtain ⟨r, hr, heq⟩ := List.mem_map.mp hmem
  exact ⟨r, hr, (Prod.mk.inj heq).1, (Prod.mk.inj heq).2⟩

theorem randomRequests_asLabelled_iff_sample : ∃ requests byKind,
    (drawRequests [sampleSeeded] 4).run requestDraws = some ((requests, byKind), []) ∧
      (∃ r ∈ requests, r.kind = .exact ∧ AsLabelled storageOrder [sampleSeeded] sampleServing r) ∧
      ∃ r ∈ requests, r.kind = .noMatch ∧
        AsLabelled storageOrder [sampleSeeded] sampleServing r := by
  obtain ⟨requests, byKind, hrun, hkinds⟩ := exists_requestDraws
  obtain ⟨requests', hrun', -, -, hiff⟩ := randomRequests_asLabelled_iff storageOrder
    seeded_sampleSeeded (show Snapshot.build [sampleSeeded] .default = .ok sampleServing from rfl)
    (run_bind.mpr ⟨_, _, hrun, run_pure.mpr ⟨rfl, rfl⟩⟩)
  obtain rfl : requests' = requests := by
    rw [hrun] at hrun'
    exact (congrArg Prod.fst (Prod.mk.inj (Option.some.inj hrun')).1).symm
  obtain ⟨r, hr, hkind, hfits⟩ := hkinds .exact true (by decide)
  obtain ⟨r', hr', hkind', hfits'⟩ := hkinds .noMatch true (by decide)
  exact ⟨requests', byKind, hrun, ⟨r, hr, hkind, (hiff r hr).mpr (of_decide_eq_true hfits)⟩,
    r', hr', hkind', (hiff r' hr').mpr (of_decide_eq_true hfits')⟩

/-- **A broad hit that is none, and a query that is not blocked**: the keyword is Exact, and
so is the negative keyword. -/
theorem requests_not_asLabelled : ∃ requests byKind, Seeded [sampleSeeded] ∧
    Snapshot.build [sampleSeeded] .default = .ok sampleServing ∧
    (drawRequests [sampleSeeded] 4).run requestDraws = some ((requests, byKind), []) ∧
    (∃ r ∈ requests, r.kind = .broad ∧
      ∀ order, ¬AsLabelled order [sampleSeeded] sampleServing r) ∧
    ∃ r ∈ requests, r.kind = .negative ∧
      ∀ order, ¬AsLabelled order [sampleSeeded] sampleServing r := by
  obtain ⟨requests, byKind, hrun, hkinds⟩ := exists_requestDraws
  have hnot : ∀ r ∈ requests, decide (Fits [sampleSeeded] r) = false →
      ∀ order, ¬AsLabelled order [sampleSeeded] sampleServing r := by
    intro r hr hfits order hlabelled
    have horigin := (ensures_drawRequests _ _ _ _ _ hrun).1 r hr
    exact of_decide_eq_false hfits
      ((horigin.asLabelled_iff order seeded_sampleSeeded.wording rfl).mp hlabelled)
  obtain ⟨r, hr, hkind, hfits⟩ := hkinds .broad false (by decide)
  obtain ⟨r', hr', hkind', hfits'⟩ := hkinds .negative false (by decide)
  exact ⟨requests, byKind, seeded_sampleSeeded, rfl, hrun, ⟨r, hr, hkind, hnot r hr hfits⟩,
    r', hr', hkind', hnot r' hr' hfits'⟩

end Sample

end Seedgen

end AdMatch
