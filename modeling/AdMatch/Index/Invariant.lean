import AdMatch.Index.Vocabulary

/-!
# What an index represents

The invariant of the build loop. An index *represents* the campaigns processed
so far (`AdMatch.KeywordIndex.Represents`) when its keyword list is, campaign by
campaign, the keywords with a non-empty token set, each under the id set of its
text; when its negatives are the same for the negatives; and when its two lookup
tables file every stored keyword exactly where it belongs
(`AdMatch.KeywordIndex.Filed`).

The ids of a text are read in the *final* vocabulary throughout: interning more
text never changes the ids of a text already known, so the invariant need not
remember when a text was interned.
-/

namespace AdMatch

namespace KeywordIndex

/-! ### Posting lists -/

/-- The positions of the stored keywords that satisfy `p`, in order. -/
def positions (p : IndexedKeyword → Bool) (keywords : List IndexedKeyword) : List ℕ :=
  (keywords.zipIdx.filter fun e => p e.1).map Prod.snd

theorem mem_positions {p : IndexedKeyword → Bool} {keywords : List IndexedKeyword} {pos : ℕ} :
    pos ∈ positions p keywords ↔ ∃ kw, keywords[pos]? = some kw ∧ p kw = true := by
  simp only [positions, List.mem_map, List.mem_filter, List.mem_zipIdx_iff_getElem?]
  constructor
  · rintro ⟨⟨kw, i⟩, ⟨hget, hp⟩, rfl⟩
    exact ⟨kw, hget, hp⟩
  · rintro ⟨kw, hget, hp⟩
    exact ⟨(kw, pos), ⟨hget, hp⟩, rfl⟩

theorem nodup_positions (p : IndexedKeyword → Bool) (keywords : List IndexedKeyword) :
    (positions p keywords).Nodup := by
  have h : (keywords.zipIdx.map Prod.snd).Nodup := by
    rw [List.zipIdx_map_snd]
    exact List.nodup_range'
  exact (List.filter_sublist.map _).nodup h

theorem positions_append (p : IndexedKeyword → Bool) (keywords : List IndexedKeyword)
    (kw : IndexedKeyword) : positions p (keywords ++ [kw]) =
      positions p keywords ++ if p kw then [keywords.length] else [] := by
  rw [positions, List.zipIdx_append, List.filter_append, List.map_append, ← positions]
  cases hp : p kw <;> simp [hp]

/-- Whether a stored keyword is an exact one with the token set `tokens`. -/
def exactWith (tokens : List TokenId) (kw : IndexedKeyword) : Bool :=
  kw.matchType = .exact ∧ kw.tokens = tokens

/-- Whether a stored keyword is a broad one containing `token`. -/
def broadWith (token : TokenId) (kw : IndexedKeyword) : Bool :=
  kw.matchType = .broad ∧ kw.tokens.contains token

/-- **The lookup tables file every stored keyword exactly where it belongs.** -/
structure Filed (index : KeywordIndex) : Prop where
  /-- An exact keyword is filed under its own token set. -/
  exact : ∀ tokens, (index.exact.lookup tokens).getD [] =
    positions (exactWith tokens) index.keywords
  /-- A broad keyword is filed under each of its tokens. -/
  broad : ∀ token, (index.broad.lookup token).getD [] =
    positions (broadWith token) index.keywords

theorem filed_default : Filed default := ⟨fun _ => rfl, fun _ => rfl⟩

/-- The tables do not mention the vocabulary. -/
theorem Filed.setVocab {index : KeywordIndex} (h : index.Filed) (v : Vocab) :
    Filed { index with vocab := v } := ⟨h.exact, h.broad⟩

section Insert

variable (campaignPos : ℕ) (campaign : Campaign) (keyword : Keyword) (tokens : List TokenId)
  (index : KeywordIndex)

@[simp] theorem insertKeyword_vocab :
    (insertKeyword campaignPos campaign keyword tokens index).vocab = index.vocab := by
  rw [insertKeyword]
  cases keyword.matchType <;> rfl

@[simp] theorem insertKeyword_negatives :
    (insertKeyword campaignPos campaign keyword tokens index).negatives = index.negatives := by
  rw [insertKeyword]
  cases keyword.matchType <;> rfl

@[simp] theorem insertKeyword_keywords :
    (insertKeyword campaignPos campaign keyword tokens index).keywords =
      index.keywords ++ [⟨campaignPos, campaign.id, keyword.id, keyword.matchType,
        keyword.maxCptBid, tokens⟩] := by
  rw [insertKeyword]
  cases keyword.matchType <;> rfl

end Insert

/-- Filing a keyword keeps the tables right. -/
theorem Filed.insertKeyword {index : KeywordIndex} (h : index.Filed) (campaignPos : ℕ)
    (campaign : Campaign) (keyword : Keyword) {tokens : List TokenId} (hnd : tokens.Nodup) :
    Filed (insertKeyword campaignPos campaign keyword tokens index) := by
  rw [KeywordIndex.insertKeyword]
  cases hm : keyword.matchType with
  | exact =>
    refine ⟨fun ts => ?_, fun t => ?_⟩
    · simp only [HashMap.getD_push, positions_append, h.exact ts, exactWith, true_and,
        decide_eq_true_eq]
      simp only [eq_comm (a := ts)]
    · simp only [positions_append, h.broad t, broadWith, reduceCtorEq, false_and, decide_false]
      simp
  | broad =>
    refine ⟨fun ts => ?_, fun t => ?_⟩
    · simp only [positions_append, h.exact ts, exactWith, reduceCtorEq, false_and, decide_false]
      simp
    · simp only [HashMap.getD_pushAll _ _ hnd, positions_append, h.broad t, broadWith,
        true_and, List.contains_iff_mem, decide_eq_true_eq]

/-! ### The representation -/

variable [Unicode]

/-- How a keyword of the campaign at `campaignPos` is stored: not at all when
its text has no tokens. -/
def indexedKeyword (v : Vocab) (campaignPos : ℕ) (campaign : Campaign) (keyword : Keyword) :
    Option IndexedKeyword :=
  if v.ids (tokenize keyword.text) = [] then none
  else some
    { campaignPos, campaignId := campaign.id, id := keyword.id, matchType := keyword.matchType,
      bid := keyword.maxCptBid, tokens := v.ids (tokenize keyword.text) }

/-- How a negative is stored: not at all when its text has no tokens. -/
def indexedNegative (v : Vocab) (negative : NegativeKeyword) : Option IndexedNegative :=
  if v.ids (tokenize negative.text) = [] then none
  else some ⟨negative.matchType, v.ids (tokenize negative.text)⟩

theorem indexedKeyword_mono {v w : Vocab} (h : v.Le w) (campaignPos : ℕ) (campaign : Campaign)
    {keyword : Keyword} (hk : v.Knows (tokenize keyword.text)) :
    indexedKeyword w campaignPos campaign keyword =
      indexedKeyword v campaignPos campaign keyword := by
  rw [indexedKeyword, indexedKeyword, Vocab.ids_mono h hk]

theorem indexedNegative_mono {v w : Vocab} (h : v.Le w) {negative : NegativeKeyword}
    (hk : v.Knows (tokenize negative.text)) :
    indexedNegative w negative = indexedNegative v negative := by
  rw [indexedNegative, indexedNegative, Vocab.ids_mono h hk]

/-- The stored keywords of the campaign at `campaignPos`. -/
def indexedKeywords (v : Vocab) (entry : Campaign × ℕ) : List IndexedKeyword :=
  entry.1.keywords.filterMap (indexedKeyword v entry.2 entry.1)

/-- The stored negatives of a campaign. -/
def indexedNegatives (v : Vocab) (campaign : Campaign) : List IndexedNegative :=
  campaign.negativeKeywords.filterMap (indexedNegative v)

/-- Whether a vocabulary knows every text of a campaign. -/
structure KnowsCampaign (v : Vocab) (campaign : Campaign) : Prop where
  keywords : ∀ k ∈ campaign.keywords, v.Knows (tokenize k.text)
  negatives : ∀ n ∈ campaign.negativeKeywords, v.Knows (tokenize n.text)

theorem KnowsCampaign.mono {v w : Vocab} (h : v.Le w) {campaign : Campaign}
    (hk : KnowsCampaign v campaign) : KnowsCampaign w campaign :=
  ⟨fun k hmem => (hk.keywords k hmem).mono h, fun n hmem => (hk.negatives n hmem).mono h⟩

/-- **What an index represents**: the campaigns processed so far, read in its
vocabulary. -/
structure Represents (done : List Campaign) (index : KeywordIndex) : Prop where
  numbered : index.vocab.Numbered
  filed : index.Filed
  knows : ∀ c ∈ done, KnowsCampaign index.vocab c
  keywords : index.keywords = done.zipIdx.flatMap (indexedKeywords index.vocab)
  negatives : index.negatives = done.map (indexedNegatives index.vocab)

theorem represents_default : Represents [] default :=
  ⟨Vocab.numbered_empty, filed_default, fun _ hc => absurd hc List.not_mem_nil, rfl, rfl⟩

/-! ### One campaign -/

/-- The invariant of a campaign's keyword loop, from the index `base`, once the
keywords `done` are through. -/
structure KeywordsAdded (campaignPos : ℕ) (campaign : Campaign) (base : KeywordIndex)
    (done : List Keyword) (index : KeywordIndex) : Prop where
  le : base.vocab.Le index.vocab
  numbered : index.vocab.Numbered
  filed : index.Filed
  knows : ∀ k ∈ done, index.vocab.Knows (tokenize k.text)
  keywords : index.keywords =
    base.keywords ++ done.filterMap (indexedKeyword index.vocab campaignPos campaign)
  negatives : index.negatives = base.negatives

/-- **What adding a keyword does**: it interns its text, and files it if there
are tokens. -/
theorem addKeyword_eq_ok {campaignPos : ℕ} {campaign : Campaign} {index index' : KeywordIndex}
    {keyword : Keyword} (h : addKeyword campaignPos campaign index keyword = .ok index') :
    ∃ tokens mid, index.internSet keyword.text = .ok (tokens, mid) ∧
      (tokens = [] ∧ index' = mid ∨
        tokens ≠ [] ∧ index' = insertKeyword campaignPos campaign keyword tokens mid) := by
  rw [addKeyword] at h
  rcases hi : index.internSet keyword.text with e | ⟨tokens, mid⟩
  · simp only [hi] at h
    cases h
  · simp only [hi] at h
    split_ifs at h with hnil
    · exact ⟨tokens, mid, rfl, .inl ⟨hnil, (Except.ok.inj h).symm⟩⟩
    · exact ⟨tokens, mid, rfl, .inr ⟨hnil, (Except.ok.inj h).symm⟩⟩

/-- **One keyword preserves the invariant.** -/
theorem KeywordsAdded.step {campaignPos : ℕ} {campaign : Campaign} {base : KeywordIndex}
    {done : List Keyword} {index index' : KeywordIndex} {keyword : Keyword}
    (h : KeywordsAdded campaignPos campaign base done index)
    (hstep : addKeyword campaignPos campaign index keyword = .ok index') :
    KeywordsAdded campaignPos campaign base (done ++ [keyword]) index' := by
  obtain ⟨tokens, mid, hi, hor⟩ := addKeyword_eq_ok hstep
  obtain ⟨hmid, hle, hnum, hknows, htokens⟩ := internSet_eq_ok h.numbered hi
  have hkws : mid.keywords = index.keywords := by rw [hmid]
  have hnegs : mid.negatives = base.negatives := by rw [hmid, h.negatives]
  have hfiled : mid.Filed := by
    rw [hmid]
    exact h.filed.setVocab _
  have hdone : ∀ k ∈ done ++ [keyword], mid.vocab.Knows (tokenize k.text) :=
    List.forall_mem_append.mpr ⟨fun k hk => (h.knows k hk).mono hle,
      List.forall_mem_singleton.mpr hknows⟩
  have hold : done.filterMap (indexedKeyword mid.vocab campaignPos campaign) =
      done.filterMap (indexedKeyword index.vocab campaignPos campaign) :=
    List.filterMap_congr fun k hk => indexedKeyword_mono hle _ _ (h.knows k hk)
  rcases hor with ⟨hnil, rfl⟩ | ⟨hne, rfl⟩
  · have hnone : indexedKeyword index'.vocab campaignPos campaign keyword = none :=
      if_pos (htokens ▸ hnil)
    refine ⟨h.le.trans hle, hnum, hfiled, hdone, ?_, hnegs⟩
    rw [hkws, h.keywords, List.filterMap_append, hold]
    simp [hnone]
  · have hnd : tokens.Nodup := htokens ▸ Vocab.nodup_ids _ _
    have hsome : indexedKeyword mid.vocab campaignPos campaign keyword =
        some ⟨campaignPos, campaign.id, keyword.id, keyword.matchType, keyword.maxCptBid,
          tokens⟩ := by
      rw [indexedKeyword, ← htokens, if_neg hne]
    refine ⟨?_, ?_, hfiled.insertKeyword _ _ _ hnd, ?_, ?_, ?_⟩ <;>
      simp only [insertKeyword_vocab, insertKeyword_negatives, insertKeyword_keywords]
    · exact h.le.trans hle
    · exact hnum
    · exact hdone
    · rw [hkws, h.keywords, List.filterMap_append, hold]
      simp [hsome]
    · exact hnegs

/-- **The keyword loop** adds the stored keywords of the campaign. -/
theorem keywordsAdded_foldlM {campaignPos : ℕ} {campaign : Campaign} {base index : KeywordIndex}
    (hnum : base.vocab.Numbered) (hfiled : base.Filed) {keywords : List Keyword}
    (h : keywords.foldlM (addKeyword campaignPos campaign) base = .ok index) :
    KeywordsAdded campaignPos campaign base keywords index :=
  Loop.foldlM_induction (I := KeywordsAdded campaignPos campaign base)
    (fun _ _ _ _ hi hs => hi.step hs)
    ⟨Vocab.Le.refl _, hnum, hfiled, fun _ hk => absurd hk List.not_mem_nil, by simp, rfl⟩ h

/-- The invariant of a campaign's negative loop, from the index `base`, once the
negatives `done` are through: only the vocabulary grows. -/
structure NegativesAdded (base : KeywordIndex) (done : List NegativeKeyword)
    (state : KeywordIndex × List IndexedNegative) : Prop where
  le : base.vocab.Le state.1.vocab
  numbered : state.1.vocab.Numbered
  frame : state.1 = { base with vocab := state.1.vocab }
  knows : ∀ n ∈ done, state.1.vocab.Knows (tokenize n.text)
  eq : state.2 = done.filterMap (indexedNegative state.1.vocab)

/-- **What adding a negative does**: it interns its text, and is collected if
there are tokens. -/
theorem addNegative_eq_ok {state state' : KeywordIndex × List IndexedNegative}
    {negative : NegativeKeyword} (h : addNegative state negative = .ok state') :
    ∃ tokens mid, state.1.internSet negative.text = .ok (tokens, mid) ∧
      (tokens = [] ∧ state' = (mid, state.2) ∨
        tokens ≠ [] ∧ state' = (mid, state.2 ++ [⟨negative.matchType, tokens⟩])) := by
  rw [addNegative] at h
  rcases hi : state.1.internSet negative.text with e | ⟨tokens, mid⟩
  · simp only [hi] at h
    cases h
  · simp only [hi] at h
    split_ifs at h with hnil
    · exact ⟨tokens, mid, rfl, .inl ⟨hnil, (Except.ok.inj h).symm⟩⟩
    · exact ⟨tokens, mid, rfl, .inr ⟨hnil, (Except.ok.inj h).symm⟩⟩

/-- **One negative preserves the invariant.** -/
theorem NegativesAdded.step {base : KeywordIndex} {done : List NegativeKeyword}
    {state state' : KeywordIndex × List IndexedNegative} {negative : NegativeKeyword}
    (h : NegativesAdded base done state) (hstep : addNegative state negative = .ok state') :
    NegativesAdded base (done ++ [negative]) state' := by
  obtain ⟨tokens, mid, hi, hor⟩ := addNegative_eq_ok hstep
  obtain ⟨hmid, hle, hnum, hknows, htokens⟩ := internSet_eq_ok h.numbered hi
  have hframe : mid = { base with vocab := mid.vocab } := by
    rw [hmid, h.frame]
  have hdone : ∀ n ∈ done ++ [negative], mid.vocab.Knows (tokenize n.text) :=
    List.forall_mem_append.mpr ⟨fun n hn => (h.knows n hn).mono hle,
      List.forall_mem_singleton.mpr hknows⟩
  have hold : done.filterMap (indexedNegative mid.vocab) = state.2 :=
    (List.filterMap_congr fun n hn => indexedNegative_mono hle (h.knows n hn)).trans h.eq.symm
  rcases hor with ⟨hnil, rfl⟩ | ⟨hne, rfl⟩
  · have hnone : indexedNegative mid.vocab negative = none := if_pos (htokens ▸ hnil)
    refine ⟨h.le.trans hle, hnum, hframe, hdone, ?_⟩
    rw [List.filterMap_append, hold]
    simp [hnone]
  · have hsome : indexedNegative mid.vocab negative = some ⟨negative.matchType, tokens⟩ := by
      rw [indexedNegative, ← htokens, if_neg hne]
    refine ⟨h.le.trans hle, hnum, hframe, hdone, ?_⟩
    rw [List.filterMap_append, hold]
    simp [hsome]

/-- **The negative loop** collects the stored negatives of the campaign. -/
theorem negativesAdded_foldlM {base : KeywordIndex} (hnum : base.vocab.Numbered)
    {negatives : List NegativeKeyword} {state : KeywordIndex × List IndexedNegative}
    (h : negatives.foldlM addNegative (base, []) = .ok state) :
    NegativesAdded base negatives state :=
  Loop.foldlM_induction (I := NegativesAdded base)
    (fun _ _ _ _ hi hs => hi.step hs)
    ⟨Vocab.Le.refl _, hnum, rfl, fun _ hn => absurd hn List.not_mem_nil, rfl⟩ h

/-! ### The whole build -/

/-- **What adding a campaign does**: both loops succeed, and the negatives
collected are appended. -/
theorem addCampaign_eq_ok {index index' : KeywordIndex} {campaign : Campaign} {pos : ℕ}
    (h : addCampaign index (campaign, pos) = .ok index') :
    ∃ mid last negs, campaign.keywords.foldlM (addKeyword pos campaign) index = .ok mid ∧
      campaign.negativeKeywords.foldlM addNegative (mid, []) = .ok (last, negs) ∧
      index' = { last with negatives := last.negatives ++ [negs] } := by
  rw [addCampaign] at h
  rcases hk : campaign.keywords.foldlM (addKeyword pos campaign) index with e | mid
  · simp only [hk] at h
    cases h
  rcases hn : campaign.negativeKeywords.foldlM addNegative (mid, []) with e | ⟨last, negs⟩
  · simp only [hk, hn] at h
    cases h
  simp only [hk, hn] at h
  exact ⟨mid, last, negs, rfl, hn, (Except.ok.inj h).symm⟩

section Grown

variable {done : List Campaign} {v w : Vocab} (hle : v.Le w)
  (hknows : ∀ c ∈ done, KnowsCampaign v c)

include hle hknows

/-- What is stored of known campaigns stays when the vocabulary grows. -/
theorem flatMap_indexedKeywords_mono :
    done.zipIdx.flatMap (indexedKeywords w) = done.zipIdx.flatMap (indexedKeywords v) := by
  rw [List.flatMap_def, List.flatMap_def]
  refine congrArg List.flatten (List.map_congr_left fun e he => ?_)
  have hmem : e.1 ∈ done := List.fst_mem_of_mem_zipIdx he
  exact List.filterMap_congr fun k hk =>
    indexedKeyword_mono hle _ _ ((hknows e.1 hmem).keywords k hk)

theorem map_indexedNegatives_mono :
    done.map (indexedNegatives w) = done.map (indexedNegatives v) :=
  List.map_congr_left fun c hc => List.filterMap_congr fun n hn =>
    indexedNegative_mono hle ((hknows c hc).negatives n hn)

end Grown

/-- **One campaign preserves the representation.** -/
theorem Represents.step {done : List Campaign} {index index' : KeywordIndex} {campaign : Campaign}
    (h : Represents done index) (hstep : addCampaign index (campaign, done.length) = .ok index') :
    Represents (done ++ [campaign]) index' := by
  obtain ⟨mid, last, negs, hk, hn, rfl⟩ := addCampaign_eq_ok hstep
  have hkeys := keywordsAdded_foldlM h.numbered h.filed hk
  have hnegs := negativesAdded_foldlM hkeys.numbered hn
  have hframe : last = { mid with vocab := last.vocab } := hnegs.frame
  have hkws : last.keywords = mid.keywords := by rw [hframe]
  have hmid : last.negatives = mid.negatives := by rw [hframe]
  have hle : index.vocab.Le last.vocab := hkeys.le.trans hnegs.le
  have hfiled : last.Filed := by
    rw [hframe]
    exact hkeys.filed.setVocab _
  refine ⟨hnegs.numbered, ⟨hfiled.exact, hfiled.broad⟩, ?_, ?_, ?_⟩
  · exact List.forall_mem_append.mpr ⟨fun c hc => (h.knows c hc).mono hle,
      List.forall_mem_singleton.mpr
        ⟨fun k hmem => (hkeys.knows k hmem).mono hnegs.le, hnegs.knows⟩⟩
  · have hnew : campaign.keywords.filterMap (indexedKeyword last.vocab done.length campaign) =
        campaign.keywords.filterMap (indexedKeyword mid.vocab done.length campaign) :=
      List.filterMap_congr fun k hk => indexedKeyword_mono hnegs.le _ _ (hkeys.knows k hk)
    rw [List.zipIdx_append, List.flatMap_append, flatMap_indexedKeywords_mono hle h.knows]
    simp only [hkws, hkeys.keywords, h.keywords, List.zipIdx_cons, List.zipIdx_nil,
      List.flatMap_cons, List.flatMap_nil, List.append_nil, indexedKeywords, Nat.zero_add, hnew]
  · rw [List.map_append, map_indexedNegatives_mono hle h.knows, ← h.negatives, ← hkeys.negatives,
      ← hmid]
    exact congrArg (last.negatives ++ [·]) hnegs.eq

/-- **The build represents its campaigns.** -/
theorem represents_build {campaigns : List Campaign} {index : KeywordIndex}
    (h : build campaigns = .ok index) : Represents campaigns index :=
  Loop.foldlM_zipIdx_induction (I := Represents) (fun _ _ _ _ hi hs => hi.step hs)
    represents_default h

end KeywordIndex

end AdMatch
