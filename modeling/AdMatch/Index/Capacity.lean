import AdMatch.Index.Invariant
import Mathlib.Data.List.Flatten

/-!
# When the vocabulary suffices

Building an index can only fail for lack of token numbers, and whether it does
depends on the tokens alone, in the order in which they are met
(`AdMatch.KeywordIndex.corpusTokens`): the build is a loop over them as far as its
vocabulary is concerned. A number is asked for at every occurrence, before the
token is looked up, so the build succeeds exactly when fewer than `2 ^ 32`
distinct tokens come before the last occurrence
(`AdMatch.KeywordIndex.build_isOk`). Fewer campaigns need fewer numbers
(`AdMatch.KeywordIndex.build_isOk_of_sublist`).
-/

namespace AdMatch

namespace KeywordIndex

/-! ### The vocabulary of a build -/

/-- What interning a token does to the vocabulary. -/
def internVocab (v : Vocab) (token : String) : Except VocabularyFull Vocab :=
  match Machine.u32OfUsize v.size with
  | none => .error .vocabularyFull
  | some next =>
    match v.lookup token with
    | some _ => .ok v
    | none => .ok (AList.insert token ⟨next⟩ v)

theorem internToken_map_vocab (state : Vocab × List TokenId) (token : String) :
    (internToken state token).map Prod.fst = internVocab state.1 token := by
  rw [internToken, internVocab]
  cases Machine.u32OfUsize state.1.size with
  | none => rfl
  | some next => cases state.1.lookup token <;> rfl

section Corpus

variable [Unicode]

theorem internSet_map_vocab (index : KeywordIndex) (text : String) :
    (index.internSet text).map (fun r => r.2.vocab) =
      (tokenize text).foldlM internVocab index.vocab := by
  have hloop : ((tokenize text).foldlM internToken (index.vocab, [])).map Prod.fst =
      ((tokenize text).flatMap fun t => [t]).foldlM internVocab index.vocab :=
    Loop.map_foldlM (fun s t => by
      rw [internToken_map_vocab, List.foldlM_cons]
      cases internVocab s.1 t <;> rfl) _ _
  rw [List.flatMap_singleton'] at hloop
  rw [← hloop, internSet]
  cases (tokenize text).foldlM internToken (index.vocab, []) <;> rfl

theorem addKeyword_map_vocab (campaignPos : ℕ) (campaign : Campaign) (index : KeywordIndex)
    (keyword : Keyword) : (addKeyword campaignPos campaign index keyword).map vocab =
      (tokenize keyword.text).foldlM internVocab index.vocab := by
  rw [← internSet_map_vocab, addKeyword]
  cases index.internSet keyword.text with
  | error e => rfl
  | ok r =>
    by_cases hnil : r.1 = []
    · simp only [hnil, if_true]
      rfl
    · simp only [hnil, if_false]
      exact congrArg Except.ok (insertKeyword_vocab _ _ _ _ _)

theorem addNegative_map_vocab (state : KeywordIndex × List IndexedNegative)
    (negative : NegativeKeyword) : (addNegative state negative).map (fun s => s.1.vocab) =
      (tokenize negative.text).foldlM internVocab state.1.vocab := by
  rw [← internSet_map_vocab, addNegative]
  cases state.1.internSet negative.text with
  | error e => rfl
  | ok r => by_cases hnil : r.1 = [] <;> simp only [hnil, if_true, if_false] <;> rfl

/-- The tokens of a campaign, in the order in which they are interned. -/
def campaignTokens (campaign : Campaign) : List String :=
  (campaign.keywords.flatMap fun k => tokenize k.text) ++
    campaign.negativeKeywords.flatMap fun n => tokenize n.text

/-- The tokens of a list of campaigns. -/
def corpusTokens (campaigns : List Campaign) : List String := campaigns.flatMap campaignTokens

theorem addCampaign_map_vocab (index : KeywordIndex) (entry : Campaign × ℕ) :
    (addCampaign index entry).map vocab =
      (campaignTokens entry.1).foldlM internVocab index.vocab := by
  have hkeywords := Loop.map_foldlM (addKeyword_map_vocab entry.2 entry.1) entry.1.keywords index
  rw [campaignTokens, List.foldlM_append, ← hkeywords, addCampaign]
  cases entry.1.keywords.foldlM (addKeyword entry.2 entry.1) index with
  | error e => rfl
  | ok mid =>
    have hnegatives := Loop.map_foldlM addNegative_map_vocab entry.1.negativeKeywords (mid, [])
    change _ = (entry.1.negativeKeywords.flatMap fun n => tokenize n.text).foldlM internVocab
      mid.vocab
    rw [← hnegatives]
    cases hnegs : entry.1.negativeKeywords.foldlM addNegative (mid, []) <;> simp only [hnegs] <;>
      rfl

/-- **As far as its vocabulary goes, a build is a loop over the tokens.** -/
theorem build_map_vocab (campaigns : List Campaign) :
    (build campaigns).map vocab = (corpusTokens campaigns).foldlM internVocab ∅ := by
  have hloop := Loop.map_foldlM addCampaign_map_vocab campaigns.zipIdx default
  have htokens : (campaigns.zipIdx.flatMap fun e => campaignTokens e.1) =
      corpusTokens campaigns := by
    rw [corpusTokens, ← List.flatMap_map Prod.fst, List.zipIdx_map_fst]
  rw [build, hloop, htokens]
  rfl

end Corpus

/-! ### Counting the numbers -/

/-- The tokens that have numbers. -/
def known (v : Vocab) : Finset String := v.keys.toFinset

theorem mem_known {v : Vocab} {token : String} : token ∈ known v ↔ token ∈ v :=
  List.mem_toFinset.trans AList.mem_keys.symm

theorem size_eq_card (v : Vocab) : v.size = (known v).card := by
  rw [known, List.toFinset_card_of_nodup v.keys_nodup, HashMap.size, AList.keys, List.keys,
    List.length_map]

/-- **Interning one token** takes a free number, and makes the token known. -/
theorem internVocab_isOk (v : Vocab) (token : String) :
    (∃ w, internVocab v token = .ok w) ↔ (known v).card < 2 ^ 32 := by
  rw [internVocab, Machine.u32OfUsize, size_eq_card]
  by_cases hlt : (known v).card < 2 ^ 32
  · simp only [hlt, if_true, iff_true]
    cases v.lookup token <;> exact ⟨_, rfl⟩
  · simp only [hlt, if_false, iff_false]
    rintro ⟨w, h⟩
    cases h

theorem known_internVocab {v w : Vocab} {token : String} (h : internVocab v token = .ok w) :
    known w = insert token (known v) := by
  rw [internVocab] at h
  cases hnext : Machine.u32OfUsize v.size with
  | none =>
    rw [hnext] at h
    cases h
  | some next =>
    rw [hnext] at h
    cases hold : v.lookup token with
    | some i =>
      have hmem : token ∈ v := AList.lookup_isSome.mp (by rw [hold]; rfl)
      simp only [hold, Except.ok.injEq] at h
      rw [← h, Finset.insert_eq_self.mpr (mem_known.mpr hmem)]
    | none =>
      simp only [hold, Except.ok.injEq] at h
      ext t
      rw [← h, Finset.mem_insert, mem_known, mem_known, AList.mem_insert]

/-- **Interning a list of tokens** succeeds when those before the last leave a
number free. -/
theorem foldlM_internVocab_isOk (tokens : List String) (v : Vocab) :
    (∃ w, tokens.foldlM internVocab v = .ok w) ↔
      tokens = [] ∨ (known v ∪ tokens.dropLast.toFinset).card < 2 ^ 32 := by
  induction tokens generalizing v with
  | nil => exact ⟨fun _ => .inl rfl, fun _ => ⟨v, rfl⟩⟩
  | cons t rest ih =>
    simp only [Loop.foldlM_cons_eq_ok, reduceCtorEq, false_or]
    constructor
    · rintro ⟨w, u, hu, hw⟩
      have hcard := (internVocab_isOk v t).mp ⟨u, hu⟩
      -- the last token of a list of one has nothing before it
      rcases (ih u).mp ⟨w, hw⟩ with rfl | hrest
      · simpa using hcard
      · rcases rest.eq_nil_or_concat with rfl | ⟨init, last, rfl⟩
        · simpa using hcard
        · rw [known_internVocab hu] at hrest
          rw [List.dropLast_cons_of_ne_nil (by simp), List.toFinset_cons, Finset.union_insert,
            ← Finset.insert_union]
          exact hrest
    · intro hcard
      have hlt : (known v).card < 2 ^ 32 :=
        (Finset.card_le_card Finset.subset_union_left).trans_lt hcard
      obtain ⟨u, hu⟩ := (internVocab_isOk v t).mpr hlt
      obtain ⟨w, hw⟩ : ∃ w, rest.foldlM internVocab u = .ok w := by
        rw [ih u, known_internVocab hu]
        rcases rest.eq_nil_or_concat with rfl | ⟨init, last, rfl⟩
        · exact .inl rfl
        · refine .inr ?_
          rwa [List.dropLast_cons_of_ne_nil (by simp), List.toFinset_cons, Finset.union_insert,
            ← Finset.insert_union] at hcard
      exact ⟨w, u, hu, hw⟩

variable [Unicode]

/-- **When the vocabulary suffices**: fewer than `2 ^ 32` distinct tokens come
before the last occurrence. -/
theorem build_isOk {campaigns : List Campaign} :
    (∃ index, build campaigns = .ok index) ↔
      (corpusTokens campaigns).dropLast.toFinset.card < 2 ^ 32 := by
  have hvocab := build_map_vocab campaigns
  have hiff : (∃ index, build campaigns = .ok index) ↔
      ∃ w, (corpusTokens campaigns).foldlM internVocab ∅ = .ok w := by
    rw [← hvocab]
    cases build campaigns with
    | error e => simp [Except.map]
    | ok index => exact ⟨fun _ => ⟨_, rfl⟩, fun _ => ⟨_, rfl⟩⟩
  have hempty : known ∅ = ∅ := rfl
  rw [hiff, foldlM_internVocab_isOk, hempty, Finset.empty_union, or_iff_right_iff_imp]
  intro hnil
  rw [hnil]
  decide

/-- **Fewer campaigns need fewer numbers.** -/
theorem build_isOk_of_sublist {campaigns campaigns' : List Campaign}
    (h : campaigns'.Sublist campaigns) (hbuild : ∃ index, build campaigns = .ok index) :
    ∃ index, build campaigns' = .ok index := by
  rw [build_isOk] at hbuild ⊢
  have htokens : (corpusTokens campaigns').Sublist (corpusTokens campaigns) :=
    h.flatMap campaignTokens
  -- dropping the last of each is dropping the first of each reversed
  have hsub : (corpusTokens campaigns').dropLast.Sublist (corpusTokens campaigns).dropLast := by
    rw [← List.reverse_sublist, ← List.tail_reverse, ← List.tail_reverse]
    exact htokens.reverse.tail
  refine (Finset.card_le_card fun t ht => ?_).trans_lt hbuild
  exact List.mem_toFinset.mpr (hsub.subset (List.mem_toFinset.mp ht))

end KeywordIndex

end AdMatch
