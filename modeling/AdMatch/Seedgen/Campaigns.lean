import AdMatch.Seedgen.Words
import AdMatch.Engine.Building

/-!
# Generated campaigns are servable

What every finished run of the generator leaves in the seed file, whatever was drawn.
The loops are followed from the inside: a keyword is a phrase of distinct vocabulary
words (`AdMatch.Seedgen.ensures_randomPhrase`), a negative keyword is a word that none of
the keywords has (`AdMatch.Seedgen.ensures_randomCampaign`), and identifiers are
consecutive whichever campaigns are rejected, since only an accepted one moves the
counters on (`AdMatch.Seedgen.ensures_generateCampaign`). So the file can be served
(`AdMatch.Seedgen.generate_servable`).
-/

namespace AdMatch

namespace Seedgen

open Draw

/-! ### Consecutive numbers -/

/-- So many numbers, counted from the first. -/
def numbersFrom (first : ℤ) (n : ℕ) : List ℤ := (List.range n).map fun i : ℕ => first + i

theorem numbersFrom_add (first : ℤ) (m n : ℕ) :
    numbersFrom first (m + n) = numbersFrom first m ++ numbersFrom (first + m) n := by
  rw [numbersFrom, List.range_add, List.map_append, List.map_map, numbersFrom, numbersFrom]
  refine congrArg _ (List.map_congr_left fun i _ => ?_)
  rw [Function.comp_apply, Nat.cast_add, add_assoc]

theorem numbersFrom_succ (first : ℤ) (n : ℕ) :
    numbersFrom first (n + 1) = numbersFrom first n ++ [first + n] := by
  rw [numbersFrom, List.range_succ, List.map_append, List.map_singleton, numbersFrom]

theorem nodup_numbersFrom (first : ℤ) (n : ℕ) : (numbersFrom first n).Nodup := by
  refine List.nodup_range.map fun i j h => ?_
  exact Nat.cast_injective (add_left_cancel h)

/-! ### Picks -/

/-- A roll below the total weight falls in the share of an item. -/
theorem exists_pickAt {α : Type} {items : List (α × ℕ)} {roll : ℕ}
    (h : roll < (items.map Prod.snd).sum) :
    ∃ item ∈ items.map Prod.fst, pickAt items roll = some item := by
  induction items generalizing roll with
  | nil => exact absurd h (Nat.not_lt_zero _)
  | cons e items ih =>
    rw [List.map_cons, List.sum_cons] at h
    rw [pickAt, List.map_cons]
    split_ifs with hroll
    · exact ⟨e.1, List.mem_cons_self, rfl⟩
    · have hrest : roll - e.2 < (items.map Prod.snd).sum := by omega
      obtain ⟨item, hitem, hpick⟩ := ih hrest
      exact ⟨item, List.mem_cons_of_mem _ hitem, hpick⟩

/-- **A weighted pick is one of the items**, and the first never has to stand in. -/
theorem ensures_pickWeighted {α : Type} (items : List (α × ℕ)) :
    Ensures (pickWeighted items) fun item => item ∈ items.map Prod.fst := by
  refine (ensures_randomRange _ _).bind fun roll hroll => ensures_ofOption fun item hitem => ?_
  obtain ⟨item', hmem, hpick⟩ := exists_pickAt hroll.2
  rw [hpick, Option.some_or] at hitem
  rwa [← Option.some.inj hitem]

theorem ensures_uniformWord : Ensures uniformWord fun word => word ∈ vocabulary :=
  ensures_bind fun _ => ensures_ofOption fun _ h => List.mem_of_getElem? h

/-! ### Loops -/

theorem draws_pickWeighted {α : Type} (items : List (α × ℕ)) : Draws (pickWeighted items) :=
  (draws_value _).bind _

/-- A set is picked by a loop that unfolds as it should. -/
theorem randomSet_unfolds {α : Type} [LinearOrder α] (items : List (α × ℕ)) (n : ℕ) :
    Unfolds (fun set : List α => set.length < n) fun set => do
      let item ← pickWeighted items
      return Sorting.sortDedup (item :: set) :=
  loopWhile_unfolds fun _ => (draws_pickWeighted items).bind _

section Phrases

variable [Floats]

theorem draws_zipfWord : Draws zipfWord :=
  (((draws_value _).bind _).bind _).bind _

/-- And so is a phrase. -/
theorem extendPhrase_unfolds (len : ℕ) :
    Unfolds (fun words : List String => words.length < len) extendPhrase :=
  loopWhile_unfolds fun _ => draws_zipfWord.bind _

/-- And so are the keywords of a campaign. -/
theorem draftKeyword_unfolds (target : ℕ) :
    Unfolds (fun draft : KeywordDraft => draft.keywords.length < target) draftKeyword :=
  loopWhile_unfolds fun _ => ((draws_pickWeighted _).bind _).bind _

/-! ### Phrases -/

theorem ensures_zipfWord : Ensures zipfWord fun word => word ∈ vocabulary :=
  ensures_bind fun _ => ensures_ofOption fun _ h => List.mem_of_getElem? h

/-- **A phrase**: one to three distinct words of the vocabulary. -/
structure Phrase (words : List String) : Prop where
  ne_nil : words ≠ []
  mem : ∀ w ∈ words, w ∈ vocabulary
  nodup : words.Nodup
  length_le : words.length ≤ 3

/-- An extended phrase has more words of the vocabulary, still distinct, and one more
at most. -/
theorem ensures_extendPhrase {words : List String} (hmem : ∀ w ∈ words, w ∈ vocabulary)
    (hnodup : words.Nodup) : Ensures (extendPhrase words) fun words' =>
      (∀ w ∈ words', w ∈ vocabulary) ∧ words'.Nodup ∧ words'.length ≤ words.length + 1 := by
  refine ensures_zipfWord.bind fun word hword => ensures_pure ?_
  split_ifs with hold
  · exact ⟨hmem, hnodup, Nat.le_succ _⟩
  · refine ⟨List.forall_mem_append.mpr ⟨hmem, List.forall_mem_singleton.mpr hword⟩, ?_,
      (List.length_append).le⟩
    rw [← List.concat_eq_append]
    exact hnodup.concat hold

/-- **The words of a keyword make up a phrase.** -/
theorem ensures_randomPhrase : Ensures randomPhrase Phrase := by
  refine (ensures_pickWeighted _).bind fun len hlen => ?_
  have hrange : 1 ≤ len ∧ len ≤ 3 := by
    have hcases : len = 1 ∨ len = 2 ∨ len = 3 := by simpa using hlen
    omega
  refine Ensures.mono (ensures_loopWhile
    (I := fun words => (∀ w ∈ words, w ∈ vocabulary) ∧ words.Nodup ∧ words.length ≤ len)
    (fun words hI hmore => ?_) ⟨by simp, List.nodup_nil, Nat.zero_le _⟩) fun words hwords => ?_
  · exact (ensures_extendPhrase hI.1 hI.2.1).mono fun words' hwords' =>
      ⟨hwords'.1, hwords'.2.1, hwords'.2.2.trans (of_decide_eq_true hmore)⟩
  have hlength : len ≤ words.length := not_lt.mp (of_decide_eq_false hwords.2)
  refine ⟨?_, hwords.1.1, hwords.1.2.1, hwords.1.2.2.trans hrange.2⟩
  rintro rfl
  exact absurd (hrange.1.trans hlength) (Nat.not_succ_le_zero 0)

end Phrases

/-! ### Keywords -/

/-- A phrase consists of plain words. -/
theorem Phrase.words {words : List String} (h : Phrase words) : ∀ w ∈ words, IsWord w :=
  fun w hw => vocabulary_words w (h.mem w hw)

/-- The text of a phrase splits into its words again. -/
theorem Phrase.splitBlank_join {words : List String} (h : Phrase words) :
    splitBlank (join words) = words :=
  Seedgen.splitBlank_join h.ne_nil h.words

/-- What the words of a phrase split into: themselves. -/
theorem Phrase.flatMap_splitBlank {words : List String} (h : Phrase words) :
    words.flatMap splitBlank = words := by
  have hsplit : words.flatMap splitBlank = words.flatMap fun w => [w] :=
    List.flatMap_congr fun w hw => splitBlank_word (h.words w hw)
  rw [hsplit, List.flatMap_singleton']

/-- **The keywords drawn so far**, towards a target: numbered from the first identifier,
each of them a phrase whose words have been noted. -/
structure Drafted (first : ℤ) (target : ℕ) (draft : KeywordDraft) : Prop where
  ids : draft.keywords.map (fun k => k.id.toInt) = numbersFrom first draft.keywords.length
  kid : draft.kid.toInt = first + draft.keywords.length
  phrases : ∀ k ∈ draft.keywords, Phrase (splitBlank k.text)
  noted : ∀ k ∈ draft.keywords, ∀ w ∈ splitBlank k.text, w ∈ draft.keywordWords
  length_le : draft.keywords.length ≤ target

/-- **One more keyword** takes the next identifier, if its text is new. -/
theorem ensures_draftKeyword [Floats] {first : ℤ} {target : ℕ} {draft : KeywordDraft}
    (hfirst : 0 ≤ first) (hlast : first + target ≤ Machine.maxI64)
    (h : Drafted first target draft) (hmore : draft.keywords.length < target) :
    Ensures (draftKeyword draft) (Drafted first target) := by
  refine ensures_randomPhrase.bind fun words hwords => ensures_ite (fun _ => ensures_pure h)
    fun _ => ensures_bind fun matchType => ensures_bind fun bid => ensures_pure ?_
  have hone : (1 : Int64).toInt = 1 := by decide
  have hkid := h.kid
  have hsucc : (draft.kid + 1).toInt = draft.kid.toInt + 1 := by
    rw [Machine.toInt_add_of_nonneg (by omega) (by omega) (by omega), hone]
  have hphrase : Phrase (splitBlank (join words)) := by
    rwa [hwords.splitBlank_join]
  refine ⟨?_, ?_, ?_, fun k hk w hw => ?_, ?_⟩
  · rw [List.map_append, h.ids, List.length_append, List.length_singleton, numbersFrom_succ,
      List.map_singleton, ← h.kid]
    rfl
  · rw [hsucc, hkid, List.length_append, List.length_singleton, Nat.cast_succ, add_assoc]
  · exact List.forall_mem_append.mpr ⟨h.phrases, List.forall_mem_singleton.mpr hphrase⟩
  · rw [Finset.mem_union, List.mem_toFinset, hwords.flatMap_splitBlank]
    rcases List.mem_append.mp hk with hk | hk
    · exact .inl (h.noted k hk w hw)
    · rw [List.mem_singleton.mp hk, hwords.splitBlank_join] at hw
      exact .inr hw
  · rw [List.length_append, List.length_singleton]
    exact hmore

/-- **The keywords of a campaign**: five at least, twenty at most. -/
theorem ensures_randomKeywords [Floats] {first : Int64} (hfirst : 0 ≤ first.toInt)
    (hlast : first.toInt + 20 ≤ Machine.maxI64) :
    Ensures (randomKeywords first) fun draft =>
      Drafted first.toInt 20 draft ∧ 5 ≤ draft.keywords.length := by
  refine (ensures_randomRangeInclusive 5 20).bind fun target htarget => ?_
  refine Ensures.mono (ensures_loopWhile (I := Drafted first.toInt target)
    (fun draft hdraft hmore => ?_)
    ⟨rfl, (add_zero _).symm, by simp, by simp, Nat.zero_le _⟩) fun draft hdraft => ?_
  · exact ensures_draftKeyword hfirst (by omega) hdraft (of_decide_eq_true hmore)
  have hlength : target ≤ draft.keywords.length := not_lt.mp (of_decide_eq_false hdraft.2)
  exact ⟨⟨hdraft.1.ids, hdraft.1.kid, hdraft.1.phrases, hdraft.1.noted,
    hdraft.1.length_le.trans htarget.2⟩, htarget.1.trans hlength⟩

/-! ### Negative keywords -/

/-- **The negative keywords drawn so far**: distinct words of the vocabulary, none of
them a word of a keyword. -/
structure Negatives (keywordWords : Finset String) (negatives : List NegativeKeyword) : Prop where
  mem : ∀ n ∈ negatives, n.text ∈ vocabulary
  apart : ∀ n ∈ negatives, n.text ∉ keywordWords
  distinct : (negatives.map NegativeKeyword.text).Nodup

theorem ensures_draftNegative {keywordWords : Finset String} {negatives : List NegativeKeyword}
    (h : Negatives keywordWords negatives) :
    Ensures (draftNegative keywordWords negatives) (Negatives keywordWords) := by
  refine ensures_uniformWord.bind fun word hword => ensures_ite (fun _ => ensures_pure h)
    fun hnew => ensures_bind fun matchType => ensures_pure ?_
  obtain ⟨hapart, hfresh⟩ := not_or.mp hnew
  rw [splitBlank_word (vocabulary_words word hword)] at hapart
  refine ⟨?_, ?_, ?_⟩
  · exact List.forall_mem_append.mpr ⟨h.mem, List.forall_mem_singleton.mpr hword⟩
  · refine List.forall_mem_append.mpr ⟨h.apart, List.forall_mem_singleton.mpr ?_⟩
    exact fun hw => hapart ⟨word, List.mem_singleton_self word, hw⟩
  · rw [List.map_append, List.map_singleton, ← List.concat_eq_append]
    refine h.distinct.concat fun hold => ?_
    obtain ⟨n, hn, htext⟩ := List.mem_map.mp hold
    exact hfresh ⟨n, hn, htext⟩

theorem ensures_randomNegatives (keywordWords : Finset String) :
    Ensures (randomNegatives keywordWords) (Negatives keywordWords) :=
  ensures_bind fun _ => ensures_times (I := fun _ => Negatives keywordWords)
    (fun _ _ _ h => ensures_draftNegative h) ⟨by simp, by simp, List.nodup_nil⟩

/-! ### One campaign -/

/-- **The texts of a generated campaign**: its keywords are phrases, and its negative
keywords are distinct words of the vocabulary that no keyword has. -/
structure Wording (c : Campaign) : Prop where
  phrases : ∀ k ∈ c.keywords, Phrase (splitBlank k.text)
  negatives : ∀ n ∈ c.negativeKeywords, n.text ∈ vocabulary
  apart : ∀ n ∈ c.negativeKeywords, ∀ k ∈ c.keywords, n.text ∉ splitBlank k.text
  distinct : (c.negativeKeywords.map NegativeKeyword.text).Nodup

/-- **A campaign as drawn**, with five to twenty keywords numbered from the first
identifier. -/
structure Drawn (id : CampaignId) (first : ℤ) (c : Campaign) : Prop where
  id : c.id = id
  keywordIds : c.keywords.map (fun k => k.id.toInt) = numbersFrom first c.keywords.length
  le_length : 5 ≤ c.keywords.length
  length_le : c.keywords.length ≤ 20
  wording : Wording c

theorem ensures_randomCampaign [Floats] (id : CampaignId) {first : Int64}
    (hfirst : 0 ≤ first.toInt) (hlast : first.toInt + 20 ≤ Machine.maxI64) :
    Ensures (randomCampaign id first) (Drawn id first.toInt) := by
  refine (ensures_randomKeywords hfirst hlast).bind fun draft hdraft =>
    (ensures_randomNegatives _).bind fun negatives hnegatives => ?_
  -- the rest of what is drawn has nothing to do with words or identifiers
  refine ensures_bind fun _ => ensures_bind fun _ => ensures_bind fun _ => ensures_bind fun _ =>
    ensures_bind fun _ => ensures_bind fun _ => ensures_pure ?_
  exact ⟨rfl, hdraft.1.ids, hdraft.2, hdraft.1.length_le, hdraft.1.phrases, hnegatives.mem,
    fun n hn k hk hmem => hnegatives.apart n hn (hdraft.1.noted k hk _ hmem),
    hnegatives.distinct⟩

/-! ### All campaigns -/

section Generate

variable [Unicode] [Floats]

/-- **The campaigns generated so far**, after so many draws of one: counted with the
rejected ones, numbered, and accepted with the audience size that is stored. -/
structure Kept (table : AudienceCounts) (kTargeting : Int64) (drawn : ℕ) (progress : Progress) :
    Prop where
  counted : progress.campaigns.length + progress.rejected.values.sum = drawn
  fits : (progress.campaigns.length * campaignSize : ℕ) ≤ Machine.maxI64
  ids : progress.campaigns.map (fun c => c.id.toInt) = numbersFrom 1 progress.campaigns.length
  keywordIds : (allKeywords progress.campaigns).map (fun k => k.id.toInt) =
    numbersFrom 1 (allKeywords progress.campaigns).length
  few : (allKeywords progress.campaigns).length ≤ 20 * progress.campaigns.length
  next : progress.nextKeywordId.toInt = 1 + (allKeywords progress.campaigns).length
  accepted : ∀ c ∈ progress.campaigns, validateCampaign c table kTargeting = .ok c.audienceSize
  wording : ∀ c ∈ progress.campaigns, Wording c

variable {table : AudienceCounts} {kTargeting : Int64} {drawn : ℕ} {progress : Progress}

omit [Floats] in
/-- **A rejected campaign** is counted, and nothing else changes. -/
theorem Kept.reject (h : Kept table kTargeting drawn progress) (code : String) :
    Kept table kTargeting (drawn + 1)
      { progress with rejected := progress.rejected.bump code } where
  counted := by
    rw [HashMap.sum_values_bump, ← Nat.add_assoc, h.counted]
  fits := h.fits
  ids := h.ids
  keywordIds := h.keywordIds
  few := h.few
  next := h.next
  accepted := h.accepted
  wording := h.wording

omit [Floats] in
/-- **An accepted campaign** keeps its identifiers, and the counters move on by as many. -/
theorem Kept.accept (h : Kept table kTargeting drawn progress) {campaign : Campaign}
    {id nextKeywordId : Int64} (hid : id.toInt = 1 + progress.campaigns.length)
    (hdrawn : Drawn ⟨id⟩ progress.nextKeywordId.toInt campaign) {size : Option Int64}
    (haccepted : validateCampaign campaign table kTargeting = .ok size)
    (hfits : ((progress.campaigns.length + 1) * campaignSize : ℕ) ≤ Machine.maxI64)
    (hnext : nextKeywordId.toInt = progress.nextKeywordId.toInt + campaign.keywords.length) :
    Kept table kTargeting (drawn + 1)
      ⟨progress.campaigns ++ [{ campaign with audienceSize := size }], progress.rejected,
        nextKeywordId⟩ := by
  have hall : allKeywords (progress.campaigns ++ [{ campaign with audienceSize := size }]) =
      allKeywords progress.campaigns ++ campaign.keywords := by
    rw [allKeywords, List.flatMap_append, List.flatMap_singleton, allKeywords]
  have hfew := h.few
  have hlength := hdrawn.length_le
  refine ⟨?_, ?_, ?_, ?_, ?_, ?_, ?_, ?_⟩
  · rw [List.length_append, List.length_singleton, Nat.add_right_comm, h.counted]
  · rwa [List.length_append, List.length_singleton]
  · rw [List.map_append, h.ids, List.length_append, List.length_singleton, numbersFrom_succ, ← hid,
      List.map_singleton, hdrawn.id]
    rfl
  · rw [hall, List.map_append, h.keywordIds, hdrawn.keywordIds, h.next, List.length_append,
      numbersFrom_add]
  · rw [hall, List.length_append, List.length_append, List.length_singleton]
    omega
  · rw [hall, hnext, h.next, List.length_append, Nat.cast_add, add_assoc]
  · -- the validation does not look at the audience size
    exact List.forall_mem_append.mpr ⟨h.accepted, List.forall_mem_singleton.mpr haccepted⟩
  · have hwording : Wording { campaign with audienceSize := size } :=
      ⟨hdrawn.wording.phrases, hdrawn.wording.negatives, hdrawn.wording.apart,
        hdrawn.wording.distinct⟩
    exact List.forall_mem_append.mpr ⟨h.wording, List.forall_mem_singleton.mpr hwording⟩

/-- **One more campaign** is accepted or rejected. -/
theorem ensures_generateCampaign (h : Kept table kTargeting drawn progress) :
    Ensures (generateCampaign table kTargeting progress) (Kept table kTargeting (drawn + 1)) := by
  have hfits := h.fits
  have hfew := h.few
  have hnext := h.next
  have hmax : Machine.maxI64 = 2 ^ 63 - 1 := rfl
  rw [campaignSize] at hfits
  -- the campaigns fit in a vector, so no counter gets near its end
  have hlen := Machine.toInt_getD_i64OfUsize (n := progress.campaigns.length) (by omega)
    Int64.maxValue
  have hone : (1 : Int64).toInt = 1 := by decide
  have hid : ((Machine.i64OfUsize progress.campaigns.length).getD Int64.maxValue + 1).toInt =
      1 + progress.campaigns.length := by
    rw [Machine.toInt_add_of_nonneg (by omega) (by omega) (by omega), hlen, hone, add_comm]
  refine (ensures_randomCampaign _ (by omega) (by omega)).bind fun campaign hdrawn => ?_
  have hlength := hdrawn.length_le
  have hcount := Machine.toInt_getD_i64OfUsize (n := campaign.keywords.length) (by omega) 0
  split
  · rename_i size haccepted
    refine (ensures_ofOption fun campaigns hpush => Machine.vecPush_eq_some.mp hpush).bind ?_
    rintro campaigns ⟨hfits', rfl⟩
    refine ensures_pure (h.accept hid hdrawn haccepted hfits' ?_)
    rw [Machine.toInt_add_of_nonneg (by omega) (by omega) (by omega), hcount]
  · rename_i reason hrejected
    exact ensures_pure (h.reject reason.code)

/-- **The whole generation**, as far as the campaigns go. -/
theorem ensures_generate (opts : SeedOptions) : Ensures (generate opts) fun g =>
    ∃ nextKeywordId, Kept (SeedFile.audienceTable g.file.audienceCounts) opts.kTargeting
      opts.campaigns ⟨g.file.campaigns, g.rejected, nextKeywordId⟩ := by
  have hloop := ensures_times (I := Kept (SeedFile.audienceTable audienceCells) opts.kTargeting)
    (fun drawn progress _ h => ensures_generateCampaign h) (n := opts.campaigns) (s := ⟨[], ∅, 1⟩)
    ⟨rfl, by decide, rfl, rfl, le_rfl, by decide, by simp, by simp⟩
  exact hloop.bind fun progress hkept => ensures_bind fun requests =>
    ensures_pure ⟨progress.nextKeywordId, hkept⟩

/-! ### Serving the file -/

variable [Unicode.PlainSettles]

omit [Floats] in
/-- The tokens of a keyword are its words. -/
theorem Wording.tokenize_keyword {c : Campaign} (h : Wording c) {k : Keyword}
    (hk : k ∈ c.keywords) : tokenize k.text = splitBlank k.text :=
  tokenize_eq_splitBlank (h.phrases k hk).words

omit [Floats] in
theorem Wording.tokenSet_keyword {c : Campaign} (h : Wording c) {k : Keyword}
    (hk : k ∈ c.keywords) : tokenSet k.text = (splitBlank k.text).toFinset := by
  rw [tokenSet, h.tokenize_keyword hk]

omit [Floats] in
/-- A keyword is an accepted query. -/
theorem Wording.normalize_keyword {c : Campaign} (h : Wording c) {k : Keyword}
    (hk : k ∈ c.keywords) : normalize k.text = .ok (splitBlank k.text) := by
  have hphrase := h.phrases k hk
  have hlength := hphrase.length_le
  rw [← normalize_join hphrase.words hphrase.ne_nil (by omega), join_splitBlank]

omit [Floats] in
theorem Wording.tokenSet_negative {c : Campaign} (h : Wording c) {n : NegativeKeyword}
    (hn : n ∈ c.negativeKeywords) : tokenSet n.text = {n.text} :=
  tokenSet_word (vocabulary_words _ (h.negatives n hn))

omit [Floats] in
/-- **All tokens of generated campaigns are words of the vocabulary.** -/
theorem mem_vocabulary_of_mem_corpusTokens {campaigns : List Campaign}
    (h : ∀ c ∈ campaigns, Wording c) {t : String}
    (ht : t ∈ KeywordIndex.corpusTokens campaigns) : t ∈ vocabulary := by
  obtain ⟨c, hc, ht⟩ := List.mem_flatMap.mp ht
  rcases List.mem_append.mp ht with ht | ht
  · obtain ⟨k, hk, ht⟩ := List.mem_flatMap.mp ht
    rw [(h c hc).tokenize_keyword hk] at ht
    exact ((h c hc).phrases k hk).mem t ht
  · obtain ⟨n, hn, ht⟩ := List.mem_flatMap.mp ht
    have hword := (h c hc).negatives n hn
    rw [tokenize_word (vocabulary_words _ hword)] at ht
    rwa [List.mem_singleton.mp ht]

omit [Floats] in
/-- **No negative keyword of a generated campaign matches one of its keywords.** -/
theorem Wording.not_blocked {c : Campaign} (h : Wording c) {k : Keyword} (hk : k ∈ c.keywords) :
    ¬Blocked (splitBlank k.text).toFinset c := by
  rintro ⟨n, hn, hmatch⟩
  rw [h.tokenSet_negative hn] at hmatch
  have hmem := Finset.singleton_subset_iff.mp hmatch.subset
  exact h.apart n hn k hk (List.mem_toFinset.mp hmem)

/-- **A seed file that can be served.** -/
structure Servable (opts : SeedOptions) (g : Generated) : Prop where
  /-- The identifiers of the campaigns are `1` to `n`, in order. -/
  ids : g.file.campaigns.map (fun c => c.id.toInt) = numbersFrom 1 g.file.campaigns.length
  /-- And so are those of the keywords, across all campaigns. -/
  keywordIds : (allKeywords g.file.campaigns).map (fun k => k.id.toInt) =
    numbersFrom 1 (allKeywords g.file.campaigns).length
  /-- A snapshot of the campaigns can be built. -/
  builds : ∀ cfg, ∃ snap, Snapshot.build g.file.campaigns cfg = .ok snap
  /-- Each campaign is valid for the audience table of the file, with the audience size
  that is stored. -/
  validates : ∀ c ∈ g.file.campaigns,
    validateCampaign c (SeedFile.audienceTable g.file.audienceCounts) opts.kTargeting =
      .ok c.audienceSize
  /-- A keyword as a query is not blocked for its own campaign. -/
  unblocked : ∀ cfg snap, Snapshot.build g.file.campaigns cfg = .ok snap →
    ∀ pos c, g.file.campaigns[pos]? = some c → ∀ k ∈ c.keywords,
      ∃ tokens, normalize k.text = .ok tokens ∧
        snap.index.negativeMatches pos (snap.index.prepare tokens) = false
  /-- Every campaign that was drawn is accepted or rejected. -/
  counted : g.file.campaigns.length + g.rejected.values.sum = opts.campaigns

omit [Floats] in
/-- **Campaigns with numbered identifiers and vocabulary words make a snapshot.** -/
theorem exists_build {campaigns : List Campaign} {n m : ℕ}
    (hids : campaigns.map (fun c => c.id.toInt) = numbersFrom 1 n)
    (hkeywordIds : (allKeywords campaigns).map (fun k => k.id.toInt) = numbersFrom 1 m)
    (hwording : ∀ c ∈ campaigns, Wording c) (cfg : EngineConfig) :
    ∃ snap, Snapshot.build campaigns cfg = .ok snap := by
  rw [Snapshot.build_isOk, KeywordIndex.build_isOk]
  refine ⟨⟨?_, ?_⟩, ?_⟩
  · refine List.Nodup.of_map CampaignId.toInt ?_
    rw [List.map_map]
    exact hids ▸ nodup_numbersFrom 1 n
  · refine List.Nodup.of_map KeywordId.toInt ?_
    rw [List.map_map]
    exact hkeywordIds ▸ nodup_numbersFrom 1 m
  · have hsub : (KeywordIndex.corpusTokens campaigns).dropLast.toFinset ⊆ vocabulary.toFinset := by
      intro t ht
      exact List.mem_toFinset.mpr (mem_vocabulary_of_mem_corpusTokens hwording
        (List.dropLast_subset _ (List.mem_toFinset.mp ht)))
    calc (KeywordIndex.corpusTokens campaigns).dropLast.toFinset.card
        ≤ vocabulary.toFinset.card := Finset.card_le_card hsub
      _ ≤ vocabulary.length := List.toFinset_card_le _
      _ < 2 ^ 32 := by decide +kernel

/-- **What the generator leaves is servable**, for all options and whatever is drawn. -/
theorem generate_servable (opts : SeedOptions) {draws rest : List ℕ} {g : Generated}
    (h : (generate opts).run draws = some (g, rest)) : Servable opts g := by
  obtain ⟨nextKeywordId, hkept⟩ := ensures_generate opts draws g rest h
  refine ⟨hkept.ids, hkept.keywordIds, exists_build hkept.ids hkept.keywordIds hkept.wording,
    hkept.accepted, ?_, hkept.counted⟩
  intro cfg snap hsnap pos c hc k hk
  have hwording := hkept.wording c (List.mem_of_getElem? hc)
  refine ⟨_, hwording.normalize_keyword hk, Bool.eq_false_iff.mpr fun hneg => ?_⟩
  obtain ⟨c', hc', hblocked⟩ := (KeywordIndex.negativeMatches_iff snap.represents pos).mp hneg
  rw [(Snapshot.build_eq_ok hsnap).1, hc] at hc'
  rw [← Option.some.inj hc'] at hblocked
  exact hwording.not_blocked hk hblocked

end Generate

/-! ### A sample -/

section Sample

attribute [local instance] Unicode.asciiGreek

/-- The greatest number up to a bound whose `q`-th power is at most `n ^ p`. -/
def rootBelow (n p q : ℕ) : ℕ → ℕ
  | 0 => 0
  | x + 1 => if (x + 1) ^ q ≤ n ^ p then x + 1 else rootBelow n p q x

/-- Rational numbers for doubles. Powers are rounded down, as they are wherever they are
used, and the functions of a bid have their values at the arguments that a bid has when
both of its draws are zero. -/
@[reducible] def rationalFloats : Floats where
  F64 := ℚ
  ofRat q := q
  pi := 22 / 7
  sub a b := a - b
  mul a b := a * b
  div a b := a / b
  powf a b := rootBelow a.num.toNat b.num.toNat b.den a.num.toNat
  ln _ := 0
  sqrt _ := 0
  cos _ := 1
  exp _ := 1
  round a := ⌊a + 1 / 2⌋
  clamp a lo hi := max lo (min hi a)
  toUsize a := ⌊a⌋.toNat
  toI64 a := Int64.ofInt ⌊a⌋

attribute [local instance] rationalFloats

/-- The draws of an Exact keyword of one word, by the exponent of its index, in 32nds. -/
def sampleKeyword (p : ℕ) : List ℕ := [0, p * 2 ^ 48, 99, 0, 0]

/-- The draws of a campaign with five keywords of one word and a negative keyword, up to
its targeting. -/
def sampleTexts : List ℕ :=
  [5] ++ [0, 4, 7, 8, 9].flatMap sampleKeyword ++ [1, 5, 99] ++ [1, 0]

/-- Two campaigns are drawn: one for too few people, and one without age targeting. -/
def sampleDraws : List ℕ :=
  sampleTexts ++ [0, 0, 0, 1, 0, 0, 1, 10] ++ sampleTexts ++ [50, 0, 0, 1, 10]

def sampleOptions : SeedOptions := ⟨7, 2, 0, 5000⟩

/-- The campaign that is left. -/
def sampleSeeded : Campaign where
  id := ⟨1⟩
  status := .active
  dailyBudget := ⟨10000000⟩
  countries := [.IN]
  ageBuckets := none
  audienceSize := none
  keywords := [⟨⟨1⟩, "photo", .exact, ⟨1000000⟩⟩, ⟨⟨2⟩, "editor", .exact, ⟨1000000⟩⟩,
    ⟨⟨3⟩, "free", .exact, ⟨1000000⟩⟩, ⟨⟨4⟩, "game", .exact, ⟨1000000⟩⟩,
    ⟨⟨5⟩, "music", .exact, ⟨1000000⟩⟩]
  negativeKeywords := [⟨"video", .exact⟩]

theorem run_sampleDraws : ((generate sampleOptions).run sampleDraws).map
    (fun r => (r.1.file.campaigns, r.1.rejected.values, r.2)) = some ([sampleSeeded], [1], []) := by
  decide +kernel

theorem generate_servable_sample : ∃ g, (generate sampleOptions).run sampleDraws = some (g, []) ∧
    g.file.campaigns = [sampleSeeded] ∧ Servable sampleOptions g := by
  obtain ⟨⟨g, rest⟩, hrun, hg⟩ := Option.map_eq_some_iff.mp run_sampleDraws
  obtain ⟨hcampaigns, hmore⟩ := Prod.mk.inj hg
  obtain rfl : rest = [] := (Prod.mk.inj hmore).2
  exact ⟨g, hrun, hcampaigns, generate_servable sampleOptions hrun⟩

end Sample

end Seedgen

end AdMatch
