import AdMatch.Engine.Charging
import AdMatch.Tokens

/-!
# The wording of a query and of a keyword

What of a wording matters to the engine. Of a query it is the set of tokens: two
accepted queries with the same one get the same matches and the same auction
(`AdMatch.Snapshot.run_congr_query`). Of a keyword or a negative it is the list of
tokens, and joined by blanks they can stand for the text
(`AdMatch.Snapshot.matchesFor_joined`).

And the tokens are determined by the words of the text, separators aside, but for
one character and one rule: the dotted capital I lowercases to a letter and a
separator, and a capital sigma is lowercased by what surrounds it
(`AdMatch.Snapshot.words_determine_tokens`). Both are instances of the order of the
passes – lowercase first, then separate (`AdMatch.not_words_determine_tokens`).
-/

namespace AdMatch

/-! ### The wording of a query -/

section Query

variable [Unicode] {Day : Type} [DecidableEq Day]

namespace Snapshot

/-- **Only the set of distinct tokens of a query matters.** Requests that differ
only in their queries, both accepted and with the same tokens in any order and with
any repetitions, get the same matches, the same outcome and the same budgets. -/
theorem run_congr_query (order order' : HashOrder) (snap : Snapshot) (req : AuctionRequest)
    (query : String) {tokens tokens' : List String} (h : normalize req.query = .ok tokens)
    (h' : normalize query = .ok tokens') (hset : ∀ t, t ∈ tokens ↔ t ∈ tokens')
    (budgets : BudgetStore Day) (day : Day) :
    snap.matchesFor order req.query = snap.matchesFor order' query ∧
      snap.run order req budgets day = snap.run order' { req with query } budgets day := by
  have htokens : tokens.toFinset = tokens'.toFinset := by
    ext t
    rw [List.mem_toFinset, List.mem_toFinset, hset]
  constructor
  · rw [matchesFor, matchesFor, h, h']
    -- both the matches and the negative check are those of the token set
    have hneg : ∀ pos, snap.index.negativeMatches pos (snap.index.prepare tokens) =
        snap.index.negativeMatches pos (snap.index.prepare tokens') := by
      intro pos
      rw [Bool.eq_iff_iff, KeywordIndex.negativeMatches_iff snap.represents,
        KeywordIndex.negativeMatches_iff snap.represents, htokens]
    simp only [bestMatches_eq, hneg, htokens]
  · have hfield : fieldOf snap.cfg { req with query } tokens'.toFinset snap.campaigns =
        fieldOf snap.cfg req tokens.toFinset snap.campaigns := by
      rw [← htokens]
      rfl
    rw [run_eq, run_eq, h, h']
    dsimp only
    rw [hfield]

end Snapshot

end Query

section Sample

attribute [local instance] Unicode.asciiGreek

theorem run_congr_query_sample :
    sampleSnapshot.matchesFor storageOrder "photo editor" =
        sampleSnapshot.matchesFor storageOrder "Editor: photo, photo!" ∧
      sampleSnapshot.run storageOrder ⟨"photo editor", .IN, true, some .age18To24, true⟩
          BudgetStore.inMemory 0 =
        sampleSnapshot.run storageOrder
          ⟨"Editor: photo, photo!", .IN, true, some .age18To24, true⟩ BudgetStore.inMemory 0 := by
  have h : normalize "photo editor" = .ok ["photo", "editor"] := by decide
  have h' : normalize "Editor: photo, photo!" = .ok ["editor", "photo", "photo"] := by decide
  have hset : ∀ t, t ∈ ["photo", "editor"] ↔ t ∈ ["editor", "photo", "photo"] := by
    intro t
    simp only [List.mem_cons, List.not_mem_nil, or_false, or_self]
    exact or_comm
  exact sampleSnapshot.run_congr_query storageOrder storageOrder
    ⟨"photo editor", .IN, true, some .age18To24, true⟩ _ h h' hset BudgetStore.inMemory 0

end Sample

/-! ### The wording of a keyword -/

section Keyword

variable [Unicode]

/-- The tokens of a text, joined by blanks. -/
def joinTokens (text : String) : String := " ".intercalate (tokenize text)

/-- A campaign with the texts of its keywords and negatives replaced by their
joined tokens. -/
def Campaign.joined (c : Campaign) : Campaign :=
  { c with
    keywords := c.keywords.map fun k => { k with text := joinTokens k.text }
    negativeKeywords := c.negativeKeywords.map fun n => { n with text := joinTokens n.text } }

theorem checkIds_joined (campaigns : List Campaign) :
    checkIds (campaigns.map Campaign.joined) = checkIds campaigns := by
  rw [checkIds, checkIds, List.foldlM_map]
  refine congrArg (fun f => campaigns.foldlM f _) ?_
  funext seen c
  rw [checkCampaign, checkCampaign, Campaign.joined, List.foldlM_map]

namespace KeywordIndex

/-- Matching, as far as it depends on the index. -/
def matchesFor (order : HashOrder) (query : String) (index : KeywordIndex) :
    Except QueryError (List KeywordMatch) :=
  match normalize query with
  | .error e => .error e
  | .ok tokens => .ok ((index.bestMatches order (index.prepare tokens)).filter fun m =>
      !index.negativeMatches m.campaignPos (index.prepare tokens))

variable [Unicode.LowerSettles]

theorem internSet_joinTokens (index : KeywordIndex) (text : String) :
    index.internSet (joinTokens text) = index.internSet text := by
  rw [internSet, internSet, joinTokens, tokenize_join_tokenize]

theorem addCampaign_joined (index : KeywordIndex) (c : Campaign) (pos : ℕ) :
    addCampaign index (c.joined, pos) = addCampaign index (c, pos) := by
  have hkeyword : ∀ (index : KeywordIndex) (k : Keyword),
      addKeyword pos c.joined index { k with text := joinTokens k.text } =
        addKeyword pos c index k := by
    intro index k
    rw [addKeyword, addKeyword, internSet_joinTokens]
    rfl
  have hnegative : ∀ (state : KeywordIndex × List IndexedNegative) (n : NegativeKeyword),
      addNegative state { n with text := joinTokens n.text } = addNegative state n := by
    intro state n
    rw [addNegative, addNegative, internSet_joinTokens]
  rw [addCampaign, addCampaign]
  simp only [Campaign.joined, List.foldlM_map, hnegative]
  simp only [Campaign.joined] at hkeyword
  simp only [hkeyword]

/-- **The index does not change** when texts are replaced by their joined
tokens. -/
theorem build_joined (campaigns : List Campaign) :
    build (campaigns.map Campaign.joined) = build campaigns := by
  rw [build, build, List.zipIdx_map, List.foldlM_map]
  refine congrArg (fun f => campaigns.zipIdx.foldlM f default) ?_
  funext index entry
  exact addCampaign_joined index entry.1 entry.2

end KeywordIndex

namespace Snapshot

/-- **Tokenising is a projection, and the index sees nothing else.** The tokens of
the joined tokens of a text are its tokens; every token is alphanumeric throughout
and not empty; and replacing every text of a list of campaigns by its joined tokens
changes neither whether the snapshot can be built, nor the error, nor what any query
matches. -/
theorem matchesFor_joined [Unicode.LowerSettles] :
    (∀ text, tokenize (joinTokens text) = tokenize text) ∧
    (∀ text, ∀ token ∈ tokenize text,
      token ≠ "" ∧ ∀ c ∈ token.toList, Unicode.isAlphanumeric c = true) ∧
    ∀ (campaigns : List Campaign) (cfg : EngineConfig) (order : HashOrder) (query : String),
      (build (campaigns.map Campaign.joined) cfg).map (fun snap => snap.matchesFor order query) =
        (build campaigns cfg).map fun snap => snap.matchesFor order query := by
  refine ⟨tokenize_join_tokenize, fun text token h => mem_tokenize h, ?_⟩
  intro campaigns cfg order query
  have hread := map_index_build fun index => index.matchesFor order query
  refine (hread _ cfg).trans (Eq.trans ?_ (hread campaigns cfg).symm)
  rw [checkIds_joined, KeywordIndex.build_joined]

end Snapshot

end Keyword

section Sample

attribute [local instance] Unicode.asciiGreek

theorem matchesFor_joined_sample :
    tokenize (joinTokens "Photo-Editor!") = ["photo", "editor"] ∧
      (Snapshot.build (sampleCampaigns.map Campaign.joined) .default).map
          (fun snap => snap.matchesFor storageOrder "photo") =
        (Snapshot.build sampleCampaigns .default).map
          fun snap => snap.matchesFor storageOrder "photo" := by
  obtain ⟨hproject, -, hmatches⟩ := Snapshot.matchesFor_joined
  refine ⟨(hproject "Photo-Editor!").trans ?_, hmatches sampleCampaigns .default storageOrder _⟩
  decide

end Sample

/-! ### Words and tokens -/

namespace Snapshot

variable [Unicode] [Unicode.LowerSeparates]

/-- **What the words of a text determine.** A text whose letters and digits all
lowercase to letters and digits has one token for each of its words, the word
lowercased. Texts of the same words have the same tokens exactly when corresponding
capital sigmas are final in both or in neither – so always, when there are none. And
a keyword and a query of the same words, their capital sigmas being so, match each
other. -/
theorem words_determine_tokens :
    (∀ text : String, (∀ c ∈ text.toList, Unicode.isAlphanumeric c = true → c ≠ 'Σ' →
        Unicode.toLower c ≠ [] ∧ ∀ d ∈ Unicode.toLower c, Unicode.isAlphanumeric d = true) →
      tokenize text = (markedWords text).map (fun w => String.ofList (w.flatMap lowerMarked)) ∧
        (tokenize text).length = (words text).length) ∧
    (∀ text text' : String, words text = words text' →
      (tokenize text = tokenize text' ↔ markedWords text = markedWords text') ∧
        ((∀ w ∈ words text, 'Σ' ∉ w) → tokenize text = tokenize text')) ∧
    ∀ (snap : Snapshot) (order : HashOrder), ∀ c ∈ snap.campaigns, ∀ k ∈ c.keywords,
      ∀ (query : String) (tokens : List String), markedWords k.text = markedWords query →
        normalize query = .ok tokens →
        Matches k.matchType (tokenSet k.text) tokens.toFinset ∧
          ∃ m ∈ snap.index.bestMatches order (snap.index.prepare tokens), m.campaignId = c.id := by
  refine ⟨fun text h => ?_, fun text text' h => ?_, ?_⟩
  · have htokens := tokenize_eq_markedWords h
    refine ⟨htokens, ?_⟩
    rw [htokens, ← map_markedWords, List.length_map, List.length_map]
  · exact ⟨tokenize_eq_iff_markedWords h, fun hsigma =>
      (tokenize_eq_iff_markedWords h).mpr (markedWords_eq_of_words h hsigma)⟩
  · intro snap order c hc k hk query tokens hmarked hquery
    have hwords : words k.text = words query := by
      rw [← map_markedWords, hmarked, map_markedWords]
    have hset : tokenSet k.text = tokens.toFinset := by
      rw [tokenSet, (tokenize_eq_iff_markedWords hwords).mpr hmarked, ← tokenSet,
        tokenSet_of_normalize hquery]
    have hne : (tokenSet query).Nonempty := by
      obtain ⟨rfl, hne, -⟩ := normalize_eq_ok.mp hquery
      exact tokenSet_nonempty.mpr hne
    have hmatch : Matches k.matchType (tokenSet k.text) tokens.toFinset := by
      rw [hset]
      rw [tokenSet_of_normalize hquery] at hne
      exact matches_self hne k.matchType
    obtain ⟨pos, k', -, -, -, hmem⟩ := snap.exists_mem_bestMatches order hc hk hmatch
    exact ⟨hmatch, _, hmem, rfl⟩

end Snapshot

section Sample

attribute [local instance] Unicode.asciiGreek

/-- A separator that is not case-ignorable leaves the sigma at the end of its word,
as another one does. -/
theorem words_determine_tokens_sample :
    tokenize "ΑΣ-Α" = tokenize "ΑΣ, (Α)" ∧ (tokenize "ΑΣ'Α").length = 2 := by
  obtain ⟨hone, hsame, -⟩ := Snapshot.words_determine_tokens
  refine ⟨((hsame "ΑΣ-Α" "ΑΣ, (Α)" (by decide)).1.mpr (by decide)), ?_⟩
  exact (hone "ΑΣ'Α" fun c _ h _ => Unicode.asciiGreek_alphanumeric h).2.trans (by decide)

end Sample

section Counterexample

attribute [local instance] Unicode.asciiGreekDotted

/-- A campaign whose keyword ends a word in a sigma. -/
def sampleSigma : Campaign where
  id := ⟨1⟩
  status := .active
  dailyBudget := ⟨1000000⟩
  countries := [.IN]
  ageBuckets := none
  audienceSize := none
  keywords := [⟨⟨1⟩, "ΑΣ-Α", .broad, ⟨500000⟩⟩]
  negativeKeywords := []

/-- **Words alone do not determine tokens.** A dotted capital I in the middle of a
word ends its token; and a hyphen ends the word for the final-sigma rule, where an
apostrophe does not, so a keyword and a query that differ only in that separator have
different tokens and do not match. -/
theorem not_words_determine_tokens :
    ((words "aİb").length = 1 ∧ tokenize "aİb" = ["ai", "b"]) ∧
      (words "ΑΣ-Α" = words "ΑΣ'Α" ∧ tokenize "ΑΣ-Α" = ["ας", "α"] ∧
        tokenize "ΑΣ'Α" = ["ασ", "α"]) ∧
      ∃ snap, Snapshot.build [sampleSigma] .default = .ok snap ∧
        snap.matchesFor storageOrder "ΑΣ'Α" = .ok [] := by
  refine ⟨by decide, by decide, ?_⟩
  exact ⟨(Snapshot.build [sampleSigma] .default).toOption.get (by decide), rfl, rfl⟩

end Counterexample

end AdMatch
