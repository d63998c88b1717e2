import AdMatch.Auction
import AdMatch.Lib.Best
import AdMatch.Lib.HashMap
import AdMatch.Normalize

/-!
# The inverted keyword index

Which campaigns match a query, and with which keyword. The index is built once
and then only read:

* every distinct token of a keyword or negative is interned to a number;
* `exact` maps a sorted token set to the keywords with exactly that set;
* `broad` maps a token to the posting list of the broad keywords containing it,
  and a keyword matches when it is hit once per token it has;
* negatives are stored per campaign and checked on demand.

Keywords refer to their campaign by position. Hash maps that the matching
iterates over are visited in an arbitrary order, `AdMatch.HashOrder`.
-/

namespace AdMatch

/-- A campaign's best matching keyword for one query. -/
structure KeywordMatch where
  /-- Position of the campaign in the snapshot. -/
  campaignPos : ℕ
  campaignId : CampaignId
  keywordId : KeywordId
  matchType : MatchType
  /-- That keyword's max CPT bid. -/
  bid : Micros
  /-- Relevance of that keyword for this query. -/
  relevance : RelevanceBp
  deriving DecidableEq

namespace KeywordMatch

/-- `bid × relevance`. -/
def score (m : KeywordMatch) : ℕ := AdMatch.score m.bid m.relevance

/-- The auction's view of this match. -/
def bidder (m : KeywordMatch) : Bidder := ⟨m.campaignId, m.bid, m.relevance⟩

/-- What decides between the keywords of a campaign, greatest first: score, bid,
lower keyword identifier. -/
def choiceKey (m : KeywordMatch) : ℕ ×ₗ Micros ×ₗ KeywordIdᵒᵈ :=
  toLex (m.score, toLex (m.bid, OrderDual.toDual m.keywordId))

/-- Whether `self` is preferred over `other` as the campaign's keyword. -/
def beats (self other : KeywordMatch) : Bool := self.choiceKey > other.choiceKey

end KeywordMatch

/-- A query after interning. -/
structure PreparedQuery where
  /-- Interned ids of the query tokens found in the vocabulary. -/
  known : List TokenId
  /-- The ids are sorted, so that a binary search among them is membership. -/
  sorted : known.Pairwise (· ≤ ·)
  /-- Number of distinct query tokens, known or not. -/
  distinct : ℕ

namespace PreparedQuery

/-- Whether every query token is in the vocabulary. -/
def allKnown (query : PreparedQuery) : Bool := query.known.length = query.distinct

/-- Whether every token of `set` appears in the query. -/
def containsAll (query : PreparedQuery) (set : List TokenId) : Bool :=
  set.all fun t => t ∈ query.known

end PreparedQuery

/-- One keyword as stored in the index. -/
structure IndexedKeyword where
  campaignPos : ℕ
  campaignId : CampaignId
  id : KeywordId
  matchType : MatchType
  bid : Micros
  /-- Sorted, distinct token ids. -/
  tokens : List TokenId

/-- One negative keyword as stored in the index. -/
structure IndexedNegative where
  matchType : MatchType
  /-- Sorted, distinct token ids. -/
  tokens : List TokenId

/-- The vocabulary is full: there is no `u32` left to number a token with. -/
inductive VocabularyFull
  | vocabularyFull
  deriving DecidableEq, Repr

/-- The numbers of the interned tokens. -/
abbrev Vocab := HashMap String TokenId

/-- Inverted index over every keyword of every campaign. -/
structure KeywordIndex where
  vocab : Vocab
  keywords : List IndexedKeyword
  exact : HashMap (List TokenId) (List ℕ)
  broad : HashMap TokenId (List ℕ)
  /-- Negatives per campaign position. -/
  negatives : List (List IndexedNegative)

/-- The orders in which the matching iterates over its hash maps. -/
structure HashOrder where
  /-- The hit counters, keyed by keyword position. -/
  hits : HashMap.Shuffle (ℕ × ℕ)
  /-- The best match of each campaign. -/
  best : HashMap.Shuffle KeywordMatch

namespace KeywordIndex

/-- An index without keywords. -/
def default : KeywordIndex := ⟨∅, [], ∅, ∅, []⟩

/-! ### Building -/

/-- Interns one token: its number if it has one, else the next free number. -/
def internToken (state : Vocab × List TokenId) (token : String) :
    Except VocabularyFull (Vocab × List TokenId) :=
  match Machine.u32OfUsize state.1.size with
  | none => .error .vocabularyFull
  | some next =>
    match state.1.lookup token with
    | some id => .ok (state.1, state.2 ++ [id])
    | none => .ok (AList.insert token ⟨next⟩ state.1, state.2 ++ [⟨next⟩])

variable [Unicode]

/-- Tokenises `text` and interns each token, returning the sorted set of ids. -/
def internSet (index : KeywordIndex) (text : String) :
    Except VocabularyFull (List TokenId × KeywordIndex) :=
  match (tokenize text).foldlM internToken (index.vocab, []) with
  | .ok (vocab, ids) => .ok (Sorting.sortDedup ids, { index with vocab := vocab })
  | .error e => .error e

omit [Unicode] in
/-- Files a keyword with a non-empty token set under the next position. -/
def insertKeyword (campaignPos : ℕ) (campaign : Campaign) (keyword : Keyword)
    (tokens : List TokenId) (index : KeywordIndex) : KeywordIndex :=
  let pos := index.keywords.length
  let indexed : IndexedKeyword :=
    { campaignPos, campaignId := campaign.id, id := keyword.id, matchType := keyword.matchType,
      bid := keyword.maxCptBid, tokens }
  match keyword.matchType with
  | .exact =>
    { index with exact := index.exact.push tokens pos, keywords := index.keywords ++ [indexed] }
  | .broad =>
    { index with
      broad := tokens.foldl (fun broad token => broad.push token pos) index.broad
      keywords := index.keywords ++ [indexed] }

/-- One keyword of a campaign; a text without tokens is skipped. -/
def addKeyword (campaignPos : ℕ) (campaign : Campaign) (index : KeywordIndex)
    (keyword : Keyword) : Except VocabularyFull KeywordIndex :=
  match index.internSet keyword.text with
  | .error e => .error e
  | .ok (tokens, index) =>
    if tokens = [] then .ok index
    else .ok (insertKeyword campaignPos campaign keyword tokens index)

/-- One negative of a campaign, appended to those collected so far; a text
without tokens is skipped. -/
def addNegative (state : KeywordIndex × List IndexedNegative) (negative : NegativeKeyword) :
    Except VocabularyFull (KeywordIndex × List IndexedNegative) :=
  match state.1.internSet negative.text with
  | .error e => .error e
  | .ok (tokens, index) =>
    if tokens = [] then .ok (index, state.2)
    else .ok (index, state.2 ++ [⟨negative.matchType, tokens⟩])

/-- One campaign: its keywords, then its negatives. -/
def addCampaign (index : KeywordIndex) (entry : Campaign × ℕ) :
    Except VocabularyFull KeywordIndex :=
  match entry.1.keywords.foldlM (addKeyword entry.2 entry.1) index with
  | .error e => .error e
  | .ok index =>
    match entry.1.negativeKeywords.foldlM addNegative (index, []) with
    | .error e => .error e
    | .ok (index, negatives) => .ok { index with negatives := index.negatives ++ [negatives] }

/-- Builds the index. -/
def build (campaigns : List Campaign) : Except VocabularyFull KeywordIndex :=
  campaigns.zipIdx.foldlM addCampaign default

/-! ### Matching -/

omit [Unicode]

/-- Interns a normalised query. Unknown tokens are counted but dropped. -/
def prepare (index : KeywordIndex) (tokens : List String) : PreparedQuery where
  known := Sorting.sort ((Sorting.sortDedup tokens).filterMap fun t => index.vocab.lookup t)
  sorted := Sorting.pairwise_sort _
  distinct := (Sorting.sortDedup tokens).length

/-- The match that a stored keyword offers, at a given relevance. -/
def candidate (kw : IndexedKeyword) (relevance : RelevanceBp) : KeywordMatch :=
  { campaignPos := kw.campaignPos, campaignId := kw.campaignId, keywordId := kw.id,
    matchType := kw.matchType, bid := kw.bid, relevance }

/-- Offers a stored keyword to the best match of its campaign. -/
def offer (best : HashMap ℕ KeywordMatch) (kw : IndexedKeyword) (relevance : RelevanceBp) :
    HashMap ℕ KeywordMatch :=
  let c := candidate kw relevance
  match best.lookup kw.campaignPos with
  | none => AList.insert kw.campaignPos c best
  | some e => if c.beats e then AList.insert kw.campaignPos c best else best

/-- Offers the exact keywords with the query's token set, which needs every
query token to be known. -/
def offerExact (index : KeywordIndex) (query : PreparedQuery) (best : HashMap ℕ KeywordMatch) :
    HashMap ℕ KeywordMatch :=
  if query.allKnown then
    match index.exact.lookup query.known with
    | some hits => hits.foldl (fun best pos =>
        match index.keywords[pos]? with
        | some kw => offer best kw (RelevanceBp.ofNat exactRelevanceBp)
        | none => best) best
    | none => best
  else best

/-- Counts, for each broad keyword, how many distinct known query tokens it
contains. -/
def countHits (index : KeywordIndex) (query : PreparedQuery) : HashMap ℕ ℕ :=
  query.known.foldl (fun hits token =>
    match index.broad.lookup token with
    | some postings => postings.foldl HashMap.bump hits
    | none => hits) ∅

/-- Offers the broad keywords that were hit once per token they have. -/
def offerBroad (order : HashOrder) (index : KeywordIndex) (query : PreparedQuery)
    (best : HashMap ℕ KeywordMatch) : HashMap ℕ KeywordMatch :=
  (order.hits.visit (index.countHits query).toPairs).foldl (fun best (pos, count) =>
    match index.keywords[pos]? with
    | some kw =>
      if count = kw.tokens.length then
        offer best kw (broadRelevance kw.tokens.length query.distinct)
      else best
    | none => best) best

/-- Every matching campaign with its single best keyword, sorted by campaign
position. Negatives are not applied here. -/
def bestMatches (order : HashOrder) (index : KeywordIndex) (query : PreparedQuery) :
    List KeywordMatch :=
  let best := offerBroad order index query (offerExact index query ∅)
  Sorting.sortBy (fun a b => compare a.campaignPos b.campaignPos) (order.best.visit best.values)

/-- Whether any negative keyword of the campaign at `campaignPos` matches the
query. -/
def negativeMatches (index : KeywordIndex) (campaignPos : ℕ) (query : PreparedQuery) : Bool :=
  match index.negatives[campaignPos]? with
  | none => false
  | some negatives => negatives.any fun neg =>
      match neg.matchType with
      | .exact => query.allKnown && neg.tokens = query.known
      | .broad => query.containsAll neg.tokens

end KeywordIndex

end AdMatch
