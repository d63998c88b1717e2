import AdMatch.Engine.Bids

/-!
# Deleting campaigns

What an auction owes to campaigns that do not win it. Campaigns that are not
candidates can go: the index is another one and its numbering too, but the
candidates, their prices and the charge are the same. Candidates that were
skipped for their budget are not irrelevant, since each sets the price of the one
above it: without it that price may fall, and be paid
(`AdMatch.Snapshot.not_winner_of_delete_skipped`). The winner stays exactly when
none of the skipped candidates that remain can pay its new price
(`AdMatch.Snapshot.run_delete`).
-/

namespace AdMatch

/-- What an outcome says, apart from the debug ranking. -/
def AuctionOutcome.result (outcome : AuctionOutcome) : Option Winner × ℕ × ℕ :=
  (outcome.winner, outcome.candidates, outcome.budgetSkipped)

/-! ### Fields with candidates deleted -/

namespace Field

variable {cfg : EngineConfig} {field field' : Field}

variable (cfg) in
/-- Exclusions are shown in the debug ranking only. -/
theorem conduct_of_eligible_eq {Day : Type} [DecidableEq Day] (day : Day) (debug : Bool)
    (h : field'.eligible = field.eligible) (budgets : BudgetStore Day) :
    (field'.conduct cfg debug day budgets).1.result =
        (field.conduct cfg debug day budgets).1.result ∧
      (field'.conduct cfg debug day budgets).2 = (field.conduct cfg debug day budgets).2 := by
  obtain ⟨eligible, excluded⟩ := field
  obtain ⟨eligible', excluded'⟩ := field'
  obtain rfl : eligible' = eligible := h
  exact ⟨rfl, rfl⟩

/-- What a position of the priced ranking holds, from two positions of the
ranking. -/
theorem getElem?_priced_eq (i : ℕ) : (field.priced cfg)[i]? =
    field.eligible[i]?.map fun e => (e, gspPrice e.bidder
      (field.eligible[i + 1]?.map Entrant.bidder) cfg.reserve cfg.increment) := by
  have hprice := getElem?_prices cfg field i
  cases he : field.eligible[i]? with
  | none =>
    rw [Option.map_none, List.getElem?_eq_none_iff, length_priced]
    exact List.getElem?_eq_none_iff.mp he
  | some e =>
    rw [he] at hprice
    exact (getElem?_priced cfg field).mpr ⟨he, hprice⟩

/-- **A price depends on what comes below it only.** -/
theorem drop_priced {m n : ℕ} (h : field.eligible.drop m = field'.eligible.drop n) :
    (field.priced cfg).drop m = (field'.priced cfg).drop n := by
  have hget : ∀ i, field.eligible[m + i]? = field'.eligible[n + i]? := fun i => by
    rw [← List.getElem?_drop, h, List.getElem?_drop]
  ext1 i
  rw [List.getElem?_drop, List.getElem?_drop, getElem?_priced_eq, getElem?_priced_eq, hget i,
    Nat.add_assoc, Nat.add_assoc, hget (i + 1)]

variable {Day : Type} (day : Day) {s : CampaignId × Day → ℤ}

/-- How many candidates were skipped. -/
def skipped (cfg : EngineConfig) (field : Field) (s : CampaignId × Day → ℤ) : ℕ :=
  ((field.firstFit day cfg s).map Prod.snd).getD field.eligible.length

/-- The ad shown. -/
def shown (cfg : EngineConfig) (field : Field) (s : CampaignId × Day → ℤ) : Option Winner :=
  (field.firstFit day cfg s).map fun f => f.1.1.winner f.1.2

/-- What an auction reports of the walk. -/
theorem conduct_fst [DecidableEq Day] (cfg : EngineConfig) (debug : Bool) (field : Field)
    (budgets : BudgetStore Day) :
    (field.conduct cfg debug day budgets).1.winner = field.shown day cfg budgets.ledger ∧
      (field.conduct cfg debug day budgets).1.budgetSkipped =
        field.skipped day cfg budgets.ledger := by
  rw [(conduct_eq day cfg debug field budgets).1]
  exact ⟨rfl, rfl⟩

/-- Who is priced is a candidate. -/
theorem mem_eligible_of_mem_priced {c : Entrant × Micros} (h : c ∈ field.priced cfg) :
    c.1 ∈ field.eligible := by
  rw [← map_fst_priced cfg field]
  exact List.mem_map_of_mem h

/-- The ad shown is that of the first candidate that fits. -/
theorem shown_eq : field.shown day cfg s =
    ((field.priced cfg).find? fun c => Ledger.Fits s (c.1.attempt day c.2)).map fun c =>
      c.1.winner c.2 := by
  rw [shown, firstFit, ← List.zipIdx_map_fst 0 (field.priced cfg), List.find?_map, Option.map_map,
    List.zipIdx_map_fst]
  rfl

/-- No skipped candidate fits. -/
theorem not_fits_of_lt_skipped {i : ℕ} (hi : i < field.skipped day cfg s) {e : Entrant}
    {price : Micros} (h : (field.priced cfg)[i]? = some (e, price)) :
    ¬Ledger.Fits s (e.attempt day price) := by
  rw [skipped] at hi
  rcases hfit : field.firstFit day cfg s with _ | ⟨⟨e', price'⟩, n⟩
  · exact (firstFit_eq_none day).mp hfit i e price h
  · rw [hfit] at hi
    exact ((firstFit_eq_some day).mp hfit).2.2 i hi e price h

variable (cfg field s) in
/-- The walk gets past the skipped candidates. -/
theorem find?_drop_skipped :
    ((field.priced cfg).find? fun c => Ledger.Fits s (c.1.attempt day c.2)) =
      ((field.priced cfg).drop (field.skipped day cfg s)).find? fun c =>
        Ledger.Fits s (c.1.attempt day c.2) := by
  have htake : ((field.priced cfg).take (field.skipped day cfg s)).find?
      (fun c => Ledger.Fits s (c.1.attempt day c.2)) = none := by
    refine List.find?_eq_none.mpr fun c hc => ?_
    obtain ⟨i, hi⟩ := List.mem_iff_getElem?.mp hc
    rw [List.getElem?_take] at hi
    split_ifs at hi with hlt
    simpa using not_fits_of_lt_skipped day hlt hi
  conv_lhs => rw [← List.take_append_drop (field.skipped day cfg s) (field.priced cfg)]
  rw [List.find?_append, htake, Option.none_or]

section Delete

variable {keep : CampaignId → Bool}
  (hkeep : field'.eligible = field.eligible.filter fun e => keep e.campaignId)
  (hskipped : ∀ i e, field.eligible[i]? = some e → keep e.campaignId = false →
    i < field.skipped day cfg s)

include hkeep hskipped

/-- The ranking with skipped candidates deleted: what is kept of them, then the
rest. -/
theorem eligible_delete : field'.eligible =
    ((field.eligible.take (field.skipped day cfg s)).filter fun e => keep e.campaignId) ++
      field.eligible.drop (field.skipped day cfg s) := by
  have hrest : (field.eligible.drop (field.skipped day cfg s)).filter
      (fun e => keep e.campaignId) = field.eligible.drop (field.skipped day cfg s) := by
    refine List.filter_eq_self.mpr fun e he => ?_
    obtain ⟨i, hi⟩ := List.mem_iff_getElem?.mp he
    rw [List.getElem?_drop] at hi
    by_contra hdel
    have := hskipped _ e hi (by simpa using hdel)
    omega
  conv_lhs => rw [hkeep, ← List.take_append_drop (field.skipped day cfg s) field.eligible,
    List.filter_append, hrest]

/-- Below the skipped candidates nothing changes. -/
theorem priced_delete : ∃ kept, field'.priced cfg =
      kept ++ (field.priced cfg).drop (field.skipped day cfg s) ∧
    ∀ c ∈ kept, c.1 ∈ field.eligible.take (field.skipped day cfg s) := by
  have heligible := eligible_delete day hkeep hskipped
  set kept := (field.eligible.take (field.skipped day cfg s)).filter fun e => keep e.campaignId
  refine ⟨(field'.priced cfg).take kept.length, ?_, fun c hc => ?_⟩
  · have hdrop : field'.eligible.drop kept.length =
        field.eligible.drop (field.skipped day cfg s) := by
      rw [heligible, List.drop_left]
    rw [← drop_priced hdrop, List.take_append_drop]
  · have hmem := List.mem_map_of_mem (f := Prod.fst) hc
    rw [List.map_take, map_fst_priced, heligible, List.take_left] at hmem
    exact List.mem_of_mem_filter hmem

/-- **When the ad shown stays**: when no skipped candidate that is kept fits at
its new price. -/
theorem shown_delete (hnodup : (field.eligible.map Entrant.campaignId).Nodup) :
    field'.shown day cfg s = field.shown day cfg s ↔
      ∀ c ∈ field'.priced cfg, c.1 ∈ field.eligible.take (field.skipped day cfg s) →
        ¬Ledger.Fits s (c.1.attempt day c.2) := by
  obtain ⟨kept, hpriced, hkept⟩ := priced_delete day hkeep hskipped
  set rest := (field.priced cfg).drop (field.skipped day cfg s) with hrest
  have hbelow : ∀ c ∈ rest, c.1 ∈ field.eligible.drop (field.skipped day cfg s) := fun c hc => by
    have hmem := List.mem_map_of_mem (f := Prod.fst) hc
    rwa [hrest, List.map_drop, map_fst_priced] at hmem
  -- nobody is both skipped and below
  have hapart : ∀ e ∈ field.eligible.take (field.skipped day cfg s),
      ∀ e' ∈ field.eligible.drop (field.skipped day cfg s), e.campaignId ≠ e'.campaignId := by
    rw [← List.take_append_drop (field.skipped day cfg s) field.eligible, List.map_append,
      List.nodup_append] at hnodup
    exact fun e he e' he' =>
      hnodup.2.2 _ (List.mem_map_of_mem he) _ (List.mem_map_of_mem he')
  have hfind := find?_drop_skipped cfg field day s
  rw [← hrest] at hfind
  rw [shown_eq, shown_eq, hfind, hpriced, List.find?_append]
  constructor
  · -- one of those kept that fits would be shown, instead of an ad from below
    intro hsame c hc hskip hfits
    have hck : c ∈ kept := by
      rcases List.mem_append.mp hc with hc | hc
      · exact hc
      · exact absurd rfl (hapart c.1 hskip c.1 (hbelow c hc))
    obtain ⟨c', hc'⟩ : ∃ c', kept.find? (fun c => Ledger.Fits s (c.1.attempt day c.2)) =
        some c' := by
      rw [← Option.isSome_iff_exists, List.find?_isSome]
      exact ⟨c, hck, decide_eq_true hfits⟩
    rw [hc', Option.some_or, Option.map_some] at hsame
    obtain ⟨c'', hc'', hw⟩ := Option.map_eq_some_iff.mp hsame.symm
    exact hapart c'.1 (hkept c' (List.mem_of_find?_eq_some hc')) c''.1
      (hbelow c'' (List.mem_of_find?_eq_some hc'')) (congrArg Winner.campaignId hw).symm
  · intro hfits
    have hnone : kept.find? (fun c => Ledger.Fits s (c.1.attempt day c.2)) = none := by
      refine List.find?_eq_none.mpr fun c hc => ?_
      rw [decide_eq_true_eq]
      exact hfits c (List.mem_append_left _ hc) (hkept c hc)
    rw [hnone, Option.none_or]

end Delete

/-- **Deleting from the top** of the ranking changes no price of what is left. -/
theorem not_fits_of_drop (hnodup : (field.eligible.map Entrant.campaignId).Nodup) {k : ℕ}
    (hdrop : field'.eligible = field.eligible.drop k) {c : Entrant × Micros}
    (hc : c ∈ field'.priced cfg) (hskip : c.1 ∈ field.eligible.take (field.skipped day cfg s)) :
    ¬Ledger.Fits s (c.1.attempt day c.2) := by
  have hpriced : field'.priced cfg = (field.priced cfg).drop k :=
    (drop_priced (m := 0) hdrop).trans rfl
  rw [hpriced] at hc
  obtain ⟨i, hi⟩ := List.mem_iff_getElem?.mp (List.mem_of_mem_drop hc)
  obtain ⟨j, hj⟩ := List.mem_iff_getElem?.mp hskip
  rw [List.getElem?_take] at hj
  split_ifs at hj with hlt
  have hget : field.eligible[i]? = some c.1 := ((getElem?_priced cfg field).mp hi).1
  have hij : i = j := by
    refine (List.getElem?_inj ?_ hnodup).mp ?_
    · rw [List.length_map]
      exact (List.getElem?_eq_some_iff.mp hget).1
    · rw [List.getElem?_map, List.getElem?_map, hget, hj]
  exact not_fits_of_lt_skipped day (hij ▸ hlt) hi

end Field

/-! ### Snapshots with campaigns deleted -/

section Delete

variable [Unicode] {cfg : EngineConfig} {req : AuctionRequest} {campaigns : List Campaign}

/-- **The candidates left are those of the campaigns left.** -/
theorem fieldOf_eligible_filter {q : Finset String} (hids : (campaigns.map Campaign.id).Nodup)
    (keep : CampaignId → Bool) :
    (fieldOf cfg req q (campaigns.filter fun c => keep c.id)).eligible =
      (fieldOf cfg req q campaigns).eligible.filter fun e => keep e.campaignId := by
  have hkeys : ((campaigns.filterMap (candidateOf cfg req q)).map Entrant.key).Nodup := by
    have hlt : (fieldOf cfg req q campaigns).eligible.Pairwise fun a b => a.key < b.key :=
      Field.pairwise_eligible (nodup_verdicts hids)
    rw [fieldOf_eligible_eq] at hlt
    have hsorted := List.pairwise_map.mpr (hlt.imp fun hab => ne_of_lt hab)
    exact ((Sorting.perm_sortBy _ _).map Entrant.key).nodup_iff.mp hsorted
  have hfilter : (campaigns.filter fun c => keep c.id).filterMap (candidateOf cfg req q) =
      (campaigns.filterMap (candidateOf cfg req q)).filter fun e => keep e.campaignId := by
    rw [List.filterMap_filter, List.filter_filterMap]
    refine List.filterMap_congr fun c _ => ?_
    cases hc : candidateOf cfg req q c with
    | none => simp
    | some e => simp [candidateOf_campaignId hc, Option.filter]
  rw [fieldOf_eligible_eq, fieldOf_eligible_eq, hfilter,
    Sorting.filter_sortBy Entrant.order_comparesBy hkeys]

namespace Snapshot

variable {snap : Snapshot} {Day : Type} [DecidableEq Day]

/-- **Whether a campaign would pay**: it is a candidate, and its attempt to spend
its price goes through. -/
def Pays (snap : Snapshot) (order : HashOrder) (req : AuctionRequest) (budgets : BudgetStore Day)
    (day : Day) (cid : CampaignId) : Prop :=
  ∃ tokens i m price, normalize req.query = .ok tokens ∧
    (snap.entries order req tokens).eligible[i]? = some m ∧ m.campaignId = cid ∧
    (gspPrices ((snap.entries order req tokens).eligible.map KeywordMatch.bidder) snap.cfg.reserve
      snap.cfg.increment)[i]? = some price ∧
    (snap.tryPay (snap.entries order req tokens).eligible day i price budgets).1 = true

/-- Paying is fitting the ledger. -/
theorem pays_iff {order : HashOrder} {budgets : BudgetStore Day} {day : Day} {cid : CampaignId}
    {tokens : List String} (htokens : normalize req.query = .ok tokens) :
    snap.Pays order req budgets day cid ↔
      ∃ c ∈ (fieldOf snap.cfg req tokens.toFinset snap.campaigns).priced snap.cfg,
        c.1.campaignId = cid ∧ Ledger.Fits budgets.ledger (c.1.attempt day c.2) := by
  set ranked := rankedOffers snap.cfg req tokens.toFinset snap.campaigns with hranked
  have hentries : (snap.entries order req tokens).eligible = ranked.map placedMatch := by
    rw [entries_eq]
  have hplaced : ∀ p ∈ ranked, snap.campaigns[p.2]? = some p.1.campaign := fun p hp =>
    (mem_placedOffers.mp (mem_rankedOffers hp).1).1
  have hpay : ∀ (i : ℕ) p price, ranked[i]? = some p →
      ((snap.tryPay (ranked.map placedMatch) day i price budgets).1 = true ↔
        Ledger.Fits budgets.ledger (p.1.entrant.attempt day price)) := fun i p price hp => by
    rw [snap.tryPay_placedMatch day hplaced hp, Field.tryPay_fst, decide_eq_true_iff]
  constructor
  · rintro ⟨tokens', i, m, price, htokens', hm, hid, hprice, hpays⟩
    obtain rfl : tokens' = tokens := Except.ok.inj (htokens'.symm.trans htokens)
    rw [prices_entries] at hprice
    rw [hentries] at hm hpays
    rw [List.getElem?_map, Option.map_eq_some_iff] at hm
    obtain ⟨p, hp, rfl⟩ := hm
    refine ⟨(p.1.entrant, price), List.mem_of_getElem? (i := i) ?_, hid,
      (hpay i p price hp).mp hpays⟩
    rw [Field.getElem?_priced, fieldOf_eligible, ← hranked, List.getElem?_map, hp]
    exact ⟨rfl, hprice⟩
  · rintro ⟨⟨e, price⟩, hc, rfl, hfits⟩
    obtain ⟨i, hi⟩ := List.mem_iff_getElem?.mp hc
    obtain ⟨he, hprice⟩ := (Field.getElem?_priced _ _).mp hi
    rw [fieldOf_eligible, ← hranked, List.getElem?_map, Option.map_eq_some_iff] at he
    obtain ⟨p, hp, rfl⟩ := he
    refine ⟨tokens, i, placedMatch p, price, htokens, ?_, rfl, ?_, ?_⟩
    · rw [hentries, List.getElem?_map, hp, Option.map_some]
    · rw [prices_entries]
      exact hprice
    · rw [hentries]
      exact (hpay i p price hp).mpr hfits

/-- A snapshot can be rebuilt from some of its campaigns. -/
theorem build_filter_isOk (hbuild : build campaigns cfg = .ok snap) (p : Campaign → Bool) :
    ∃ snap', build (campaigns.filter p) cfg = .ok snap' := by
  obtain ⟨⟨hids, hkeys⟩, hindex⟩ := build_isOk.mp ⟨snap, hbuild⟩
  have hsub : (campaigns.filter p).Sublist campaigns := List.filter_sublist
  exact build_isOk.mpr ⟨⟨hids.sublist (hsub.map _), hkeys.sublist ((hsub.flatMap _).map _)⟩,
    KeywordIndex.build_isOk_of_sublist hsub hindex⟩

/-- **Deleting campaigns.** The snapshot can be rebuilt from any of its
campaigns. If all candidates are kept, nothing that is shown, counted or charged
changes. If those deleted, of the candidates, were all skipped, the winner and
its price stay exactly when no skipped candidate that is kept would now pay; this
is so if whatever follows a kept candidate in the ranking is kept too. -/
theorem run_delete (order order' : HashOrder) (hbuild : build campaigns cfg = .ok snap)
    (keep : CampaignId → Bool) (req : AuctionRequest) (budgets : BudgetStore Day) (day : Day) :
    ∃ snap', build (campaigns.filter fun c => keep c.id) cfg = .ok snap' ∧
      ((∀ cid i, snap.CandidateAt order req cid i → keep cid = true) →
        (snap'.run order' req budgets day).1.map AuctionOutcome.result =
            (snap.run order req budgets day).1.map AuctionOutcome.result ∧
          ∀ campaign d, (snap'.run order' req budgets day).2.spent campaign d =
            (snap.run order req budgets day).2.spent campaign d) ∧
      ∀ outcome, (snap.run order req budgets day).1 = .ok outcome →
        (∀ cid i, snap.CandidateAt order req cid i → keep cid = false →
          i < outcome.budgetSkipped) →
        ∃ outcome', (snap'.run order' req budgets day).1 = .ok outcome' ∧
          (outcome'.winner = outcome.winner ↔
            ∀ cid, ∀ i < outcome.budgetSkipped, snap.CandidateAt order req cid i →
              keep cid = true → ¬snap'.Pays order' req budgets day cid) ∧
          ((∀ cid cid' i, snap.CandidateAt order req cid i →
              snap.CandidateAt order req cid' (i + 1) → keep cid = true → keep cid' = true) →
            outcome'.winner = outcome.winner) := by
  obtain ⟨rfl, rfl⟩ := build_eq_ok hbuild
  obtain ⟨snap', hbuild'⟩ := build_filter_isOk hbuild fun c => keep c.id
  obtain ⟨hcampaigns', hcfg'⟩ := build_eq_ok hbuild'
  refine ⟨snap', hbuild', ?_⟩
  rw [run_eq, run_eq, hcampaigns', hcfg']
  cases htokens : normalize req.query with
  | error e => exact ⟨fun _ => ⟨rfl, fun _ _ => rfl⟩, fun outcome h => by cases h⟩
  | ok tokens =>
    set field := fieldOf snap.cfg req tokens.toFinset snap.campaigns
    set field' := fieldOf snap.cfg req tokens.toFinset (snap.campaigns.filter fun c => keep c.id)
    have hkeep : field'.eligible = field.eligible.filter fun e => keep e.campaignId :=
      fieldOf_eligible_filter snap.campaignIds keep
    have hnodup : (field.eligible.map Entrant.campaignId).Nodup :=
      Field.nodup_eligible (nodup_verdicts snap.campaignIds)
    have hpays : ∀ cid, snap'.Pays order' req budgets day cid ↔ ∃ c ∈ field'.priced snap.cfg,
        c.1.campaignId = cid ∧ Ledger.Fits budgets.ledger (c.1.attempt day c.2) := fun cid => by
      rw [pays_iff htokens, hcampaigns', hcfg']
    have hcand : ∀ cid i, snap.CandidateAt order req cid i ↔
        ∃ e, field.eligible[i]? = some e ∧ e.campaignId = cid := fun cid i => by
      rw [candidateAt_iff]
      simp only [htokens, Except.ok.injEq, exists_and_left, exists_eq_left', field]
    refine ⟨fun hall => ?_, fun outcome hrun hdel => ?_⟩
    · -- with all candidates kept, the ranking is the same
      have hsame : field'.eligible = field.eligible := by
        rw [hkeep]
        refine List.filter_eq_self.mpr fun e he => ?_
        obtain ⟨i, hi⟩ := List.mem_iff_getElem?.mp he
        exact hall _ i ((hcand _ i).mpr ⟨e, hi, rfl⟩)
      obtain ⟨hresult, hafter⟩ := Field.conduct_of_eligible_eq snap.cfg day req.debug hsame budgets
      exact ⟨congrArg Except.ok hresult, fun campaign d => congrArg (·.spent campaign d) hafter⟩
    · obtain rfl : (field.conduct snap.cfg req.debug day budgets).1 = outcome := Except.ok.inj hrun
      obtain ⟨hwinner, hskipped⟩ := Field.conduct_fst day snap.cfg req.debug field budgets
      rw [hskipped] at hdel ⊢
      rw [hwinner]
      have hshown := Field.shown_delete day hkeep
        (fun i e hi hk => hdel _ i ((hcand _ i).mpr ⟨e, hi, rfl⟩) hk) hnodup
      rw [← (Field.conduct_fst day snap.cfg req.debug field' budgets).1] at hshown
      refine ⟨_, rfl, hshown.trans ⟨fun h cid i hi hc _ hp => ?_, fun h c hc hskip hfits => ?_⟩,
        fun hdown => ?_⟩
      · -- a skipped candidate that would pay is in the new ranking, at its new price
        obtain ⟨e, hget, rfl⟩ := (hcand cid i).mp hc
        obtain ⟨c, hmem, hid, hfits⟩ := (hpays e.campaignId).mp hp
        refine h c hmem ?_ hfits
        have hcmem : c.1 ∈ field.eligible :=
          List.mem_of_mem_filter (hkeep ▸ Field.mem_eligible_of_mem_priced hmem)
        rw [List.inj_on_of_nodup_map hnodup hcmem (List.mem_of_getElem? hget) hid]
        exact List.mem_of_getElem? ((List.getElem?_take_of_lt hi).trans hget)
      · obtain ⟨i, hi⟩ := List.mem_iff_getElem?.mp hskip
        rw [List.getElem?_take] at hi
        split_ifs at hi with hlt
        have hkept := List.mem_filter.mp (hkeep ▸ Field.mem_eligible_of_mem_priced hc)
        exact h _ i hlt ((hcand _ i).mpr ⟨c.1, hi, rfl⟩) hkept.2 ((hpays _).mpr ⟨c, hc, rfl, hfits⟩)
      · -- those deleted are the topmost, so the others keep their prices
        obtain ⟨k, hk⟩ := Sorting.exists_filter_eq_drop (l := field.eligible)
          (p := fun e => keep e.campaignId) fun i a b ha hb hka =>
            hdown _ _ i ((hcand _ i).mpr ⟨a, ha, rfl⟩) ((hcand _ _).mpr ⟨b, hb, rfl⟩) hka
        exact hshown.mpr fun c hc hskip =>
          Field.not_fits_of_drop day hnodup (hkeep.trans hk) hc hskip

end Snapshot

end Delete

section Sample

attribute [local instance] Unicode.asciiGreek

/-- The second sample campaign is no candidate without personalisation. -/
theorem run_delete_sample : ∃ snap',
    Snapshot.build (sampleCampaigns.filter fun c => decide (c.id ≠ ⟨2⟩)) .default = .ok snap' ∧
      (snap'.run storageOrder { sampleRequest with personalized := false }
          BudgetStore.inMemory 0).1.map AuctionOutcome.result =
        (sampleSnapshot.run storageOrder { sampleRequest with personalized := false }
          BudgetStore.inMemory 0).1.map AuctionOutcome.result := by
  have hcand : ∀ m ∈ (sampleSnapshot.entries storageOrder
      { sampleRequest with personalized := false } ["photo", "editor"]).eligible,
      m.campaignId ≠ ⟨2⟩ := by decide
  obtain ⟨snap', hbuild, hirrelevant, -⟩ := Snapshot.run_delete storageOrder storageOrder
    build_sampleCampaigns (fun cid => decide (cid ≠ ⟨2⟩))
    { sampleRequest with personalized := false } BudgetStore.inMemory 0
  refine ⟨snap', hbuild, (hirrelevant ?_).1⟩
  rintro _ i ⟨tokens, m, htokens, hm, rfl⟩
  have hquery : normalize sampleRequest.query = .ok ["photo", "editor"] := by decide
  obtain rfl : tokens = ["photo", "editor"] := Except.ok.inj (htokens.symm.trans hquery)
  exact decide_eq_true (hcand m (List.mem_of_getElem? hm))

/-- Two campaigns that cannot pay their prices, above one that can. -/
def sampleSkipped : List Campaign :=
  [sampleBidder 1 2000000 1500000, sampleBidder 2 1900000 500000, sampleBidder 3 1000000 1000000]

/-- **A skipped candidate is not irrelevant**: with the second campaign deleted,
the price of the first falls from 1.91 to 1.01, which it can pay. -/
theorem Snapshot.not_winner_of_delete_skipped : ∃ snap snap' outcome outcome',
    build sampleSkipped .default = .ok snap ∧
      build (sampleSkipped.filter fun c => decide (c.id ≠ ⟨2⟩)) .default = .ok snap' ∧
      (snap.run storageOrder sampleRequest BudgetStore.inMemory 0).1 = .ok outcome ∧
      (snap'.run storageOrder sampleRequest BudgetStore.inMemory 0).1 = .ok outcome' ∧
      (snap.CandidateAt storageOrder sampleRequest ⟨2⟩ 1 ∧ 1 < outcome.budgetSkipped) ∧
      outcome.winner.map Winner.campaignId = some ⟨3⟩ ∧
      outcome'.winner.map Winner.campaignId = some ⟨1⟩ :=
  ⟨_, _, _, _, rfl, rfl, rfl, rfl, ⟨⟨["photo", "editor"], _, by decide, rfl, by decide⟩, by decide⟩,
    by decide, by decide⟩

end Sample

end AdMatch
