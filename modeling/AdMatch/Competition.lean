import AdMatch.Pricing

/-!
# What competition does to a price

Two laws of the second price. It is what was needed to keep the position: a bid
lowered to the price still stands before the next candidate, and a bid lowered by
more than the increment below it falls behind
(`AdMatch.gspPrice_keeps_position`). And it never falls when a bidder joins the
auction (`AdMatch.selectWinner_price_le`).

Both come from one reading of the price, `AdMatch.rawPrice_eq`: the rounded-up
quotient is the least bid that reaches the score of the next candidate.
-/

namespace AdMatch

/-! ### The ranking order on two bidders -/

/-- Bidders of distinct campaigns have distinct keys. -/
theorem nodup_rankKeys {bidders : List Bidder} (h : (bidders.map Bidder.campaignId).Nodup) :
    (bidders.map fun b => OrderDual.toDual b.rankKey).Nodup := by
  rw [List.Nodup, List.pairwise_map] at h ⊢
  exact h.imp fun hne hkey =>
    hne (Bidder.campaignId_eq_of_rankKey (OrderDual.toDual.injective hkey))

/-- A bidder comes first exactly when its rank key is the greater one. -/
theorem rankOrder_eq_lt {a b : Bidder} : rankOrder a b = .lt ↔ b.rankKey < a.rankKey := by
  rw [rankOrder]
  simp only [Ordering.then_eq_lt, compare_lt_iff_lt, compare_eq_iff_eq, Bidder.rankKey,
    Prod.Lex.toLex_lt_toLex, OrderDual.toDual_lt_toDual]

/-- A greater score comes first. -/
theorem rankOrder_of_score_lt {a b : Bidder} (h : b.score < a.score) : rankOrder a b = .lt :=
  rankOrder_eq_lt.mpr (Prod.Lex.toLex_lt_toLex.mpr (Or.inl h))

theorem rankOrder_eq_gt_of_score_lt {a b : Bidder} (h : a.score < b.score) :
    rankOrder a b = .gt :=
  (rankOrder_comparesBy a b).mpr (OrderDual.toDual_lt_toDual.mpr
    (Prod.Lex.toLex_lt_toLex.mpr (Or.inl h)))

section Ranked

variable {bidders : List Bidder} {b next : Bidder} {i : ℕ}

/-- **Neighbours of a ranking are in strict order.** -/
theorem rankKey_lt_of_adjacent (hids : (bidders.map Bidder.campaignId).Nodup)
    (hb : (Sorting.sortBy rankOrder bidders)[i]? = some b)
    (hnext : (Sorting.sortBy rankOrder bidders)[i + 1]? = some next) :
    next.rankKey < b.rankKey := by
  have hsorted := Sorting.pairwise_lt_sortBy rankOrder_comparesBy (nodup_rankKeys hids)
  obtain ⟨hi, rfl⟩ := List.getElem?_eq_some_iff.mp hb
  obtain ⟨hi', rfl⟩ := List.getElem?_eq_some_iff.mp hnext
  exact OrderDual.toDual_lt_toDual.mp
    (List.pairwise_iff_getElem.mp hsorted i (i + 1) hi hi' (Nat.lt_succ_self i))

end Ranked

/-! ### The price is what was needed -/

section Needed

variable {b next : Bidder} {reserve increment : Micros}

/-- The score of a bidder with another bid. -/
theorem score_withBid (b : Bidder) (bid : Micros) :
    Bidder.score { b with bid := bid } = bid.toInt.toNat * b.relevance.toNat := by
  rw [Bidder.score, score_eq]

/-- The least bid that reaches the score of the next candidate. -/
def neededBid (b next : Bidder) : ℕ :=
  Machine.divCeil next.score (max b.relevance.toNat 1)

/-- **Bids below the needed one score less**, and only these. -/
theorem score_lt_iff_lt_neededBid (hrel : 1 ≤ b.relevance.toNat) (bid : Micros) :
    Bidder.score { b with bid := bid } < next.score ↔ bid.toInt.toNat < neededBid b next := by
  rw [score_withBid, ← not_le, ← not_le, neededBid, Nat.max_eq_left hrel,
    Machine.divCeil_le_iff hrel]

/-- The price, by the needed bid. -/
theorem gspPrice_some_toInt (b next : Bidder) (reserve increment : Micros) :
    (gspPrice b (some next) reserve increment).toInt =
      min b.bid.toInt (max (neededBid b next + increment.toInt.toNat : ℤ)
        (reserve.toInt.toNat : ℤ)) := by
  rw [gspPrice_eq_min (rawPrice_eq b (some next) reserve increment)]
  simp only [asU128_eq, neededBid]
  norm_cast

/-- A price below the bid is above the needed bid, so it keeps the position. -/
theorem score_lt_withPrice (hrel : 1 ≤ b.relevance.toNat) (hinc : 0 < increment.toInt)
    (hlt : (gspPrice b (some next) reserve increment).toInt < b.bid.toInt) :
    next.score < Bidder.score { b with bid := gspPrice b (some next) reserve increment } := by
  have hprice := gspPrice_some_toInt b next reserve increment
  have hgt : neededBid b next < (gspPrice b (some next) reserve increment).toInt.toNat := by
    omega
  calc next.score
      ≤ neededBid b next * b.relevance.toNat := by
        rw [neededBid, Nat.max_eq_left hrel, ← Machine.divCeil_le_iff hrel]
    _ < (gspPrice b (some next) reserve increment).toInt.toNat * b.relevance.toNat :=
        Nat.mul_lt_mul_of_pos_right hgt hrel
    _ = _ := (score_withBid b _).symm

/-- Below a price above the reserve, by more than the increment, a bid is below
the needed one. -/
theorem lt_neededBid (hrel : 1 ≤ b.relevance.toNat) (hscore : 0 < next.score)
    (hres : reserve.toInt < (gspPrice b (some next) reserve increment).toInt)
    (hinc : 0 < increment.toInt) (hreserve : 0 < reserve.toInt) {bid : Micros}
    (hbid : bid.toInt < (gspPrice b (some next) reserve increment).toInt - increment.toInt) :
    bid.toInt.toNat < neededBid b next := by
  have hprice := gspPrice_some_toInt b next reserve increment
  -- a negative bid counts as zero, which the score of `next` is above
  have hpos : 0 < neededBid b next := by
    by_contra h
    have hle : neededBid b next ≤ 0 := Nat.le_of_not_lt h
    rw [neededBid, Nat.max_eq_left hrel, Machine.divCeil_le_iff hrel] at hle
    omega
  omega

end Needed

/-- **The second price is what was needed to keep the position.** With distinct
campaigns of relevance at least `1` that meet a positive reserve: the bid lowered
to the price still stands before the next candidate, and if the price is above the
reserve, a bid more than the increment below it scores less than the next candidate
and stands after it. -/
theorem gspPrice_keeps_position {bidders : List Bidder} {reserve increment : Micros}
    (hids : (bidders.map Bidder.campaignId).Nodup)
    (hrel : ∀ b ∈ bidders, 1 ≤ b.relevance.toNat) (hbid : ∀ b ∈ bidders, reserve ≤ b.bid)
    (hreserve : 0 < reserve.toInt) (hinc : 0 < increment.toInt) {i : ℕ} {b next : Bidder}
    (hb : (Sorting.sortBy rankOrder bidders)[i]? = some b)
    (hnext : (Sorting.sortBy rankOrder bidders)[i + 1]? = some next) :
    rankOrder { b with bid := gspPrice b (some next) reserve increment } next = .lt ∧
      (reserve < gspPrice b (some next) reserve increment →
        ∀ bid : Micros,
          bid.toInt < (gspPrice b (some next) reserve increment).toInt - increment.toInt →
          Bidder.score { b with bid := bid } < next.score ∧
            rankOrder { b with bid := bid } next = .gt) := by
  have hbmem : b ∈ bidders := Sorting.mem_sortBy.mp (List.mem_of_getElem? hb)
  have hnmem : next ∈ bidders := Sorting.mem_sortBy.mp (List.mem_of_getElem? hnext)
  have hbrel := hrel b hbmem
  constructor
  · rcases (gspPrice_le_bid b (some next) reserve increment).lt_or_eq with hlt | heq
    · exact rankOrder_of_score_lt (score_lt_withPrice hbrel hinc (Micros.lt_def.mp hlt))
    · -- at the cap nothing changes, so the ranking itself decides
      rw [heq]
      exact rankOrder_eq_lt.mpr (rankKey_lt_of_adjacent hids hb hnext)
  · intro hres bid hlow
    have hscore : 0 < next.score := by
      rw [Bidder.score, score_eq]
      have := Micros.le_def.mp (hbid next hnmem)
      exact Nat.mul_pos (by omega) (hrel next hnmem)
    have hlt : Bidder.score { b with bid := bid } < next.score :=
      (score_lt_iff_lt_neededBid hbrel bid).mpr
        (lt_neededBid hbrel hscore (Micros.lt_def.mp hres) hinc hreserve hlow)
    exact ⟨hlt, rankOrder_eq_gt_of_score_lt hlt⟩

/-- A relevant bidder ahead of a higher bid, and a third below both. -/
def sampleBidders : List Bidder :=
  [⟨⟨1⟩, ⟨2000000⟩, .ofNat 9000⟩, ⟨⟨2⟩, ⟨3000000⟩, .ofNat 5000⟩, ⟨⟨3⟩, ⟨1000000⟩, .ofNat 10000⟩]

/-- The first of them pays `1676667`, and needed `1666667`. -/
theorem gspPrice_keeps_position_sample :
    rankOrder ⟨⟨1⟩, ⟨1676667⟩, .ofNat 9000⟩ ⟨⟨2⟩, ⟨3000000⟩, .ofNat 5000⟩ = .lt ∧
      ∀ bid : Micros, bid.toInt < 1666667 →
        rankOrder ⟨⟨1⟩, bid, .ofNat 9000⟩ ⟨⟨2⟩, ⟨3000000⟩, .ofNat 5000⟩ = .gt := by
  have hfirst : (Sorting.sortBy rankOrder sampleBidders)[0]? =
      some ⟨⟨1⟩, ⟨2000000⟩, .ofNat 9000⟩ := by decide
  have hsecond : (Sorting.sortBy rankOrder sampleBidders)[0 + 1]? =
      some ⟨⟨2⟩, ⟨3000000⟩, .ofNat 5000⟩ := by decide
  have hmeets : ∀ b ∈ sampleBidders, (⟨100000⟩ : Micros) ≤ b.bid := by decide
  have hinc : 0 < (⟨10000⟩ : Micros).toInt := by decide
  obtain ⟨hkeep, hlow⟩ := gspPrice_keeps_position (by decide) (by decide) hmeets (by decide) hinc
    hfirst hsecond
  exact ⟨hkeep, fun bid hbid => (hlow (by decide) bid hbid).2⟩

/-! ### A newcomer never lowers a price -/

section Newcomer

variable {b : Bidder} {next next' : Option Bidder} {reserve increment : Micros}

/-- **A stronger next candidate never lowers the price.** -/
theorem gspPrice_mono (h : ∀ n ∈ next, ∃ n' ∈ next', n.score ≤ n'.score) :
    gspPrice b next reserve increment ≤ gspPrice b next' reserve increment := by
  rw [Micros.le_def, gspPrice_eq_min (rawPrice_eq b next reserve increment),
    gspPrice_eq_min (rawPrice_eq b next' reserve increment)]
  refine min_le_min (le_refl _) ?_
  rcases next with _ | n
  · -- without a next candidate the price is the reserve, the least there is
    rcases next' with _ | n'
    · exact le_refl _
    · exact_mod_cast le_max_right _ _
  · obtain ⟨n', rfl, hscore⟩ := h n rfl
    have hrel : 0 < max b.relevance.toNat 1 := by omega
    have hneed : Machine.divCeil n.score (max b.relevance.toNat 1) ≤
        Machine.divCeil n'.score (max b.relevance.toNat 1) :=
      (Machine.divCeil_le_iff hrel).mpr
        (hscore.trans ((Machine.divCeil_le_iff hrel).mp (le_refl _)))
    exact_mod_cast max_le_max (Nat.add_le_add_right hneed _) (le_refl _)

/-- **Where a newcomer leaves the others**: everyone keeps a position, and who
stands next scores no less than before. -/
theorem exists_position_with_newcomer {bidders enlarged : List Bidder} {newcomer : Bidder}
    (hids : ((newcomer :: bidders).map Bidder.campaignId).Nodup)
    (hperm : enlarged.Perm (newcomer :: bidders)) {i : ℕ}
    (hb : (Sorting.sortBy rankOrder bidders)[i]? = some b) :
    ∃ j, (Sorting.sortBy rankOrder enlarged)[j]? = some b ∧
      ∀ n ∈ (Sorting.sortBy rankOrder bidders)[i + 1]?,
        ∃ n' ∈ (Sorting.sortBy rankOrder enlarged)[j + 1]?, n.score ≤ n'.score := by
  have hkeys := nodup_rankKeys hids
  obtain ⟨before, after, henlarged, hbidders⟩ :=
    Sorting.exists_sortBy_cons_eq rankOrder_comparesBy hkeys
  have hsorted := Sorting.pairwise_sortBy rankOrder_comparesBy (newcomer :: bidders)
  rw [henlarged] at hsorted
  rw [hbidders] at hb
  rw [Sorting.sortBy_congr_perm rankOrder_comparesBy hkeys hperm, henlarged, hbidders]
  rcases Nat.lt_trichotomy (i + 1) before.length with hlt | heq | hgt
  · -- both stand above the newcomer
    refine ⟨i, ?_, fun n hn => ⟨n, ?_, le_refl _⟩⟩
    · rwa [List.getElem?_append_left (by omega)] at hb ⊢
    · rwa [Option.mem_def, List.getElem?_append_left hlt] at hn ⊢
  · -- the newcomer comes between
    refine ⟨i, ?_, fun n hn => ⟨newcomer, ?_, ?_⟩⟩
    · rwa [List.getElem?_append_left (by omega)] at hb ⊢
    · rw [Option.mem_def, List.getElem?_append_right (by omega), heq, Nat.sub_self]
      rfl
    · rw [Option.mem_def, List.getElem?_append_right (by omega)] at hn
      have hafter := List.rel_of_pairwise_cons (List.pairwise_append.mp hsorted).2.1
        (List.mem_of_getElem? hn)
      exact Prod.Lex.monotone_fst _ _ (OrderDual.toDual_le_toDual.mp hafter)
  · -- the newcomer stands above, and moves both down by one
    refine ⟨i + 1, ?_, fun n hn => ⟨n, ?_, le_refl _⟩⟩
    · rw [List.getElem?_append_right (by omega)] at hb ⊢
      rwa [Nat.sub_add_comm (by omega), List.getElem?_cons_succ]
    · rw [Option.mem_def, List.getElem?_append_right (by omega)] at hn ⊢
      rwa [Nat.sub_add_comm (by omega), List.getElem?_cons_succ]

end Newcomer

/-- **Competition never lowers a price.** With a further bidder in the auction,
every bidder that was there has a price, and it is at least the price it had,
whoever can pay in either auction. -/
theorem selectWinner_price_le {bidders enlarged : List Bidder} {newcomer : Bidder}
    (hids : (bidders.map Bidder.campaignId).Nodup)
    (hnew : newcomer.campaignId ∉ bidders.map Bidder.campaignId)
    (hperm : enlarged.Perm (newcomer :: bidders)) (reserve increment : Micros) {σ τ : Type}
    (tryPay : ℕ → Micros → σ → Bool × σ) (s : σ) (tryPay' : ℕ → Micros → τ → Bool × τ) (t : τ)
    {b : Bidder} (hb : b ∈ bidders) :
    ∃ (i j : ℕ) (price price' : Micros),
      (Sorting.sortBy rankOrder bidders)[i]? = some b ∧
      (selectWinner (Sorting.sortBy rankOrder bidders) reserve increment tryPay s).1.prices[i]? =
        some price ∧
      (Sorting.sortBy rankOrder enlarged)[j]? = some b ∧
      (selectWinner (Sorting.sortBy rankOrder enlarged) reserve increment tryPay' t).1.prices[j]? =
        some price' ∧
      price ≤ price' := by
  obtain ⟨i, hi⟩ := List.mem_iff_getElem?.mp (Sorting.mem_sortBy.mpr hb)
  have hids' : ((newcomer :: bidders).map Bidder.campaignId).Nodup :=
    List.nodup_cons.mpr ⟨hnew, hids⟩
  obtain ⟨j, hj, hnext⟩ := exists_position_with_newcomer hids' hperm hi
  refine ⟨i, j, gspPrice b (Sorting.sortBy rankOrder bidders)[i + 1]? reserve increment,
    gspPrice b (Sorting.sortBy rankOrder enlarged)[j + 1]? reserve increment, hi, ?_, hj, ?_,
    gspPrice_mono hnext⟩
  · exact (getElem?_gspPrices _ reserve increment i).trans (by rw [hi, Option.map_some])
  · exact (getElem?_gspPrices _ reserve increment j).trans (by rw [hj, Option.map_some])

theorem selectWinner_price_le_sample :
    ∃ (i j : ℕ) (price price' : Micros),
      (Sorting.sortBy rankOrder sampleBidders)[i]? = some ⟨⟨1⟩, ⟨2000000⟩, .ofNat 9000⟩ ∧
      (selectWinner (Sorting.sortBy rankOrder sampleBidders) ⟨100000⟩ ⟨10000⟩
        (fun _ _ s => (true, s)) ()).1.prices[i]? = some price ∧
      (Sorting.sortBy rankOrder (⟨⟨4⟩, ⟨1700000⟩, .ofNat 10000⟩ :: sampleBidders))[j]? =
        some ⟨⟨1⟩, ⟨2000000⟩, .ofNat 9000⟩ ∧
      (selectWinner (Sorting.sortBy rankOrder (⟨⟨4⟩, ⟨1700000⟩, .ofNat 10000⟩ :: sampleBidders))
        ⟨100000⟩ ⟨10000⟩ (fun _ _ s => (true, s)) ()).1.prices[j]? = some price' ∧
      price ≤ price' :=
  selectWinner_price_le (by decide) (by decide) (.refl _) ⟨100000⟩ ⟨10000⟩ _ () _ ()
    (by decide)

end AdMatch
