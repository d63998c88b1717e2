import AdMatch.Lib.Sorting
import AdMatch.Lib.Walk
import AdMatch.Relevance
import Mathlib.Data.Prod.Lex
import Mathlib.Order.OrderDual

/-!
# The generalised second-price auction

Bidders are ranked by score, then bid, then lower campaign identifier. Walking
the ranking from the top, each candidate is priced against the next one – what
it needed to bid to stay ahead, plus an increment, never above its bid – and the
first that can pay wins.

`AdMatch.gspPrice` computes in 128 bits with two fallbacks, one for an overflow
of the sum and one for a price that does not convert back. Neither is ever taken
(`AdMatch.rawPrice_eq`, `AdMatch.gspPrice_convert`), so the price is the formula
in unbounded integers (`AdMatch.gspPrice_toInt`).
-/

namespace AdMatch

/-- One campaign in the auction. -/
structure Bidder where
  campaignId : CampaignId
  /-- Max CPT bid of its best keyword. -/
  bid : Micros
  /-- Relevance of that keyword. -/
  relevance : RelevanceBp
  deriving DecidableEq

namespace Bidder

/-- `bid × relevance`. -/
def score (b : Bidder) : ℕ := AdMatch.score b.bid b.relevance

/-- What the ranking compares, greatest first: score, bid, lower identifier. -/
def rankKey (b : Bidder) : ℕ ×ₗ Micros ×ₗ CampaignIdᵒᵈ :=
  toLex (b.score, toLex (b.bid, OrderDual.toDual b.campaignId))

end Bidder

/-- Ranking order: the best bidder first. -/
def rankOrder (a b : Bidder) : Ordering :=
  (compare b.score a.score).then
    ((compare b.bid a.bid).then (compare a.campaignId b.campaignId))

/-- The non-negative part of an amount, as an unsigned value. -/
def asU128 (m : Micros) : ℕ := (Machine.u128OfI64 m.val).getD 0

theorem asU128_eq (m : Micros) : asU128 m = m.toInt.toNat := Machine.u128OfI64_getD m.val

/-- The price before the cap at the bid, if its sum does not overflow. -/
def rawPrice (bidder : Bidder) (next : Option Bidder) (reserve increment : Micros) : Option ℕ :=
  match next with
  | none => some (asU128 reserve)
  | some next =>
    let relevance := max bidder.relevance.toNat 1
    (Machine.checkedAddU128 (Machine.divCeil next.score relevance) (asU128 increment)).map
      fun p => max p (asU128 reserve)

/-- GSP price for `bidder` when `next` is the next remaining candidate. -/
def gspPrice (bidder : Bidder) (next : Option Bidder) (reserve increment : Micros) : Micros :=
  match rawPrice bidder next reserve increment with
  | some price =>
    if price < asU128 bidder.bid then ⟨(Machine.i64OfU128 price).getD bidder.bid.val⟩
    else bidder.bid
  | none => bidder.bid

/-- What winner selection decided for a ranked list. -/
structure Selection where
  /-- Position of the winner in the ranked list, if anyone could pay. -/
  winner : Option ℕ
  /-- The price each position would pay if it won. -/
  prices : List Micros
  /-- How many positions from the top were skipped because they could not pay. -/
  budgetSkipped : ℕ
  deriving DecidableEq

/-- The price of every position of a ranked list, against the next position. -/
def gspPrices (ranked : List Bidder) (reserve increment : Micros) : List Micros :=
  ranked.zipIdx.map fun (b, i) => gspPrice b ranked[i + 1]? reserve increment

/-- Walks the ranked list from the top, asking each position to pay its price
through `tryPay`; the first that pays wins. -/
def selectWinner {σ : Type} (ranked : List Bidder) (reserve increment : Micros)
    (tryPay : ℕ → Micros → σ → Bool × σ) (s : σ) : Selection × σ :=
  let prices := gspPrices ranked reserve increment
  let (found, s') := Walk.findFirst (fun p : Micros × ℕ => tryPay p.2 p.1) prices.zipIdx s
  let winner := found.map Prod.snd
  ({ winner, budgetSkipped := winner.getD ranked.length, prices }, s')

end AdMatch
