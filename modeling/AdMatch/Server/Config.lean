import AdMatch.Engine.Charging

/-!
# Configuration

Settings are read once, at startup, through a lookup function: an unset or blank
variable means its default, a value that does not parse or breaks its rule stops
the process. A configuration carries the rules its values passed, so an auction
that runs on one prices every tap at least at a positive reserve and is never
refused an amount (`AdMatch.Config.spends_exact_prices`).

How a socket address is parsed is a parameter; nothing depends on it.
-/

namespace AdMatch

/-! ### Parsing -/

/-- The value of a run of decimal digits, if there are only digits. -/
def Machine.digitsValue (digits : List Char) : Option ℕ :=
  digits.foldlM (fun n c => if c.isDigit then some (10 * n + (c.toNat - '0'.toNat)) else none) 0

/-- `str::parse::<i64>`: an optional sign and at least one digit, in range. -/
def Machine.parseI64 (text : String) : Option Int64 :=
  let (negative, digits) := match text.toList with
    | '+' :: digits => (false, digits)
    | '-' :: digits => (true, digits)
    | digits => (false, digits)
  if digits = [] then none
  else do
    let n ← Machine.digitsValue digits
    let value : ℤ := if negative then -n else n
    if Machine.minI64 ≤ value ∧ value ≤ Machine.maxI64 then some (Int64.ofInt value) else none

/-- `str::trim`: the text without white space at its ends. -/
def Unicode.trim [Unicode] (text : String) : String :=
  String.ofList ((text.toList.dropWhile isWhitespace).reverse.dropWhile isWhitespace).reverse

/-- Where campaigns are loaded from. -/
inductive CampaignSource
  /-- Read campaigns from a JSON seed file. -/
  | file (path : String)
  deriving DecidableEq

/-- A setting that could not be used. -/
inductive ConfigError
  /-- The value does not parse as the expected type. -/
  | invalid (var value expected : String)
  /-- The value parses but is outside the allowed range. -/
  | outOfRange (var : String) (value : Int64) (rule : String)
  /-- The campaign source is not supported. -/
  | unsupportedSource (source : String)
  deriving DecidableEq

/-- **Validated server settings.** -/
structure Config (SocketAddr : Type) where
  bindAddr : SocketAddr
  campaignSource : CampaignSource
  engine : EngineConfig
  /-- The interval between index reloads, in seconds. -/
  indexRefresh : ℕ
  /-- A negative threshold would let every audience pass. -/
  kTargeting_nonneg : 0 ≤ engine.kTargeting.toInt
  /-- A zero reserve would let ads serve for free. -/
  reserve_pos : 0 < engine.reserve.toInt
  increment_nonneg : 0 ≤ engine.increment.toInt
  /-- A zero interval would rebuild the index in a busy loop. -/
  indexRefresh_mem : 1 ≤ indexRefresh ∧ indexRefresh ≤ 86400

namespace Config

def defaultBindAddr : String := "0.0.0.0:8080"

def defaultSeedFile : String := "data/seed.json"

def defaultIndexRefreshSecs : ℕ := 30

/-- Parses a value, or the default when the variable is unset. -/
def parseOr [Unicode] {T : Type} (parse : String → Option T) (value : Option String)
    (var default expected : String) : Except ConfigError T :=
  let raw := value.getD default
  match parse (Unicode.trim raw) with
  | some v => .ok v
  | none => .error (.invalid var raw expected)

/-- An out-of-range error unless the rule holds. -/
def ensure (ok : Prop) [Decidable ok] (var : String) (value : Int64) (rule : String) :
    Except ConfigError (PLift ok) :=
  if h : ok then .ok ⟨h⟩ else .error (.outOfRange var value rule)

/-- **Reads the configuration through a lookup function**, which returns the value
of a variable or `none` when it is unset. Blank values count as unset. -/
def fromLookup [Unicode] {SocketAddr : Type} (parseAddr : String → Option SocketAddr)
    (lookup : String → Option String) : Except ConfigError (Config SocketAddr) := do
  let get := fun name => (lookup name).filter fun v => Unicode.trim v ≠ ""
  let bindAddr ← parseOr parseAddr (get "BIND_ADDR") "BIND_ADDR" defaultBindAddr
    "socket address (host:port)"
  let source := (get "CAMPAIGN_SOURCE").getD "file"
  let campaignSource ←
    if source = "file" then .ok (CampaignSource.file ((get "SEED_FILE").getD defaultSeedFile))
    else .error (ConfigError.unsupportedSource source)
  let defaults := EngineConfig.default
  let kTargeting ← parseOr Machine.parseI64 (get "K_TARGETING") "K_TARGETING"
    (toString defaults.kTargeting) "integer"
  let reserve ← parseOr Machine.parseI64 (get "RESERVE_CPT_MICROS") "RESERVE_CPT_MICROS"
    (toString defaults.reserve.val) "integer number of micros"
  let increment ← parseOr Machine.parseI64 (get "PRICE_INCREMENT_MICROS") "PRICE_INCREMENT_MICROS"
    (toString defaults.increment.val) "integer number of micros"
  let refreshSecs ← parseOr Machine.parseI64 (get "INDEX_REFRESH_SECS") "INDEX_REFRESH_SECS"
    (toString defaultIndexRefreshSecs) "integer number of seconds"
  let ⟨hk⟩ ← ensure (0 ≤ kTargeting.toInt) "K_TARGETING" kTargeting "must be >= 0"
  let ⟨hreserve⟩ ← ensure (0 < reserve.toInt) "RESERVE_CPT_MICROS" reserve "must be > 0"
  let ⟨hincrement⟩ ← ensure (0 ≤ increment.toInt) "PRICE_INCREMENT_MICROS" increment "must be >= 0"
  let ⟨hrefresh⟩ ← ensure (1 ≤ refreshSecs.toInt ∧ refreshSecs.toInt ≤ 86400) "INDEX_REFRESH_SECS"
    refreshSecs "must be between 1 and 86400"
  return {
    bindAddr, campaignSource
    engine := { kTargeting, reserve := ⟨reserve⟩, increment := ⟨increment⟩ }
    indexRefresh := refreshSecs.toInt.natAbs
    kTargeting_nonneg := hk
    reserve_pos := hreserve
    increment_nonneg := hincrement
    indexRefresh_mem := by omega }

section Spends

variable [Unicode] {SocketAddr : Type} {Day : Type} [DecidableEq Day]

/-- **Prices are exact and every amount is valid.** Computed without a fallback,
the price is the formula over the integers, and lies between the reserve and a
bid that meets it; so on a snapshot with an accepted configuration no attempt to
spend that a run makes is refused its amount. -/
theorem spends_exact_prices :
    (∀ bidder next reserve increment, 0 ≤ reserve.toInt → 0 ≤ increment.toInt →
      (gspPrice bidder next reserve increment).toInt =
          exactPrice bidder next reserve increment ∧
        (∃ price, rawPrice bidder next reserve increment = some price ∧
          (price < asU128 bidder.bid → ∃ p, Machine.i64OfU128 price = some p)) ∧
        (reserve ≤ bidder.bid → reserve ≤ gspPrice bidder next reserve increment ∧
          gspPrice bidder next reserve increment ≤ bidder.bid)) ∧
    ∀ (parseAddr : String → Option SocketAddr) (lookup : String → Option String) config,
      fromLookup parseAddr lookup = .ok config → ∀ snap : Snapshot, snap.cfg = config.engine →
      ∀ (order : HashOrder) req tokens, normalize req.query = .ok tokens →
      ∀ (i : ℕ) (m : KeywordMatch) (c : Campaign) price,
        (snap.entries order req tokens).eligible[i]? = some m →
        snap.campaigns[m.campaignPos]? = some c →
        (gspPrices ((snap.entries order req tokens).eligible.map KeywordMatch.bidder)
          snap.cfg.reserve snap.cfg.increment)[i]? = some price →
        ∀ (budgets : BudgetStore Day) day e,
          (budgets.trySpend c.id day price c.dailyBudget).1 ≠ .error e := by
  refine ⟨fun bidder next reserve increment hreserve hincrement => ?_,
    fun parseAddr lookup config _ snap hcfg order req tokens _ i m c price hm _ hprice budgets day
      e he => ?_⟩
  · refine ⟨gspPrice_toInt hreserve hincrement, ⟨_, rawPrice_eq _ _ _ _, fun hlt => ?_⟩,
      fun hbid => ⟨reserve_le_gspPrice hbid, gspPrice_le_bid _ _ _ _⟩⟩
    obtain ⟨p, hp, -⟩ := gspPrice_convert hlt
    exact ⟨p, hp⟩
  · have hpos : 0 < price.toInt := by
      have hreserve := config.reserve_pos
      rw [← hcfg] at hreserve
      rw [Snapshot.prices_entries] at hprice
      have hlt : i < (fieldOf snap.cfg req tokens.toFinset snap.campaigns).eligible.length := by
        rw [← Field.length_prices snap.cfg]
        exact (List.getElem?_eq_some_iff.mp hprice).1
      have hpriced := (Field.getElem?_priced snap.cfg _).mpr ⟨List.getElem?_eq_getElem hlt, hprice⟩
      exact hreserve.trans_le (Micros.le_def.mp (price_bounds hpriced).1)
    exact absurd (BudgetStore.trySpend_eq_error.mp ⟨e, he⟩) (not_le.mpr hpos)

end Spends

section Sample

attribute [local instance] Unicode.asciiGreek

/-- With nothing set, the defaults apply. -/
example : (fromLookup some fun _ => none).toOption.map Config.engine = some .default := by decide

theorem spends_exact_prices_sample :
    ∃ config price, fromLookup some (fun _ => none) = .ok config ∧
      sampleSnapshot.cfg = config.engine ∧
      (gspPrices ((sampleSnapshot.entries storageOrder sampleRequest
        ["photo", "editor"]).eligible.map KeywordMatch.bidder) sampleSnapshot.cfg.reserve
        sampleSnapshot.cfg.increment)[0]? = some price ∧
      ∀ (budgets : BudgetStore ℕ) e, (budgets.trySpend ⟨1⟩ 0 price ⟨1000000⟩).1 ≠ .error e := by
  obtain ⟨config, hconfig⟩ : ∃ config, fromLookup some (fun _ => none) = .ok config := ⟨_, rfl⟩
  have hengine : sampleSnapshot.cfg = config.engine := by
    rw [← Except.ok.inj hconfig]
    decide
  refine ⟨config, _, hconfig, hengine, rfl, fun budgets e => ?_⟩
  exact spends_exact_prices.2 some _ config hconfig sampleSnapshot hengine storageOrder
    sampleRequest ["photo", "editor"] (by decide) 0 _ _ _ rfl rfl rfl budgets 0 e

end Sample

end Config

end AdMatch
