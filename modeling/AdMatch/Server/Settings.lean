import AdMatch.Server.Config
import Mathlib.Data.Fintype.Basic

/-!
# What is wrong with a configuration

Every setting, with what is wrong with a raw value of it (`AdMatch.Config.settings`). The
configuration is read exactly when nothing is wrong with the values that are set; an error
is what is wrong with the value of the variable that it names; and a variable that is at
fault can always be unset, since the defaults pass their own checks
(`AdMatch.Config.settings_at_fault`).

What the characters of a number are to the Unicode tables, and that the default address
parses, is assumed.
-/

namespace AdMatch

/-- The text of a configuration error. How a text is quoted is a parameter. -/
def ConfigError.message (quote : String → String) : ConfigError → String
  | .invalid var value expected => var ++ "=" ++ quote value ++ " is not a valid " ++ expected
  | .outOfRange var value rule =>
    var ++ "=" ++ toString value ++ " is out of range: " ++ rule
  | .unsupportedSource source =>
    "CAMPAIGN_SOURCE=" ++ quote source ++ " is not supported yet (only \"file\")"

/-- The variable that a configuration error names. -/
def ConfigError.var : ConfigError → String
  | .invalid var _ _ => var
  | .outOfRange var _ _ => var
  | .unsupportedSource _ => "CAMPAIGN_SOURCE"

/-- The message starts with the variable. -/
theorem ConfigError.message_eq (quote : String → String) (e : ConfigError) :
    ∃ rest, e.message quote = e.var ++ "=" ++ rest := by
  cases e with
  | invalid var value expected =>
    refine ⟨quote value ++ (" is not a valid " ++ expected), ?_⟩
    show var ++ "=" ++ quote value ++ " is not a valid " ++ expected = _
    simp only [String.append_assoc, ConfigError.var]
  | outOfRange var value rule =>
    refine ⟨toString value ++ (" is out of range: " ++ rule), ?_⟩
    show var ++ "=" ++ toString value ++ " is out of range: " ++ rule = _
    simp only [String.append_assoc, ConfigError.var]
  | unsupportedSource source =>
    refine ⟨quote source ++ " is not supported yet (only \"file\")", ?_⟩
    show "CAMPAIGN_SOURCE=" ++ quote source ++ " is not supported yet (only \"file\")" = _
    rw [← String.append_assoc]
    rfl

namespace Config

/-- The defaults are numbers that keep their rules. -/
theorem default_numbers :
    (∃ d, Machine.parseI64 (toString EngineConfig.default.kTargeting) = some d ∧ 0 ≤ d.toInt) ∧
      (∃ d, Machine.parseI64 (toString EngineConfig.default.reserve.val) = some d ∧ 0 < d.toInt) ∧
      (∃ d, Machine.parseI64 (toString EngineConfig.default.increment.val) = some d ∧
        0 ≤ d.toInt) ∧
      ∃ d, Machine.parseI64 (toString defaultIndexRefreshSecs) = some d ∧
        1 ≤ d.toInt ∧ d.toInt ≤ 86400 :=
  ⟨⟨5000, by decide, by decide⟩, ⟨100000, by decide, by decide⟩, ⟨10000, by decide, by decide⟩,
    ⟨30, by decide, by decide⟩⟩

section Settings

variable [Unicode] {SocketAddr : Type}

/-- The value of a variable, unless it is unset or blank. -/
def get (lookup : String → Option String) (name : String) : Option String :=
  (lookup name).filter fun v => Unicode.trim v ≠ ""

theorem filter_eq_get (lookup : String → Option String) (name : String) :
    ((lookup name).filter fun v => Unicode.trim v ≠ "") = get lookup name := rfl

/-- A setting: its variable, and what is wrong with a raw value of it. -/
structure Setting where
  var : String
  fault : String → Option ConfigError

/-- A setting that is a number in a range. -/
def Setting.number (var expected rule : String) (ok : ℤ → Prop) [DecidablePred ok] : Setting where
  var
  fault raw :=
    match Machine.parseI64 (Unicode.trim raw) with
    | none => some (.invalid var raw expected)
    | some v => if ok v.toInt then none else some (.outOfRange var v rule)

/-- The setting of the address. -/
def Setting.bindAddr (parseAddr : String → Option SocketAddr) : Setting where
  var := "BIND_ADDR"
  fault raw :=
    match parseAddr (Unicode.trim raw) with
    | none => some (.invalid "BIND_ADDR" raw "socket address (host:port)")
    | some _ => none

/-- The setting of the source of the campaigns, which is not trimmed. -/
def Setting.campaignSource : Setting where
  var := "CAMPAIGN_SOURCE"
  fault raw := if raw = "file" then none else some (.unsupportedSource raw)

/-- The settings that can be at fault. -/
def settings (parseAddr : String → Option SocketAddr) : List Setting :=
  [.bindAddr parseAddr,
   .campaignSource,
   .number "K_TARGETING" "integer" "must be >= 0" fun v => 0 ≤ v,
   .number "RESERVE_CPT_MICROS" "integer number of micros" "must be > 0" fun v => 0 < v,
   .number "PRICE_INCREMENT_MICROS" "integer number of micros" "must be >= 0" fun v => 0 ≤ v,
   .number "INDEX_REFRESH_SECS" "integer number of seconds" "must be between 1 and 86400"
     fun v => 1 ≤ v ∧ v ≤ 86400]

/-- Nothing is wrong with the value, if it is set. -/
def Setting.Faultless (lookup : String → Option String) (s : Setting) : Prop :=
  ∀ raw, get lookup s.var = some raw → s.fault raw = none

/-- The error is what is wrong with the value that is set. -/
def Setting.Faults (lookup : String → Option String) (s : Setting) (e : ConfigError) : Prop :=
  ∃ raw, get lookup s.var = some raw ∧ s.fault raw = some e

/-! ### One setting -/

variable {lookup : String → Option String} {parseAddr : String → Option SocketAddr}

/-- Digits are not trimmed. -/
theorem trim_of_digits (hdigits : ∀ c, c.isDigit = true → Unicode.isWhitespace c = false)
    {text : String} (h : text.toList.all Char.isDigit = true) : Unicode.trim text = text := by
  rw [List.all_eq_true] at h
  have hkeep : ∀ l : List Char, (∀ c ∈ l, c.isDigit = true) →
      l.dropWhile Unicode.isWhitespace = l := by
    intro l hl
    rcases l with _ | ⟨c, l⟩
    · rfl
    · exact List.dropWhile_cons_of_neg (by simp [hdigits c (hl c List.mem_cons_self)])
  rw [Unicode.trim, hkeep _ h, hkeep _ fun c hc => h c (List.mem_reverse.mp hc),
    List.reverse_reverse, String.ofList_toList]

/-- What a step of the reading leaves: a value with a property, or an error that is what is
wrong with the value of a setting. -/
inductive Blames (parseAddr : String → Option SocketAddr) (lookup : String → Option String)
    {α : Type} (good : α → Prop) : Except ConfigError α → Prop
  | ok {v : α} : good v → Blames parseAddr lookup good (.ok v)
  | error {s : Setting} {e : ConfigError} : s ∈ settings parseAddr → s.Faults lookup e →
      Blames parseAddr lookup good (.error e)

/-- **Reading in steps**: the first step that fails names the culprit. -/
theorem Blames.bind {α β : Type} {x : Except ConfigError α} {f : α → Except ConfigError β}
    {good : α → Prop} {good' : β → Prop} (hx : Blames parseAddr lookup good x)
    (hf : ∀ v, good v → Blames parseAddr lookup good' (f v)) :
    Blames parseAddr lookup good' (x >>= f) := by
  cases hx with
  | error hs hfault => exact .error hs hfault
  | ok hv => exact hf _ hv

theorem Blames.ok_bind {α β : Type} {v : α} {f : α → Except ConfigError β} {good : β → Prop}
    (h : Blames parseAddr lookup good (f v)) : Blames parseAddr lookup good (.ok v >>= f) := h

theorem faultless_iff {s : Setting} : s.Faultless lookup ↔ ¬∃ e, s.Faults lookup e := by
  constructor
  · rintro h ⟨e, raw, hraw, hfault⟩
    rw [h raw hraw] at hfault
    cases hfault
  · intro h raw hraw
    rcases hfault : s.fault raw with _ | e
    · rfl
    · exact absurd ⟨e, raw, hraw, hfault⟩ h

theorem faultless_of_unset {s : Setting} (h : get lookup s.var = none) : s.Faultless lookup := by
  intro raw hraw
  rw [h] at hraw
  cases hraw

theorem faultless_of_eq_some {s : Setting} {raw : String} (h : get lookup s.var = some raw)
    (hfault : s.fault raw = none) : s.Faultless lookup := by
  intro raw' hraw
  obtain rfl := Option.some.inj (h.symm.trans hraw)
  exact hfault

/-- What is known of a number that was parsed: it is at fault exactly when it breaks its rule. -/
def Setting.Judged (lookup : String → Option String) (var expected rule : String) (ok : ℤ → Prop)
    [DecidablePred ok] (v : Int64) : Prop :=
  if ok v.toInt then (number var expected rule ok).Faultless lookup
  else (number var expected rule ok).Faults lookup (.outOfRange var v rule)

/-- **Parsing a number.** A default is never at fault. -/
theorem blames_parseOr {var expected default : String} (rule : String) (ok : ℤ → Prop)
    [DecidablePred ok] (hs : Setting.number var expected rule ok ∈ settings parseAddr)
    (htrim : Unicode.trim default = default)
    (hdefault : ∃ d, Machine.parseI64 default = some d ∧ ok d.toInt) :
    Blames parseAddr lookup (Setting.Judged lookup var expected rule ok)
      (parseOr Machine.parseI64 (get lookup var) var default expected) := by
  rcases hget : get lookup var with _ | raw
  · obtain ⟨d, hd, hok⟩ := hdefault
    rw [parseOr, Option.getD_none, htrim, hd]
    refine .ok ?_
    rw [Setting.Judged, if_pos hok]
    exact faultless_of_unset hget
  · rw [parseOr, Option.getD_some]
    rcases hparse : Machine.parseI64 (Unicode.trim raw) with _ | v
    · refine .error hs ⟨raw, hget, ?_⟩
      simp only [Setting.number, hparse]
    · refine .ok ?_
      rw [Setting.Judged]
      split
      next hok =>
        exact faultless_of_eq_some hget (by simp only [Setting.number, hparse, if_pos hok])
      next hbroken => exact ⟨raw, hget, by simp only [Setting.number, hparse, if_neg hbroken]⟩

/-- **Checking a number that was parsed.** -/
theorem blames_ensure {var expected rule : String} {ok : ℤ → Prop} [DecidablePred ok] {v : Int64}
    (hs : Setting.number var expected rule ok ∈ settings parseAddr)
    (hv : Setting.Judged lookup var expected rule ok v) :
    Blames parseAddr lookup (fun _ => (Setting.number var expected rule ok).Faultless lookup)
      (ensure (ok v.toInt) var v rule) := by
  rw [Setting.Judged] at hv
  rw [ensure]
  split
  next hok =>
    rw [if_pos hok] at hv
    exact .ok hv
  next hbroken =>
    rw [if_neg hbroken] at hv
    exact .error hs hv

theorem blames_addr (haddr : (parseAddr (Unicode.trim defaultBindAddr)).isSome) :
    Blames parseAddr lookup (fun _ => (Setting.bindAddr parseAddr).Faultless lookup)
      (parseOr parseAddr (get lookup "BIND_ADDR") "BIND_ADDR" defaultBindAddr
        "socket address (host:port)") := by
  rcases hget : get lookup "BIND_ADDR" with _ | raw
  · obtain ⟨addr, hd⟩ := Option.isSome_iff_exists.mp haddr
    rw [parseOr, Option.getD_none, hd]
    exact .ok (faultless_of_unset hget)
  · rw [parseOr, Option.getD_some]
    rcases hparse : parseAddr (Unicode.trim raw) with _ | addr
    · refine .error List.mem_cons_self ⟨raw, hget, ?_⟩
      simp only [Setting.bindAddr, hparse]
    · exact .ok (faultless_of_eq_some hget (by simp only [Setting.bindAddr, hparse]))

theorem faultless_source (h : (get lookup "CAMPAIGN_SOURCE").getD "file" = "file") :
    Setting.campaignSource.Faultless lookup := by
  intro raw hraw
  rw [show get lookup "CAMPAIGN_SOURCE" = some raw from hraw, Option.getD_some] at h
  exact if_pos h

theorem faults_source (h : (get lookup "CAMPAIGN_SOURCE").getD "file" ≠ "file") :
    Setting.campaignSource.Faults lookup
      (.unsupportedSource ((get lookup "CAMPAIGN_SOURCE").getD "file")) := by
  rcases hget : get lookup "CAMPAIGN_SOURCE" with _ | raw
  · rw [hget] at h
    exact absurd rfl h
  · rw [hget, Option.getD_some] at h
    exact ⟨raw, hget, if_neg h⟩

/-! ### All settings -/

/-- The defaults are not trimmed. -/
theorem trim_defaults (hdigits : ∀ c, c.isDigit = true → Unicode.isWhitespace c = false) :
    Unicode.trim (toString EngineConfig.default.kTargeting) =
        toString EngineConfig.default.kTargeting ∧
      Unicode.trim (toString EngineConfig.default.reserve.val) =
        toString EngineConfig.default.reserve.val ∧
      Unicode.trim (toString EngineConfig.default.increment.val) =
        toString EngineConfig.default.increment.val ∧
      Unicode.trim (toString defaultIndexRefreshSecs) = toString defaultIndexRefreshSecs :=
  ⟨trim_of_digits hdigits rfl, trim_of_digits hdigits rfl, trim_of_digits hdigits rfl,
    trim_of_digits hdigits rfl⟩

/-- **Reading the configuration** leaves one in which nothing is at fault, or blames a setting. -/
theorem blames_fromLookup (lookup : String → Option String)
    (hdigits : ∀ c, c.isDigit = true → Unicode.isWhitespace c = false)
    (haddr : (parseAddr (Unicode.trim defaultBindAddr)).isSome) :
    Blames parseAddr lookup (fun _ => ∀ s ∈ settings parseAddr, s.Faultless lookup)
      (fromLookup parseAddr lookup) := by
  have hmem : ∀ (i : ℕ) {s : Setting}, (settings parseAddr)[i]? = some s →
      s ∈ settings parseAddr := fun _ _ => List.mem_of_getElem?
  obtain ⟨ht₂, ht₃, ht₄, ht₅⟩ := trim_defaults hdigits
  obtain ⟨hd₂, hd₃, hd₄, hd₅⟩ := default_numbers
  unfold fromLookup
  dsimp only [filter_eq_get]
  refine (blames_addr haddr).bind fun addr h₀ => ?_
  split
  case isFalse hother => exact .error (hmem 1 rfl) (faults_source hother)
  next hfile =>
  refine Blames.ok_bind ?_
  -- a number is parsed long before its rule is checked
  refine (blames_parseOr "must be >= 0" (fun v => 0 ≤ v) (hmem 2 rfl) ht₂ hd₂).bind fun k hk => ?_
  refine (blames_parseOr "must be > 0" (fun v => 0 < v) (hmem 3 rfl) ht₃ hd₃).bind
    fun reserve hreserve => ?_
  refine (blames_parseOr "must be >= 0" (fun v => 0 ≤ v) (hmem 4 rfl) ht₄ hd₄).bind
    fun increment hincrement => ?_
  refine (blames_parseOr "must be between 1 and 86400" (fun v => 1 ≤ v ∧ v ≤ 86400) (hmem 5 rfl)
    ht₅ hd₅).bind fun refresh hrefresh => ?_
  refine (blames_ensure (hmem 2 rfl) hk).bind fun _ h₂ => ?_
  refine (blames_ensure (hmem 3 rfl) hreserve).bind fun _ h₃ => ?_
  refine (blames_ensure (hmem 4 rfl) hincrement).bind fun _ h₄ => ?_
  refine (blames_ensure (hmem 5 rfl) hrefresh).bind fun _ h₅ => ?_
  refine .ok ?_
  simp only [settings, List.forall_mem_cons]
  exact ⟨h₀, faultless_source hfile, h₂, h₃, h₄, h₅, by simp⟩

theorem exists_config (hdigits : ∀ c, c.isDigit = true → Unicode.isWhitespace c = false)
    (haddr : (parseAddr (Unicode.trim defaultBindAddr)).isSome)
    (hfaultless : ∀ s ∈ settings parseAddr, s.Faultless lookup) :
    ∃ config, fromLookup parseAddr lookup = .ok config := by
  have hblames := blames_fromLookup lookup hdigits haddr
  rcases hread : fromLookup parseAddr lookup with e | config
  · rw [hread] at hblames
    cases hblames with
    | error hs hfault => exact absurd ⟨_, hfault⟩ (faultless_iff.mp (hfaultless _ hs))
  · exact ⟨config, rfl⟩

/-- The errors of a setting name its variable. -/
def Setting.Named (s : Setting) : Prop := ∀ raw e, s.fault raw = some e → e.var = s.var

theorem Setting.named_number {var expected rule : String} {ok : ℤ → Prop} [DecidablePred ok] :
    (number var expected rule ok).Named := by
  intro raw e hfault
  simp only [number] at hfault ⊢
  split at hfault
  · rw [← Option.some.inj hfault]
    rfl
  · split at hfault
    · cases hfault
    · rw [← Option.some.inj hfault]
      rfl

theorem Setting.named_bindAddr : (bindAddr parseAddr).Named := by
  intro raw e hfault
  simp only [bindAddr] at hfault ⊢
  split at hfault
  · rw [← Option.some.inj hfault]
    rfl
  · cases hfault

omit [Unicode] in
theorem Setting.named_campaignSource : campaignSource.Named := by
  intro raw e hfault
  simp only [campaignSource] at hfault ⊢
  split at hfault
  · cases hfault
  · rw [← Option.some.inj hfault]
    rfl

theorem named_settings : ∀ s ∈ settings parseAddr, s.Named := by
  simp only [settings, List.forall_mem_cons]
  exact ⟨Setting.named_bindAddr, Setting.named_campaignSource, Setting.named_number,
    Setting.named_number, Setting.named_number, Setting.named_number, by simp⟩

theorem get_unset (unset : String → Bool) (name : String) :
    get (fun n => if unset n then none else lookup n) name =
      if unset name then none else get lookup name := by
  by_cases h : unset name
  · simp [get, h]
  · simp [get, h]

/-- **What is wrong with a configuration.** The configuration is read exactly when nothing is
wrong with the values that are set. Otherwise the error is what is wrong with the value of the
variable that its message starts with; and once the variables that are at fault are unset, with
any others, the configuration is read. -/
theorem settings_at_fault (hdigits : ∀ c, c.isDigit = true → Unicode.isWhitespace c = false)
    (haddr : (parseAddr (Unicode.trim defaultBindAddr)).isSome)
    (lookup : String → Option String) (quote : String → String) :
    ((∃ config, fromLookup parseAddr lookup = .ok config) ↔
        ∀ s ∈ settings parseAddr, s.Faultless lookup) ∧
      (∀ e, fromLookup parseAddr lookup = .error e →
        ∃ s ∈ settings parseAddr, s.Faults lookup e ∧
          ∃ rest, e.message quote = s.var ++ "=" ++ rest) ∧
      ∀ unset : String → Bool,
        (∀ s ∈ settings parseAddr, (∃ e, s.Faults lookup e) → unset s.var = true) →
        ∃ config, fromLookup parseAddr (fun name => if unset name then none else lookup name) =
          .ok config := by
  refine ⟨⟨?_, fun hfaultless => ?_⟩, fun e he => ?_, fun unset hunset => ?_⟩
  · rintro ⟨config, hconfig⟩
    have hblames := blames_fromLookup lookup hdigits haddr
    rw [hconfig] at hblames
    cases hblames with
    | ok hfaultless => exact hfaultless
  · exact exists_config hdigits haddr hfaultless
  · have hblames := blames_fromLookup lookup hdigits haddr
    rw [he] at hblames
    cases hblames with
    | error hs hfault =>
      refine ⟨_, hs, hfault, ?_⟩
      obtain ⟨raw, -, hraw⟩ := hfault
      rw [← named_settings _ hs raw e hraw]
      exact e.message_eq quote
  · refine exists_config hdigits haddr fun s hs => ?_
    by_cases hfault : ∃ e, s.Faults lookup e
    · exact faultless_of_unset (by rw [get_unset, if_pos (hunset s hs hfault)])
    · -- a value that stays set is the one that was set
      intro raw hraw
      rw [get_unset] at hraw
      split at hraw
      · cases hraw
      · exact faultless_iff.mpr hfault raw hraw

end Settings

section Sample

attribute [local instance] Unicode.asciiGreek

/-- A negative threshold, with everything else blank. -/
def sampleLookup (name : String) : Option String :=
  some (if name = "K_TARGETING" then "-1" else "")

theorem settings_at_fault_sample :
    (∃ e, fromLookup some sampleLookup = .error e ∧
        ∃ s ∈ settings some, s.Faults sampleLookup e ∧
          ∃ rest, e.message id = s.var ++ "=" ++ rest) ∧
      ∃ config, fromLookup some (fun _ => none) = .ok config := by
  have hdigits : ∀ c : Char, c.isDigit = true → Unicode.isWhitespace c = false := by
    intro c hc
    simp only [Char.isDigit, Bool.and_eq_true, decide_eq_true_eq] at hc
    have hlow : 48 ≤ c.toNat := hc.1
    refine decide_eq_false ?_
    rintro (rfl | hrange)
    · exact absurd hlow (by decide)
    · omega
  obtain ⟨-, herror, hunset⟩ :=
    @settings_at_fault _ String some hdigits (by decide) sampleLookup id
  constructor
  · rcases hread : fromLookup some sampleLookup with e | config
    · exact ⟨e, rfl, herror e hread⟩
    · have hnone : (fromLookup some sampleLookup).toOption.isNone := by decide
      rw [hread] at hnone
      cases hnone
  · exact hunset (fun _ => true) fun _ _ _ => rfl

end Sample

end Config

end AdMatch
