import AdMatch.Lib.Ledger
import Mathlib.Data.Fintype.Basic
import Mathlib.Data.List.Dedup

/-!
# Interleaved walks

Several walks on one shared state, taken an attempt at a time in any order, while
the state may also be changed from outside. On a ledger such a run is
*serialisable*: ordering the walks by their last attempt and taking them one
after another gives every walk the same result and leaves the same counters, as
far as nothing from outside touched them
(`AdMatch.Interleaving.serial_of_exec`).

The last attempt of a walk is its commit point. If it succeeds, all its earlier
attempts were refused by counters that can only have grown since; if it is
refused, so were all the others; either way the walk, taken at that moment as a
whole, does the same.
-/

namespace AdMatch

namespace Interleaving

open Walk

variable {ι ε α σ τ ρ : Type}

/-- What can happen: one attempt of a walk, or something from outside. -/
inductive Event (ι ε : Type)
  | step (i : ι)
  | env (e : ε)
  deriving DecidableEq

/-- The walks that make the attempts, in order. -/
def stepped : List (Event ι ε) → List ι
  | [] => []
  | .step i :: events => i :: stepped events
  | .env _ :: events => stepped events

theorem mem_stepped {events : List (Event ι ε)} {i : ι} :
    i ∈ stepped events ↔ Event.step i ∈ events := by
  induction events with
  | nil => simp [stepped]
  | cons e events ih => cases e <;> simp [stepped, ih]

/-! ### Runs -/

section Exec

variable [DecidableEq ι] (attempt : ι → α → σ → Bool × σ) (env : ε → σ → σ)

/-- A run: the shared state and the progress of every walk after the events, if
no walk is asked for an attempt after it stopped. -/
def exec : List (Event ι ε) → σ → (ι → Progress α) → Option (σ × (ι → Progress α))
  | [], s, progress => some (s, progress)
  | .step i :: events, s, progress =>
    (Progress.step (attempt i) (progress i) s).bind fun next =>
      exec events next.2 (Function.update progress i next.1)
  | .env e :: events, s, progress => exec events (env e s) progress

variable {attempt env}

/-- A run that starts with an attempt. -/
theorem exec_step_eq_some {i : ι} {events : List (Event ι ε)} {s s' : σ}
    {progress progress' : ι → Progress α} :
    exec attempt env (.step i :: events) s progress = some (s', progress') ↔
      ∃ p t, Progress.step (attempt i) (progress i) s = some (p, t) ∧
        exec attempt env events t (Function.update progress i p) = some (s', progress') := by
  rw [exec, Option.bind_eq_some_iff]
  simp only [Prod.exists]

/-- A walk that makes no attempt gets nowhere. -/
theorem exec_progress_of_notMem {events : List (Event ι ε)} {s s' : σ}
    {progress progress' : ι → Progress α}
    (h : exec attempt env events s progress = some (s', progress')) {i : ι}
    (hi : i ∉ stepped events) : progress' i = progress i := by
  induction events generalizing s progress with
  | nil => rw [(Prod.mk.inj (Option.some.inj h)).2]
  | cons e events ih =>
    cases e with
    | env e => exact ih h hi
    | step j =>
      obtain ⟨p, t, -, hrest⟩ := exec_step_eq_some.mp h
      rw [stepped, List.mem_cons, not_or] at hi
      rw [ih hrest hi.2, Function.update_of_ne hi.1]

/-- A walk that has stopped makes no attempt. -/
theorem notMem_stepped_of_stopped {events : List (Event ι ε)} {s s' : σ}
    {progress progress' : ι → Progress α}
    (h : exec attempt env events s progress = some (s', progress')) {i : ι} {found : Option α}
    (hi : progress i = .stopped found) : i ∉ stepped events := by
  induction events generalizing s progress with
  | nil => exact List.not_mem_nil
  | cons e events ih =>
    cases e with
    | env e => exact ih h hi
    | step j =>
      obtain ⟨p, t, hstep, hrest⟩ := exec_step_eq_some.mp h
      have hij : i ≠ j := by
        rintro rfl
        rw [hi] at hstep
        cases hstep
      have hrest := ih hrest (by rwa [Function.update_of_ne hij])
      rw [stepped, List.mem_cons, not_or]
      exact ⟨hij, hrest⟩

/-- **A run seen through an observation is a run**, when its attempts and what
comes from outside are. -/
theorem exec_observe {obs : σ → τ} {seen : ι → α → τ → Bool × τ} {env' : ε → τ → τ}
    (hattempt : ∀ i a s, Prod.map id obs (attempt i a s) = seen i a (obs s))
    (henv : ∀ e s, obs (env e s) = env' e (obs s)) (events : List (Event ι ε)) (s : σ)
    (progress : ι → Progress α) :
    (exec attempt env events s progress).map (Prod.map obs id) =
      exec seen env' events (obs s) progress := by
  induction events generalizing s progress with
  | nil => rfl
  | cons e events ih =>
    cases e with
    | env e => rw [exec, exec, ih, henv]
    | step i =>
      rw [exec, exec]
      cases progress i with
      | stopped found => rfl
      | trying a rest =>
        rw [Progress.step, Progress.step, ← hattempt]
        rcases attempt i a s with ⟨_ | _, s'⟩
        · exact ih _ _
        · exact ih _ _

/-- A run of one walk only. -/
theorem exec_replicate (i : ι) (n : ℕ) (s : σ) (progress : ι → Progress α) :
    exec attempt env (List.replicate n (.step i)) s progress =
      (Progress.steps (attempt i) n (progress i, s)).map fun r =>
        (r.2, Function.update progress i r.1) := by
  induction n generalizing s progress with
  | zero =>
    rw [List.replicate_zero, exec, Progress.steps, Option.map_some, Function.update_eq_self]
  | succ n ih =>
    rw [List.replicate_succ, exec, Progress.steps, Option.map_bind]
    refine congrArg _ (funext fun next => ?_)
    rw [ih, Function.update_self]
    simp only [Function.update_idem]
    rfl

end Exec

/-! ### One after another -/

section Serial

/-- Walks taken one after another, with what each returns. -/
def serial (walk : ι → σ → ρ × σ) : List ι → σ → List (ι × ρ) × σ
  | [], s => ([], s)
  | i :: order, s =>
    let rest := serial walk order (walk i s).2
    ((i, (walk i s).1) :: rest.1, rest.2)

/-- **A series seen through an observation is a series**, when its walks are. -/
theorem serial_observe {walk : ι → σ → ρ × σ} {obs : σ → τ} {seen : ι → τ → α × τ}
    {out : ι → α → ρ} (h : ∀ i s, Prod.map id obs (walk i s) = Prod.map (out i) id (seen i (obs s)))
    (order : List ι) (s : σ) :
    Prod.map id obs (serial walk order s) =
      Prod.map (List.map fun r => (r.1, out r.1 r.2)) id (serial seen order (obs s)) := by
  induction order generalizing s with
  | nil => rfl
  | cons i order ih =>
    have hfst : (walk i s).1 = out i (seen i (obs s)).1 := congrArg Prod.fst (h i s)
    have hsnd : obs (walk i s).2 = (seen i (obs s)).2 := congrArg Prod.snd (h i s)
    have hrest := ih (walk i s).2
    rw [hsnd] at hrest
    have hlast : obs (serial walk order (walk i s).2).2 =
        (serial seen order (seen i (obs s)).2).2 := congrArg Prod.snd hrest
    rw [serial, serial]
    refine Prod.ext ?_ hlast
    exact congrArg₂ List.cons (Prod.ext rfl hfst) (congrArg Prod.fst hrest)

/-- Walks that do nothing can be put anywhere in a series. -/
theorem serial_of_filter {walk : ι → σ → ρ × σ} {result : ι → ρ} {p : ι → Bool}
    (hskip : ∀ i, p i = false → ∀ s, walk i s = (result i, s)) {order : List ι} {s s' : σ}
    (h : serial walk (order.filter p) s = ((order.filter p).map fun i => (i, result i), s')) :
    serial walk order s = (order.map fun i => (i, result i), s') := by
  induction order generalizing s with
  | nil => exact h
  | cons i order ih =>
    cases hp : p i with
    | false =>
      rw [List.filter_cons_of_neg (by simp [hp])] at h
      rw [serial, hskip i hp s, ih h, List.map_cons]
    | true =>
      rw [List.filter_cons_of_pos hp, serial, List.map_cons] at h
      obtain ⟨hresults, hs'⟩ := Prod.mk.inj h
      obtain ⟨hi, hrest⟩ := List.cons.inj hresults
      rw [serial, ih (Prod.ext hrest hs'), List.map_cons, hi]

end Serial

/-! ### On a ledger -/

section Ledger

variable {K : Type} [DecidableEq K] (f : ι → α → Ledger.Attempt K)

/-- One attempt on a ledger: charged, and the walk stops with it, or refused, and
the walk goes on. -/
theorem step_eq_some {i : ι} {p p' : Progress α} {s t : K → ℤ} :
    Progress.step (fun a => Ledger.attempt (f i a)) p s = some (p', t) ↔
      ∃ a rest, p = .trying a rest ∧
        (Ledger.Fits s (f i a) ∧ p' = .stopped (some a) ∧ t = Ledger.charge s (f i a) ∨
          ¬Ledger.Fits s (f i a) ∧ p' = Progress.start rest ∧ t = s) := by
  cases p with
  | stopped found => simp [Progress.step]
  | trying a rest =>
    rw [Progress.step]
    by_cases hfits : Ledger.Fits s (f i a)
    · rw [Ledger.attempt_of_fits hfits]
      simp [hfits, eq_comm]
    · rw [Ledger.attempt_of_not_fits hfits]
      simp [hfits, eq_comm]

variable (work : ι → List α)

/-- A walk taken as a whole. -/
def whole (i : ι) (s : K → ℤ) : Option α × (K → ℤ) :=
  Walk.findFirst (fun a => Ledger.attempt (f i a)) (work i) s

/-- **What the walks under way have tried would still be refused.** -/
def Refused (progress : ι → Progress α) (s : K → ℤ) : Prop :=
  ∀ i a rest, progress i = .trying a rest →
    ∃ tried, work i = tried ++ a :: rest ∧ ∀ b ∈ tried, ¬Ledger.Fits s (f i b)

variable {f work}

omit [DecidableEq K] in
/-- Counters that grow refuse what they refused. -/
theorem Refused.mono {progress : ι → Progress α} {s t : K → ℤ} (h : Refused f work progress s)
    (hle : ∀ k, s k ≤ t k) : Refused f work progress t := by
  intro i a rest hi
  obtain ⟨tried, hwork, hrefused⟩ := h i a rest hi
  exact ⟨tried, hwork, fun b hb => Ledger.not_fits_of_le (hle _) (hrefused b hb)⟩

/-- A whole walk gets past what is refused. -/
theorem whole_of_refused {i : ι} {s : K → ℤ} {tried l : List α} (hwork : work i = tried ++ l)
    (hrefused : ∀ b ∈ tried, ¬Ledger.Fits s (f i b)) :
    whole f work i s = Walk.findFirst (fun a => Ledger.attempt (f i a)) l s := by
  have hnone : tried.find? (fun a => decide (Ledger.Fits s (f i a))) = none :=
    List.find?_eq_none.mpr fun b hb => by simpa using hrefused b hb
  rw [whole, hwork, Ledger.findFirst_attempt, Ledger.findFirst_attempt, List.find?_append, hnone,
    Option.none_or]

omit [DecidableEq K] in
/-- A walk that stops has nothing left to be refused. -/
theorem Refused.update_stopped [DecidableEq ι] {progress : ι → Progress α} {s t : K → ℤ}
    (h : Refused f work progress s) (hle : ∀ k, s k ≤ t k) (i : ι) (found : Option α) :
    Refused f work (Function.update progress i (.stopped found)) t := by
  intro j b rest hj
  by_cases hij : j = i
  · subst hij
    rw [Function.update_self] at hj
    cases hj
  · rw [Function.update_of_ne hij] at hj
    exact h.mono hle j b rest hj

omit [DecidableEq K] in
/-- A walk that goes on has one more attempt refused. -/
theorem Refused.update_trying [DecidableEq ι] {progress : ι → Progress α} {s : K → ℤ}
    (h : Refused f work progress s) {i : ι} {a b : α} {rest : List α}
    (hi : progress i = .trying a (b :: rest)) (ha : ¬Ledger.Fits s (f i a)) :
    Refused f work (Function.update progress i (.trying b rest)) s := by
  intro j c rest' hj
  by_cases hij : j = i
  · subst hij
    rw [Function.update_self, Progress.trying.injEq] at hj
    obtain ⟨rfl, rfl⟩ := hj
    obtain ⟨tried, hwork, hrefused⟩ := h j a _ hi
    refine ⟨tried ++ [a], by rw [hwork, List.append_assoc, List.singleton_append], ?_⟩
    intro d hd
    rcases List.mem_append.mp hd with hd | hd
    · exact hrefused d hd
    · rwa [List.mem_singleton.mp hd]
  · rw [Function.update_of_ne hij] at hj
    exact h j c rest' hj

variable (f work) in
/-- Taking each walk as a whole at its last attempt, from `S` on, gives each the
result it has in `progress'`, and ends as `s'` does on the counters of `U` that
nothing from outside touches. -/
def Serialises [DecidableEq ι] (forgets : ε → K → Prop) (progress' : ι → Progress α)
    (s' : K → ℤ) (U : K → Prop) (events : List (Event ι ε)) (S : K → ℤ) : Prop :=
  ∃ S', serial (whole f work) (stepped events).dedup S =
      ((stepped events).dedup.map fun i => (i, (progress' i).found), S') ∧
    ∀ k, U k → (∀ d, Event.env d ∈ events → ¬forgets d k) → S' k = s' k

section Serialises

variable [DecidableEq ι] {forgets : ε → K → Prop} {progress' : ι → Progress α} {s' S : K → ℤ}
  {U : K → Prop} {events : List (Event ι ε)}

/-- An event from outside takes the counters it touches out of the comparison. -/
theorem Serialises.env {d : ε}
    (h : Serialises f work forgets progress' s' (fun k => U k ∧ ¬forgets d k) events S) :
    Serialises f work forgets progress' s' U (.env d :: events) S := by
  obtain ⟨S', hserial, hS'⟩ := h
  exact ⟨S', hserial, fun k hk hd => hS' k ⟨hk, hd d List.mem_cons_self⟩ fun d' hd' =>
    hd d' (List.mem_cons_of_mem _ hd')⟩

/-- An attempt of a walk that will make another one changes nothing. -/
theorem Serialises.again {i : ι} (hi : i ∈ stepped events)
    (h : Serialises f work forgets progress' s' U events S) :
    Serialises f work forgets progress' s' U (.step i :: events) S := by
  obtain ⟨S', hserial, hS'⟩ := h
  refine ⟨S', ?_, fun k hk hd => hS' k hk fun d hd' => hd d (List.mem_cons_of_mem _ hd')⟩
  rw [stepped, List.dedup_cons_of_mem hi, hserial]

/-- At the last attempt of a walk, the walk is taken as a whole. -/
theorem Serialises.last {i : ι} {T : K → ℤ} (hi : i ∉ stepped events)
    (hwhole : whole f work i S = ((progress' i).found, T))
    (h : Serialises f work forgets progress' s' U events T) :
    Serialises f work forgets progress' s' U (.step i :: events) S := by
  obtain ⟨S', hserial, hS'⟩ := h
  refine ⟨S', ?_, fun k hk hd => hS' k hk fun d hd' => hd d (List.mem_cons_of_mem _ hd')⟩
  rw [stepped, List.dedup_cons_of_notMem hi, serial, hwhole, hserial, List.map_cons]

end Serialises

/-- **Serialisability, part of the way.** The run is compared with a series that
takes each walk as a whole at its last attempt. `U` holds of the counters that
nothing from outside has touched yet; on them the two agree. -/
theorem serial_of_exec_from [DecidableEq ι] {env : ε → (K → ℤ) → (K → ℤ)} {forgets : ε → K → Prop}
    (hframe : ∀ e s k, ¬forgets e k → env e s k = s k) {events : List (Event ι ε)}
    {s s' S : K → ℤ} {progress progress' : ι → Progress α} (U : K → Prop)
    (hexec : exec (fun i a => Ledger.attempt (f i a)) env events s progress = some (s', progress'))
    (hdone : ∀ i ∈ stepped events, ∃ found, progress' i = .stopped found)
    (hagree : ∀ k, U k → s k = S k) (hrefused : Refused f work progress S)
    (hknown : ∀ i ∈ stepped events, ∀ a ∈ work i, U (f i a).key)
    (hdrops : events.Pairwise fun e e' => ∀ d i, e = .env d → e' = .step i →
      ∀ a ∈ work i, ¬forgets d (f i a).key) :
    Serialises f work forgets progress' s' U events S := by
  induction events generalizing s S progress U with
  | nil =>
    obtain ⟨rfl, rfl⟩ := Prod.mk.inj (Option.some.inj hexec)
    exact ⟨S, rfl, fun k hk _ => (hagree k hk).symm⟩
  | cons e events ih =>
    obtain ⟨hfirst, hlater⟩ := List.pairwise_cons.mp hdrops
    cases e with
    | env d =>
      exact (ih (fun k => U k ∧ ¬forgets d k) hexec hdone
        (fun k hk => (hframe d s k hk.2).trans (hagree k hk.1)) hrefused
        (fun i hi a ha => ⟨hknown i hi a ha, hfirst _ (mem_stepped.mp hi) d i rfl rfl a ha⟩)
        hlater).env
    | step i =>
      obtain ⟨p, t, hstep, hrest⟩ := exec_step_eq_some.mp hexec
      obtain ⟨a, rest, hi, hor⟩ := (step_eq_some f).mp hstep
      obtain ⟨tried, hwork, htried⟩ := hrefused i a rest hi
      have hdone' : ∀ j ∈ stepped events, ∃ found, progress' j = .stopped found :=
        fun j hj => hdone j (List.mem_cons_of_mem _ hj)
      have hknown' : ∀ j ∈ stepped events, ∀ b ∈ work j, U (f j b).key :=
        fun j hj => hknown j (List.mem_cons_of_mem _ hj)
      have hmem : a ∈ work i := by
        rw [hwork]
        exact List.mem_append_right _ List.mem_cons_self
      have hfits := Ledger.fits_congr (hagree _ (hknown i List.mem_cons_self a hmem))
      have hwhole := whole_of_refused (f := f) hwork htried
      -- where the walk stops: from then on the two runs agree again
      have hcommit : ∀ found T, whole f work i S = (found, T) → p = .stopped found →
          (∀ k, U k → t k = T k) → (∀ k, S k ≤ T k) →
          Serialises f work forgets progress' s' U (.step i :: events) S := by
        rintro found T hT rfl hagree' hle
        have hnot := notMem_stepped_of_stopped hrest (Function.update_self i _ progress)
        have hfound : progress' i = .stopped found :=
          (exec_progress_of_notMem hrest hnot).trans (Function.update_self i _ progress)
        refine .last hnot ?_ (ih U hrest hdone' hagree' (hrefused.update_stopped hle i found)
          hknown' hlater)
        rw [hT, hfound]
        rfl
      rcases hor with ⟨hfit, hp, rfl⟩ | ⟨hfit, hp, rfl⟩
      · refine hcommit (some a) (Ledger.charge S (f i a)) ?_ hp (fun k hk => ?_)
          (Ledger.le_charge (hfits.mp hfit))
        · rw [hwhole, Walk.findFirst, Ledger.attempt_of_fits (hfits.mp hfit)]
        · rw [Ledger.charge_apply, Ledger.charge_apply, hagree k hk]
      · have hfit' : ¬Ledger.Fits S (f i a) := mt hfits.mpr hfit
        cases rest with
        | nil =>
          refine hcommit none S ?_ hp hagree fun k => le_refl _
          rw [hwhole, Walk.findFirst, Ledger.attempt_of_not_fits hfit']
          rfl
        | cons b rest =>
          -- the walk has further attempts to make, so it makes them
          obtain rfl : p = .trying b rest := hp
          have hagain : i ∈ stepped events := by
            by_contra hnot
            obtain ⟨found, hfound⟩ := hdone i List.mem_cons_self
            rw [exec_progress_of_notMem hrest hnot, Function.update_self] at hfound
            cases hfound
          exact (ih U hrest hdone' hagree (hrefused.update_trying hi hfit') hknown' hlater).again
            hagain

/-- **The walks ordered by their last attempts**: each once, those that make an
attempt in the order of the last one they make. -/
structure ByLastStep [DecidableEq ι] (events : List (Event ι ε)) (order : List ι) : Prop where
  nodup : order.Nodup
  complete : ∀ i, i ∈ order
  last : order.filter (fun i => i ∈ stepped events) = (stepped events).dedup

omit [DecidableEq K] in
/-- Finitely many walks can be ordered so. -/
theorem exists_byLastStep [DecidableEq ι] [Fintype ι] (events : List (Event ι ε)) :
    ∃ order, ByLastStep events order := by
  refine ⟨Finset.univ.toList.filter (fun i => i ∉ stepped events) ++ (stepped events).dedup,
    ?_, fun i => ?_, ?_⟩
  · refine ((Finset.nodup_toList _).filter _).append (List.nodup_dedup _) fun i hi hi' => ?_
    rw [List.mem_filter, decide_eq_true_eq] at hi
    exact hi.2 (List.mem_dedup.mp hi')
  · rw [List.mem_append, List.mem_filter, decide_eq_true_eq, List.mem_dedup, Finset.mem_toList]
    exact (em (i ∈ stepped events)).symm.imp_left fun hi => ⟨Finset.mem_univ i, hi⟩
  · rw [List.filter_append, List.filter_filter]
    have hnone : Finset.univ.toList.filter
        (fun i => decide (i ∈ stepped events) && decide (i ∉ stepped events)) = [] :=
      List.filter_eq_nil_iff.mpr fun i _ => by simp
    have hall : (stepped events).dedup.filter (fun i => i ∈ stepped events) =
        (stepped events).dedup :=
      List.filter_eq_self.mpr fun i hi => by simpa using hi
    rw [hnone, hall, List.nil_append]

/-- **Interleaved walks are serialisable**: when all have stopped, and nothing from
outside touched a counter that a walk still had to look at, taking the walks one
after another in the order of their last attempts gives each the same result,
and leaves every counter that nothing from outside touched the same. -/
theorem serial_of_exec [DecidableEq ι] {env : ε → (K → ℤ) → (K → ℤ)} (forgets : ε → K → Prop)
    (hframe : ∀ e s k, ¬forgets e k → env e s k = s k) {events : List (Event ι ε)}
    {s s' : K → ℤ} {progress' : ι → Progress α}
    (hexec : exec (fun i a => Ledger.attempt (f i a)) env events s
      (fun i => Progress.start (work i)) = some (s', progress'))
    (hdone : ∀ i, ∃ found, progress' i = .stopped found)
    (hdrops : events.Pairwise fun e e' => ∀ d i, e = .env d → e' = .step i →
      ∀ a ∈ work i, ¬forgets d (f i a).key) {order : List ι} (horder : ByLastStep events order) :
    ∃ S', serial (whole f work) order s = (order.map fun i => (i, (progress' i).found), S') ∧
      ∀ k, (∀ d, Event.env d ∈ events → ¬forgets d k) → S' k = s' k := by
  have hstart : Refused f work (fun i => Progress.start (work i)) s := by
    intro i a rest hi
    exact ⟨[], Progress.start_eq_trying.mp hi, fun b hb => absurd hb List.not_mem_nil⟩
  obtain ⟨S', hserial, hS'⟩ := serial_of_exec_from hframe (fun _ => True) hexec
    (fun i _ => hdone i) (fun _ _ => rfl) hstart (fun _ _ _ _ => trivial) hdrops
  refine ⟨S', serial_of_filter (fun i hi t => ?_) (horder.last.symm ▸ hserial),
    fun k hk => hS' k trivial hk⟩
  -- a walk that makes no attempt had none to make
  obtain ⟨found, hfound⟩ := hdone i
  have hsame : progress' i = Progress.start (work i) :=
    exec_progress_of_notMem hexec (by simpa using hi)
  rw [hfound] at hsame ⊢
  obtain ⟨hwork, rfl⟩ := Progress.start_eq_stopped.mp hsame.symm
  rw [whole, hwork]
  rfl

end Ledger

end Interleaving

end AdMatch
