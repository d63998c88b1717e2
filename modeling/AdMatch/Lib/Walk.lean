import Mathlib.Data.List.Basic

/-!
# Looking for the first success

A walk tries the elements of a list in order, threading a state, and stops at
the first attempt that succeeds. Two rules say what it does:

* seen through an observation of the state, a walk is a walk
  (`AdMatch.Walk.findFirst_observe`);
* where a failed attempt changes nothing, a walk finds the first element that
  would succeed at the start, and performs that one attempt only
  (`AdMatch.Walk.findFirst_of_inert`).

A walk can also be taken one attempt at a time, `AdMatch.Walk.Progress.step`, so
that several of them can be interleaved on one state.
-/

namespace AdMatch

namespace Walk

variable {α β σ τ : Type}

/-- The first element whose attempt succeeds, and the state after all the
attempts made. -/
def findFirst (attempt : α → σ → Bool × σ) : List α → σ → Option α × σ
  | [], s => (none, s)
  | a :: rest, s =>
    match attempt a s with
    | (true, s') => (some a, s')
    | (false, s') => findFirst attempt rest s'

/-! ### Walks and observations -/

/-- **A walk seen through an observation is a walk**, when its attempts are. -/
theorem findFirst_observe (obs : σ → τ) (attempt : α → σ → Bool × σ) (seen : α → τ → Bool × τ)
    {l : List α} (h : ∀ a ∈ l, ∀ s, Prod.map id obs (attempt a s) = seen a (obs s)) (s : σ) :
    Prod.map id obs (findFirst attempt l s) = findFirst seen l (obs s) := by
  induction l generalizing s with
  | nil => rfl
  | cons a rest ih =>
    have ha := h a List.mem_cons_self s
    rw [findFirst, findFirst, ← ha]
    rcases attempt a s with ⟨_ | _, s'⟩
    · exact ih (fun b hb => h b (List.mem_cons_of_mem _ hb)) s'
    · rfl

/-- A walk over an image is a walk over the original elements. -/
theorem findFirst_map (attempt : β → σ → Bool × σ) (f : α → β) (l : List α) (s : σ) :
    findFirst attempt (l.map f) s =
      Prod.map (Option.map f) id (findFirst (fun a => attempt (f a)) l s) := by
  induction l generalizing s with
  | nil => rfl
  | cons a rest ih =>
    rw [List.map_cons, findFirst, findFirst]
    rcases attempt (f a) s with ⟨_ | _, s'⟩
    · exact ih s'
    · rfl

/-- Walks of the same attempts are the same. -/
theorem findFirst_congr {attempt attempt' : α → σ → Bool × σ} {l : List α}
    (h : ∀ a ∈ l, attempt a = attempt' a) (s : σ) :
    findFirst attempt l s = findFirst attempt' l s := by
  induction l generalizing s with
  | nil => rfl
  | cons a rest ih =>
    rw [findFirst, findFirst, h a List.mem_cons_self]
    rcases attempt' a s with ⟨_ | _, s'⟩
    · exact ih (fun b hb => h b (List.mem_cons_of_mem _ hb)) s'
    · rfl

/-- What a walk finds is one of its elements. -/
theorem mem_of_findFirst {attempt : α → σ → Bool × σ} {l : List α} {s : σ} {a : α}
    (h : (findFirst attempt l s).1 = some a) : a ∈ l := by
  induction l generalizing s with
  | nil => cases h
  | cons b rest ih =>
    rw [findFirst] at h
    rcases hr : attempt b s with ⟨_ | _, s'⟩
    · rw [hr] at h
      exact List.mem_cons_of_mem _ (ih h)
    · rw [hr] at h
      rw [Option.some.inj h]
      exact List.mem_cons_self

/-- **A failed attempt changes nothing.** -/
def Inert (attempt : α → σ → Bool × σ) : Prop :=
  ∀ a s, (attempt a s).1 = false → (attempt a s).2 = s

/-- **Where failures change nothing, a walk performs one attempt only**: that of
the first element that can succeed at the start. -/
theorem findFirst_of_inert {attempt : α → σ → Bool × σ} (h : Inert attempt) (l : List α) (s : σ) :
    findFirst attempt l s =
      match l.find? fun a => (attempt a s).1 with
      | some a => (some a, (attempt a s).2)
      | none => (none, s) := by
  induction l with
  | nil => rfl
  | cons a rest ih =>
    rw [findFirst]
    rcases hr : attempt a s with ⟨_ | _, s'⟩
    · have hs : s' = s := by
        have := h a s (by rw [hr])
        rwa [hr] at this
      rw [List.find?_cons_of_neg (by rw [hr]; exact Bool.false_ne_true), hs]
      exact ih
    · rw [List.find?_cons_of_pos (by rw [hr])]
      simp only [hr]

/-! ### First positions -/

/-- The first element satisfying a predicate, with its position. -/
theorem find?_zipIdx_eq_some {l : List α} {p : α → Bool} {a : α} {i : ℕ} :
    (l.zipIdx.find? fun c => p c.1) = some (a, i) ↔
      l[i]? = some a ∧ p a = true ∧ ∀ j < i, ∀ b, l[j]? = some b → p b = false := by
  rw [List.find?_eq_some_iff_getElem]
  constructor
  · rintro ⟨hp, k, hk, hget, hbefore⟩
    rw [List.getElem_zipIdx, Nat.zero_add, Prod.mk.injEq] at hget
    obtain ⟨hget, rfl⟩ := hget
    rw [List.length_zipIdx] at hk
    refine ⟨by rw [List.getElem?_eq_getElem hk, hget], hp, fun j hj b hb => ?_⟩
    obtain ⟨hj', rfl⟩ := List.getElem?_eq_some_iff.mp hb
    simpa using hbefore j hj
  · rintro ⟨hget, hp, hbefore⟩
    obtain ⟨hi, rfl⟩ := List.getElem?_eq_some_iff.mp hget
    refine ⟨hp, i, by rwa [List.length_zipIdx], by simp, fun j hj => ?_⟩
    simpa using hbefore j hj _ (List.getElem?_eq_getElem (Nat.lt_trans hj hi))

theorem find?_zipIdx_eq_none {l : List α} {p : α → Bool} :
    (l.zipIdx.find? fun c => p c.1) = none ↔
      ∀ (j : ℕ) b, l[j]? = some b → p b = false := by
  rw [List.find?_eq_none]
  simp only [Prod.forall, List.mem_zipIdx_iff_getElem?, Bool.not_eq_true]
  exact ⟨fun h j b => h b j, fun h b j => h j b⟩

/-! ### One attempt at a time -/

/-- How far a walk has got: about to try an element, the rest still to come, or
stopped. -/
inductive Progress (α : Type)
  | trying (a : α) (rest : List α)
  | stopped (found : Option α)
  deriving DecidableEq

namespace Progress

/-- The start of a walk. -/
def start : List α → Progress α
  | [] => .stopped none
  | a :: rest => .trying a rest

theorem start_eq_trying {l : List α} {a : α} {rest : List α} :
    start l = .trying a rest ↔ l = a :: rest := by
  cases l <;> simp [start]

theorem start_eq_stopped {l : List α} {found : Option α} :
    start l = .stopped found ↔ l = [] ∧ found = none := by
  cases l <;> simp [start, eq_comm]

/-- One attempt. A walk that has stopped makes none. -/
def step (attempt : α → σ → Bool × σ) : Progress α → σ → Option (Progress α × σ)
  | .trying a rest, s =>
    match attempt a s with
    | (true, s') => some (.stopped (some a), s')
    | (false, s') => some (start rest, s')
  | .stopped _, _ => none

/-- The state after an attempt is as the attempt leaves it. -/
theorem step_trying {attempt : α → σ → Bool × σ} {a : α} {rest : List α} {s s' : σ}
    {p : Progress α} (h : step attempt (.trying a rest) s = some (p, s')) :
    (attempt a s).2 = s' := by
  rw [step] at h
  rcases hr : attempt a s with ⟨_ | _, t⟩
  · rw [hr] at h
    exact (Prod.mk.inj (Option.some.inj h)).2
  · rw [hr] at h
    exact (Prod.mk.inj (Option.some.inj h)).2

/-- An attempt seen through an observation is an attempt. -/
theorem step_observe {obs : σ → τ} {attempt : α → σ → Bool × σ} {seen : α → τ → Bool × τ}
    (h : ∀ a s, Prod.map id obs (attempt a s) = seen a (obs s)) {p p' : Progress α} {s s' : σ}
    (hstep : step attempt p s = some (p', s')) : step seen p (obs s) = some (p', obs s') := by
  cases p with
  | stopped found => cases hstep
  | trying a rest =>
    rw [step] at hstep ⊢
    rw [← h]
    rcases hr : attempt a s with ⟨_ | _, t⟩
    · rw [hr] at hstep
      obtain ⟨rfl, rfl⟩ := Prod.mk.inj (Option.some.inj hstep)
      rfl
    · rw [hr] at hstep
      obtain ⟨rfl, rfl⟩ := Prod.mk.inj (Option.some.inj hstep)
      rfl

/-- What a walk found, if it has stopped with something. -/
def found : Progress α → Option α
  | .trying _ _ => none
  | .stopped found => found

@[simp] theorem found_start (l : List α) : (start l).found = none := by
  cases l <;> rfl

/-- An attempt finds what it tries, if it succeeds. -/
theorem found_step {attempt : α → σ → Bool × σ} {a : α} {rest : List α} {s s' : σ}
    {p : Progress α} (h : step attempt (.trying a rest) s = some (p, s')) :
    p.found = none ∨ p.found = some a := by
  rw [step] at h
  rcases hr : attempt a s with ⟨_ | _, t⟩
  · rw [hr] at h
    rw [← (Prod.mk.inj (Option.some.inj h)).1]
    exact .inl (found_start rest)
  · rw [hr] at h
    rw [← (Prod.mk.inj (Option.some.inj h)).1]
    exact .inr rfl

/-- Whether a walk is down a list: it still tries an end of it, or has found one
of its elements. -/
def Along (l : List α) : Progress α → Prop
  | .trying a rest => a :: rest <:+ l
  | .stopped found => ∀ a, found = some a → a ∈ l

/-- A walk that starts on the rest of a list is down the list. -/
theorem along_start {l rest : List α} (h : rest <:+ l) : Along l (start rest) := by
  cases rest with
  | nil => exact fun a ha => by cases ha
  | cons a rest => exact h

/-- **An attempt leaves a walk down its list.** -/
theorem Along.step {attempt : α → σ → Bool × σ} {l : List α} {p p' : Progress α} {s s' : σ}
    (h : Along l p) (hstep : step attempt p s = some (p', s')) : Along l p' := by
  cases p with
  | stopped found => cases hstep
  | trying a rest =>
    rw [Progress.step] at hstep
    have hsuffix : a :: rest <:+ l := h
    rcases hr : attempt a s with ⟨_ | _, t⟩
    · rw [hr] at hstep
      rw [← (Prod.mk.inj (Option.some.inj hstep)).1]
      exact along_start ((List.suffix_cons a rest).trans hsuffix)
    · rw [hr] at hstep
      rw [← (Prod.mk.inj (Option.some.inj hstep)).1]
      rintro b hb
      rw [← Option.some.inj hb]
      exact hsuffix.subset List.mem_cons_self

/-- A number of attempts in a row. -/
def steps (attempt : α → σ → Bool × σ) : ℕ → Progress α × σ → Option (Progress α × σ)
  | 0, st => some st
  | n + 1, (p, s) => (step attempt p s).bind (steps attempt n)

/-- **Taken one attempt at a time, a walk does the same**: it stops, within as
many attempts as there are elements, where `AdMatch.Walk.findFirst` stops. -/
theorem exists_steps_eq_findFirst (attempt : α → σ → Bool × σ) (l : List α) (s : σ) :
    ∃ n ≤ l.length, steps attempt n (start l, s) =
      some (.stopped (findFirst attempt l s).1, (findFirst attempt l s).2) := by
  induction l generalizing s with
  | nil => exact ⟨0, Nat.le_refl _, rfl⟩
  | cons a rest ih =>
    rw [findFirst]
    rcases hr : attempt a s with ⟨_ | _, s'⟩
    · obtain ⟨n, hn, hsteps⟩ := ih s'
      refine ⟨n + 1, Nat.succ_le_succ hn, ?_⟩
      rw [start, steps, step, hr]
      exact hsteps
    · refine ⟨1, by simp, ?_⟩
      rw [start, steps, step, hr]
      rfl

end Progress

end Walk

end AdMatch
