import AdMatch.Lib.Serial

/-!
# Walks in the order in which they stop

Walks on one ledger that begin at any time and are taken an attempt at a time, in any
order, while counters may also be changed from outside. Which walks there will be is not
known in advance, as it is for `AdMatch.Interleaving.exec`.

At every moment the walks that have stopped could have been taken one after another, each
as a whole, in the order in which they stopped (`AdMatch.Interleaving.Sequential`): with
the same results, and the same counters as far as nothing from outside touched them. That
order only ever grows (`AdMatch.Interleaving.Sequential.start`,
`AdMatch.Interleaving.Sequential.step`).
-/

namespace AdMatch

namespace Interleaving

open Walk

/-- A series with one more walk at its end. -/
theorem serial_concat {ι σ ρ : Type} (walk : ι → σ → ρ × σ) (order : List ι) (i : ι) (s : σ) :
    serial walk (order ++ [i]) s =
      ((serial walk order s).1 ++ [(i, (walk i (serial walk order s).2).1)],
        (walk i (serial walk order s).2).2) := by
  induction order generalizing s with
  | nil => rfl
  | cons j order ih =>
    rw [List.cons_append, serial, serial, ih]
    rfl

theorem serial_fst {ι σ ρ : Type} (walk : ι → σ → ρ × σ) (order : List ι) (s : σ) :
    (serial walk order s).1.map Prod.fst = order := by
  induction order generalizing s with
  | nil => rfl
  | cons i order ih => rw [serial, List.map_cons, ih]

/-- A series of walks that are known by other names. -/
theorem serial_map {ι κ σ ρ : Type} (walk : ι → σ → ρ × σ) (g : κ → ι) (order : List κ) (s : σ) :
    serial walk (order.map g) s =
      Prod.map (List.map (Prod.map g id)) id (serial (fun j => walk (g j)) order s) := by
  induction order generalizing s with
  | nil => rfl
  | cons j order ih =>
    rw [List.map_cons, serial, serial, ih]
    rfl

variable {κ α K : Type} [DecidableEq K]

/-- A walk, by its number and what it has captured, taken as a whole. -/
def wholeOf (f : κ → α → Ledger.Attempt K) (work : κ → List α) (w : ℕ × κ) :
    (K → ℤ) → Option α × (K → ℤ) :=
  whole (fun w => f w.2) (fun w => work w.2) w

/-- **One after another.** The walks that have stopped, with what they found, in an order
in which they can be taken as wholes, starting from nothing; `S` is what that adds up to.
It is what the ledger says of the counters of `U`, and refuses all that the walks under
way have tried so far. -/
structure Sequential (f : κ → α → Ledger.Attempt K) (work : κ → List α) (U : K → Prop)
    (walks : List (κ × Progress α)) (s : K → ℤ) (results : List ((ℕ × κ) × Option α))
    (S : K → ℤ) : Prop where
  serial : serial (wholeOf f work) (results.map Prod.fst) (fun _ => 0) = (results, S)
  nodup : (results.map fun r => r.1.1).Nodup
  stopped : ∀ i c found, ((i, c), found) ∈ results ↔ walks[i]? = some (c, .stopped found)
  refused : ∀ (i : ℕ) c a rest, walks[i]? = some (c, .trying a rest) →
    ∃ tried, work c = tried ++ a :: rest ∧ ∀ b ∈ tried, ¬Ledger.Fits S (f c b)
  agrees : ∀ k, U k → S k = s k

namespace Sequential

variable {f : κ → α → Ledger.Attempt K} {work : κ → List α} {U : K → Prop}
  {walks : List (κ × Progress α)} {s S : K → ℤ} {results : List ((ℕ × κ) × Option α)}

theorem nil : Sequential f work U [] (fun _ => 0) [] fun _ => 0 where
  serial := rfl
  nodup := List.nodup_nil
  stopped _ _ _ := by simp
  refused _ _ _ _ h := by simp at h
  agrees _ _ := rfl

/-- What comes from outside leaves the counters that it does not touch comparable. -/
theorem env (h : Sequential f work U walks s results S) {V : K → Prop} {t : K → ℤ}
    (hV : ∀ k, V k → U k ∧ t k = s k) : Sequential f work V walks t results S :=
  ⟨h.serial, h.nodup, h.stopped, h.refused, fun k hk =>
    (h.agrees k (hV k hk).1).trans (hV k hk).2.symm⟩

/-- **A walk that stops is taken as a whole**, after all those that have stopped before. -/
theorem commit (h : Sequential f work U walks s results S) {walks' : List (κ × Progress α)}
    {i : ℕ} {c : κ} {found : Option α} {t T : K → ℤ}
    (hget : walks'[i]? = some (c, .stopped found)) (hother : ∀ j ≠ i, walks'[j]? = walks[j]?)
    (hbefore : ∀ c' found', walks[i]? ≠ some (c', .stopped found'))
    (hwhole : wholeOf f work (i, c) S = (found, T)) (hle : ∀ k, S k ≤ T k)
    (hagrees : ∀ k, U k → T k = t k) :
    Sequential f work U walks' t (results ++ [((i, c), found)]) T where
  serial := by
    rw [List.map_append, List.map_singleton, serial_concat, h.serial, hwhole]
  nodup := by
    rw [List.map_append, List.map_singleton, ← List.concat_eq_append]
    refine h.nodup.concat fun hmem => ?_
    obtain ⟨⟨⟨j, c'⟩, found'⟩, hold, hj⟩ := List.mem_map.mp hmem
    obtain rfl : j = i := hj
    exact hbefore c' found' ((h.stopped j c' found').mp hold)
  stopped j c' found' := by
    rw [List.mem_append, List.mem_singleton, h.stopped]
    by_cases hj : j = i
    · subst hj
      rw [hget, Option.some.injEq, or_iff_right (hbefore c' found')]
      simp [eq_comm]
    · rw [hother j hj]
      simp [hj]
  refused j c' a rest hj := by
    have hne : j ≠ i := by
      rintro rfl
      rw [hget] at hj
      cases hj
    rw [hother j hne] at hj
    obtain ⟨tried, hwork, hrefused⟩ := h.refused j c' a rest hj
    exact ⟨tried, hwork, fun b hb => Ledger.not_fits_of_le (hle _) (hrefused b hb)⟩
  agrees := hagrees

/-- **A walk that begins** is under way, unless it has nothing to try and stops at once. -/
theorem start (h : Sequential f work U walks s results S) (c : κ) :
    ∃ results', results <+: results' ∧
      Sequential f work U (walks ++ [(c, Progress.start (work c))]) s results' S := by
  have hother : ∀ j ≠ walks.length, ∀ w, (walks ++ [w])[j]? = walks[j]? := by
    intro j hj w
    rcases Nat.lt_or_gt_of_ne hj with hlt | hgt
    · exact List.getElem?_append_left hlt
    · rw [List.getElem?_eq_none_iff.mpr (Nat.le_of_lt hgt), List.getElem?_eq_none_iff]
      rw [List.length_append, List.length_singleton]
      omega
  have hnone : ∀ w, walks[walks.length]? ≠ some w := fun w hw => by
    rw [List.getElem?_eq_none_iff.mpr (Nat.le_refl _)] at hw
    cases hw
  rcases hwork : work c with _ | ⟨a, rest⟩
  · refine ⟨_, List.prefix_append _ _, h.commit (i := walks.length) (c := c)
      (List.getElem?_concat_length) (fun j hj => hother j hj _) (fun _ _ => hnone _) ?_
      (fun _ => le_refl _) h.agrees⟩
    rw [wholeOf, whole, hwork]
    rfl
  · refine ⟨results, List.prefix_refl _, h.serial, h.nodup, fun j c' found => ?_, ?_, h.agrees⟩
    · rw [h.stopped]
      by_cases hj : j = walks.length
      · subst hj
        rw [List.getElem?_concat_length]
        refine ⟨fun hw => absurd hw (hnone _), fun hw => ?_⟩
        cases hw
      · rw [hother j hj]
    · intro j c' a' rest' hj
      by_cases hlast : j = walks.length
      · subst hlast
        rw [List.getElem?_concat_length] at hj
        cases hj
        exact ⟨[], hwork, fun b hb => absurd hb List.not_mem_nil⟩
      · rw [hother j hlast] at hj
        exact h.refused j c' a' rest' hj

/-- **An attempt of a walk under way**: the walk stops with it, is refused and goes on, or
is refused for the last time and stops with nothing. -/
theorem step (h : Sequential f work U walks s results S) {i : ℕ} {c : κ} {p p' : Progress α}
    {t : K → ℤ} (hget : walks[i]? = some (c, p))
    (hstep : Progress.step (fun a => Ledger.attempt (f c a)) p s = some (p', t))
    (hknown : ∀ a ∈ work c, U (f c a).key) :
    ∃ results' T, results <+: results' ∧
      Sequential f work U (walks.set i (c, p')) t results' T := by
  obtain ⟨a, rest, rfl, hor⟩ := (step_eq_some (i := ()) fun _ : Unit => f c).mp hstep
  obtain ⟨tried, hwork, htried⟩ := h.refused i c a rest hget
  have hlt := (List.getElem?_eq_some_iff.mp hget).1
  have hbefore : ∀ c' found', walks[i]? ≠ some (c', .stopped found') := by
    intro c' found' hw
    rw [hget] at hw
    cases hw
  have hother : ∀ j ≠ i, ∀ w, (walks.set i w)[j]? = walks[j]? := fun j hj w =>
    List.getElem?_set_ne (Ne.symm hj)
  have hmem : a ∈ work c := by
    rw [hwork]
    exact List.mem_append_right _ List.mem_cons_self
  -- on the counter that is asked, the series says what the ledger says
  have hfits := Ledger.fits_congr (a := f c a) (h.agrees _ (hknown a hmem))
  have hwhole : whole (fun w : ℕ × κ => f w.2) (fun w => work w.2) (i, c) S =
      findFirst (fun a => Ledger.attempt (f c a)) (a :: rest) S :=
    whole_of_refused (f := fun w : ℕ × κ => f w.2) hwork htried
  rcases hor with ⟨hfit, rfl, rfl⟩ | ⟨hfit, rfl, rfl⟩
  · refine ⟨_, Ledger.charge S (f c a), List.prefix_append _ _, h.commit (c := c)
      (List.getElem?_set_self hlt) (fun j hj => hother j hj _) hbefore ?_
      (Ledger.le_charge (hfits.mpr hfit)) fun k hk => ?_⟩
    · rw [wholeOf, hwhole, findFirst, Ledger.attempt_of_fits (hfits.mpr hfit)]
    · rw [Ledger.charge_apply, Ledger.charge_apply, h.agrees k hk]
  · have hfit' : ¬Ledger.Fits S (f c a) := mt hfits.mp hfit
    rcases rest with _ | ⟨b, rest⟩
    · refine ⟨_, S, List.prefix_append _ _, h.commit (c := c) (List.getElem?_set_self hlt)
        (fun j hj => hother j hj _) hbefore ?_ (fun _ => le_refl _) h.agrees⟩
      rw [wholeOf, hwhole, findFirst, Ledger.attempt_of_not_fits hfit']
      rfl
    · refine ⟨results, S, List.prefix_refl _, h.serial, h.nodup, fun j c' found => ?_, ?_, h.agrees⟩
      · rw [h.stopped]
        by_cases hj : j = i
        · subst hj
          rw [List.getElem?_set_self hlt]
          refine ⟨fun hw => absurd hw (hbefore _ _), fun hw => ?_⟩
          cases hw
        · rw [hother j hj]
      · intro j c' a' rest' hj
        by_cases hij : j = i
        · subst hij
          rw [List.getElem?_set_self hlt] at hj
          cases hj
          refine ⟨tried ++ [a], by rw [hwork, List.append_assoc, List.singleton_append], ?_⟩
          exact List.forall_mem_append.mpr ⟨htried, List.forall_mem_singleton.mpr hfit'⟩
        · rw [hother j hij] at hj
          exact h.refused j c' a' rest' hj

end Sequential

end Interleaving

end AdMatch
