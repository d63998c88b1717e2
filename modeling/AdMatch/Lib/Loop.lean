import Mathlib.Data.Finset.Insert
import Mathlib.Data.List.Basic
import Mathlib.Data.Finset.Lattice.Lemmas

/-!
# Loops that may fail

A `for` loop with an early error exit is `List.foldlM` in `Except`. What holds of
the state after any number of completed iterations – with respect to the
elements processed so far – is established once, by
`AdMatch.Loop.foldlM_induction`. A loop over elements with their positions has a
rule of its own (`AdMatch.Loop.foldlM_zipIdx_induction`), and so has one that
cannot fail (`AdMatch.Loop.foldl_induction`).
-/

namespace AdMatch

namespace Loop

variable {α σ ε : Type} {f : σ → α → Except ε σ}

/-- A loop over a nonempty list completes when its first iteration and the loop
over the rest do. -/
theorem foldlM_cons_eq_ok {a : α} {l : List α} {s s' : σ} :
    (a :: l).foldlM f s = .ok s' ↔ ∃ t, f s a = .ok t ∧ l.foldlM f t = .ok s' := by
  rw [List.foldlM_cons]
  cases h : f s a with
  | error e =>
    constructor
    · exact fun hc => absurd hc (by simp [bind, Except.bind])
    · rintro ⟨t, ht, -⟩
      cases ht
  | ok t =>
    constructor
    · exact fun hl => ⟨t, rfl, hl⟩
    · rintro ⟨t', ht, hl⟩
      obtain rfl := Except.ok.inj ht
      exact hl

/-- A loop over no elements leaves the state as it is. -/
theorem foldlM_nil_eq_ok {s s' : σ} : ([] : List α).foldlM f s = .ok s' ↔ s' = s :=
  ⟨fun h => (Except.ok.inj h).symm, fun h => by rw [h]; rfl⟩

/-- A loop over a concatenation is two loops. -/
theorem foldlM_append_eq_ok {l l' : List α} {s s' : σ} :
    (l ++ l').foldlM f s = .ok s' ↔ ∃ t, l.foldlM f s = .ok t ∧ l'.foldlM f t = .ok s' := by
  induction l generalizing s with
  | nil => simp only [List.nil_append, foldlM_nil_eq_ok, exists_eq_left]
  | cons a l ih =>
    simp only [List.cons_append, foldlM_cons_eq_ok, ih]
    constructor
    · rintro ⟨t, ht, u, hu, hl⟩
      exact ⟨u, ⟨t, ht, hu⟩, hl⟩
    · rintro ⟨u, ⟨t, ht, hu⟩, hl⟩
      exact ⟨t, ht, u, hu, hl⟩

/-- **A loop that fails** does so in one iteration, those before it completed. -/
theorem foldlM_eq_error {l : List α} {s : σ} {e : ε} (h : l.foldlM f s = .error e) :
    ∃ done a rest t, l = done ++ a :: rest ∧ done.foldlM f s = .ok t ∧ f t a = .error e := by
  induction l generalizing s with
  | nil => cases h
  | cons a l ih =>
    rw [List.foldlM_cons] at h
    cases ha : f s a with
    | error e' =>
      rw [ha] at h
      exact ⟨[], a, l, s, rfl, rfl, ha.trans h⟩
    | ok t =>
      rw [ha] at h
      obtain ⟨done, b, rest, u, rfl, hdone, hb⟩ := ih h
      exact ⟨a :: done, b, rest, u, rfl, foldlM_cons_eq_ok.mpr ⟨t, ha, hdone⟩, hb⟩

/-- **A loop seen through a projection of its state** is a loop over what its
elements stand for, when each of its iterations is. -/
theorem map_foldlM {τ β : Type} {g : τ → β → Except ε τ} {proj : σ → τ} {expand : α → List β}
    (h : ∀ s a, (f s a).map proj = (expand a).foldlM g (proj s)) (l : List α) (s : σ) :
    (l.foldlM f s).map proj = (l.flatMap expand).foldlM g (proj s) := by
  induction l generalizing s with
  | nil => rfl
  | cons a l ih =>
    rw [List.foldlM_cons, List.flatMap_cons, List.foldlM_append, ← h]
    cases f s a with
    | error e => rfl
    | ok t => exact ih t

/-- The loop invariant rule, part of the way. -/
theorem foldlM_induction_from {I : List α → σ → Prop}
    (step : ∀ done a s s', I done s → f s a = .ok s' → I (done ++ [a]) s') {l done : List α}
    {s s' : σ} (h0 : I done s) (h : l.foldlM f s = .ok s') : I (done ++ l) s' := by
  induction l generalizing done s with
  | nil =>
    rw [foldlM_nil_eq_ok.mp h, List.append_nil]
    exact h0
  | cons a l ih =>
    obtain ⟨t, ht, hl⟩ := foldlM_cons_eq_ok.mp h
    have := ih (step done a s t h0 ht) hl
    rwa [List.append_assoc] at this

/-- **The loop invariant rule**: what holds at the start, and is preserved by
each completed iteration, holds at the end. The invariant speaks of the elements
processed so far. -/
theorem foldlM_induction {I : List α → σ → Prop}
    (step : ∀ done a s s', I done s → f s a = .ok s' → I (done ++ [a]) s') {l : List α}
    {s s' : σ} (h0 : I [] s) (h : l.foldlM f s = .ok s') : I l s' :=
  foldlM_induction_from step h0 h

/-- The loop invariant rule for elements with their positions, part of the way. -/
theorem foldlM_zipIdx_induction_from {I : List α → σ → Prop} {f : σ → α × ℕ → Except ε σ}
    (step : ∀ done a s s', I done s → f s (a, done.length) = .ok s' → I (done ++ [a]) s')
    {l done : List α} {s s' : σ} (h0 : I done s)
    (h : (l.zipIdx done.length).foldlM f s = .ok s') : I (done ++ l) s' := by
  induction l generalizing done s with
  | nil =>
    rw [foldlM_nil_eq_ok.mp h, List.append_nil]
    exact h0
  | cons a l ih =>
    rw [List.zipIdx_cons] at h
    obtain ⟨t, ht, hl⟩ := foldlM_cons_eq_ok.mp h
    -- the next position is the length of what is then processed
    have hlen : (done ++ [a]).length = done.length + 1 := by
      rw [List.length_append, List.length_singleton]
    rw [← hlen] at hl
    have := ih (step done a s t h0 ht) hl
    rwa [List.append_assoc] at this

/-- **The loop invariant rule for elements with their positions**: each is
processed with the number of those before it. -/
theorem foldlM_zipIdx_induction {I : List α → σ → Prop} {f : σ → α × ℕ → Except ε σ}
    (step : ∀ done a s s', I done s → f s (a, done.length) = .ok s' → I (done ++ [a]) s')
    {l : List α} {s s' : σ} (h0 : I [] s) (h : l.zipIdx.foldlM f s = .ok s') : I l s' :=
  foldlM_zipIdx_induction_from step h0 h

/-- The invariant rule for a loop that cannot fail, part of the way. -/
theorem foldl_induction_from {g : σ → α → σ} {I : List α → σ → Prop}
    (step : ∀ done a s, I done s → I (done ++ [a]) (g s a)) {l done : List α} {s : σ}
    (h0 : I done s) : I (done ++ l) (l.foldl g s) := by
  induction l generalizing done s with
  | nil =>
    rw [List.append_nil]
    exact h0
  | cons a l ih =>
    have := ih (step done a s h0)
    rwa [List.append_assoc] at this

/-- **The invariant rule for a loop that cannot fail.** -/
theorem foldl_induction {g : σ → α → σ} {I : List α → σ → Prop}
    (step : ∀ done a s, I done s → I (done ++ [a]) (g s a)) {s : σ} (h0 : I [] s) (l : List α) :
    I l (l.foldl g s) :=
  foldl_induction_from step h0

/-! ### Collecting distinct values -/

section Insert

variable {κ : Type} [DecidableEq κ] {err : κ → ε}

/-- One insertion into a hash set, with an error if the value was there. -/
def insertNew (err : κ → ε) (seen : Finset κ) (k : κ) : Except ε (Finset κ) :=
  if k ∈ seen then .error (err k) else .ok (insert k seen)

/-- **A loop of insertions succeeds exactly when nothing repeats.** -/
theorem foldlM_insertNew {l : List κ} {seen seen' : Finset κ} :
    l.foldlM (insertNew err) seen = .ok seen' ↔
      (l.Nodup ∧ ∀ k ∈ l, k ∉ seen) ∧ seen' = seen ∪ l.toFinset := by
  induction l generalizing seen with
  | nil =>
    rw [foldlM_nil_eq_ok]
    simp
  | cons k l ih =>
    rw [foldlM_cons_eq_ok]
    constructor
    · rintro ⟨mid, hmid, hl⟩
      rw [insertNew] at hmid
      split_ifs at hmid with hk
      obtain rfl := Except.ok.inj hmid
      obtain ⟨⟨hnd, hnew⟩, rfl⟩ := ih.mp hl
      refine ⟨⟨List.nodup_cons.mpr ⟨fun h => ?_, hnd⟩, ?_⟩, ?_⟩
      · exact hnew k h (Finset.mem_insert_self _ _)
      · rintro j hj
        rcases List.mem_cons.mp hj with rfl | hj
        · exact hk
        · exact fun hs => hnew j hj (Finset.mem_insert_of_mem hs)
      · rw [List.toFinset_cons, Finset.insert_union, Finset.union_insert]
    · rintro ⟨⟨hnd, hnew⟩, rfl⟩
      obtain ⟨hk, hnd⟩ := List.nodup_cons.mp hnd
      refine ⟨insert k seen, if_neg (hnew k List.mem_cons_self), ih.mpr ⟨⟨hnd, fun j hj => ?_⟩, ?_⟩⟩
      · rw [Finset.mem_insert, not_or]
        exact ⟨fun h => hk (h ▸ hj), hnew j (List.mem_cons_of_mem _ hj)⟩
      · rw [List.toFinset_cons, Finset.insert_union, Finset.union_insert]

/-- **A loop of insertions fails at a value that was there.** -/
theorem foldlM_insertNew_eq_error {l : List κ} {seen : Finset κ} {e : ε}
    (h : l.foldlM (insertNew err) seen = .error e) :
    ∃ done k rest, l = done ++ k :: rest ∧ k ∈ seen ∪ done.toFinset ∧ e = err k := by
  obtain ⟨done, k, rest, mid, rfl, hdone, hk⟩ := foldlM_eq_error h
  obtain ⟨-, rfl⟩ := foldlM_insertNew.mp hdone
  rw [insertNew] at hk
  split_ifs at hk with hmem
  exact ⟨done, k, rest, rfl, hmem, (Except.error.inj hk).symm⟩

end Insert

end Loop

end AdMatch
