import AdMatch.Lib.HashMap
import AdMatch.Lib.Loop
import Mathlib.Order.Lattice

/-!
# Keeping the best of each group

Elements are offered one at a time to a map holding, for each group, the best
element seen so far; a newcomer replaces the incumbent only if its key is
strictly greater. Whatever the order of the offers, each group ends up with an
element of greatest key (`AdMatch.Best.keepsBest_offerAll`), and where the keys
of a group are distinct that element is determined
(`AdMatch.Best.IsBest.unique`).
-/

namespace AdMatch

namespace Best

variable {α κ β : Type} [LinearOrder β]

/-- **A best element of a predicate**: it satisfies it, with the greatest key. -/
structure IsBest (key : α → β) (P : α → Prop) (a : α) : Prop where
  /-- It is one of the elements. -/
  holds : P a
  /-- No element has a greater key. -/
  le : ∀ b, P b → key b ≤ key a

/-- Where distinct elements have distinct keys, there is only one best
element. -/
theorem IsBest.unique {key : α → β} {P : α → Prop}
    (hinj : ∀ a b, P a → P b → key a = key b → a = b) {a b : α}
    (ha : IsBest key P a) (hb : IsBest key P b) : a = b :=
  hinj a b ha.holds hb.holds (le_antisymm (hb.le a ha.holds) (ha.le b hb.holds))

theorem IsBest.congr {key : α → β} {P Q : α → Prop} (h : ∀ a, P a ↔ Q a) {a : α}
    (ha : IsBest key P a) : IsBest key Q a :=
  ⟨(h a).mp ha.holds, fun b hb => ha.le b ((h b).mpr hb)⟩

/-- A nonempty list has a best element; this is one, the first of them. -/
def best (key : α → β) : List α → Option α
  | [] => none
  | a :: rest =>
    match best key rest with
    | none => some a
    | some b => if key a < key b then some b else some a

@[simp] theorem best_eq_none {key : α → β} {l : List α} : best key l = none ↔ l = [] := by
  cases l with
  | nil => exact ⟨fun _ => rfl, fun _ => rfl⟩
  | cons a rest =>
    refine ⟨fun h => ?_, fun h => absurd h (by simp)⟩
    rw [best] at h
    cases hr : best key rest with
    | none => simp [hr] at h
    | some b =>
      simp only [hr] at h
      split_ifs at h

/-- **The element found is a best one.** -/
theorem isBest_best {key : α → β} {l : List α} {a : α} (h : best key l = some a) :
    IsBest key (· ∈ l) a := by
  induction l generalizing a with
  | nil => cases h
  | cons x rest ih =>
    rw [best] at h
    cases hr : best key rest with
    | none =>
      obtain rfl := best_eq_none.mp hr
      simp only [hr, Option.some.injEq] at h
      subst h
      refine ⟨List.mem_cons_self, fun b hb => ?_⟩
      rw [List.mem_singleton.mp hb]
    | some b =>
      obtain ⟨hmem, hle⟩ := ih hr
      simp only [hr] at h
      split_ifs at h with hlt
      · -- the best of the rest is strictly better
        obtain rfl := Option.some.inj h
        refine ⟨List.mem_cons_of_mem _ hmem, fun c hc => ?_⟩
        rcases List.mem_cons.mp hc with rfl | hc
        · exact hlt.le
        · exact hle c hc
      · -- a tie goes to the first
        obtain rfl := Option.some.inj h
        refine ⟨List.mem_cons_self, fun c hc => ?_⟩
        rcases List.mem_cons.mp hc with rfl | hc
        · exact le_refl _
        · exact (hle c hc).trans (not_lt.mp hlt)

/-- Where distinct elements have distinct keys, the best element of a list is
the one found. -/
theorem best_eq_some_iff {key : α → β} {l : List α}
    (hinj : ∀ a b, a ∈ l → b ∈ l → key a = key b → a = b) {a : α} :
    best key l = some a ↔ IsBest key (· ∈ l) a := by
  refine ⟨isBest_best, fun h => ?_⟩
  cases hb : best key l with
  | none =>
    have ha : a ∈ l := h.holds
    rw [best_eq_none.mp hb] at ha
    exact absurd ha List.not_mem_nil
  | some b => exact congrArg some (IsBest.unique hinj (isBest_best hb) h)

/-- The best element does not depend on the order of the list. -/
theorem best_perm {key : α → β} {l l' : List α} (hperm : l.Perm l')
    (hinj : ∀ a b, a ∈ l → b ∈ l → key a = key b → a = b) : best key l = best key l' := by
  have hinj' : ∀ a b, a ∈ l' → b ∈ l' → key a = key b → a = b := fun a b ha hb =>
    hinj a b (hperm.mem_iff.mpr ha) (hperm.mem_iff.mpr hb)
  refine Option.ext fun a => ?_
  rw [best_eq_some_iff hinj, best_eq_some_iff hinj']
  exact ⟨fun h => h.congr fun _ => hperm.mem_iff, fun h => h.congr fun _ => hperm.mem_iff.symm⟩

/-- The best of an image under a map that keeps keys. -/
theorem best_map {γ : Type} {key : α → β} (key' : γ → β) {f : γ → α}
    (hkey : ∀ c, key (f c) = key' c) (l : List γ) : best key (l.map f) = (best key' l).map f := by
  induction l with
  | nil => rfl
  | cons c rest ih =>
    rw [List.map_cons, best, best, ih]
    cases best key' rest with
    | none => rfl
    | some b =>
      simp only [Option.map_some, hkey]
      split_ifs <;> rfl

variable [DecidableEq κ] (group : α → κ) (key : α → β)

/-- One offer: the newcomer takes an empty place, or that of an incumbent of
strictly smaller key. -/
def offer (m : HashMap κ α) (a : α) : HashMap κ α :=
  match m.lookup (group a) with
  | none => AList.insert (group a) a m
  | some b => if key b < key a then AList.insert (group a) a m else m

/-- The invariant of the offers: each group that has been offered something
holds a best element of what it was offered. -/
structure KeepsBest (offered : List α) (m : HashMap κ α) : Prop where
  /-- What a group holds is its best offer. -/
  best : ∀ k a, m.lookup k = some a → IsBest key (fun b => b ∈ offered ∧ group b = k) a
  /-- Only a group without offers holds nothing. -/
  missing : ∀ k, m.lookup k = none → ∀ b ∈ offered, group b ≠ k

variable {group key}

theorem keepsBest_empty : KeepsBest group key [] (∅ : HashMap κ α) :=
  ⟨fun k a h => absurd h (by simp), fun k _ b hb => absurd hb (by simp)⟩

/-- Where distinct offers to a group have distinct keys, what the group holds is
its only best offer. -/
theorem KeepsBest.lookup_eq_some_iff {offered : List α} {m : HashMap κ α}
    (h : KeepsBest group key offered m) {k : κ}
    (hinj : ∀ a b, (a ∈ offered ∧ group a = k) → (b ∈ offered ∧ group b = k) →
      key a = key b → a = b) {a : α} :
    m.lookup k = some a ↔ IsBest key (fun b => b ∈ offered ∧ group b = k) a := by
  refine ⟨h.best k a, fun ha => ?_⟩
  cases hl : m.lookup k with
  | none => exact absurd ha.holds.2 (h.missing k hl a ha.holds.1)
  | some b => exact congrArg some (IsBest.unique hinj (h.best k b hl) ha)

/-- The first offer to a group, or a better one, is its best. -/
private theorem KeepsBest.replace {offered : List α} {m : HashMap κ α}
    (h : KeepsBest group key offered m) {a : α}
    (ha : ∀ b ∈ offered, group b = group a → key b ≤ key a) :
    KeepsBest group key (offered ++ [a]) (AList.insert (group a) a m) := by
  constructor
  · intro k c hc
    by_cases hk : k = group a
    · subst hk
      rw [AList.lookup_insert, Option.some.injEq] at hc
      subst hc
      refine ⟨⟨by simp, rfl⟩, fun b hb => ?_⟩
      rcases List.mem_append.mp hb.1 with hmem | hmem
      · exact ha b hmem hb.2
      · rw [List.mem_singleton.mp hmem]
    · rw [AList.lookup_insert_ne hk] at hc
      obtain ⟨⟨hmem, hg⟩, hle⟩ := h.best k c hc
      refine ⟨⟨List.mem_append_left _ hmem, hg⟩, fun b hb => ?_⟩
      rcases List.mem_append.mp hb.1 with hb' | hb'
      · exact hle b ⟨hb', hb.2⟩
      · exact absurd (List.mem_singleton.mp hb' ▸ hb.2) (Ne.symm hk)
  · intro k hk b hb
    have hne : k ≠ group a := by
      rintro rfl
      rw [AList.lookup_insert] at hk
      exact absurd hk (by simp)
    rw [AList.lookup_insert_ne hne] at hk
    rcases List.mem_append.mp hb with hb | hb
    · exact h.missing k hk b hb
    · rw [List.mem_singleton.mp hb]
      exact hne.symm

/-- An offer that does not beat the incumbent changes nothing. -/
private theorem KeepsBest.reject {offered : List α} {m : HashMap κ α}
    (h : KeepsBest group key offered m) {a c : α} (hc : m.lookup (group a) = some c)
    (hle : key a ≤ key c) : KeepsBest group key (offered ++ [a]) m := by
  constructor
  · intro k d hd
    obtain ⟨⟨hmem, hg⟩, hbest⟩ := h.best k d hd
    refine ⟨⟨List.mem_append_left _ hmem, hg⟩, fun b hb => ?_⟩
    rcases List.mem_append.mp hb.1 with hb' | hb'
    · exact hbest b ⟨hb', hb.2⟩
    · obtain rfl := List.mem_singleton.mp hb'
      obtain rfl : d = c := Option.some.inj (hd.symm.trans (hb.2 ▸ hc))
      exact hle
  · intro k hk b hb
    rcases List.mem_append.mp hb with hb | hb
    · exact h.missing k hk b hb
    · rw [List.mem_singleton.mp hb]
      rintro rfl
      exact absurd (hk.symm.trans hc) (by simp)

/-- **One offer preserves the invariant.** -/
theorem KeepsBest.offer {offered : List α} {m : HashMap κ α}
    (h : KeepsBest group key offered m) (a : α) :
    KeepsBest group key (offered ++ [a]) (offer group key m a) := by
  unfold Best.offer
  cases hc : m.lookup (group a) with
  | none => exact h.replace fun b hb hg => absurd hg (h.missing _ hc b hb)
  | some c =>
    obtain ⟨-, hbest⟩ := h.best _ c hc
    by_cases hlt : key c < key a
    · simp only [hlt, if_true]
      exact h.replace fun b hb hg => (hbest b ⟨hb, hg⟩).trans hlt.le
    · simp only [hlt, if_false]
      exact h.reject hc (not_lt.mp hlt)

/-- **Every sequence of offers leaves each group with its best.** -/
theorem keepsBest_offerAll (l : List α) :
    KeepsBest group key l (l.foldl (Best.offer group key) ∅) :=
  Loop.foldl_induction (I := KeepsBest group key) (fun _ a _ h => h.offer a) keepsBest_empty l

end Best

end AdMatch
