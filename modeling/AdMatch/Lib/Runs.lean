import Mathlib.Data.List.TakeWhile

/-!
# Maximal runs

The maximal runs of elements of a list that satisfy a predicate, the others
separating them. A list is either one run or a run, a separator and a rest
(`AdMatch.Runs.split_induction`), and everything here follows from the two
equations for these cases, `AdMatch.Runs.maximal_of_all` and
`AdMatch.Runs.maximal_append_cons`: what the runs of an image are
(`AdMatch.Runs.maximal_flatMap`, `AdMatch.Runs.maximal_map`), and that runs
joined by a separator are the runs of the result
(`AdMatch.Runs.maximal_intercalate`).
-/

namespace AdMatch

namespace Runs

variable {α β : Type} {p : α → Bool}

/-- The maximal runs of elements that satisfy `p`, in order. -/
def maximal (p : α → Bool) (l : List α) : List (List α) :=
  (l.splitOnP fun a => !p a).filter fun r => !r.isEmpty

@[simp] theorem maximal_nil (p : α → Bool) : maximal p [] = [] := by
  rw [maximal, List.splitOnP_nil]
  rfl

/-- A list of which everything satisfies `p` is one run. -/
theorem maximal_of_all {l : List α} (h : ∀ a ∈ l, p a = true) (hne : l ≠ []) :
    maximal p l = [l] := by
  rw [maximal, List.splitOnP_eq_singleton fun a ha => by rw [h a ha, Bool.not_true]]
  simp [hne]

/-- **A separator ends a run.** -/
theorem maximal_append_cons (l l' : List α) {a : α} (h : p a = false) :
    maximal p (l ++ a :: l') = maximal p l ++ maximal p l' := by
  rw [maximal, List.splitOnP_append_cons l l' (by rw [h, Bool.not_false]), List.filter_append]
  rfl

/-- **The induction over runs**: a list is all run, or a run, a separator and a
rest. -/
theorem split_induction (p : α → Bool) {motive : List α → Prop}
    (all : ∀ l, (∀ a ∈ l, p a = true) → motive l)
    (split : ∀ l a rest, (∀ b ∈ l, p b = true) → p a = false → motive rest →
      motive (l ++ a :: rest)) (l : List α) : motive l := by
  induction hn : l.length using Nat.strongRecOn generalizing l with
  | ind n ih =>
    rcases hrest : l.dropWhile p with _ | ⟨a, rest⟩
    · exact all l (List.dropWhile_eq_nil_iff.mp hrest)
    · have hl : l.takeWhile p ++ a :: rest = l := by rw [← hrest, List.takeWhile_append_dropWhile]
      have ha : p a = false := by
        have := List.head?_dropWhile_not p l
        rw [hrest] at this
        simpa using this
      have hlt : rest.length < n := by
        rw [← hn, ← hl, List.length_append, List.length_cons]
        omega
      rw [← hl]
      exact split _ a rest (fun b hb => List.mem_takeWhile_imp hb) ha (ih _ hlt rest rfl)

/-- Separators in a row separate as one does. -/
theorem maximal_append_all_neg {l l' sep : List α} (hne : sep ≠ [])
    (h : ∀ a ∈ sep, p a = false) : maximal p (l ++ sep ++ l') = maximal p l ++ maximal p l' := by
  induction sep generalizing l with
  | nil => exact absurd rfl hne
  | cons a sep ih =>
    have ha := h a List.mem_cons_self
    rcases sep with _ | ⟨b, sep⟩
    · rw [List.append_assoc, List.singleton_append, maximal_append_cons l l' ha]
    · have hrest := ih (l := []) (List.cons_ne_nil b sep)
        fun c hc => h c (List.mem_cons_of_mem _ hc)
      rw [List.append_assoc, List.cons_append, maximal_append_cons l _ ha]
      rw [List.nil_append, maximal_nil, List.nil_append] at hrest
      rw [hrest]

/-- A run is not empty, and all of it satisfies `p`. -/
theorem all_of_mem_maximal {l r : List α} (h : r ∈ maximal p l) :
    r ≠ [] ∧ ∀ a ∈ r, p a = true := by
  induction l using split_induction p with
  | all l hl =>
    rcases eq_or_ne l [] with rfl | hne
    · rw [maximal_nil] at h
      exact absurd h List.not_mem_nil
    · rw [maximal_of_all hl hne, List.mem_singleton] at h
      rw [h]
      exact ⟨hne, hl⟩
  | split l a rest hl ha ih =>
    rw [maximal_append_cons l rest ha] at h
    rcases List.mem_append.mp h with h | h
    · rcases eq_or_ne l [] with rfl | hne
      · rw [maximal_nil] at h
        exact absurd h List.not_mem_nil
      · rw [maximal_of_all hl hne, List.mem_singleton] at h
        rw [h]
        exact ⟨hne, hl⟩
    · exact ih h

/-- **What the runs contain**: every element that satisfies `p`. -/
theorem flatten_maximal (p : α → Bool) (l : List α) : (maximal p l).flatten = l.filter p := by
  have hall : ∀ l : List α, (∀ a ∈ l, p a = true) → (maximal p l).flatten = l.filter p := by
    intro l hl
    rw [List.filter_eq_self.mpr hl]
    rcases eq_or_ne l [] with rfl | hne
    · rw [maximal_nil, List.flatten_nil]
    · rw [maximal_of_all hl hne, List.flatten_singleton]
  induction l using split_induction p with
  | all l hl => exact hall l hl
  | split l a rest hl ha ih =>
    rw [maximal_append_cons l rest ha, List.flatten_append, hall l hl, ih, List.filter_append,
      List.filter_cons_of_neg (by rw [ha]; exact Bool.false_ne_true)]

/-- **The runs of an image**, when separators become separators: each run, mapped,
splits into runs of its own. -/
theorem maximal_flatMap {q : β → Bool} {f : α → List β}
    (hsep : ∀ a, p a = false → f a ≠ [] ∧ ∀ b ∈ f a, q b = false) (l : List α) :
    maximal q (l.flatMap f) = (maximal p l).flatMap fun r => maximal q (r.flatMap f) := by
  have hall : ∀ l : List α, (∀ a ∈ l, p a = true) →
      maximal q (l.flatMap f) = (maximal p l).flatMap fun r => maximal q (r.flatMap f) := by
    intro l hl
    rcases eq_or_ne l [] with rfl | hne
    · simp
    · rw [maximal_of_all hl hne, List.flatMap_singleton]
  induction l using split_induction p with
  | all l hl => exact hall l hl
  | split l a rest hl ha ih =>
    obtain ⟨hne, hneg⟩ := hsep a ha
    rw [List.flatMap_append, List.flatMap_cons, ← List.append_assoc,
      maximal_append_all_neg hne hneg, hall l hl, ih, maximal_append_cons l rest ha,
      List.flatMap_append]

/-- The runs of an image under a function that keeps the predicate. -/
theorem maximal_map {q : β → Bool} {f : α → β} (h : ∀ a, q (f a) = p a) (l : List α) :
    maximal q (l.map f) = (maximal p l).map (List.map f) := by
  have hall : ∀ l : List α, (∀ a ∈ l, p a = true) →
      maximal q (l.map f) = (maximal p l).map (List.map f) := by
    intro l hl
    rcases eq_or_ne l [] with rfl | hne
    · simp
    · rw [maximal_of_all hl hne,
        maximal_of_all _ (fun hnil => hne (List.map_eq_nil_iff.mp hnil)), List.map_singleton]
      intro b hb
      obtain ⟨a, ha, rfl⟩ := List.mem_map.mp hb
      rw [h, hl a ha]
  induction l using split_induction p with
  | all l hl => exact hall l hl
  | split l a rest hl ha ih =>
    rw [List.map_append, List.map_cons, maximal_append_cons _ _ (by rw [h, ha]), hall l hl, ih,
      maximal_append_cons l rest ha, List.map_append]

/-- What is in a join is the separator or in one of the parts. -/
theorem mem_of_mem_intercalate {sep a : α} (hne : a ≠ sep) {rs : List (List α)}
    (h : a ∈ [sep].intercalate rs) : ∃ r ∈ rs, a ∈ r := by
  induction rs with
  | nil => exact absurd h List.not_mem_nil
  | cons r rs ih =>
    rcases rs with _ | ⟨r', rs⟩
    · rw [List.intercalate_singleton] at h
      exact ⟨r, List.mem_cons_self, h⟩
    · rw [List.intercalate_cons_cons, List.append_assoc] at h
      rcases List.mem_append.mp h with h | h
      · exact ⟨r, List.mem_cons_self, h⟩
      · rcases List.mem_cons.mp h with rfl | h
        · exact absurd rfl hne
        · obtain ⟨s, hs, ha⟩ := ih h
          exact ⟨s, List.mem_cons_of_mem _ hs, ha⟩

/-- **Runs joined by a separator are the runs of the result.** -/
theorem maximal_intercalate {sep : α} (hsep : p sep = false) {rs : List (List α)}
    (h : ∀ r ∈ rs, r ≠ [] ∧ ∀ a ∈ r, p a = true) : maximal p ([sep].intercalate rs) = rs := by
  induction rs with
  | nil => rw [List.intercalate_nil, maximal_nil]
  | cons r rs ih =>
    obtain ⟨hne, hr⟩ := h r List.mem_cons_self
    rcases rs with _ | ⟨r', rs⟩
    · rw [List.intercalate_singleton, maximal_of_all hr hne]
    · rw [List.intercalate_cons_cons, List.append_assoc, List.singleton_append,
        maximal_append_cons _ _ hsep, maximal_of_all hr hne,
        ih fun s hs => h s (List.mem_cons_of_mem _ hs), List.singleton_append]

end Runs

end AdMatch
