import Mathlib.Algebra.BigOperators.Group.List.Basic
import Mathlib.Algebra.GroupWithZero.Nat
import Mathlib.Data.List.Induction
import Mathlib.Data.List.Perm.Basic

/-!
# Adding up over a list

The sum of the weights of the elements of a list, as a counter keeps it: what it does
when an element is appended (`AdMatch.Tally.sum_concat`) or replaced
(`AdMatch.Tally.sum_set`). And lists that hold the same, class by class, are
rearrangements of each other (`AdMatch.Tally.perm_flatMap_filter`).
-/

namespace AdMatch

namespace Tally

variable {α β : Type}

/-- The sum of the weights of the elements. -/
def sum (f : α → ℕ) (l : List α) : ℕ := (l.map f).sum

@[simp] theorem sum_nil (f : α → ℕ) : sum f [] = 0 := rfl

@[simp] theorem sum_cons (f : α → ℕ) (a : α) (l : List α) : sum f (a :: l) = f a + sum f l := by
  rw [sum, sum, List.map_cons, List.sum_cons]

theorem sum_append (f : α → ℕ) (l l' : List α) : sum f (l ++ l') = sum f l + sum f l' := by
  rw [sum, sum, sum, List.map_append, List.sum_append]

@[simp] theorem sum_concat (f : α → ℕ) (l : List α) (a : α) : sum f (l ++ [a]) = sum f l + f a := by
  rw [sum_append, sum_cons, sum_nil, Nat.add_zero]

/-- **Replacing an element replaces its weight.** -/
theorem sum_set {f : α → ℕ} {l : List α} {k : ℕ} {a : α} (h : l[k]? = some a) (b : α) :
    sum f (l.set k b) + f a = sum f l + f b := by
  induction l generalizing k with
  | nil => cases h
  | cons c l ih =>
    cases k with
    | zero =>
      obtain rfl : c = a := Option.some.inj h
      rw [List.set_cons_zero, sum_cons, sum_cons]
      omega
    | succ k =>
      have hrest := ih (k := k) h
      rw [List.set_cons_succ, sum_cons, sum_cons]
      omega

/-- An element that is replaced by one which satisfies a predicate in one more case adds
the case. -/
theorem exists_mem_set {p : α → Prop} {q : Prop} {l : List α} {k : ℕ} {a b : α}
    (h : l[k]? = some a) (hb : p b ↔ p a ∨ q) :
    (∃ x ∈ l.set k b, p x) ↔ (∃ x ∈ l, p x) ∨ q := by
  obtain ⟨hk, hget⟩ := List.getElem?_eq_some_iff.mp h
  have hmem : b ∈ l.set k b := List.mem_of_getElem? (List.getElem?_set_self hk)
  constructor
  · rintro ⟨x, hx, hp⟩
    rcases List.mem_or_eq_of_mem_set hx with hold | rfl
    · exact .inl ⟨x, hold, hp⟩
    · exact (hb.mp hp).imp (fun ha => ⟨a, List.mem_of_getElem? h, ha⟩) id
  · rintro (⟨x, hx, hp⟩ | hq)
    · obtain ⟨j, hj⟩ := List.mem_iff_getElem?.mp hx
      rcases eq_or_ne k j with rfl | hne
      · obtain rfl := Option.some.inj (hj.symm.trans h)
        exact ⟨b, hmem, hb.mpr (.inl hp)⟩
      · exact ⟨x, List.mem_of_getElem? ((List.getElem?_set_ne hne).trans hj), hp⟩
    · exact ⟨b, hmem, hb.mpr (.inr hq)⟩

/-- Replacing an element by one with the same image leaves the image as it is. -/
theorem map_set_of_eq {f : α → β} {l : List α} {k : ℕ} {a b : α} (h : l[k]? = some a)
    (hb : f b = f a) : (l.set k b).map f = l.map f := by
  obtain ⟨hk, rfl⟩ := List.getElem?_eq_some_iff.mp h
  rw [List.map_set, hb]
  refine List.ext_getElem? fun n => ?_
  rcases eq_or_ne k n with rfl | hne
  · rw [List.getElem?_set_self (by rwa [List.length_map]), List.getElem?_map, h, Option.map_some]
  · rw [List.getElem?_set_ne hne]

theorem sum_congr {f g : α → ℕ} {l : List α} (h : ∀ a ∈ l, f a = g a) : sum f l = sum g l := by
  rw [sum, sum, List.map_congr_left h]

theorem sum_add (f g : α → ℕ) (l : List α) : sum (fun a => f a + g a) l = sum f l + sum g l := by
  induction l with
  | nil => rfl
  | cons a l ih =>
    rw [sum_cons, sum_cons, sum_cons, ih]
    omega

/-- Elements of weight one are counted. -/
theorem sum_ite (p : α → Prop) [DecidablePred p] (l : List α) :
    sum (fun a => if p a then 1 else 0) l = l.countP fun a => p a := by
  induction l with
  | nil => rfl
  | cons a l ih =>
    rw [sum_cons, ih, List.countP_cons, Nat.add_comm]
    simp

theorem sum_eq_zero {f : α → ℕ} {l : List α} (h : ∀ a ∈ l, f a = 0) : sum f l = 0 := by
  induction l with
  | nil => rfl
  | cons a l ih =>
    rw [sum_cons, h a List.mem_cons_self, ih fun b hb => h b (List.mem_cons_of_mem _ hb)]

theorem sum_le {f g : α → ℕ} {l : List α} (h : ∀ a ∈ l, f a ≤ g a) : sum f l ≤ sum g l := by
  induction l with
  | nil => exact Nat.le_refl _
  | cons a l ih =>
    have hfirst := h a List.mem_cons_self
    have hrest := ih fun b hb => h b (List.mem_cons_of_mem _ hb)
    rw [sum_cons, sum_cons]
    omega

/-- What is picked is weighed where it is picked. -/
theorem sum_map_filterMap {M : Type} [AddMonoid M] (f : α → Option β) (g : β → M) (l : List α) :
    ((l.filterMap f).map g).sum = (l.map fun a => (f a).elim 0 g).sum := by
  induction l with
  | nil => rfl
  | cons a l ih =>
    rw [List.map_cons, List.sum_cons, ← ih]
    rcases hf : f a with _ | b
    · rw [List.filterMap_cons_none hf, Option.elim_none, zero_add]
    · rw [List.filterMap_cons_some hf, List.map_cons, List.sum_cons, Option.elim_some]

theorem sum_filterMap (f : α → Option β) (g : β → ℕ) (l : List α) :
    sum g (l.filterMap f) = sum (fun a => (f a).elim 0 g) l :=
  sum_map_filterMap f g l

/-- A list is weighed by its positions. -/
theorem sum_range_getElem? (g : α → ℕ) (l : List α) :
    sum (fun i => l[i]?.elim 0 g) (List.range l.length) = sum g l := by
  induction l using List.reverseRecOn with
  | nil => rfl
  | append_singleton l a ih =>
    rw [List.length_append, List.length_singleton, List.range_succ, sum_concat, sum_concat,
      List.getElem?_concat_length, Option.elim_some, ← ih]
    congr 1
    refine sum_congr fun i hi => ?_
    rw [List.getElem?_append_left (List.mem_range.mp hi)]

theorem length_filterMap (f : α → Option β) (l : List α) :
    (l.filterMap f).length = sum (fun a => if (f a).isSome then 1 else 0) l := by
  rw [List.length_filterMap_eq_countP, sum_ite]
  simp

/-- **Two ways to add up** a table. -/
theorem sum_comm (f : α → β → ℕ) (l : List α) (l' : List β) :
    sum (fun a => sum (f a) l') l = sum (fun b => sum (fun a => f a b) l) l' := by
  induction l with
  | nil => exact (sum_eq_zero fun _ _ => rfl).symm
  | cons a l ih =>
    rw [sum_cons, ih, ← sum_add]
    exact sum_congr fun b _ => (sum_cons (fun a => f a b) a l).symm

/-- Elements of one class each are counted class by class. -/
theorem sum_countP {f : α → β} [DecidableEq β] {l : List α} {classes : List β}
    (h : ∀ a ∈ l, classes.count (f a) = 1) :
    sum (fun c => (l.map f).count c) classes = l.length := by
  have hcount : ∀ c ∈ classes, (l.map f).count c = sum (fun a => if f a = c then 1 else 0) l := by
    intro c _
    rw [sum_ite, List.count, List.countP_map]
    exact List.countP_congr fun a _ => by simp
  have hone : ∀ a ∈ l, sum (fun c => if f a = c then 1 else 0) classes = 1 := by
    intro a ha
    rw [sum_ite, ← h a ha, List.count]
    refine List.countP_congr fun c _ => ?_
    rw [decide_eq_true_eq, beq_iff_eq]
    exact eq_comm
  rw [sum_congr hcount, sum_comm, sum_congr hone, sum, List.map_const',
    List.sum_replicate_nat, Nat.mul_one]

/-! ### Classes -/

/-- **A list is made up of its classes.** -/
theorem perm_flatMap_filter {f : α → ℕ} {n : ℕ} {l : List α} (h : ∀ a ∈ l, f a < n) :
    l.Perm ((List.range n).flatMap fun i => l.filter fun a => f a = i) := by
  induction n generalizing l with
  | zero =>
    rw [List.eq_nil_iff_forall_not_mem.mpr fun a ha => absurd (h a ha) (Nat.not_lt_zero _)]
    exact .nil
  | succ n ih =>
    have hlow := ih (l := l.filter fun a => f a < n) fun a ha => by
      simpa using (List.mem_filter.mp ha).2
    have hclass : ∀ i ∈ List.range n, ((l.filter fun a => f a < n).filter fun a => f a = i) =
        l.filter fun a => f a = i := by
      intro i hi
      rw [List.filter_filter]
      refine List.filter_congr fun a _ => ?_
      have := List.mem_range.mp hi
      by_cases ha : f a = i <;> simp [ha]
      exact this
    have htop : (l.filter fun a => !decide (f a < n)) = l.filter fun a => f a = n := by
      refine List.filter_congr fun a ha => ?_
      have := h a ha
      rw [← decide_not, decide_eq_decide]
      omega
    rw [List.range_succ, List.flatMap_append, List.flatMap_singleton,
      ← List.flatMap_congr hclass, ← htop]
    exact (List.filter_append_perm _ l).symm.trans (hlow.append_right _)

/-- A function with fewer values picks fewer. -/
theorem filterMap_sublist {f g : α → Option β} {l : List α}
    (h : ∀ a ∈ l, f a = none ∨ f a = g a) : (l.filterMap f).Sublist (l.filterMap g) := by
  induction l with
  | nil => exact .slnil
  | cons a l ih =>
    have hrest := ih fun b hb => h b (List.mem_cons_of_mem _ hb)
    rcases h a List.mem_cons_self with hnone | hsame
    · rw [List.filterMap_cons_none hnone]
      cases hg : g a with
      | none => rwa [List.filterMap_cons_none hg]
      | some b =>
        rw [List.filterMap_cons_some hg]
        exact hrest.cons _
    · cases hg : g a with
      | none => rwa [List.filterMap_cons_none hg, List.filterMap_cons_none (hsame.trans hg)]
      | some b =>
        rw [List.filterMap_cons_some hg, List.filterMap_cons_some (hsame.trans hg)]
        exact hrest.cons_cons _

end Tally

end AdMatch
