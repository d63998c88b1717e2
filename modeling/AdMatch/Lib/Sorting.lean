import Mathlib.Data.List.Destutter
import Mathlib.Data.List.Sort
import Mathlib.Data.Finset.Card

/-!
# Sorting

Two ways a program sorts. `AdMatch.Sorting.sortDedup` sorts and drops adjacent
repeats, turning a list into the canonical form of its *set* of elements: a
strictly increasing list, and two lists have the same one exactly when they have
the same elements. `AdMatch.Sorting.sortBy` sorts by a comparison function; where
that function compares a key and no two elements share one, the result is *the*
increasing rearrangement, so it depends neither on the order of the input nor on
the algorithm (`AdMatch.Sorting.eq_sortBy_of_perm`).
-/

namespace AdMatch

namespace Sorting

/-! ### Canonical forms of sets -/

section Dedup

variable {α : Type} [LinearOrder α]

/-- `sort_unstable` on an ordered type. -/
def sort (l : List α) : List α := l.insertionSort (· ≤ ·)

/-- `dedup`: of equal neighbours, only the first is kept. -/
def dedup (l : List α) : List α := l.destutter (· ≠ ·)

/-- Sorted, without repeats. -/
def sortDedup (l : List α) : List α := dedup (sort l)

theorem perm_sort (l : List α) : (sort l).Perm l := List.perm_insertionSort _ l

theorem pairwise_sort (l : List α) : (sort l).Pairwise (· ≤ ·) := List.pairwise_insertionSort _ l

theorem sortDedup_eq_dedup (l : List α) : sortDedup l = (sort l).dedup :=
  (pairwise_sort l).destutter_eq_dedup

@[simp] theorem mem_sortDedup {l : List α} {a : α} : a ∈ sortDedup l ↔ a ∈ l := by
  rw [sortDedup_eq_dedup, List.mem_dedup, (perm_sort l).mem_iff]

theorem nodup_sortDedup (l : List α) : (sortDedup l).Nodup := by
  rw [sortDedup_eq_dedup]
  exact List.nodup_dedup _

/-- **The canonical form is strictly increasing.** -/
theorem pairwise_sortDedup (l : List α) : (sortDedup l).Pairwise (· < ·) := by
  have hle : (sortDedup l).Pairwise (· ≤ ·) :=
    (pairwise_sort l).sublist (List.destutter_sublist _ _)
  exact hle.imp₂ (fun _ _ h hne => lt_of_le_of_ne h hne) (nodup_sortDedup l)

theorem length_sortDedup (l : List α) : (sortDedup l).length = l.toFinset.card := by
  rw [← List.toFinset_card_of_nodup (nodup_sortDedup l)]
  congr 1
  ext a
  rw [List.mem_toFinset, List.mem_toFinset, mem_sortDedup]

theorem sortDedup_eq_nil {l : List α} : sortDedup l = [] ↔ l = [] := by
  constructor
  · intro h
    refine List.eq_nil_iff_forall_not_mem.mpr fun a ha => ?_
    rw [← mem_sortDedup, h] at ha
    exact List.not_mem_nil ha
  · rintro rfl
    rfl

/-- **Counting decides containment**: of two lists without repeats, the first
contains the second exactly when as many of its elements are in the second as the
second has. -/
theorem countP_mem_eq_length_iff {l l' : List α} (hl : l.Nodup) (hl' : l'.Nodup) :
    l.countP (fun a => a ∈ l') = l'.length ↔ ∀ a ∈ l', a ∈ l := by
  have hperm : (l.filter fun a => a ∈ l').Perm (l'.filter fun a => a ∈ l) := by
    refine (List.perm_ext_iff_of_nodup (hl.filter _) (hl'.filter _)).mpr fun a => ?_
    simp only [List.mem_filter, decide_eq_true_eq]
    exact and_comm
  rw [List.countP_eq_length_filter, hperm.length_eq, List.length_filter_eq_length_iff]
  simp only [decide_eq_true_eq]

end Dedup

/-! ### Sorting by a comparison -/

section SortBy

variable {α β : Type}

/-- `sort_by`: a stable sort in which `a` may stand before `b` unless the
comparison puts it after. -/
def sortBy (cmp : α → α → Ordering) (l : List α) : List α :=
  l.insertionSort fun a b => cmp a b ≠ .gt

theorem perm_sortBy (cmp : α → α → Ordering) (l : List α) : (sortBy cmp l).Perm l :=
  List.perm_insertionSort _ l

@[simp] theorem mem_sortBy {cmp : α → α → Ordering} {l : List α} {a : α} :
    a ∈ sortBy cmp l ↔ a ∈ l :=
  (perm_sortBy cmp l).mem_iff

/-- Sorting an image is sorting by the comparison of images. -/
theorem map_sortBy (cmp : β → β → Ordering) (f : α → β) (l : List α) :
    (sortBy (fun a b => cmp (f a) (f b)) l).map f = sortBy cmp (l.map f) :=
  List.map_insertionSort _ _ f l fun _ _ _ _ => Iff.rfl

variable [LinearOrder β] {cmp : α → α → Ordering} {key : α → β}

/-- **A comparison by key**: an element goes after another exactly when its key
is greater. -/
def ComparesBy (cmp : α → α → Ordering) (key : α → β) : Prop :=
  ∀ a b, cmp a b = .gt ↔ key b < key a

theorem ComparesBy.ne_gt (h : ComparesBy cmp key) (a b : α) : cmp a b ≠ .gt ↔ key a ≤ key b := by
  rw [ne_eq, h a b, not_lt]

/-- The sorted list is increasing in the key. -/
theorem pairwise_sortBy (h : ComparesBy cmp key) (l : List α) :
    (sortBy cmp l).Pairwise fun a b => key a ≤ key b := by
  have : Std.Total fun a b => cmp a b ≠ .gt :=
    ⟨fun a b => by rw [h.ne_gt, h.ne_gt]; exact le_total _ _⟩
  have : IsTrans α fun a b => cmp a b ≠ .gt :=
    ⟨fun a b c => by rw [h.ne_gt, h.ne_gt, h.ne_gt]; exact le_trans⟩
  exact (List.pairwise_insertionSort _ l).imp fun hab => (h.ne_gt _ _).mp hab

/-- With distinct keys the order is strict. -/
theorem pairwise_lt_sortBy (h : ComparesBy cmp key) {l : List α} (hnd : (l.map key).Nodup) :
    (sortBy cmp l).Pairwise fun a b => key a < key b := by
  have hne : ((sortBy cmp l).map key).Nodup := ((perm_sortBy cmp l).map key).nodup_iff.mpr hnd
  refine (pairwise_sortBy h l).imp₂ (fun a b hle hkey => lt_of_le_of_ne hle hkey) ?_
  exact List.pairwise_map.mp hne

/-- **Where an element stands** in a strictly increasing list: after as many as
have a smaller key. -/
theorem countP_lt_eq_of_getElem? {l : List α}
    (hl : l.Pairwise fun a b => key a < key b) {i : ℕ} {a : α} (hi : l[i]? = some a) :
    l.countP (fun b => key b < key a) = i := by
  induction l generalizing i with
  | nil => cases hi
  | cons x l ih =>
    obtain ⟨hx, hl⟩ := List.pairwise_cons.mp hl
    cases i with
    | zero =>
      obtain rfl : x = a := Option.some.inj hi
      refine List.countP_eq_zero.mpr fun b hb => ?_
      rcases List.mem_cons.mp hb with rfl | hb
      · simp
      · simpa using (hx b hb).le
    | succ i =>
      have hget : l[i]? = some a := hi
      have hxa : key x < key a := hx a (List.mem_of_getElem? hget)
      rw [List.countP_cons_of_pos (by simpa using hxa), ih hl hget]

/-- **The sorted list is the only increasing rearrangement**, when keys are
distinct. -/
theorem eq_sortBy_of_perm (h : ComparesBy cmp key) {l l' : List α} (hnd : (l.map key).Nodup)
    (hperm : l'.Perm l) (hl' : l'.Pairwise fun a b => key a ≤ key b) : l' = sortBy cmp l := by
  have hanti : ∀ a b, a ∈ l' → b ∈ sortBy cmp l → key a ≤ key b → key b ≤ key a → a = b :=
    fun a b ha hb hab hba => List.inj_on_of_nodup_map hnd (hperm.mem_iff.mp ha)
      (mem_sortBy.mp hb) (le_antisymm hab hba)
  exact List.Perm.eq_of_pairwise hanti hl' (pairwise_sortBy h l)
    (hperm.trans (perm_sortBy cmp l).symm)

/-- **Sorting forgets the order of its input**, when keys are distinct. -/
theorem sortBy_congr_perm (h : ComparesBy cmp key) {l l' : List α} (hnd : (l.map key).Nodup)
    (hperm : l'.Perm l) : sortBy cmp l' = sortBy cmp l :=
  eq_sortBy_of_perm h hnd ((perm_sortBy cmp l').trans hperm) (pairwise_sortBy h l')

/-- **Sorting what is left is what is left of the sorted list**, when keys are
distinct. -/
theorem filter_sortBy (h : ComparesBy cmp key) {l : List α} (hnd : (l.map key).Nodup)
    (p : α → Bool) : (sortBy cmp l).filter p = sortBy cmp (l.filter p) :=
  eq_sortBy_of_perm h (hnd.sublist (List.filter_sublist.map key)) ((perm_sortBy cmp l).filter p)
    ((pairwise_sortBy h l).filter p)

/-- **Sorting one more element puts it somewhere** in the sorted list, when keys
are distinct, and leaves the rest as it was. -/
theorem exists_sortBy_cons_eq (h : ComparesBy cmp key) {a : α} {l : List α}
    (hnd : ((a :: l).map key).Nodup) :
    ∃ before after, sortBy cmp (a :: l) = before ++ a :: after ∧
      sortBy cmp l = before ++ after := by
  obtain ⟨before, after, heq⟩ :=
    List.append_of_mem (mem_sortBy.mpr List.mem_cons_self : a ∈ sortBy cmp (a :: l))
  refine ⟨before, after, heq, (eq_sortBy_of_perm h (List.nodup_cons.mp hnd).2 ?_ ?_).symm⟩
  · have hperm : (a :: (before ++ after)).Perm (a :: l) := by
      refine List.perm_middle.symm.trans ?_
      rw [← heq]
      exact perm_sortBy cmp _
    exact List.Perm.cons_inv hperm
  · have hsorted := pairwise_sortBy h (a :: l)
    rw [heq] at hsorted
    exact hsorted.sublist ((List.sublist_cons_self a after).append_left before)

end SortBy

/-! ### Filters -/

/-- Where keys are distinct, a key selects one element. -/
theorem filter_eq_singleton {α κ : Type} [DecidableEq κ] {key : α → κ} {l : List α}
    (h : (l.map key).Nodup) {a : α} (ha : a ∈ l) : l.filter (fun b => key b = key a) = [a] := by
  refine List.perm_singleton.mp ((List.perm_ext_iff_of_nodup (h.of_map.filter _)
    (List.nodup_singleton a)).mpr fun b => ?_)
  rw [List.mem_filter, decide_eq_true_eq, List.mem_singleton]
  constructor
  · rintro ⟨hb, hkey⟩
    exact List.inj_on_of_nodup_map h hb ha hkey
  · rintro rfl
    exact ⟨ha, rfl⟩

/-- **A filter that keeps whatever follows something kept** drops from the
front. -/
theorem exists_filter_eq_drop {α : Type} {p : α → Bool} {l : List α}
    (h : ∀ (i : ℕ) a b, l[i]? = some a → l[i + 1]? = some b → p a = true → p b = true) :
    ∃ k, l.filter p = l.drop k := by
  induction l with
  | nil => exact ⟨0, rfl⟩
  | cons a l ih =>
    by_cases hp : p a = true
    · refine ⟨0, List.filter_eq_self.mpr fun b hb => ?_⟩
      obtain ⟨i, hi⟩ := List.mem_iff_getElem?.mp hb
      induction i generalizing b with
      | zero => rwa [← Option.some.inj hi]
      | succ i ihi =>
        -- what follows is kept because what is before it is
        obtain ⟨hlt, -⟩ := List.getElem?_eq_some_iff.mp hi
        have hget := List.getElem?_eq_getElem (Nat.lt_of_succ_lt hlt)
        exact h i _ b hget hi (ihi _ (List.mem_of_getElem? hget) hget)
    · obtain ⟨k, hk⟩ := ih fun i b c hb hc => h (i + 1) b c hb hc
      exact ⟨k + 1, by rw [List.filter_cons_of_neg hp, hk, List.drop_succ_cons]⟩

end Sorting

end AdMatch
