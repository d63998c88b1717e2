import Mathlib.Algebra.GroupWithZero.Nat
import Mathlib.Data.List.AList
import Mathlib.Data.List.Perm.Basic

/-!
# Hash maps

A hash map is a finite map without an order. It is modelled by an association
list with distinct keys, and the one place where the representation could show –
iterating over the entries – goes through a
`AdMatch.HashMap.Shuffle`: an arbitrary rearrangement, quantified over in every
statement about a program that iterates.

Two loops that fill a map are read off once and for all:

* counting, `*m.entry(k).or_insert(0) += 1` for each `k` of a list
  (`AdMatch.HashMap.lookup_tally`);
* grouping, `m.entry(k).or_default().push(v)` for each `k` of a list
  (`AdMatch.HashMap.getD_pushAll`).
-/

namespace AdMatch

/-- A finite map, with an order of its entries that no reader may rely on. -/
abbrev HashMap (α β : Type) := AList fun _ : α => β

namespace HashMap

variable {α β : Type} [DecidableEq α]

/-! ### The entry interface -/

/-- `f` applied to `*m.entry(k).or_insert(d)`. -/
def entryModify (m : HashMap α β) (k : α) (d : β) (f : β → β) : HashMap α β :=
  m.insert k (f ((m.lookup k).getD d))

@[simp] theorem lookup_entryModify_self (m : HashMap α β) (k : α) (d : β) (f : β → β) :
    (m.entryModify k d f).lookup k = some (f ((m.lookup k).getD d)) :=
  AList.lookup_insert m

theorem lookup_entryModify_ne (m : HashMap α β) {k j : α} (h : j ≠ k) (d : β) (f : β → β) :
    (m.entryModify k d f).lookup j = m.lookup j :=
  AList.lookup_insert_ne h

/-- The number of entries. -/
def size (m : HashMap α β) : ℕ := m.entries.length

omit [DecidableEq α] in
@[simp] theorem size_empty : size (∅ : HashMap α β) = 0 := rfl

theorem size_insert {m : HashMap α β} {k : α} (h : m.lookup k = none) (b : β) :
    size (AList.insert k b m) = size m + 1 := by
  unfold size
  rw [AList.entries_insert_of_notMem (AList.lookup_eq_none.mp h), List.length_cons]

/-- `retain`: the entries whose key satisfies `p`. -/
def retain (p : α → Bool) (m : HashMap α β) : HashMap α β where
  entries := m.entries.filter fun e => p e.1
  nodupKeys := m.nodupKeys.sublist List.filter_sublist

theorem lookup_retain (p : α → Bool) (m : HashMap α β) (k : α) :
    (m.retain p).lookup k = if p k then m.lookup k else none := by
  refine Option.ext fun b => ?_
  rw [← Option.mem_def, AList.mem_lookup_iff]
  by_cases hp : p k = true
  · rw [if_pos hp, ← Option.mem_def, AList.mem_lookup_iff]
    simp [retain, hp]
  · rw [if_neg hp]
    simp [retain, hp]

/-! ### Iterating -/

/-- **An iteration order**: some rearrangement of any list of entries. -/
structure Shuffle (γ : Type) where
  /-- The order in which the entries are visited. -/
  visit : List γ → List γ
  /-- Every entry is visited exactly once. -/
  perm : ∀ l, (visit l).Perm l

/-- The order in which the entries are stored. -/
def Shuffle.id (γ : Type) : Shuffle γ := ⟨fun l => l, fun _ => List.Perm.refl _⟩

/-- The last stored entry first. -/
def Shuffle.reverse (γ : Type) : Shuffle γ := ⟨List.reverse, fun l => l.reverse_perm⟩

/-- The entries as pairs. -/
def toPairs (m : HashMap α β) : List (α × β) := m.entries.map fun e => (e.1, e.2)

theorem mem_toPairs {m : HashMap α β} {k : α} {b : β} :
    (k, b) ∈ m.toPairs ↔ m.lookup k = some b := by
  rw [← Option.mem_def, AList.mem_lookup_iff]
  unfold toPairs
  constructor
  · intro h
    obtain ⟨⟨k', b'⟩, he, heq⟩ := List.mem_map.mp h
    obtain ⟨rfl, rfl⟩ := Prod.mk.inj heq
    exact he
  · exact fun h => List.mem_map.mpr ⟨⟨k, b⟩, h, rfl⟩

/-- The values. -/
def values (m : HashMap α β) : List β := m.entries.map fun e => e.2

theorem mem_values {m : HashMap α β} {b : β} : b ∈ m.values ↔ ∃ k, m.lookup k = some b := by
  unfold values
  constructor
  · intro h
    obtain ⟨⟨k, b'⟩, he, rfl⟩ := List.mem_map.mp h
    exact ⟨k, AList.mem_lookup_iff.mpr he⟩
  · rintro ⟨k, h⟩
    exact List.mem_map.mpr ⟨⟨k, b⟩, AList.mem_lookup_iff.mp h, rfl⟩

/-- The values of a map whose entries record their own key have distinct keys. -/
theorem nodup_map_values {m : HashMap α β} {key : β → α}
    (h : ∀ k b, m.lookup k = some b → key b = k) : (m.values.map key).Nodup := by
  have hk : m.values.map key = m.keys := by
    unfold values AList.keys List.keys
    rw [List.map_map]
    exact List.map_congr_left fun e he => h e.1 e.2 (AList.mem_lookup_iff.mpr he)
  rw [hk]
  exact m.keys_nodup

/-! ### Counting -/

/-- One more occurrence of `k`. -/
def bump (m : HashMap α ℕ) (k : α) : HashMap α ℕ := m.entryModify k 0 (· + 1)

/-- **Counting occurrences**: after a bump for each element of a list, an entry
holds the number of times its key occurs, and a key that does not occur has no
entry. -/
theorem lookup_tally (l : List α) (m : HashMap α ℕ) (k : α) :
    (l.foldl bump m).lookup k =
      if l.count k = 0 then m.lookup k else some ((m.lookup k).getD 0 + l.count k) := by
  induction l generalizing m with
  | nil => simp
  | cons a l ih =>
    rw [List.foldl_cons, ih]
    by_cases ha : a = k
    · subst ha
      rw [List.count_cons_self, bump, lookup_entryModify_self, if_neg (Nat.succ_ne_zero _)]
      split
      · rename_i h0
        rw [h0]
      · simp only [Option.getD_some, Option.some.injEq]
        omega
    · rw [List.count_cons_of_ne ha, bump, lookup_entryModify_ne m (Ne.symm ha)]

/-- Adding one to a value adds one to the sum of the values, and so does a new entry
of one. -/
theorem sum_values_bump (m : HashMap α ℕ) (k : α) : (m.bump k).values.sum = m.values.sum + 1 := by
  have hentries : ((m.entries.kerase k).map fun e => e.2).sum + (m.lookup k).getD 0 =
      (m.entries.map fun e => e.2).sum := by
    rw [AList.lookup]
    induction m.entries with
    | nil => rfl
    | cons e entries ih =>
      by_cases he : k = e.1
      · rw [List.kerase_cons_eq he, List.map_cons, List.sum_cons]
        subst he
        rw [List.dlookup_cons_eq, Option.getD_some, Nat.add_comm]
      · rw [List.kerase_cons_ne he, List.map_cons, List.sum_cons, List.dlookup_cons_ne entries _ he,
          List.map_cons, List.sum_cons, Nat.add_assoc, ih]
  rw [bump, entryModify, values, AList.entries_insert, List.map_cons, List.sum_cons, values]
  dsimp only
  omega

/-- Starting from the empty map, the entries are exactly the elements that
occur, with their multiplicities. -/
theorem lookup_tally_empty (l : List α) (k : α) (n : ℕ) :
    (l.foldl bump ∅).lookup k = some n ↔ l.count k = n ∧ n ≠ 0 := by
  rw [lookup_tally, AList.lookup_empty, Option.getD_none, Nat.zero_add]
  split
  · rename_i h0
    rw [h0]
    constructor
    · exact fun h => absurd h (by simp)
    · rintro ⟨rfl, hn⟩
      exact absurd rfl hn
  · rename_i h0
    rw [Option.some.injEq]
    exact ⟨fun h => ⟨h, h ▸ h0⟩, fun h => h.1⟩

/-- The number of times that a key occurs. -/
theorem getD_tally_empty (l : List α) (k : α) :
    ((l.foldl bump ∅).lookup k).getD 0 = l.count k := by
  rw [lookup_tally, AList.lookup_empty]
  split
  · next hzero => rw [Option.getD_none, hzero]
  · rw [Option.getD_some, Option.getD_none, Nat.zero_add]

/-- In a concatenation of lists without repeats, an element occurs once per list
that contains it. -/
theorem count_flatMap {γ : Type} {f : γ → List α} (hf : ∀ c, (f c).Nodup) (l : List γ) (a : α) :
    (l.flatMap f).count a = l.countP fun c => a ∈ f c := by
  induction l with
  | nil => rfl
  | cons c l ih =>
    rw [List.flatMap_cons, List.count_append, ih, (hf c).count, List.countP_cons, Nat.add_comm]
    simp only [decide_eq_true_eq]

/-! ### Grouping -/

/-- `m.entry(k).or_default().push(v)`. -/
def push {γ : Type} (m : HashMap α (List γ)) (k : α) (v : γ) : HashMap α (List γ) :=
  m.entryModify k [] (· ++ [v])

theorem getD_push {γ : Type} (m : HashMap α (List γ)) (k j : α) (v : γ) :
    ((m.push k v).lookup j).getD [] = (m.lookup j).getD [] ++ if j = k then [v] else [] := by
  by_cases h : j = k
  · subst h
    rw [push, lookup_entryModify_self, if_pos rfl, Option.getD_some]
  · rw [push, lookup_entryModify_ne m h, if_neg h, List.append_nil]

/-- **Grouping under several keys**: pushing one value under each of a list of
distinct keys appends it to their groups and leaves the others alone. -/
theorem getD_pushAll {γ : Type} (v : γ) (ks : List α) (hks : ks.Nodup)
    (m : HashMap α (List γ)) (j : α) :
    ((ks.foldl (fun m k => m.push k v) m).lookup j).getD [] =
      (m.lookup j).getD [] ++ if j ∈ ks then [v] else [] := by
  induction ks generalizing m with
  | nil => simp
  | cons k ks ih =>
    obtain ⟨hk, hks'⟩ := List.nodup_cons.mp hks
    rw [List.foldl_cons, ih hks', getD_push]
    by_cases hj : j = k
    · subst hj
      rw [if_pos rfl, if_neg hk, if_pos List.mem_cons_self, List.append_nil]
    · have hiff : j ∈ k :: ks ↔ j ∈ ks := by simp [hj]
      rw [if_neg hj, List.append_nil]
      simp only [hiff]

end HashMap

end AdMatch
