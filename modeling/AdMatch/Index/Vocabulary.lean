import AdMatch.Index.Basic
import AdMatch.Lib.Loop

/-!
# Interning

What the vocabulary is worth: it numbers distinct tokens by distinct ids,
without gaps (`AdMatch.Vocab.Numbered`), it only ever grows
(`AdMatch.Vocab.Le`), and the id set of a text whose tokens it knows is the
image of the text's token set – so ids can be compared instead of tokens
(`AdMatch.Vocab.ids_eq_iff`, `AdMatch.Vocab.length_ids`), whatever else is
interned later (`AdMatch.Vocab.ids_mono`).
-/

namespace AdMatch

namespace Vocab

/-- **Every id in use numbers one token**, and they are used in order. -/
structure Numbered (v : Vocab) : Prop where
  /-- Ids are below the size. -/
  lt : ∀ t i, v.lookup t = some i → i.toNat < v.size
  /-- Distinct tokens have distinct ids. -/
  inj : ∀ t u i, v.lookup t = some i → v.lookup u = some i → t = u
  /-- Every number below the size is an id. -/
  surj : ∀ n < v.size, ∃ t i, v.lookup t = some i ∧ i.toNat = n

/-- `w` keeps every id of `v`. -/
def Le (v w : Vocab) : Prop := ∀ t i, v.lookup t = some i → w.lookup t = some i

theorem Le.refl (v : Vocab) : v.Le v := fun _ _ h => h

theorem Le.trans {u v w : Vocab} (h₁ : u.Le v) (h₂ : v.Le w) : u.Le w :=
  fun t i h => h₂ t i (h₁ t i h)

theorem numbered_empty : Numbered (∅ : Vocab) :=
  ⟨fun t i h => absurd h (by simp), fun t u i h => absurd h (by simp),
    fun n h => absurd h (by simp)⟩

/-- A new token, given the next number, leaves the vocabulary numbered. -/
theorem Numbered.insert {v : Vocab} (h : v.Numbered) {token : String}
    (hnew : v.lookup token = none) {next : TokenId} (hnext : next.toNat = v.size) :
    Numbered (AList.insert token next v) := by
  have hsize : HashMap.size (AList.insert token next v) = v.size + 1 := HashMap.size_insert hnew _
  have hold : ∀ {t i}, t ≠ token → (AList.insert token next v).lookup t = some i →
      v.lookup t = some i := fun hne hi => by rwa [AList.lookup_insert_ne hne] at hi
  have hself : ∀ {i}, (AList.insert token next v).lookup token = some i → i = next := fun hi => by
    rw [AList.lookup_insert] at hi
    exact (Option.some.inj hi).symm
  refine ⟨fun t i hi => ?_, fun t u i ht hu => ?_, fun n hn => ?_⟩
  · -- the new id is the old size
    rw [hsize]
    rcases eq_or_ne t token with rfl | hne
    · rw [hself hi]
      omega
    · exact Nat.lt_succ_of_lt (h.lt t i (hold hne hi))
  · -- the new id is above every old one, so it is shared with none
    by_cases hte : t = token <;> by_cases hue : u = token
    · rw [hte, hue]
    · rw [hte] at ht
      have := h.lt u i (hold hue hu)
      rw [hself ht] at this
      omega
    · rw [hue] at hu
      have := h.lt t i (hold hte ht)
      rw [hself hu] at this
      omega
    · exact h.inj t u i (hold hte ht) (hold hue hu)
  · rw [hsize] at hn
    rcases Nat.lt_succ_iff_lt_or_eq.mp hn with hlt | rfl
    · obtain ⟨t, i, hi, hin⟩ := h.surj n hlt
      have hne : t ≠ token := fun he => by
        rw [he, hnew] at hi
        cases hi
      exact ⟨t, i, by rwa [AList.lookup_insert_ne hne], hin⟩
    · exact ⟨token, next, AList.lookup_insert v, hnext⟩

/-- A new token keeps the ids of the others. -/
theorem le_insert {v : Vocab} {token : String} (hnew : v.lookup token = none) (next : TokenId) :
    v.Le (AList.insert token next v) := fun t i hi => by
  have hne : t ≠ token := fun he => by
    rw [he, hnew] at hi
    cases hi
  rwa [AList.lookup_insert_ne hne]

/-- Whether a vocabulary knows every token of a list. -/
def Knows (v : Vocab) (tokens : List String) : Prop := ∀ t ∈ tokens, ∃ i, v.lookup t = some i

theorem Knows.mono {v w : Vocab} (h : v.Le w) {tokens : List String} (hk : v.Knows tokens) :
    w.Knows tokens := fun t ht => by
  obtain ⟨i, hi⟩ := hk t ht
  exact ⟨i, h t i hi⟩

/-- Growing a vocabulary does not change the ids of what it knew. -/
theorem filterMap_lookup_mono {v w : Vocab} (h : v.Le w) {tokens : List String}
    (hk : v.Knows tokens) : (tokens.filterMap fun t => w.lookup t) =
      tokens.filterMap fun t => v.lookup t := by
  refine List.filterMap_congr fun t ht => ?_
  obtain ⟨i, hi⟩ := hk t ht
  rw [hi, h t i hi]

/-- The sorted id set of the tokens of a text. -/
def ids (v : Vocab) (tokens : List String) : List TokenId :=
  Sorting.sortDedup (tokens.filterMap fun t => v.lookup t)

theorem ids_mono {v w : Vocab} (h : v.Le w) {tokens : List String} (hk : v.Knows tokens) :
    w.ids tokens = v.ids tokens := by
  rw [ids, ids, filterMap_lookup_mono h hk]

theorem pairwise_ids (v : Vocab) (tokens : List String) : (v.ids tokens).Pairwise (· < ·) :=
  Sorting.pairwise_sortDedup _

theorem nodup_ids (v : Vocab) (tokens : List String) : (v.ids tokens).Nodup :=
  Sorting.nodup_sortDedup _

theorem mem_ids {v : Vocab} {tokens : List String} {i : TokenId} :
    i ∈ v.ids tokens ↔ ∃ t ∈ tokens, v.lookup t = some i := by
  rw [ids, Sorting.mem_sortDedup, List.mem_filterMap]

theorem ids_eq_nil {v : Vocab} {tokens : List String} (hk : v.Knows tokens) :
    v.ids tokens = [] ↔ tokens = [] := by
  rw [ids, Sorting.sortDedup_eq_nil, List.filterMap_eq_nil_iff]
  constructor
  · intro h
    refine List.eq_nil_iff_forall_not_mem.mpr fun t ht => ?_
    obtain ⟨i, hi⟩ := hk t ht
    exact absurd ((h t ht).symm.trans hi) (by simp)
  · rintro rfl t ht
    exact absurd ht List.not_mem_nil

/-- **Known tokens are contained in others exactly when their ids are.** -/
theorem ids_subset_iff {v : Vocab} (h : v.Numbered) {tokens tokens' : List String}
    (hk : v.Knows tokens) :
    (∀ i ∈ v.ids tokens, i ∈ v.ids tokens') ↔ tokens.toFinset ⊆ tokens'.toFinset := by
  constructor
  · intro hsub t ht
    rw [List.mem_toFinset] at ht ⊢
    obtain ⟨i, hi⟩ := hk t ht
    obtain ⟨u, hu, hui⟩ := mem_ids.mp (hsub i (mem_ids.mpr ⟨t, ht, hi⟩))
    rwa [h.inj t u i hi hui]
  · intro hsub i hi
    obtain ⟨t, ht, hti⟩ := mem_ids.mp hi
    exact mem_ids.mpr ⟨t, List.mem_toFinset.mp (hsub (List.mem_toFinset.mpr ht)), hti⟩

/-- **Known token sets are equal exactly when their id sets are.** -/
theorem ids_eq_iff {v : Vocab} (h : v.Numbered) {tokens tokens' : List String}
    (hk : v.Knows tokens) (hk' : v.Knows tokens') :
    v.ids tokens = v.ids tokens' ↔ tokens.toFinset = tokens'.toFinset := by
  constructor
  · intro heq
    exact Finset.Subset.antisymm ((ids_subset_iff h hk).mp fun i hi => heq ▸ hi)
      ((ids_subset_iff h hk').mp fun i hi => heq ▸ hi)
  · intro heq
    refine (pairwise_ids v tokens).eq_of_mem_iff (pairwise_ids v tokens') fun i => ⟨?_, ?_⟩
    · exact (ids_subset_iff h hk).mpr heq.subset i
    · exact (ids_subset_iff h hk').mpr heq.symm.subset i

/-- **As many ids as distinct tokens.** -/
theorem length_ids {v : Vocab} (h : v.Numbered) {tokens : List String} (hk : v.Knows tokens) :
    (v.ids tokens).length = tokens.toFinset.card := by
  have hnd : (v.ids tokens).toFinset.card = (v.ids tokens).length :=
    List.toFinset_card_of_nodup (nodup_ids v tokens)
  rw [← hnd]
  -- looking up is a bijection from the tokens to the ids
  refine (Finset.card_bij (fun t _ => (v.lookup t).getD ⟨0⟩) ?_ ?_ ?_).symm
  · intro t ht
    obtain ⟨i, hi⟩ := hk t (List.mem_toFinset.mp ht)
    rw [List.mem_toFinset, mem_ids]
    exact ⟨t, List.mem_toFinset.mp ht, by rw [hi]; rfl⟩
  · intro t ht u hu htu
    obtain ⟨i, hi⟩ := hk t (List.mem_toFinset.mp ht)
    obtain ⟨j, hj⟩ := hk u (List.mem_toFinset.mp hu)
    rw [hi, hj, Option.getD_some, Option.getD_some] at htu
    exact h.inj t u i hi (htu ▸ hj)
  · intro i hi
    obtain ⟨t, ht, hti⟩ := mem_ids.mp (List.mem_toFinset.mp hi)
    exact ⟨t, List.mem_toFinset.mpr ht, by rw [hti]; rfl⟩

end Vocab

/-! ### What interning does -/

namespace KeywordIndex

/-- **Interning one token**: the vocabulary grows by at most that token, and the
token's id is appended. -/
theorem internToken_eq_ok {v v' : Vocab} {ids ids' : List TokenId} {token : String}
    (hv : v.Numbered) (h : internToken (v, ids) token = .ok (v', ids')) :
    v.Le v' ∧ v'.Numbered ∧ ∃ i, v'.lookup token = some i ∧ ids' = ids ++ [i] := by
  rw [internToken] at h
  cases hnext : Machine.u32OfUsize v.size with
  | none =>
    simp only [hnext] at h
    cases h
  | some next =>
    have hn : (TokenId.mk next).toNat = v.size := Machine.u32OfUsize_eq_some hnext
    simp only [hnext] at h
    cases hold : v.lookup token with
    | some i =>
      simp only [hold] at h
      obtain ⟨rfl, rfl⟩ := Prod.mk.inj (Except.ok.inj h)
      exact ⟨Vocab.Le.refl v, hv, i, hold, rfl⟩
    | none =>
      simp only [hold] at h
      obtain ⟨rfl, rfl⟩ := Prod.mk.inj (Except.ok.inj h)
      exact ⟨Vocab.le_insert hold _, hv.insert hold hn, _, AList.lookup_insert v, rfl⟩

/-- The invariant of interning a list of tokens, from the vocabulary `v` and
the ids `ids`, once the tokens `done` are through. -/
structure Interned (v : Vocab) (ids : List TokenId) (done : List String)
    (state : Vocab × List TokenId) : Prop where
  le : v.Le state.1
  numbered : state.1.Numbered
  knows : state.1.Knows done
  eq : state.2 = ids ++ done.filterMap fun t => state.1.lookup t

/-- **Interning a list of tokens** makes them all known and collects their
ids. -/
theorem interned_foldlM {v : Vocab} (hv : v.Numbered) {tokens : List String}
    {state : Vocab × List TokenId} (h : tokens.foldlM internToken (v, []) = .ok state) :
    Interned v [] tokens state := by
  refine Loop.foldlM_induction (I := Interned v []) ?_
    ⟨Vocab.Le.refl v, hv, fun t ht => absurd ht List.not_mem_nil, rfl⟩ h
  rintro done token ⟨w, ids⟩ ⟨w', ids'⟩ ⟨hle, hnum, hknows, heq⟩ hstep
  obtain ⟨hle', hnum', i, hi, rfl⟩ := internToken_eq_ok hnum hstep
  refine ⟨hle.trans hle', hnum', fun t ht => ?_, ?_⟩
  · rcases List.mem_append.mp ht with ht | ht
    · exact hknows.mono hle' t ht
    · rw [List.mem_singleton.mp ht]
      exact ⟨i, hi⟩
  · -- the ids collected before stay as they are when the vocabulary grows
    simp only at heq hi ⊢
    rw [List.filterMap_append, Vocab.filterMap_lookup_mono hle' hknows, heq]
    simp [hi]

variable [Unicode]

/-- **Interning a text**: only the vocabulary changes, it grows, and it then
knows the text, whose id set is the result. -/
theorem internSet_eq_ok {index index' : KeywordIndex} {text : String} {tokens : List TokenId}
    (hv : index.vocab.Numbered) (h : index.internSet text = .ok (tokens, index')) :
    index' = { index with vocab := index'.vocab } ∧ index.vocab.Le index'.vocab ∧
      index'.vocab.Numbered ∧ index'.vocab.Knows (tokenize text) ∧
      tokens = index'.vocab.ids (tokenize text) := by
  rw [internSet] at h
  cases hf : (tokenize text).foldlM internToken (index.vocab, []) with
  | error e =>
    simp only [hf] at h
    cases h
  | ok state =>
    simp only [hf] at h
    obtain ⟨rfl, rfl⟩ := Prod.mk.inj (Except.ok.inj h)
    obtain ⟨hle, hnum, hknows, heq⟩ := interned_foldlM hv hf
    exact ⟨rfl, hle, hnum, hknows, congrArg Sorting.sortDedup heq⟩

end KeywordIndex

end AdMatch
