import Mathlib.Data.List.Perm.Basic
import Mathlib.Data.List.Infix

/-!
# Programs that draw random values

A program that asks a random generator for values, modelled over *every* sequence of
values that the generator may return: the sequence is an argument, each draw takes the
next value of it, and a value outside the range that the draw asks for ends the run.
What holds of every finished run – `AdMatch.Draw.Ensures`, partial correctness – then
holds whatever is drawn. It has one rule for each way of composing programs, and an
invariant rule for each of the two loops (`AdMatch.Draw.ensures_times`,
`AdMatch.Draw.ensures_loopWhile`).

A loop that draws until a condition holds need never end. It is run with as much fuel
as there are values left, which is never too little: when each iteration draws a value,
the loop unfolds as it should (`AdMatch.Draw.loopWhile_unfolds`).
-/

namespace AdMatch

/-- **A program that draws**: from the values that are to come, its result and the
values that are left – or nothing, if a value is not one that is asked for, if the values
run out, or if the program panics. -/
structure Draw (α : Type) where
  run : List ℕ → Option (α × List ℕ)
  /-- Values are taken from the front. -/
  suffix : ∀ draws a rest, run draws = some (a, rest) → rest <:+ draws

namespace Draw

variable {α β σ : Type}

/-! ### Composing -/

instance : Monad Draw where
  pure a := ⟨fun draws => some (a, draws), fun draws b rest h => by
    obtain ⟨-, rfl⟩ := Prod.mk.inj (Option.some.inj h)
    exact List.suffix_refl _⟩
  bind m f := ⟨fun draws => (m.run draws).bind fun r => (f r.1).run r.2,
    fun draws b rest h => by
      obtain ⟨⟨a, mid⟩, hm, hf⟩ := Option.bind_eq_some_iff.mp h
      exact ((f a).suffix mid b rest hf).trans (m.suffix draws a mid hm)⟩

theorem run_pure {a b : α} {draws rest : List ℕ} :
    (pure a : Draw α).run draws = some (b, rest) ↔ b = a ∧ rest = draws := by
  rw [show (pure a : Draw α).run draws = some (a, draws) from rfl, Option.some.injEq,
    Prod.mk.injEq, eq_comm, and_congr_right_iff]
  exact fun _ => eq_comm

theorem run_bind {m : Draw α} {f : α → Draw β} {b : β} {draws rest : List ℕ} :
    (m >>= f).run draws = some (b, rest) ↔
      ∃ a mid, m.run draws = some (a, mid) ∧ (f a).run mid = some (b, rest) := by
  rw [show (m >>= f).run draws = (m.run draws).bind fun r => (f r.1).run r.2 from rfl,
    Option.bind_eq_some_iff, Prod.exists]

/-- A result, or a panic. -/
def ofOption (o : Option α) : Draw α := ⟨fun draws => o.map fun a => (a, draws),
  fun draws a rest h => by
    obtain ⟨b, -, heq⟩ := Option.map_eq_some_iff.mp h
    exact (Prod.mk.inj heq).2 ▸ List.suffix_refl _⟩

/-! ### Drawing -/

/-- The next value, which must be one of those asked for. -/
def value (p : ℕ → Bool) : Draw ℕ where
  run
    | [] => none
    | v :: rest => if p v then some (v, rest) else none
  suffix draws a rest h := by
    cases draws with
    | nil => cases h
    | cons v draws =>
      simp only at h
      split_ifs at h
      obtain ⟨-, rfl⟩ := Prod.mk.inj (Option.some.inj h)
      exact List.suffix_cons _ _

/-- `random_range(lo..hi)`. -/
def randomRange (lo hi : ℕ) : Draw ℕ := value fun v => lo ≤ v ∧ v < hi

/-- `random_range(lo..=hi)`. -/
def randomRangeInclusive (lo hi : ℕ) : Draw ℕ := value fun v => lo ≤ v ∧ v ≤ hi

/-- `random_ratio(numerator, denominator)`: true for as many values as the ratio says. -/
def randomRatio (numerator denominator : ℕ) : Draw Bool := do
  let v ← randomRange 0 denominator
  return v < numerator

/-- `choose`: any element of a list, if it has one. -/
def choose (xs : List α) : Draw (Option α) :=
  if xs.isEmpty then pure none else do
    let i ← randomRange 0 xs.length
    return xs[i]?

/-- The given number of values. -/
def values : ℕ → Draw (List ℕ)
  | 0 => pure []
  | n + 1 => do
    let v ← value fun _ => true
    let vs ← values n
    return v :: vs

/-- `shuffle`: the elements in any order, drawn as the order of their positions. -/
def shuffle (xs : List α) : Draw (List α) := do
  let order ← values xs.length
  if order.isPerm (List.range xs.length) then return order.filterMap fun i => xs[i]?
  else ofOption none

/-! ### Loops -/

/-- `for _ in 0..n`. -/
def times (body : σ → Draw σ) : ℕ → σ → Draw σ
  | 0, s => pure s
  | n + 1, s => do
    let t ← body s
    times body n t

/-- `while cond`, for as many iterations as there is fuel. -/
def iterate (cond : σ → Bool) (body : σ → Draw σ) : ℕ → σ → Draw σ
  | 0, s => if cond s then ofOption none else pure s
  | n + 1, s => if cond s then body s >>= iterate cond body n else pure s

/-- `while cond`: there are no more iterations than values, when each draws one. -/
def loopWhile (cond : σ → Bool) (body : σ → Draw σ) (s : σ) : Draw σ where
  run draws := (iterate cond body draws.length s).run draws
  suffix draws a rest h := (iterate cond body draws.length s).suffix draws a rest h

/-! ### What every finished run ensures -/

/-- **Partial correctness**: whatever is drawn, a run that finishes has a result with
`P`. -/
def Ensures (m : Draw α) (P : α → Prop) : Prop :=
  ∀ draws a rest, m.run draws = some (a, rest) → P a

variable {m : Draw α} {f : α → Draw β} {P P' : α → Prop} {Q : β → Prop}

theorem ensures_pure {a : α} (h : P a) : Ensures (pure a) P := by
  intro draws b rest hrun
  rwa [(run_pure.mp hrun).1]

theorem Ensures.bind (hm : Ensures m P) (hf : ∀ a, P a → Ensures (f a) Q) :
    Ensures (m >>= f) Q := by
  intro draws b rest hrun
  obtain ⟨a, mid, ha, hb⟩ := run_bind.mp hrun
  exact hf a (hm draws a mid ha) mid b rest hb

theorem Ensures.mono (hm : Ensures m P) (h : ∀ a, P a → P' a) : Ensures m P' :=
  fun draws a rest hrun => h a (hm draws a rest hrun)

/-- What is drawn may not matter. -/
theorem ensures_bind (hf : ∀ a, Ensures (f a) Q) : Ensures (m >>= f) Q :=
  Ensures.bind (P := fun _ => True) (fun _ _ _ _ => trivial) fun a _ => hf a

theorem ensures_pure_bind {a : α} (h : Ensures (f a) Q) : Ensures (pure a >>= f) Q :=
  fun draws b rest hrun => h draws b rest hrun

theorem ensures_ite {c : Prop} [Decidable c] {m' : Draw α} (h : c → Ensures m P)
    (h' : ¬c → Ensures m' P) : Ensures (if c then m else m') P := by
  split_ifs with hc
  · exact h hc
  · exact h' hc

theorem ensures_ofOption {o : Option α} (h : ∀ a, o = some a → P a) : Ensures (ofOption o) P := by
  intro draws a rest hrun
  obtain ⟨b, hb, heq⟩ := Option.map_eq_some_iff.mp hrun
  rw [← (Prod.mk.inj heq).1]
  exact h b hb

theorem ensures_value (p : ℕ → Bool) : Ensures (value p) fun v => p v = true := by
  intro draws v rest hrun
  cases draws with
  | nil => cases hrun
  | cons w draws =>
    simp only [value] at hrun
    split_ifs at hrun with hp
    rwa [(Prod.mk.inj (Option.some.inj hrun)).1] at hp

theorem ensures_randomRange (lo hi : ℕ) : Ensures (randomRange lo hi) fun v => lo ≤ v ∧ v < hi :=
  (ensures_value _).mono fun _ h => of_decide_eq_true h

theorem ensures_randomRangeInclusive (lo hi : ℕ) :
    Ensures (randomRangeInclusive lo hi) fun v => lo ≤ v ∧ v ≤ hi :=
  (ensures_value _).mono fun _ h => of_decide_eq_true h

/-- What is chosen is an element. -/
theorem ensures_choose (xs : List α) : Ensures (choose xs) fun o => ∀ a, o = some a → a ∈ xs := by
  refine ensures_ite (fun _ => ensures_pure fun a h => ?_) fun _ => ensures_bind fun i =>
    ensures_pure fun a h => List.mem_of_getElem? h
  cases h

/-- The elements at all positions are the elements. -/
theorem filterMap_getElem?_range (xs : List α) :
    ((List.range xs.length).filterMap fun i => xs[i]?) = xs := by
  induction xs with
  | nil => rfl
  | cons x xs ih =>
    rw [List.length_cons, List.range_succ_eq_map, List.filterMap_cons, List.filterMap_map]
    exact congrArg (x :: ·) ih

/-- **A shuffled list has the elements of the list.** -/
theorem ensures_shuffle (xs : List α) : Ensures (shuffle xs) fun ys => ys.Perm xs := by
  refine ensures_bind fun order => ensures_ite (fun hperm => ensures_pure ?_) fun _ =>
    ensures_ofOption fun a h => ?_
  · have hys := (List.isPerm_iff.mp hperm).filterMap fun i => xs[i]?
    rwa [filterMap_getElem?_range] at hys
  · cases h

/-- **The invariant rule for a counted loop**, the invariant knowing how many iterations
have been completed. -/
theorem ensures_times {body : σ → Draw σ} {I : ℕ → σ → Prop} {n : ℕ}
    (hbody : ∀ i s, i < n → I i s → Ensures (body s) (I (i + 1))) {s : σ} (h : I 0 s) :
    Ensures (times body n s) (I n) := by
  have hfrom : ∀ k i s, i + k = n → I i s → Ensures (times body k s) (I n) := by
    intro k
    induction k with
    | zero =>
      rintro i s rfl hi
      exact ensures_pure hi
    | succ k ih =>
      intro i s hik hi
      exact (hbody i s (by omega) hi).bind fun t ht => ih (i + 1) t (by omega) ht
  exact hfrom n 0 s (Nat.zero_add n) h

/-- **A counted loop that collects**, one element in each iteration. -/
theorem ensures_times_append {body : List α → Draw (List α)}
    (hbody : ∀ xs, Ensures (body xs) fun ys => ∃ x, P x ∧ ys = xs ++ [x]) (n : ℕ) :
    Ensures (times body n []) fun xs => xs.length = n ∧ ∀ x ∈ xs, P x := by
  refine ensures_times (I := fun i xs => xs.length = i ∧ ∀ x ∈ xs, P x) (fun i xs _ hxs => ?_)
    ⟨rfl, fun x hx => absurd hx List.not_mem_nil⟩
  refine (hbody xs).mono ?_
  rintro - ⟨y, hy, rfl⟩
  refine ⟨?_, List.forall_mem_append.mpr ⟨hxs.2, List.forall_mem_singleton.mpr hy⟩⟩
  rw [List.length_append, List.length_singleton, hxs.1]

/-- **The invariant rule for a loop with a condition**, which fails in the end. -/
theorem ensures_loopWhile {cond : σ → Bool} {body : σ → Draw σ} {I : σ → Prop}
    (hbody : ∀ s, I s → cond s = true → Ensures (body s) I) {s : σ} (h : I s) :
    Ensures (loopWhile cond body s) fun t => I t ∧ cond t = false := by
  have hiterate : ∀ n s, I s → Ensures (iterate cond body n s) fun t => I t ∧ cond t = false := by
    intro n
    induction n with
    | zero =>
      intro s hs
      refine ensures_ite (fun _ => ensures_ofOption fun a ha => ?_) fun hc =>
        ensures_pure ⟨hs, Bool.eq_false_iff.mpr hc⟩
      cases ha
    | succ n ih =>
      intro s hs
      exact ensures_ite (fun hc => (hbody s hs hc).bind ih) fun hc =>
        ensures_pure ⟨hs, Bool.eq_false_iff.mpr hc⟩
  exact fun draws a rest hrun => hiterate draws.length s h draws a rest hrun

/-! ### Fuel -/

/-- Whether a program draws at least one value. -/
def Draws (m : Draw α) : Prop :=
  ∀ draws a rest, m.run draws = some (a, rest) → rest.length < draws.length

theorem draws_value (p : ℕ → Bool) : Draws (value p) := by
  intro draws v rest hrun
  cases draws with
  | nil => cases hrun
  | cons w draws =>
    simp only [value] at hrun
    split_ifs at hrun
    rw [← (Prod.mk.inj (Option.some.inj hrun)).2]
    exact Nat.lt_succ_self _

/-- A program that draws first does so whatever follows. -/
theorem Draws.bind (hm : Draws m) (f : α → Draw β) : Draws (m >>= f) := by
  intro draws b rest hrun
  obtain ⟨a, mid, ha, hb⟩ := run_bind.mp hrun
  exact ((f a).suffix mid b rest hb).length_le.trans_lt (hm draws a mid ha)

/-- A program that draws does not finish without values. -/
theorem Draws.run_nil (hm : Draws m) : m.run [] = none := by
  cases hrun : m.run [] with
  | none => rfl
  | some r => exact absurd (hm [] r.1 r.2 hrun) (Nat.not_lt_zero _)

section Fuel

variable {cond : σ → Bool} {body : σ → Draw σ}

theorem iterate_of_not (n : ℕ) {s : σ} (h : ¬cond s = true) : iterate cond body n s = pure s := by
  cases n with
  | zero => exact if_neg h
  | succ n => exact if_neg h

/-- Without values, a loop whose iterations draw makes none. -/
theorem run_iterate_nil (hbody : ∀ s, Draws (body s)) (n : ℕ) {s : σ} (h : cond s = true) :
    (iterate cond body n s).run [] = none := by
  cases n with
  | zero =>
    rw [iterate, if_pos h]
    rfl
  | succ n =>
    rw [iterate, if_pos h]
    exact ((hbody s).bind _).run_nil

/-- **Amounts of fuel that suffice make no difference.** -/
theorem run_iterate_congr (hbody : ∀ s, Draws (body s)) {n k : ℕ} {draws : List ℕ}
    (hn : draws.length ≤ n) (hk : draws.length ≤ k) (s : σ) :
    (iterate cond body n s).run draws = (iterate cond body k s).run draws := by
  by_cases hc : cond s = true
  · induction n generalizing k draws s with
    | zero =>
      obtain rfl := List.length_eq_zero_iff.mp (Nat.le_zero.mp hn)
      rw [run_iterate_nil hbody 0 hc, run_iterate_nil hbody k hc]
    | succ n ih =>
      cases k with
      | zero =>
        obtain rfl := List.length_eq_zero_iff.mp (Nat.le_zero.mp hk)
        rw [run_iterate_nil hbody _ hc, run_iterate_nil hbody 0 hc]
      | succ k =>
        rw [iterate, iterate, if_pos hc, if_pos hc]
        refine Option.bind_congr fun r hr => ?_
        -- what the iteration leaves is shorter, so less fuel suffices
        have hlt := hbody s draws r.1 r.2 hr
        by_cases hr1 : cond r.1 = true
        · exact ih (by omega) (by omega) r.1 hr1
        · rw [iterate_of_not n hr1, iterate_of_not k hr1]
  · rw [iterate_of_not n hc, iterate_of_not k hc]

/-- **A loop that unfolds as it should.** -/
def Unfolds (cond : σ → Bool) (body : σ → Draw σ) : Prop :=
  ∀ s draws, (loopWhile cond body s).run draws =
    (if cond s then body s >>= loopWhile cond body else pure s).run draws

/-- **The fuel of a loop is never too little**, if each iteration draws a value. -/
theorem loopWhile_unfolds (hbody : ∀ s, Draws (body s)) : Unfolds cond body := by
  intro s draws
  have hmore : (loopWhile cond body s).run draws =
      (iterate cond body (draws.length + 1) s).run draws :=
    run_iterate_congr hbody le_rfl (Nat.le_succ _) s
  rw [hmore, iterate]
  split_ifs with hc
  · refine Option.bind_congr fun r hr => ?_
    exact run_iterate_congr hbody (hbody s draws r.1 r.2 hr).le le_rfl r.1
  · rfl

end Fuel

end Draw

end AdMatch
