import AdMatch.Counters.Basic

/-!
# What holds between the steps

A step either moves one call on and leaves the counters alone, or creates a counter at
zero, or adds to one, or drops some (`AdMatch.Counters.Steps`). Two facts survive them
all (`AdMatch.Counters.Inv`): a call that refers to a counter refers to the one the map
has for its key, so there is never a second one; and no counter has held more than it
holds, so a refusal that rests on an old value is right at the moment it is made.
-/

namespace AdMatch

namespace Counters

variable {ι Day : Type} [DecidableEq ι] [LinearOrder Day]

/-! ### The cases of a step -/

/-- **What an event can lead to**, case by case. -/
inductive Steps (calls : ι → Spend Day) (s : State ι Day) : Event ι Day → State ι Day → Prop
  | refuse {i : ι} (hstage : s.stage i = .called) (hamount : (calls i).amount.toInt ≤ 0) :
      Steps calls s (.get i)
        (s.advance i (.returned (.error (.invalidAmount (calls i).amount))))
  | hit {i : ι} {a : ℕ} (hstage : s.stage i = .called) (hamount : 0 < (calls i).amount.toInt)
      (hlookup : s.counters.lookup (calls i).key = some a) :
      Steps calls s (.get i) (s.advance i (.found a))
  | miss {i : ι} (hstage : s.stage i = .called) (hamount : 0 < (calls i).amount.toInt) :
      Steps calls s (.get i) (s.advance i .missed)
  | join {i : ι} {a : ℕ} (hstage : s.stage i = .missed)
      (hlookup : s.counters.lookup (calls i).key = some a) :
      Steps calls s (.entry i) (s.advance i (.found a))
  | create {i : ι} (hstage : s.stage i = .missed)
      (hlookup : s.counters.lookup (calls i).key = none) :
      Steps calls s (.entry i) ((s.create (calls i).key).advance i (.found s.heap.length))
  | read {i : ι} {n a : ℕ} {v : Int64} {e : Event ι Day} (he : e = .load i n ∨ e = .fail i n)
      (hguard : (s.stage i).guard = some a) (hread : s.read a n = some v) :
      Steps calls s e (s.advance i ((calls i).proceed a v))
  | swap {i : ι} {a : ℕ} {c : Counter} {next : Int64} (hstage : s.stage i = .read a c.value)
      (hheap : s.heap[a]? = some c) (hnext : (calls i).nextSpent c.value = some next) :
      Steps calls s (.swap i) ((s.write a c next).advance i (.returned (.ok true)))
  | drop {today : Day} (hguard : ∀ i a, (s.stage i).guard = some a → today ≤ (calls i).day) :
      Steps calls s (.drop today)
        { s with counters := s.counters.retain fun key => key.2 ≥ today }

variable {calls : ι → Spend Day} {s t : State ι Day} {e : Event ι Day}

/-- **Every step is one of these cases.** -/
theorem steps_of_step [Fintype ι] (h : step calls s e = some t) : Steps calls s e t := by
  cases e with
  | get i =>
    rw [step] at h
    split at h
    · rename_i hstage
      have hiff : (calls i).amount.val ≤ 0 ↔ (calls i).amount.toInt ≤ 0 := Int64.le_iff_toInt_le
      split_ifs at h with hamount
      · rw [← Option.some.inj h]
        exact .refuse hstage (hiff.mp hamount)
      · have hpos : 0 < (calls i).amount.toInt := not_le.mp (mt hiff.mpr hamount)
        split at h
        · rename_i a hlookup
          rw [← Option.some.inj h]
          exact .hit hstage hpos hlookup
        · rw [← Option.some.inj h]
          exact .miss hstage hpos
    · cases h
  | entry i =>
    rw [step] at h
    split at h
    · rename_i hstage
      split at h
      · rename_i a hlookup
        rw [← Option.some.inj h]
        exact .join hstage hlookup
      · rename_i hlookup
        rw [← Option.some.inj h]
        exact .create hstage hlookup
    · cases h
  | load i n =>
    rw [step] at h
    split at h
    · rename_i a hstage
      obtain ⟨v, hread, rfl⟩ := Option.map_eq_some_iff.mp h
      exact .read (.inl rfl) (by rw [hstage]; rfl) hread
    · cases h
  | swap i =>
    rw [step] at h
    split at h
    · rename_i a prev hstage
      split at h
      · rename_i c next hheap hnext
        split_ifs at h with hprev
        subst hprev
        rw [← Option.some.inj h]
        exact .swap hstage hheap hnext
      · cases h
    · cases h
  | fail i n =>
    rw [step] at h
    split at h
    · rename_i a prev hstage
      obtain ⟨v, hread, rfl⟩ := Option.map_eq_some_iff.mp h
      exact .read (.inr rfl) (by rw [hstage]; rfl) hread
    · cases h
  | drop today =>
    rw [step] at h
    split_ifs at h with hguard
    rw [← Option.some.inj h]
    refine .drop fun i a ha => hguard i ?_
    rw [ha]
    rfl

omit [DecidableEq ι] [LinearOrder Day] in
/-- Both kinds of reading are steps of the call that reads. -/
theorem caller_of_read {i : ι} {n : ℕ} (he : e = .load i n ∨ e = .fail i n) :
    e.caller = some i := by
  rcases he with rfl | rfl <;> rfl

/-! ### The closure of `fetch_update` -/

omit [LinearOrder Day] in
/-- **A value is replaced by the exact sum**, and only if that is within the budget. -/
theorem Spend.nextSpent_eq_some {call : Spend Day} (hpos : 0 < call.amount.toInt) {v next : Int64}
    (h : call.nextSpent v = some next) : next.toInt = v.toInt + call.amount.toInt ∧
      v.toInt + call.amount.toInt ≤ call.dailyBudget.toInt := by
  obtain ⟨hok, hval⟩ := MemoryBudgets.addWithin_eq call.dailyBudget v hpos
  have hfilter : ((Machine.checkedAddI64 v call.amount.val).filter fun total =>
      total ≤ call.dailyBudget.val) = some next := h
  rw [MemoryBudgets.addWithin, hfilter] at hok hval
  have hle := of_decide_eq_true hok.symm
  rw [if_pos hle] at hval
  exact ⟨hval, hle⟩

omit [LinearOrder Day] in
/-- **A call gives up only when the exact sum is above the budget.** -/
theorem Spend.nextSpent_eq_none {call : Spend Day} (hpos : 0 < call.amount.toInt) {v : Int64}
    (h : call.nextSpent v = none) :
    call.dailyBudget.toInt < v.toInt + call.amount.toInt := by
  obtain ⟨hok, -⟩ := MemoryBudgets.addWithin_eq call.dailyBudget v hpos
  have hfilter : ((Machine.checkedAddI64 v call.amount.val).filter fun total =>
      total ≤ call.dailyBudget.val) = none := h
  rw [MemoryBudgets.addWithin, hfilter] at hok
  exact not_le.mp (of_decide_eq_false hok.symm)

/-! ### The invariant -/

/-- **What holds between the steps.** -/
structure Inv (calls : ι → Spend Day) (s : State ι Day) : Prop where
  /-- The map refers to counters that exist. -/
  allocated : ∀ key a, s.counters.lookup key = some a → a < s.heap.length
  /-- Distinct keys have distinct counters. -/
  distinct : ∀ key key' a, s.counters.lookup key = some a → s.counters.lookup key' = some a →
    key = key'
  /-- A call that refers to a counter refers to the one of its key. -/
  guarded : ∀ i a, (s.stage i).guard = some a → s.counters.lookup (calls i).key = some a
  /-- Only a call with a positive amount looks for a counter. -/
  positive : ∀ i, s.stage i = .missed ∨ (s.stage i).guard.isSome → 0 < (calls i).amount.toInt
  /-- No counter has held more than it holds. -/
  growing : ∀ (a : ℕ) (c : Counter), s.heap[a]? = some c → ∀ v ∈ c.held, v.toInt ≤ c.value.toInt

namespace Inv

omit [DecidableEq ι] in
/-- A call that refers to a counter has a positive amount. -/
theorem pos_of_guard (h : Inv calls s) {i : ι} {a : ℕ} (hguard : (s.stage i).guard = some a) :
    0 < (calls i).amount.toInt := by
  refine h.positive i (.inr ?_)
  rw [hguard]
  rfl

/-- A call moves on, and refers to the counter of its key if to any. -/
theorem advance (h : Inv calls s) {i : ι} {stage : Stage}
    (hguard : ∀ a, stage.guard = some a → s.counters.lookup (calls i).key = some a)
    (hpos : stage = .missed ∨ stage.guard.isSome → 0 < (calls i).amount.toInt) :
    Inv calls (s.advance i stage) := by
  refine ⟨h.allocated, h.distinct, fun j a hj => ?_, fun j hj => ?_, h.growing⟩
  · rcases eq_or_ne j i with rfl | hne
    · rw [State.advance_stage_self] at hj
      exact hguard a hj
    · rw [State.advance_stage_ne _ hne] at hj
      exact h.guarded j a hj
  · rcases eq_or_ne j i with rfl | hne
    · rw [State.advance_stage_self] at hj
      exact hpos hj
    · rw [State.advance_stage_ne _ hne] at hj
      exact h.positive j hj

omit [DecidableEq ι] in
/-- A key without a counter gets one that no other key has. -/
theorem create (h : Inv calls s) {key : CampaignId × Day} (hkey : s.counters.lookup key = none) :
    Inv calls (s.create key) := by
  have hnew : ∀ key' a, (s.create key).counters.lookup key' = some a →
      key' = key ∧ a = s.heap.length ∨ key' ≠ key ∧ s.counters.lookup key' = some a := by
    intro key' a ha
    rw [State.create] at ha
    rcases eq_or_ne key' key with rfl | hne
    · rw [AList.lookup_insert] at ha
      exact .inl ⟨rfl, (Option.some.inj ha).symm⟩
    · rw [AList.lookup_insert_ne hne] at ha
      exact .inr ⟨hne, ha⟩
  have hlength : (s.create key).heap.length = s.heap.length + 1 := by
    rw [State.create, List.length_append, List.length_singleton]
  refine ⟨fun key' a ha => ?_, fun key₁ key₂ a h₁ h₂ => ?_, fun i a hi => ?_, h.positive,
    fun a c hc v hv => ?_⟩
  · rw [hlength]
    rcases hnew key' a ha with ⟨-, rfl⟩ | ⟨-, hold⟩
    · omega
    · have := h.allocated key' a hold
      omega
  · -- the new place is past all those in use
    rcases hnew key₁ a h₁ with ⟨rfl, ha₁⟩ | ⟨-, hold₁⟩ <;>
      rcases hnew key₂ a h₂ with ⟨rfl, ha₂⟩ | ⟨-, hold₂⟩
    · rfl
    · have := h.allocated key₂ a hold₂
      omega
    · have := h.allocated key₁ a hold₁
      omega
    · exact h.distinct key₁ key₂ a hold₁ hold₂
  · have hold := h.guarded i a hi
    have hne : (calls i).key ≠ key := by
      intro heq
      rw [heq, hkey] at hold
      cases hold
    rw [State.create, AList.lookup_insert_ne hne]
    exact hold
  · rw [State.create] at hc
    rcases Nat.lt_or_ge a s.heap.length with hlt | hge
    · rw [List.getElem?_append_left hlt] at hc
      exact h.growing a c hc v hv
    · rw [List.getElem?_append_right hge, List.getElem?_singleton] at hc
      split_ifs at hc
      rw [← Option.some.inj hc] at hv ⊢
      rw [List.mem_singleton.mp hv]

omit [DecidableEq ι] in
/-- A counter is given a greater value. -/
theorem write (h : Inv calls s) {a : ℕ} {c : Counter} (hc : s.heap[a]? = some c) {next : Int64}
    (hnext : c.value.toInt ≤ next.toInt) : Inv calls (s.write a c next) := by
  have hlength : (s.write a c next).heap.length = s.heap.length := List.length_set
  refine ⟨fun key b hb => ?_, h.distinct, h.guarded, h.positive, fun b d hd v hv => ?_⟩
  · rw [hlength]
    exact h.allocated key b hb
  · rw [State.write, List.getElem?_set] at hd
    split_ifs at hd with hab hlt
    · rw [← Option.some.inj hd] at hv ⊢
      rcases List.mem_cons.mp hv with rfl | hv
      · exact le_refl _
      · exact (h.growing a c hc v hv).trans hnext
    · exact h.growing b d hd v hv

omit [DecidableEq ι] in
/-- Counters that no call refers to are dropped. -/
theorem drop (h : Inv calls s) {today : Day}
    (hguard : ∀ i a, (s.stage i).guard = some a → today ≤ (calls i).day) :
    Inv calls { s with counters := s.counters.retain fun key => key.2 ≥ today } := by
  have hsub : ∀ key a, AList.lookup key (s.counters.retain fun key => key.2 ≥ today) = some a →
      s.counters.lookup key = some a := by
    intro key a ha
    rw [HashMap.lookup_retain] at ha
    split_ifs at ha
    exact ha
  refine ⟨fun key a ha => h.allocated key a (hsub key a ha), fun key key' a ha ha' =>
    h.distinct key key' a (hsub key a ha) (hsub key' a ha'), fun i a hi => ?_, h.positive,
    h.growing⟩
  have hday : (calls i).key.2 ≥ today := hguard i a hi
  rw [HashMap.lookup_retain, if_pos (decide_eq_true hday)]
  exact h.guarded i a hi

/-- **Every step keeps the invariant.** -/
theorem step (h : Inv calls s) (hstep : Steps calls s e t) : Inv calls t := by
  cases hstep with
  | refuse hstage hamount =>
    refine h.advance (fun a ha => nomatch ha) fun hor => ?_
    rcases hor with hor | hor <;> cases hor
  | hit hstage hamount hlookup =>
    refine h.advance (fun a ha => ?_) fun _ => hamount
    rw [hlookup]
    exact ha
  | miss hstage hamount => exact h.advance (fun a ha => nomatch ha) fun _ => hamount
  | join hstage hlookup =>
    refine h.advance (fun a ha => ?_) fun _ => h.positive _ (.inl hstage)
    rw [hlookup]
    exact ha
  | create hstage hlookup =>
    refine (h.create hlookup).advance (fun a ha => ?_) fun _ => h.positive _ (.inl hstage)
    rw [State.create, AList.lookup_insert]
    exact ha
  | @read i n a v e he hguard hread =>
    refine h.advance (fun b hb => ?_) fun _ => h.pos_of_guard hguard
    rw [h.guarded i a hguard]
    rw [Spend.proceed] at hb
    cases hnext : (calls i).nextSpent v with
    | none =>
      rw [hnext] at hb
      cases hb
    | some next =>
      rw [hnext] at hb
      exact hb
  | @swap i a c next hstage hheap hnext =>
    have hpos := h.positive i (.inr (by rw [hstage]; rfl))
    obtain ⟨hval, -⟩ := Spend.nextSpent_eq_some hpos hnext
    have hle : c.value.toInt ≤ next.toInt := by omega
    refine (h.write hheap hle).advance (fun b hb => nomatch hb) fun hor => ?_
    rcases hor with hor | hor <;> cases hor
  | drop hguard => exact h.drop hguard

end Inv

end Counters

end AdMatch
