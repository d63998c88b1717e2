import AdMatch.Lib.Serial

/-!
# Commit points

A system that takes small steps, seen through a *view* of its state. Some of its
steps are the commit points of operations: there the view changes as the operation,
taken as a whole, would change it, and the operation's result is fixed. No other step
changes the view. Such a system is linearisable: the operations, taken one after
another in the order of their commit points, have the same results and leave the same
view (`AdMatch.Linear.Commits.serial_log`), at every moment of every run. And what
has committed stays as it is when the run goes on (`AdMatch.Linear.log_append`), so
an operation that commits before another begins comes before it.
-/

namespace AdMatch

namespace Linear

variable {σ ε ω ρ τ : Type}

section Runs

variable (step : σ → ε → Option σ)

/-- A run: the state after the events, if each could happen in turn. -/
def run : List ε → σ → Option σ
  | [], s => some s
  | e :: events, s => (step s e).bind (run events)

variable {step}

theorem run_cons_eq_some {e : ε} {events : List ε} {s s' : σ} :
    run step (e :: events) s = some s' ↔ ∃ t, step s e = some t ∧ run step events t = some s' := by
  rw [run, Option.bind_eq_some_iff]

/-- A run can be cut anywhere. -/
theorem run_append {pre post : List ε} {s s' : σ} :
    run step (pre ++ post) s = some s' ↔
      ∃ t, run step pre s = some t ∧ run step post t = some s' := by
  induction pre generalizing s with
  | nil => simp only [List.nil_append, run, Option.some.injEq, exists_eq_left']
  | cons e pre ih =>
    simp only [List.cons_append, run_cons_eq_some, ih]
    constructor
    · rintro ⟨u, hu, t, ht, hpost⟩
      exact ⟨t, ⟨u, hu, ht⟩, hpost⟩
    · rintro ⟨t, ⟨u, hu, ht⟩, hpost⟩
      exact ⟨u, hu, t, ht, hpost⟩

/-- **The invariant rule for runs.** -/
theorem run_induction {I : σ → Prop} (hstep : ∀ s e t, I s → step s e = some t → I t)
    {events : List ε} {s s' : σ} (h0 : I s) (h : run step events s = some s') : I s' := by
  induction events generalizing s with
  | nil =>
    obtain rfl := Option.some.inj h
    exact h0
  | cons e events ih =>
    obtain ⟨t, ht, hrest⟩ := run_cons_eq_some.mp h
    exact ih (hstep s e t h0 ht) hrest

end Runs

section Log

variable (step : σ → ε → Option σ) (commit : ε → σ → Option (ω × ρ))

/-- The operations that commit in a run, each with its result, in the order in which
they do. `commit` says what an event has committed, from the state after it. -/
def log : List ε → σ → List (ω × ρ)
  | [], _ => []
  | e :: events, s =>
    match step s e with
    | none => []
    | some t => (commit e t).toList ++ log events t

variable {step commit}

theorem log_cons {e : ε} {events : List ε} {s t : σ} (h : step s e = some t) :
    log step commit (e :: events) s = (commit e t).toList ++ log step commit events t := by
  rw [log, h]

/-- **What has committed stays committed.** -/
theorem log_append {pre post : List ε} {s t : σ} (h : run step pre s = some t) :
    log step commit (pre ++ post) s = log step commit pre s ++ log step commit post t := by
  induction pre generalizing s with
  | nil =>
    obtain rfl := Option.some.inj h
    rfl
  | cons e pre ih =>
    obtain ⟨u, hu, hrest⟩ := run_cons_eq_some.mp h
    rw [List.cons_append, log_cons hu, log_cons hu, ih hrest, List.append_assoc]

variable (step commit)

/-- **Every change of the view is that of an operation which commits.** -/
structure Commits (I : σ → Prop) (view : σ → τ) (whole : ω → τ → ρ × τ) : Prop where
  preserved : ∀ s e t, I s → step s e = some t → I t
  silent : ∀ s e t, I s → step s e = some t → commit e t = none → view t = view s
  commits : ∀ s e t o r, I s → step s e = some t → commit e t = some (o, r) →
    whole o (view s) = (r, view t)

variable {step commit} {I : σ → Prop} {view : σ → τ} {whole : ω → τ → ρ × τ}

/-- **Linearisability**: the operations that commit in a run, taken one after another
in the order of their commit points, have their results in the run and leave the view
that the run leaves. -/
theorem Commits.serial_log (h : Commits step commit I view whole) {events : List ε} {s s' : σ}
    (hs : I s) (hrun : run step events s = some s') :
    Interleaving.serial whole ((log step commit events s).map Prod.fst) (view s) =
      (log step commit events s, view s') := by
  induction events generalizing s with
  | nil =>
    obtain rfl := Option.some.inj hrun
    rfl
  | cons e events ih =>
    obtain ⟨t, ht, hrest⟩ := run_cons_eq_some.mp hrun
    have hlater := ih (h.preserved s e t hs ht) hrest
    rw [log_cons ht]
    cases hcommit : commit e t with
    | none =>
      rw [h.silent s e t hs ht hcommit] at hlater
      exact hlater
    | some c =>
      obtain ⟨o, r⟩ := c
      have hwhole := h.commits s e t o r hs ht hcommit
      rw [Option.toList_some, List.singleton_append, List.map_cons, Interleaving.serial, hwhole,
        hlater]

end Log

/-! ### Operations left out -/

section Pick

variable {ι ρ' τ' : Type} {whole : ω → τ → ρ × τ} {part : ι → τ' → ρ' × τ'} {pick : ω → Option ι}
  (out : ρ' → ρ) (Agree : τ → τ' → Prop)

/-- **Operations that are not seen can be left out of a series**: if what they do is not
seen by a relation, and the others keep it and return the same, then the others alone
return the same and keep it. -/
theorem serial_filterMap {order : List ω}
    (hskip : ∀ o ∈ order, pick o = none → ∀ s S, Agree s S → Agree (whole o s).2 S)
    (hpick : ∀ o ∈ order, ∀ i, pick o = some i → ∀ s S, Agree s S →
      (whole o s).1 = out (part i S).1 ∧ Agree (whole o s).2 (part i S).2)
    {s : τ} {S : τ'} (h : Agree s S) :
    ((Interleaving.serial whole order s).1.filterMap fun r => (pick r.1).map fun i => (i, r.2)) =
        (Interleaving.serial part (order.filterMap pick) S).1.map (Prod.map id out) ∧
      Agree (Interleaving.serial whole order s).2
        (Interleaving.serial part (order.filterMap pick) S).2 := by
  induction order generalizing s S with
  | nil => exact ⟨rfl, h⟩
  | cons o order ih =>
    have hskip' := fun o' ho' => hskip o' (List.mem_cons_of_mem o ho')
    have hpick' := fun o' ho' => hpick o' (List.mem_cons_of_mem o ho')
    rw [Interleaving.serial]
    cases hpo : pick o with
    | none =>
      rw [List.filterMap_cons_none hpo, List.filterMap_cons_none (by rw [hpo]; rfl)]
      exact ih hskip' hpick' (hskip o List.mem_cons_self hpo s S h)
    | some i =>
      obtain ⟨hout, hagree⟩ := hpick o List.mem_cons_self i hpo s S h
      obtain ⟨hresults, hlast⟩ := ih hskip' hpick' hagree
      rw [List.filterMap_cons_some hpo, List.filterMap_cons_some (by rw [hpo]; rfl),
        Interleaving.serial, List.map_cons, hresults]
      exact ⟨congrArg (fun r => (i, r) :: _) hout, hlast⟩

end Pick

end Linear

end AdMatch
