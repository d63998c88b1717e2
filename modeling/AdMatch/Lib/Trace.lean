import Mathlib.Data.List.Basic
import Mathlib.Data.Option.Basic

/-!
# Machines that put something out

A machine takes one event at a time, refuses it or moves on, and may put something out.
Its run over a list of events is a function of them (`AdMatch.Trace.run`). A projection of
one machine onto another says what a state and an event come to when part of them is
forgotten. Where a machine projects onto itself, what is forgotten makes no difference to
what it does next (`AdMatch.Trace.Projects.exists_step`).
-/

namespace AdMatch

namespace Trace

variable {σ σ' ε ε' ω : Type}

/-- The state after a list of events, with what they have put out. -/
def run (step : σ → ε → Option (σ × Option ω)) : List ε → σ → Option (σ × List ω)
  | [], s => some (s, [])
  | e :: events, s => (step s e).bind fun next =>
    (run step events next.1).map fun last => (last.1, next.2.toList ++ last.2)

variable {step : σ → ε → Option (σ × Option ω)}

/-- **One more event.** -/
theorem run_concat {events : List ε} {s s' s'' : σ} {out : List ω} {e : ε} {o : Option ω}
    (h : run step events s = some (s', out)) (hstep : step s' e = some (s'', o)) :
    run step (events ++ [e]) s = some (s'', out ++ o.toList) := by
  induction events generalizing s out with
  | nil =>
    obtain ⟨rfl, rfl⟩ := Prod.mk.inj (Option.some.inj h)
    rw [List.nil_append, run, hstep, Option.bind_some, run, Option.map_some, List.append_nil,
      List.nil_append]
  | cons e₀ events ih =>
    obtain ⟨next, hnext, h⟩ := Option.bind_eq_some_iff.mp h
    obtain ⟨last, hlast, h⟩ := Option.map_eq_some_iff.mp h
    obtain ⟨rfl, rfl⟩ := Prod.mk.inj h
    rw [List.cons_append, run, hnext, Option.bind_some, ih hlast, Option.map_some,
      List.append_assoc]

/-- **A projection** of a machine: a step of what is left is what is left of a step, and
puts out the same. -/
def Projects (step : σ → ε → Option (σ × Option ω)) (step' : σ' → ε' → Option (σ' × Option ω))
    (f : σ → σ') (g : ε → ε') : Prop :=
  ∀ s e, step' (f s) (g e) = (step s e).map (Prod.map f id)

/-- **What is forgotten makes no difference**: states and events that project onto the same
take steps that put out the same, to states that project onto the same. -/
theorem Projects.exists_step {step' : σ' → ε' → Option (σ' × Option ω)} {f : σ → σ'} {g : ε → ε'}
    (h : Projects step step' f g) {s t s' : σ} {e d : ε} {o : Option ω} (hstate : f s = f t)
    (hevent : g e = g d) (hstep : step s e = some (s', o)) :
    ∃ t', step t d = some (t', o) ∧ f s' = f t' := by
  have hsame := h s e
  rw [hstate, hevent, h t d, hstep] at hsame
  obtain ⟨⟨t', o'⟩, ht, hnext⟩ := Option.map_eq_some_iff.mp hsame
  obtain ⟨hf, rfl⟩ := Prod.mk.inj hnext
  exact ⟨t', ht, hf.symm⟩

end Trace

end AdMatch
