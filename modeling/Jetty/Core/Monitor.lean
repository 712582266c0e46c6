import Jetty.Core.Transition

/-!
# Monitors

A monitor reads the steps of a run and keeps a record of its own; the run takes no notice of it.
What a claim says about the past of a state is what a monitor has recorded by then.
-/

namespace Transition

variable {σ ε μ : Type*} {R : Rel σ ε} {next : μ → σ → ε → σ → μ}

/-- The steps of `R` with a monitor beside them. -/
def Rel.monitored (R : Rel σ ε) (next : μ → σ → ε → σ → μ) : Rel (σ × μ) ε :=
  fun x e y => R x.1 e y.1 ∧ y.2 = next x.2 x.1 e y.1

/-- Without the monitor it is a run of the system. -/
theorem Run.of_monitored {x y : σ × μ} {es : List ε} (h : Run (R.monitored next) x es y) :
    Run R x.1 es y.1 := by
  induction h with
  | nil => exact .nil
  | snoc _ hlast ih => exact .snoc ih hlast.1

/-- A step function with a monitor beside it. -/
def monitorStep (step : σ → ε → Option σ) (next : μ → σ → ε → σ → μ) (x : σ × μ) (e : ε) :
    Option (σ × μ) :=
  (step x.1 e).map fun t => (t, next x.2 x.1 e t)

/-- The monitored step function computes the monitored steps. -/
theorem ofPartial_monitorStep (step : σ → ε → Option σ) (next : μ → σ → ε → σ → μ) :
    ofPartial (monitorStep step next) = (ofPartial step).monitored next := by
  funext x e y
  obtain ⟨t, n⟩ := y
  simp only [ofPartial, monitorStep, Rel.monitored, Option.map_eq_some_iff, Prod.mk.injEq,
    eq_iff_iff]
  constructor
  · rintro ⟨t, ht, rfl, rfl⟩
    exact ⟨ht, rfl⟩
  · rintro ⟨ht, rfl⟩
    exact ⟨t, ht, rfl, rfl⟩

end Transition
