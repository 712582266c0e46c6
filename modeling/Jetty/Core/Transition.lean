import Mathlib.Data.List.Basic

/-!
# Labelled transition systems

Runs of a labelled transition relation, the invariant rule, runs all of whose
steps meet a side condition, and the passage from an executable partial step
function to runs. Nothing here depends on a particular program.
-/

namespace Transition

variable {σ τ ε δ : Type*}

/-- `R s e t`: the label `e` leads from the state `s` to the state `t`. -/
abbrev Rel (σ ε : Type*) := σ → ε → σ → Prop

/-- The relation computed by a partial step function. -/
def ofPartial (step : σ → ε → Option σ) : Rel σ ε := fun s e t => step s e = some t

/-- The steps of `R` that meet a condition on the state before the step and its label. -/
def Rel.within (R : Rel σ ε) (P : σ → ε → Prop) : Rel σ ε := fun s e t => P s e ∧ R s e t

/-- A finite run, labels listed from the first step to the last. -/
inductive Run (R : Rel σ ε) (s : σ) : List ε → σ → Prop
  | nil : Run R s [] s
  | snoc {es : List ε} {e : ε} {t u : σ} : Run R s es t → R t e u → Run R s (es ++ [e]) u

/-- A property of the initial state that every step preserves holds in every state reached. -/
theorem Run.invariant {R : Rel σ ε} {s t : σ} {es : List ε} (h : Run R s es t)
    (Inv : σ → Prop) (hinit : Inv s) (hstep : ∀ s e t, Inv s → R s e t → Inv t) : Inv t := by
  induction h with
  | nil => exact hinit
  | snoc _ hlast ih => exact hstep _ _ _ ih hlast

/-- The invariant rule where a step may use that a run has led to it. -/
theorem Run.invariant_along {R : Rel σ ε} {s t : σ} {es : List ε} (h : Run R s es t)
    (Inv : σ → Prop) (hinit : Inv s)
    (hstep : ∀ es t e u, Run R s es t → Inv t → R t e u → Inv u) : Inv t := by
  induction h with
  | nil => exact hinit
  | snoc hrun hlast ih => exact hstep _ _ _ _ hrun ih hlast

/-- The invariant rule for an invariant that also speaks of the labels taken so far. -/
theorem Run.history_invariant {R : Rel σ ε} {s t : σ} {es : List ε} (h : Run R s es t)
    (Inv : List ε → σ → Prop) (hinit : Inv [] s)
    (hstep : ∀ es s e t, Inv es s → R s e t → Inv (es ++ [e]) t) : Inv es t := by
  induction h with
  | nil => exact hinit
  | snoc _ hlast ih => exact hstep _ _ _ _ ih hlast

/-- A larger relation has every run of a smaller one. -/
theorem Run.mono {R S : Rel σ ε} {s t : σ} {es : List ε} (h : Run R s es t)
    (hRS : ∀ s e t, R s e t → S s e t) : Run S s es t := by
  induction h with
  | nil => exact .nil
  | snoc _ hlast ih => exact .snoc ih (hRS _ _ _ hlast)

/-- A run all of whose labels meet a condition. -/
theorem Run.within_of_forall {R : Rel σ ε} {P : ε → Prop} {s t : σ} {es : List ε}
    (h : Run R s es t) (hP : ∀ e ∈ es, P e) : Run (R.within fun _ e => P e) s es t := by
  induction h with
  | nil => exact .nil
  | snoc _ hlast ih =>
      obtain ⟨hbefore, he⟩ := List.forall_mem_append.mp hP
      exact .snoc (ih hbefore) ⟨List.forall_mem_singleton.mp he, hlast⟩

/-- Forgetting the side condition of a run. -/
theorem Run.of_within {R : Rel σ ε} {P : σ → ε → Prop} {s t : σ} {es : List ε}
    (h : Run (R.within P) s es t) : Run R s es t :=
  h.mono fun _ _ _ hstep => hstep.2

/-- Where what is good before a step is good after it exactly under the side condition, and stays
bad once it is not, it is good in the end exactly if all steps meet the side condition. -/
theorem Run.iff_within {R : Rel σ ε} {P : σ → ε → Prop} {s t : σ} {es : List ε}
    (h : Run R s es t) (Inv Good : σ → Prop) (hinv : Inv s) (hgood : Good s)
    (hkeep : ∀ s e t, Inv s → R s e t → Inv t)
    (hstep : ∀ s e t, Inv s → Good s → R s e t → (Good t ↔ P s e))
    (hback : ∀ s e t, R s e t → Good t → Good s) : Good t ↔ Run (R.within P) s es t := by
  constructor
  · intro hlate
    induction h with
    | nil => exact .nil
    | snoc hrun hlast ih =>
        have hbefore := hback _ _ _ hlast hlate
        have hmet := (hstep _ _ _ (hrun.invariant Inv hinv hkeep) hbefore hlast).mp hlate
        exact .snoc (ih hbefore) ⟨hmet, hlast⟩
  · intro hwithin
    have hboth := hwithin.invariant (fun s => Inv s ∧ Good s) ⟨hinv, hgood⟩
      fun s e t hs hlast => ⟨hkeep s e t hs.1 hlast.2, (hstep s e t hs.1 hs.2 hlast.2).mpr hlast.1⟩
    exact hboth.2

/-- Runs compose. -/
theorem Run.append {R : Rel σ ε} {s t u : σ} {es fs : List ε} (h : Run R s es t)
    (h' : Run R t fs u) : Run R s (es ++ fs) u := by
  induction h' with
  | nil => simpa only [List.append_nil] using h
  | snoc _ hlast ih => simpa only [List.append_assoc] using Run.snoc ih hlast

/-- A run comes by a state between two parts of its labels. -/
theorem Run.split {R : Rel σ ε} {s u : σ} {es fs : List ε} (h : Run R s (es ++ fs) u) :
    ∃ t, Run R s es t ∧ Run R t fs u := by
  generalize hall : es ++ fs = all at h
  induction h generalizing fs with
  | nil =>
      obtain ⟨rfl, rfl⟩ := List.append_eq_nil_iff.mp hall
      exact ⟨s, .nil, .nil⟩
  | snoc hrun hlast ih =>
      rcases List.eq_nil_or_concat' fs with rfl | ⟨rest, e, rfl⟩
      · rw [List.append_nil] at hall
        subst hall
        exact ⟨_, hrun.snoc hlast, .nil⟩
      · rw [← List.append_assoc] at hall
        obtain ⟨hfront, hend⟩ := List.append_inj' hall rfl
        obtain rfl := (List.cons.inj hend).1
        obtain ⟨t, hfirst, hrest⟩ := ih hfront
        exact ⟨t, hfirst, hrest.snoc hlast⟩

/-- A run ends with its last step. -/
theorem Run.unsnoc {R : Rel σ ε} {s u : σ} {es : List ε} {e : ε} (h : Run R s (es ++ [e]) u) :
    ∃ t, Run R s es t ∧ R t e u := by
  generalize hall : es ++ [e] = all at h
  cases h with
  | nil => exact absurd hall (List.append_ne_nil_of_right_ne_nil _ (List.cons_ne_nil _ _))
  | snoc hrun hlast =>
      obtain ⟨rfl, hend⟩ := List.append_inj' hall rfl
      obtain rfl := (List.cons.inj hend).1
      exact ⟨_, hrun, hlast⟩

/-- A run of one step. -/
theorem Run.single {R : Rel σ ε} {s t : σ} {e : ε} (h : R s e t) : Run R s [e] t := by
  have hnil : Run R s [] s := .nil
  exact hnil.snoc h

/-- A step in front of a run. -/
theorem Run.cons {R : Rel σ ε} {s t u : σ} {e : ε} {es : List ε} (h : R s e t)
    (h' : Run R t es u) : Run R s (e :: es) u :=
  (Run.single h).append h'

/-- Run a list of labels through a partial step function. -/
def exec (step : σ → ε → Option σ) : σ → List ε → Option σ
  | s, [] => some s
  | s, e :: es => (step s e).bind fun t => exec step t es

/-- A list of labels is run part by part. -/
theorem exec_append (step : σ → ε → Option σ) (s : σ) (es fs : List ε) :
    exec step s (es ++ fs) = (exec step s es).bind fun t => exec step t fs := by
  induction es generalizing s with
  | nil => rfl
  | cons e es ih =>
      simp only [List.cons_append, exec, Option.bind_assoc]
      exact congrArg _ (funext ih)

/-- Taking one kind of step over and over gets stuck in one state. -/
theorem exec_replicate_stuck {step : σ → ε → Option σ} {s t u : σ} {e : ε} {m n : ℕ}
    (ht : exec step s (List.replicate m e) = some t) (htstuck : step t e = none)
    (hu : exec step s (List.replicate n e) = some u) (hustuck : step u e = none) : t = u := by
  have hmore : ∀ {t u : σ} {m k : ℕ}, exec step s (List.replicate m e) = some t →
      step t e = none → exec step s (List.replicate (m + k) e) = some u → t = u := by
    intro t u m k ht hstuck hu
    rw [← List.replicate_append_replicate, exec_append, ht, Option.bind_some] at hu
    cases k with
    | zero => exact Option.some.inj hu
    | succ k =>
        rw [List.replicate_succ, exec, hstuck] at hu
        cases hu
  rcases Nat.le_total m n with hle | hle
  · obtain ⟨k, rfl⟩ := Nat.exists_eq_add_of_le hle
    exact hmore ht htstuck hu
  · obtain ⟨k, rfl⟩ := Nat.exists_eq_add_of_le hle
    exact (hmore hu hustuck ht).symm

/-- What the executable run reaches is reached by a run of the relation. -/
theorem run_of_exec {step : σ → ε → Option σ} {s t : σ} {es : List ε}
    (h : exec step s es = some t) : Run (ofPartial step) s es t := by
  induction es generalizing s with
  | nil =>
      obtain rfl : s = t := by simpa only [exec, Option.some.injEq] using h
      exact .nil
  | cons e es ih =>
      obtain ⟨u, hu, hrest⟩ := Option.bind_eq_some_iff.mp h
      exact .cons hu (ih hrest)

/-- Run a list of labels, checking a decidable side condition before every step. -/
def execWithin (step : σ → ε → Option σ) (P : σ → ε → Prop) [∀ s e, Decidable (P s e)] :
    σ → List ε → Option σ
  | s, [] => some s
  | s, e :: es => if P s e then (step s e).bind fun t => execWithin step P t es else none

/-- A checked executable run is a run all of whose steps meet the condition. -/
theorem run_of_execWithin {step : σ → ε → Option σ} {P : σ → ε → Prop}
    [∀ s e, Decidable (P s e)] {s t : σ} {es : List ε}
    (h : execWithin step P s es = some t) : Run ((ofPartial step).within P) s es t := by
  induction es generalizing s with
  | nil =>
      obtain rfl : s = t := by simpa only [execWithin, Option.some.injEq] using h
      exact .nil
  | cons e es ih =>
      simp only [execWithin] at h
      split at h
      · rename_i hp
        obtain ⟨u, hu, hrest⟩ := Option.bind_eq_some_iff.mp h
        exact .cons ⟨hp, hu⟩ (ih hrest)
      · cases h

/-- A test passed by the state an executable run ends in is passed at the end of a run. -/
theorem exists_run_of_exec (step : σ → ε → Option σ) (s : σ) (es : List ε) (p : σ → Bool)
    (h : (exec step s es).any p = true) : ∃ t, Run (ofPartial step) s es t ∧ p t = true := by
  obtain ⟨t, ht, hp⟩ := (Option.any_eq_true _ _).mp h
  exact ⟨t, run_of_exec ht, hp⟩

/-- The same for a run all of whose steps are checked. -/
theorem exists_run_of_execWithin (step : σ → ε → Option σ) (P : σ → ε → Prop)
    [∀ s e, Decidable (P s e)] (s : σ) (es : List ε) (p : σ → Bool)
    (h : (execWithin step P s es).any p = true) :
    ∃ t, Run ((ofPartial step).within P) s es t ∧ p t = true := by
  obtain ⟨t, ht, hp⟩ := (Option.any_eq_true _ _).mp h
  exact ⟨t, run_of_execWithin ht, hp⟩

/-! ### The past of a run -/

/-- A run from `s` to `u` comes by a state with the property. -/
def Once (R : Rel σ ε) (s : σ) (es : List ε) (u : σ) (P : σ → Prop) : Prop :=
  ∃ es₁ es₂ t, es = es₁ ++ es₂ ∧ Run R s es₁ t ∧ Run R t es₂ u ∧ P t

/-- What holds in the end has held once. -/
theorem Once.now {R : Rel σ ε} {P : σ → Prop} {s u : σ} {es : List ε} (h : Run R s es u)
    (hu : P u) : Once R s es u P :=
  ⟨es, [], u, (List.append_nil es).symm, h, .nil, hu⟩

/-- What has happened before a step has happened before the state behind it. -/
theorem Once.snoc {R : Rel σ ε} {P : σ → Prop} {s t u : σ} {es : List ε} {e : ε}
    (h : Once R s es t P) (hlast : R t e u) : Once R s (es ++ [e]) u P := by
  obtain ⟨es₁, es₂, v, rfl, hfirst, hrest, hv⟩ := h
  exact ⟨es₁, es₂ ++ [e], v, List.append_assoc es₁ es₂ [e], hfirst, hrest.snoc hlast, hv⟩

/-- What had happened by a state on the way has happened. -/
theorem Once.bind {R : Rel σ ε} {P Q : σ → Prop} {s u : σ} {es : List ε} (h : Once R s es u P)
    (hPQ : ∀ es₁ t, Run R s es₁ t → P t → Once R s es₁ t Q) : Once R s es u Q := by
  obtain ⟨es₁, es₂, t, rfl, hfirst, hrest, ht⟩ := h
  obtain ⟨fs₁, fs₂, v, rfl, hstart, hmiddle, hv⟩ := hPQ es₁ t hfirst ht
  exact ⟨fs₁, fs₂ ++ es₂, v, List.append_assoc fs₁ fs₂ es₂, hstart, hmiddle.append hrest, hv⟩

/-- A step-by-step simulation carries runs over: every step of `R` is matched by a step
of `S` with a translated label, or leaves the abstraction unchanged. -/
theorem Run.simulate {R : Rel σ ε} {S : Rel τ δ} {s t : σ} {es : List ε} (h : Run R s es t)
    (abs : σ → τ) (hstep : ∀ s e t, R s e t → abs s = abs t ∨ ∃ d, S (abs s) d (abs t)) :
    ∃ ds, Run S (abs s) ds (abs t) := by
  induction h with
  | nil => exact ⟨[], .nil⟩
  | snoc _ hlast ih =>
      obtain ⟨ds, hds⟩ := ih
      rcases hstep _ _ _ hlast with heq | ⟨d, hd⟩
      · exact ⟨ds, heq ▸ hds⟩
      · exact ⟨ds ++ [d], .snoc hds hd⟩

/-- A forward simulation with the same labels: related states take matching steps. -/
theorem Run.refine {R : Rel σ ε} {S : Rel τ ε} {s t : σ} {a : τ} {es : List ε} (h : Run R s es t)
    (sim : σ → τ → Prop) (hs : sim s a)
    (hstep : ∀ s e t a, sim s a → R s e t → ∃ b, S a e b ∧ sim t b) :
    ∃ b, Run S a es b ∧ sim t b := by
  induction h with
  | nil => exact ⟨a, .nil, hs⟩
  | snoc _ hlast ih =>
      obtain ⟨b, hb, hsim⟩ := ih
      obtain ⟨c, hc, hsim'⟩ := hstep _ _ _ _ hsim hlast
      exact ⟨c, .snoc hb hc, hsim'⟩

end Transition
