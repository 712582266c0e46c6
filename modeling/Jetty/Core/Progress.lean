import Jetty.Core.Transition

/-!
# Completion by steps of one's own

A state completes if, while the steps of a given kind are the only ones taken, there is an end to
them, and that end is never reached before the goal.
-/

namespace Transition

variable {σ ε : Type*} {step : σ → ε → Option σ} {own : ε → Prop} {done : σ → Prop} {s : σ}

/-- The own steps that may follow are bounded in number, and when none is left it is done. -/
def Completes (step : σ → ε → Option σ) (own : ε → Prop) (done : σ → Prop) (s : σ) : Prop :=
  ∃ n, ∀ es t, (∀ e ∈ es, own e) → exec step s es = some t →
    es.length ≤ n ∧ ((∀ e, own e → step t e = none) → done t)

/-- After an own step a state that completes still does. -/
theorem Completes.of_step {e : ε} {t : σ} (h : Completes step own done s) (he : own e)
    (hstep : step s e = some t) : Completes step own done t := by
  obtain ⟨n, hbound⟩ := h
  refine ⟨n, fun es u hown hu => ?_⟩
  have hexec : exec step s (e :: es) = some u := by rw [exec, hstep, Option.bind_some, hu]
  obtain ⟨hle, hdone⟩ := hbound (e :: es) u (List.forall_mem_cons.mpr ⟨he, hown⟩) hexec
  exact ⟨Nat.le_of_succ_le hle, hdone⟩

/-- So it does after any number of them. -/
theorem Completes.of_exec {es : List ε} {t : σ} (h : Completes step own done s)
    (hown : ∀ e ∈ es, own e) (hexec : exec step s es = some t) : Completes step own done t := by
  induction es generalizing s with
  | nil =>
      obtain rfl := Option.some.inj hexec
      exact h
  | cons e es ih =>
      obtain ⟨he, hes⟩ := List.forall_mem_cons.mp hown
      obtain ⟨u, hu, hexec⟩ := Option.bind_eq_some_iff.mp hexec
      exact ih (h.of_step he hu) hes hexec

/-- Where own steps lower a measure, they can be taken until none is left. -/
theorem exists_stuck {Inv : σ → Prop} (measure : σ → ℕ)
    (hstep : ∀ s e t, Inv s → own e → step s e = some t → Inv t ∧ measure t < measure s)
    (h : Inv s) : ∃ es t, (∀ e ∈ es, own e) ∧ exec step s es = some t ∧ Inv t ∧
      ∀ e, own e → step t e = none := by
  induction hn : measure s using Nat.strongRecOn generalizing s with
  | ind n ih =>
      by_cases hstuck : ∀ e, own e → step s e = none
      · exact ⟨[], s, List.forall_mem_nil _, rfl, h, hstuck⟩
      · push Not at hstuck
        obtain ⟨e, he, hne⟩ := hstuck
        obtain ⟨t, ht⟩ := Option.ne_none_iff_exists'.mp hne
        obtain ⟨hinv, hlt⟩ := hstep s e t h he ht
        rw [hn] at hlt
        obtain ⟨es, u, hes, hexec, hend⟩ := ih (measure t) hlt hinv rfl
        refine ⟨e :: es, u, List.forall_mem_cons.mpr ⟨he, hes⟩, ?_, hend⟩
        rw [exec, ht, Option.bind_some, hexec]

/-- A measure that own steps lower, in states that are done once no own step is left. -/
theorem completes_of_measure {Inv : σ → Prop} (measure : σ → ℕ)
    (hstep : ∀ s e t, Inv s → own e → step s e = some t → Inv t ∧ measure t < measure s)
    (hstuck : ∀ s, Inv s → (∀ e, own e → step s e = none) → done s) (h : Inv s) :
    Completes step own done s := by
  have hrun (es : List ε) : ∀ s t, Inv s → (∀ e ∈ es, own e) → exec step s es = some t →
      Inv t ∧ es.length + measure t ≤ measure s := by
    induction es with
    | nil =>
        rintro s t hinv - ht
        obtain rfl := Option.some.inj ht
        exact ⟨hinv, by simp⟩
    | cons e es ih =>
        intro s t hinv hown ht
        obtain ⟨u, hu, ht⟩ := Option.bind_eq_some_iff.mp ht
        obtain ⟨hnext, hlt⟩ := hstep s e u hinv (hown e List.mem_cons_self) hu
        obtain ⟨hend, hle⟩ := ih u t hnext (fun e he => hown e (List.mem_cons_of_mem _ he)) ht
        refine ⟨hend, ?_⟩
        rw [List.length_cons]
        omega
  refine ⟨measure s, fun es t hown ht => ?_⟩
  obtain ⟨hinv, hle⟩ := hrun es s t h hown ht
  exact ⟨by omega, hstuck t hinv⟩

/-- A condition that no own step ends, and under which it is not done. -/
theorem not_completes_of_blocked {Blocked : σ → Prop}
    (hstep : ∀ s e t, Blocked s → own e → step s e = some t → Blocked t)
    (hdone : ∀ s, Blocked s → ¬ done s) (h : Blocked s) : ¬ Completes step own done s := by
  rintro ⟨n, hbound⟩
  -- Own runs of every length, as a blocked state is never the end of one.
  have hlong (m : ℕ) : ∃ es t, es.length = m ∧ (∀ e ∈ es, own e) ∧ exec step s es = some t ∧
      Blocked t := by
    induction m with
    | zero => exact ⟨[], s, rfl, List.forall_mem_nil _, rfl, h⟩
    | succ m ih =>
        obtain ⟨es, t, hlength, hown, ht, hblocked⟩ := ih
        by_cases hstuck : ∀ e, own e → step t e = none
        · exact absurd ((hbound es t hown ht).2 hstuck) (hdone t hblocked)
        · push Not at hstuck
          obtain ⟨e, he, hne⟩ := hstuck
          obtain ⟨u, hu⟩ := Option.ne_none_iff_exists'.mp hne
          refine ⟨es ++ [e], u, by simp [hlength], ?_, ?_, hstep t e u hblocked he hu⟩
          · exact List.forall_mem_append.mpr ⟨hown, List.forall_mem_singleton.mpr he⟩
          · rw [exec_append, ht, Option.bind_some, exec, hu]
            rfl
  obtain ⟨es, t, hlength, hown, ht, -⟩ := hlong (n + 1)
  have hle := (hbound es t hown ht).1
  omega

end Transition
