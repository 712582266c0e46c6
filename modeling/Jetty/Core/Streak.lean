import Mathlib.Data.List.Basic

/-!
# Streaks of failures

A log lists the outcomes of an operation with the times at which they were had, oldest first. An
observer who sees only some of them keeps a streak: the times of failures with no pass between them.
The streak is carried by the log as long as only failures, and then only passes, have followed.
-/

namespace Streak

variable {τ : Type*} {log : List (τ × Bool)} {runs runs' : List τ} {t : τ}

/-- The last `n` outcomes are all there, and all of them are failures. -/
def Failing (n : ℕ) (log : List (τ × Bool)) : Prop :=
  ∃ front last, log = front ++ last ∧ last.length = n ∧ ∀ x ∈ last, x.2 = false

/-- The last outcome is a pass. -/
def Passing (log : List (τ × Bool)) : Prop := ∃ t, log.getLast? = some (t, true)

/-- The times are those of failures in a row after which there are passes only. -/
def Carries (log : List (τ × Bool)) (runs : List τ) : Prop :=
  ∃ front fails passes, log = front ++ fails ++ passes ∧ (∀ x ∈ fails, x.2 = false) ∧
    (∀ x ∈ passes, x.2 = true) ∧ runs.Sublist (fails.map Prod.fst)

private theorem failing_iff {n : ℕ} : Failing n log ↔
    n ≤ log.length ∧ ∀ x ∈ log.drop (log.length - n), x.2 = false := by
  constructor
  · rintro ⟨front, last, rfl, rfl, hlast⟩
    refine ⟨by rw [List.length_append]; omega, ?_⟩
    rwa [List.length_append, Nat.add_sub_cancel, List.drop_left]
  · rintro ⟨hn, hlast⟩
    exact ⟨log.take (log.length - n), log.drop (log.length - n), (List.take_append_drop _ _).symm,
      by rw [List.length_drop]; omega, hlast⟩

instance (n : ℕ) (log : List (τ × Bool)) : Decidable (Failing n log) :=
  decidable_of_iff _ failing_iff.symm

/-- Every log carries the empty streak. -/
theorem carries_nil : Carries log [] :=
  ⟨log, [], [], by simp, List.forall_mem_nil _, List.forall_mem_nil _, List.nil_sublist _⟩

private theorem carries_singleton (log : List (τ × Bool)) (t : τ) : Carries (log ++ [(t, false)])
    [t] :=
  ⟨log, [(t, false)], [], by simp, by simp, List.forall_mem_nil _, List.Sublist.refl _⟩

/-- A log that carries a streak carries a part of it. -/
theorem Carries.sublist (h : Carries log runs) (hruns : runs'.Sublist runs) :
    Carries log runs' := by
  obtain ⟨front, fails, passes, hlog, hfails, hpasses, hsub⟩ := h
  exact ⟨front, fails, passes, hlog, hfails, hpasses, hruns.trans hsub⟩

/-- A pass ends no streak: the observer has yet to see it. -/
theorem Carries.pass (h : Carries log runs) (t : τ) : Carries (log ++ [(t, true)]) runs := by
  obtain ⟨front, fails, passes, rfl, hfails, hpasses, hsub⟩ := h
  refine ⟨front, fails, passes ++ [(t, true)], by simp, hfails, fun x hx => ?_, hsub⟩
  rcases List.mem_append.mp hx with hx | hx
  · exact hpasses x hx
  · obtain rfl := List.mem_singleton.mp hx
    rfl

/-- Where the last outcome is no pass, the failures of a streak are the last outcomes. -/
theorem Carries.exists_fails (h : Carries log runs) (hlog : ¬ Passing log) :
    ∃ front fails, log = front ++ fails ∧ (∀ x ∈ fails, x.2 = false) ∧
      runs.Sublist (fails.map Prod.fst) := by
  obtain ⟨front, fails, passes, rfl, hfails, hpasses, hsub⟩ := h
  rcases List.eq_nil_or_concat passes with rfl | ⟨passes, x, rfl⟩
  · exact ⟨front, fails, by simp, hfails, hsub⟩
  · refine absurd ⟨x.1, ?_⟩ hlog
    have hx : x = (x.1, true) := Prod.ext rfl (hpasses x (by simp))
    rw [List.concat_eq_append, ← List.append_assoc, List.getLast?_append, ← hx]
    rfl

/-- The last outcome, if it is a failure, is a streak by itself. -/
theorem exists_carries (hne : log ≠ []) (hlog : ¬ Passing log) : ∃ t, Carries log [t] := by
  obtain ⟨front, x, rfl⟩ := (List.eq_nil_or_concat log).resolve_left hne
  obtain ⟨t, ok⟩ := x
  rw [List.concat_eq_append] at hlog ⊢
  cases ok with
  | false => exact ⟨t, carries_singleton front t⟩
  | true => exact absurd ⟨t, List.getLast?_concat⟩ hlog

/-- A failure after a failure goes on with the streak. -/
theorem Carries.fail (h : Carries log runs) (hlog : ¬ Passing log) (t : τ) :
    Carries (log ++ [(t, false)]) (runs ++ [t]) := by
  obtain ⟨front, fails, rfl, hfails, hsub⟩ := h.exists_fails hlog
  refine ⟨front, fails ++ [(t, false)], [], by simp, fun x hx => ?_, List.forall_mem_nil _, ?_⟩
  · rcases List.mem_append.mp hx with hx | hx
    · exact hfails x hx
    · obtain rfl := List.mem_singleton.mp hx
      rfl
  · rw [List.map_append]
    exact hsub.append (List.Sublist.refl _)

/-- A failure that is the last outcome and not in the streak yet goes on with it. -/
theorem Carries.observe (h : Carries log runs) (hlast : log.getLast? = some (t, false))
    (ht : t ∉ runs) : Carries log (runs ++ [t]) := by
  have hlog : ¬ Passing log := by
    rintro ⟨t', ht'⟩
    rw [hlast] at ht'
    cases ht'
  obtain ⟨front, fails, rfl, hfails, hsub⟩ := h.exists_fails hlog
  rcases List.eq_nil_or_concat fails with rfl | ⟨fails, x, rfl⟩
  · obtain rfl : runs = [] := List.sublist_nil.mp hsub
    obtain ⟨log, hlog⟩ := List.getLast?_eq_some_iff.mp hlast
    rw [hlog]
    exact carries_singleton log t
  · rw [List.concat_eq_append] at hlast hfails hsub ⊢
    rw [← List.append_assoc, List.getLast?_append] at hlast
    obtain rfl : x = (t, false) := Option.some.inj hlast
    refine ⟨front, fails ++ [(t, false)], [], by simp, hfails, List.forall_mem_nil _, ?_⟩
    rw [List.map_append] at hsub ⊢
    refine List.Sublist.append ?_ (List.Sublist.refl _)
    obtain ⟨front', back, hruns, hfront, hback⟩ := List.sublist_append_iff.mp hsub
    rcases List.sublist_singleton.mp hback with rfl | rfl
    · rwa [hruns, List.append_nil]
    · exact absurd (hruns ▸ List.mem_append_right _ (List.mem_singleton.mpr rfl)) ht

/-- A streak that is not followed by a pass: so many outcomes are failures, and the last ones. -/
theorem Carries.failing (h : Carries log runs) (hlog : ¬ Passing log) {n : ℕ}
    (hn : n ≤ runs.length) : Failing n log := by
  obtain ⟨front, fails, rfl, hfails, hsub⟩ := h.exists_fails hlog
  have hlength : n ≤ fails.length := by
    have hle := hsub.length_le
    rw [List.length_map] at hle
    omega
  rw [failing_iff, List.length_append]
  refine ⟨by omega, fun x hx => hfails x ?_⟩
  have hdrop : front.length ≤ front.length + fails.length - n := by omega
  rw [List.drop_append, List.drop_eq_nil_of_le hdrop, List.nil_append] at hx
  exact List.mem_of_mem_drop hx

end Streak
