import Jetty.Orchestrator.Gates.GateSet
import Jetty.Orchestrator.Service.Requests

/-!
# The watcher of a service

A service's own steps for its gate watcher are the moves of a watcher of the gates: it starts with
no streak, a poll's result counts for both in the same way, and `_gate_stop` is set only where the
watcher closes a gate; so whoever finds it set finds the poll that did it in the past of the run.
-/

namespace Jetty.Orchestrator

open Python Transition

namespace Service

variable {c : ServiceSetup} {φ : Option Fault} {s t : Service}

/-- What the gates know of a service's watcher. -/
def watcher (s : Service) : Watcher where
  pc := match s.gateWatch with
    | .sleeping => .sleeping
    | .polling => .polling
    | .terminating => .stopping
    | _ => .finished
  streaks := s.streaks
  counted := s.counted

/-- The service stops, or its process has exited. -/
def unwatched (s : Service) : Bool := s.stopEvent || !s.attached

private theorem countPoll_watcher (s : Service) (r : List (String × Bool × ℚ)) :
    (s.countPoll r).watcher = r.foldl Watcher.count s.watcher := by
  induction r generalizing s with
  | nil => rfl
  | cons x r ih =>
      obtain ⟨name, ok, stamp⟩ := x
      have hcons : s.countPoll ((name, ok, stamp) :: r) =
          (s.countPoll [(name, ok, stamp)]).countPoll r := rfl
      rw [hcons, ih, List.foldl_cons]
      congr 1
      unfold Watcher.count countPoll
      simp only [List.foldl_cons, List.foldl_nil]
      have hcounted : s.watcher.counted name = s.counted name := rfl
      rw [hcounted]
      by_cases h : s.counted name = some stamp
      · rw [if_pos h, if_pos h]
      · rw [if_neg h, if_neg h]
        rfl

private theorem closedGates_watcher (s : Service) (results : Dict String (Bool × ℚ)) :
    s.closedGates c results.entries = s.watcher.closed c.closeAfter results := rfl

/-- What a step of a service does to its watcher. -/
inductive WatcherMoves (closeAfter : String → ℕ) (w : Watcher) : Watcher → Prop
  /-- The watcher begins, without a streak. -/
  | starts : WatcherMoves closeAfter w {}
  | wakes (gone : Bool) : w.pc = .sleeping →
      WatcherMoves closeAfter w { w with pc := if gone then .finished else .polling }
  | polls (results : Dict String (Bool × ℚ)) (gone : Bool) : w.pc = .polling →
      WatcherMoves closeAfter w (w.polled closeAfter results gone)
  /-- The watcher is over, or dies. -/
  | ends {w' : Watcher} : w'.pc = .finished → WatcherMoves closeAfter w w'

/-- The service is asked to stop in the step only if a poll has closed a gate. -/
def StopsOnClosure (c : ServiceSetup) (s : Service) (e : Event) (t : Service) : Prop :=
  t.gateStop = s.gateStop ∨ ∃ results : Dict String (Bool × ℚ), ∃ φ,
    e = .gatePolled (some results.entries) φ ∧
      (s.watcher.counts results).closed c.closeAfter results ≠ []

private theorem gateWoke_moves (h : gateStep c s .gateWoke = some t) :
    WatcherMoves c.closeAfter s.watcher t.watcher ∧ t.gateStop = s.gateStop := by
  simp only [gateStep, Option.ite_none_right_eq_some] at h
  obtain ⟨hpc, h⟩ := h
  obtain rfl := Option.some.inj h
  have hsleeping : s.watcher.pc = .sleeping := by rw [watcher, hpc]
  have hwakes := @WatcherMoves.wakes c.closeAfter s.watcher s.unwatched hsleeping
  refine ⟨?_, rfl⟩
  convert hwakes using 1
  unfold watcher unwatched
  split_ifs <;> rfl

private theorem gatePolled_moves {results : Dict String (Bool × ℚ)}
    (h : gateStep c s (.gatePolled (some results.entries) φ) = some t) :
    WatcherMoves c.closeAfter s.watcher t.watcher ∧
      StopsOnClosure c s (.gatePolled (some results.entries) φ) t := by
  simp only [gateStep, Option.ite_none_right_eq_some] at h
  obtain ⟨hpc, h⟩ := h
  have hpolling : s.watcher.pc = .polling := by rw [watcher, hpc]
  have hpolls := @WatcherMoves.polls c.closeAfter s.watcher results s.unwatched hpolling
  have hcounts : (s.countPoll results.entries).watcher = s.watcher.counts results :=
    countPoll_watcher s results.entries
  obtain ⟨streaks, counted, hsame⟩ := countPoll_eq (s := s) results.entries
  rw [closedGates_watcher, hcounts, hsame] at h
  rw [hsame] at hcounts
  unfold Watcher.polled at hpolls
  dsimp only at hpolls
  split_ifs at h with hnil hgone
  · obtain rfl := Option.some.inj h
    rw [if_pos hnil, ← hcounts] at hpolls
    exact ⟨hpolls, .inl rfl⟩
  · obtain rfl := Option.some.inj h
    have hunwatched : s.unwatched = true := hgone
    rw [if_neg hnil, if_pos hunwatched, ← hcounts] at hpolls
    exact ⟨hpolls, .inl rfl⟩
  · obtain rfl := Option.some.inj h
    have hwatched : ¬ s.unwatched = true := hgone
    rw [if_neg hnil, if_neg hwatched, ← hcounts] at hpolls
    refine ⟨?_, .inr ⟨results, φ, rfl, hnil⟩⟩
    rcases orElse_request (φ := φ) { s with streaks, counted, gateStop := true }
      ({ · with gateWatch := .died }) ({ · with gateWatch := .terminating }) with hk | ⟨-, hk⟩
    · rw [hk]
      exact hpolls
    · rw [hk]
      exact .ends rfl

/-- Every step of a service's gate watcher is a move of a watcher of the gates, and it asks the
service to stop only where a poll has closed a gate. -/
theorem gateStep_watcher {e : Event} (h : gateStep c s e = some t)
    (hdict : ∀ r φ, e = .gatePolled (some r) φ → ∃ results : Dict String (Bool × ℚ),
      r = results.entries) :
    WatcherMoves c.closeAfter s.watcher t.watcher ∧ StopsOnClosure c s e t := by
  cases e with
  | gateStarted =>
      simp only [gateStep, Option.ite_none_right_eq_some, Option.some.injEq] at h
      obtain ⟨-, rfl⟩ := h
      exact ⟨.starts, .inl rfl⟩
  | gateWoke => exact (gateWoke_moves h).imp_right .inl
  | gatePolled r φ =>
      cases r with
      | none =>
          simp only [gateStep, Option.ite_none_right_eq_some, Option.some.injEq] at h
          obtain ⟨-, rfl⟩ := h
          exact ⟨.ends rfl, .inl rfl⟩
      | some r =>
          obtain ⟨results, rfl⟩ := hdict r φ rfl
          exact gatePolled_moves h
  | gateTerminated timeout φ =>
      simp only [gateStep, Option.ite_none_right_eq_some] at h
      obtain ⟨-, h⟩ := h
      split at h
      · cases h
      · obtain ⟨r, hr, rfl⟩ := Option.map_eq_some_iff.mp h
        rcases orElse_terminated ({ · with gateWatch := .died })
          ({ · with gateWatch := .finished }) hr with hk | ⟨-, ch, -, hk⟩
        · rw [hk]
          exact ⟨.ends rfl, .inl rfl⟩
        · rw [hk]
          exact ⟨.ends rfl, .inl rfl⟩
  | _ => simp only [gateStep, reduceCtorEq] at h

/-! ### Runs -/

/-- What a poll returns is a dictionary. -/
def PollsDict : Event → Prop
  | .gatePolled (some r) _ => ∃ results : Dict String (Bool × ℚ), r = results.entries
  | _ => True

/-- The event is a poll that closes a gate. -/
def ClosesGate (c : ServiceSetup) (s : Service) (e : Event) : Prop :=
  ∃ results : Dict String (Bool × ℚ), ∃ φ, e = .gatePolled (some results.entries) φ ∧
    (s.watcher.counts results).closed c.closeAfter results ≠ []

private theorem closesGate_of_step {e : Event} (hst : Steps c s e t) (hdict : PollsDict e)
    (ht : t.gateStop = true) : s.gateStop = true ∨ ClosesGate c s e := by
  have hpolled {r : Option (List (String × Bool × ℚ))} {φ : Option Fault}
      (he : e = .gatePolled r φ) : s.gateStop = true ∨ ClosesGate c s e := by
    subst he
    have hgate : gateStep c s (.gatePolled r φ) = some t := hst
    have hresults : ∀ r' φ', Event.gatePolled r φ = .gatePolled (some r') φ' →
        ∃ results : Dict String (Bool × ℚ), r' = results.entries := by
      intro r' φ' heq
      obtain ⟨rfl, rfl⟩ := Event.gatePolled.inj heq
      exact hdict
    obtain ⟨-, hsame | hcloses⟩ := gateStep_watcher hgate hresults
    · exact .inl (hsame ▸ ht)
    · exact .inr hcloses
  by_cases hrun : ∃ e' φ, e = .run e' φ
  · obtain ⟨e', φ, rfl⟩ := hrun
    exact .inl ((runStep_effect hst).flags.2 ht)
  · have haside := step_aside hst fun e' φ he => hrun ⟨e', φ, he⟩
    rcases haside.gateStop with hsame | ⟨-, -, -, r, φ, he⟩
    · exact .inl (hsame ▸ ht)
    · exact hpolled he

/-- In every run, a service whose `_gate_stop` is set has had a poll that closed a gate. -/
theorem exists_closesGate_of_run {es : List Event}
    (hrun : Run ((Steps c).within fun _ e => PollsDict e) init es s) (hs : s.gateStop = true) :
    ∃ es₁ e es₂ u, es = es₁ ++ e :: es₂ ∧ Run (Steps c) init es₁ u ∧ ClosesGate c u e := by
  induction hrun with
  | nil => cases hs
  | @snoc es e s t hrun hst ih =>
      rcases closesGate_of_step hst.2 hst.1 hs with hbefore | hcloses
      · obtain ⟨es₁, e', es₂, u, rfl, hu, hcloses⟩ := ih hbefore
        exact ⟨es₁, e', es₂ ++ [e], u, by simp, hu, hcloses⟩
      · exact ⟨es, e, [], s, rfl, hrun.of_within, hcloses⟩

end Service

end Jetty.Orchestrator
