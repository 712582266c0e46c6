import Jetty.Orchestrator.Service.Effects

/-!
# What the other tasks of a service can do

The watchers, `restart`, `stop` and the processes leave the run loop where it is. They
raise a request flag only against an attached process of a service that is not asked to
stop, and processes only age: the dead stay dead and return codes are recorded once.
-/

namespace Jetty.Orchestrator

/-- What can become of a process: it dies, it loses its stragglers, it is reaped. -/
structure Child.Ages (a b : Child) : Prop where
  pid : b.pid = a.pid
  live : b.live = true → a.live = true
  exited : a.exited.isSome = true → b.exited = a.exited
  returncode : a.returncode.isSome = true → b.returncode = a.returncode
  reaped : b.returncode.isSome = true → a.returncode.isSome = true ∨ b.exited.isSome = true

/-- A process ages by doing nothing. -/
theorem Child.Ages.refl (a : Child) : a.Ages a := ⟨rfl, id, fun _ => rfl, fun _ => rfl, .inl⟩

/-- A process ages by being killed. -/
theorem Child.ages_kill (a : Child) : a.Ages a.kill where
  pid := rfl
  live h := by simp [Child.live, Child.kill] at h
  exited h := by
    obtain ⟨x, hx⟩ := Option.isSome_iff_exists.mp h
    simp [Child.kill, hx]
  returncode _ := rfl
  reaped := .inl

private theorem Child.ages_killpg (a : Child) : a.Ages a.killpg where
  pid := rfl
  live h := by
    have hs : a.stragglers = true := by simpa [Child.live, Child.killpg] using h
    simp only [Child.live, hs, Bool.or_true]
  exited h := by
    obtain ⟨x, hx⟩ := Option.isSome_iff_exists.mp h
    simp [Child.killpg, hx]
  returncode _ := rfl
  reaped := .inl

/-- What is dead may be reaped. -/
theorem Child.Ages.reap {a b : Child} (h : a.Ages b) : a.Ages b.reap where
  pid := h.pid
  live := h.live
  exited := h.exited
  returncode ha := by
    obtain ⟨x, hx⟩ := Option.isSome_iff_exists.mp (h.returncode ha ▸ ha)
    simp [Child.reap, hx, ← h.returncode ha]
  reaped hb := by
    cases hr : b.returncode with
    | none =>
        rw [Child.reap, hr, Option.none_or] at hb
        exact .inr hb
    | some x => exact h.reaped (by rw [hr]; rfl)

@[simp] theorem Child.live_reap (a : Child) : a.reap.live = a.live := rfl

/-- The process has ended with its session, and it has been reaped. -/
def Child.Gone (a : Child) : Prop := a.live = false ∧ a.returncode.isSome = true

@[simp] theorem Child.live_kill (a : Child) : a.kill.live = false := by
  simp [Child.live, Child.kill]

/-- A process that is killed and waited for is gone. -/
theorem Child.gone_kill (a : Child) : a.kill.reap.Gone := by
  refine ⟨by rw [live_reap, live_kill], ?_⟩
  cases hr : a.returncode <;> simp [reap, kill, hr]

namespace Service

variable {c : ServiceSetup} {φ : Option Fault} {s t : Service} {e : Event}

/-- All processes age where one does. -/
theorem ages_setChild {i : ℕ} {a : Child} (h : (s.child i).Ages a) (j : ℕ) :
    (s.child j).Ages ((s.setChild i a).child j) := by
  by_cases hj : j = i
  · subst hj
    simpa only [setChild, Function.update_self] using h
  · simpa only [setChild, Function.update_of_ne hj] using .refl _

/-- A sweep that kills ages the processes. -/
theorem ages_sweepKill (j : ℕ) : (s.child j).Ages (s.sweepKill.child j) := by
  unfold sweepKill
  split
  · exact .refl _
  · exact ages_setChild (Child.ages_kill _) j

/-- So does any sweep. -/
theorem Swept.ages {ch : ℕ → Child} (h : Swept s ch) (j : ℕ) : (s.child j).Ages (ch j) := by
  rcases h with rfl | rfl | rfl
  · exact .refl _
  · exact ages_sweepKill j
  · unfold sweepRaised
    split
    · exact .refl _
    · exact ages_setChild (Child.ages_killpg _) j

/-- A sweep after a complete one changes nothing. -/
theorem Swept.of_sweepKill {ch : ℕ → Child}
    (h : Swept { s with child := s.sweepKill.child } ch) : ch = s.sweepKill.child := by
  have hkill (a : Child) : a.kill.kill = a.kill ∧ a.kill.killpg = a.kill := by
    simp [Child.kill, Child.killpg]
  rcases h with rfl | rfl | rfl
  · rfl
  · unfold sweepKill
    cases s.registered <;> simp [setChild, hkill]
  · unfold sweepRaised sweepKill
    cases s.registered <;> simp [setChild, hkill]

/-- What a sweep leaves of the processes is what `kill_all` does to the service, if anything. -/
theorem killAll_of_swept {ch : ℕ → Child} (h : Swept s ch) :
    { s with child := ch } = s ∨ ∃ φ, Steps c s (.killAll φ) { s with child := ch } := by
  rcases h with rfl | rfl | rfl
  · exact .inl rfl
  · refine .inr ⟨none, ?_⟩
    show some (orElse id (sweep none s)) = some _
    rw [sweep, if_neg nofun, ← sweepKill_eq]
    rfl
  · rw [← sweepRaised_eq]
    by_cases hreg : s.registered = none
    · exact .inl (by rw [sweepRaised, hreg])
    · refine .inr ⟨some .sweep, ?_⟩
      show some (orElse id (sweep (some .sweep) s)) = some _
      rw [sweep, if_pos ⟨hreg, rfl⟩]
      rfl

/-- A sweep leaves nobody alive in the session it targets. -/
theorem not_live_sweepKill {i : ℕ} (h : s.registered = some i) :
    (s.sweepKill.child i).live = false := by
  simp only [sweepKill, h, setChild, Function.update_self, Child.live_kill]

/-- A step of anything but the run loop. -/
structure Aside (s : Service) (e : Event) (t : Service) : Prop where
  run : t.run = s.run ∨ e = .cancel ∧ t.run = .cancelled ∧
    ∀ i, s.run = .creating i → (t.child i).Gone
  state : t.state = s.state ∨ t.state = .stopping ∧ s.attached = true
  stopEvent : t.stopEvent = s.stopEvent ∨ t.stopEvent = true ∧ ∃ φ, e = .stop φ
  readyEvent : t.readyEvent = s.readyEvent
  failed : t.failed = s.failed
  failTimes : t.failTimes = s.failTimes
  rendered : t.rendered = s.rendered
  proc : t.proc = s.proc
  spawned : t.spawned = s.spawned
  registered : t.registered = s.registered
  stop : (∀ φ, e ≠ .stop φ) → (∀ b φ, e ≠ .stopped b φ) → t.stop = s.stop
  bounces : (∀ φ, e ≠ .restart φ) → (∀ i b φ, e ≠ .restarted i b φ) → t.bounces = s.bounces
  child : ∀ i, (s.child i).Ages (t.child i)
  bounceRequested : t.bounceRequested = s.bounceRequested ∨
    t.bounceRequested = true ∧ s.attached = true ∧ s.stopEvent = false
  gateStop : t.gateStop = s.gateStop ∨
    t.gateStop = true ∧ s.attached = true ∧ s.stopEvent = false ∧ ∃ r φ, e = .gatePolled r φ

/-- The attributes a step of the run loop's companions never touches. -/
structure SameLoop (s t : Service) : Prop where
  run : t.run = s.run
  state : t.state = s.state
  stopEvent : t.stopEvent = s.stopEvent
  readyEvent : t.readyEvent = s.readyEvent
  failed : t.failed = s.failed
  failTimes : t.failTimes = s.failTimes
  rendered : t.rendered = s.rendered
  proc : t.proc = s.proc
  spawned : t.spawned = s.spawned
  registered : t.registered = s.registered
  stop : t.stop = s.stop
  bounces : t.bounces = s.bounces
  child : ∀ i, (s.child i).Ages (t.child i)

private theorem SameLoop.refl (s : Service) : SameLoop s s where
  run := rfl
  state := rfl
  stopEvent := rfl
  readyEvent := rfl
  failed := rfl
  failTimes := rfl
  rendered := rfl
  proc := rfl
  spawned := rfl
  registered := rfl
  stop := rfl
  bounces := rfl
  child _ := .refl _

private theorem SameLoop.aside (h : SameLoop s t)
    (hb : t.bounceRequested = s.bounceRequested ∨
      t.bounceRequested = true ∧ s.attached = true ∧ s.stopEvent = false)
    (hg : t.gateStop = s.gateStop ∨ t.gateStop = true ∧ s.attached = true ∧
      s.stopEvent = false ∧ ∃ r φ, e = .gatePolled r φ) : Aside s e t :=
  { h with
    run := .inl h.run
    state := .inl h.state
    stopEvent := .inl h.stopEvent
    stop := fun _ _ => h.stop
    bounces := fun _ _ => h.bounces
    bounceRequested := hb
    gateStop := hg }

/-- A poll touches the streaks and the counted runs only. -/
theorem countPoll_eq (r : List (String × Bool × ℚ)) :
    ∃ x y, s.countPoll r = { s with streaks := x, counted := y } := by
  induction r generalizing s with
  | nil => exact ⟨s.streaks, s.counted, rfl⟩
  | cons p r ih =>
      obtain ⟨name, ok, stamp⟩ := p
      simp only [countPoll, List.foldl_cons]
      split
      · exact ih
      · exact ih

/-- A log note in another task: the task goes on, or ends with the note's exception. -/
theorem orElse_logNote (s : Service) (onError k : Service → Service) :
    (orElse onError (do
      let s ← logNote φ s
      return k s)) = k s ∨
    (orElse onError (do
      let s ← logNote φ s
      return k s)) = onError s := by
  rcases logNote_cases φ s with hn | ⟨f, _, hn⟩
  · rw [hn]
    exact .inl rfl
  · rw [hn]
    exact .inr rfl

/-- A stop request's note and graceful signal: the task goes on, or ends with an exception. -/
theorem orElse_request (s : Service) (onError k : Service → Service) :
    (orElse onError (do
      let s ← logNote φ s
      let s ← sweepGraceful φ s
      return k s)) = k s ∨
    φ ≠ none ∧ (orElse onError (do
      let s ← logNote φ s
      let s ← sweepGraceful φ s
      return k s)) = onError s := by
  rcases logNote_cases φ s with hn | ⟨f, hφ, hn⟩
  · rw [hn]
    rcases sweepGraceful_cases φ s with hw | ⟨hφ, hw⟩
    · simp only [bind, Except.bind, hw]
      exact .inl rfl
    · simp only [bind, Except.bind, hw]
      exact .inr ⟨by simp [hφ], rfl⟩
  · rw [hn]
    exact .inr ⟨by simp [hφ], rfl⟩

/-- A sweep in another task: the task goes on, or ends with the sweep's exception. -/
theorem orElse_sweep (s : Service) (onError k : Service → Service) :
    (orElse onError (do
      let s ← sweep φ s
      return k s)) = k { s with child := s.sweepKill.child } ∨
    φ ≠ none ∧ (orElse onError (do
      let s ← sweep φ s
      return k s)) = onError { s with child := s.sweepRaised.child } := by
  rcases sweep_cases φ s with hw | ⟨hφ, hw⟩
  · rw [hw]
    exact .inl rfl
  · rw [hw]
    exact .inr ⟨by simp [hφ], rfl⟩

/-- Waiting out the grace period and sweeping changes nothing but processes before the task
goes on or ends. -/
theorem orElse_terminated {timeout : Bool} {i : ℕ} {r : Code} (onError k : Service → Service)
    (h : graceOver φ timeout i s = some r) :
    (orElse onError (do
      let s ← r
      let s ← sweep φ s
      return k s)) = k { s with child := s.sweepKill.child } ∨
    φ ≠ none ∧ ∃ ch, Swept s ch ∧ (orElse onError (do
      let s ← r
      let s ← sweep φ s
      return k s)) = onError { s with child := ch } := by
  rcases graceOver_cases h with rfl | ⟨f, hφ, rfl⟩
  · rcases orElse_sweep (φ := φ) s onError k with hk | ⟨hφ, hk⟩
    · exact .inl hk
    · exact .inr ⟨hφ, _, swept_sweepRaised s, hk⟩
  · exact .inr ⟨by simp [hφ], s.child, .refl s, rfl⟩

private theorem gateStep_aside (h : gateStep c s e = some t) : Aside s e t := by
  cases e with
  | gateStarted =>
      simp only [gateStep, Option.ite_none_right_eq_some, Option.some.injEq] at h
      obtain ⟨-, rfl⟩ := h
      exact SameLoop.aside { SameLoop.refl s with } (.inl rfl) (.inl rfl)
  | gateWoke =>
      simp only [gateStep, Option.ite_none_right_eq_some, Option.some.injEq] at h
      obtain ⟨-, rfl⟩ := h
      exact SameLoop.aside { SameLoop.refl s with } (.inl rfl) (.inl rfl)
  | gatePolled r φ =>
      simp only [gateStep, Option.ite_none_right_eq_some] at h
      obtain ⟨-, h⟩ := h
      cases r with
      | none =>
          obtain rfl := Option.some.inj h
          exact SameLoop.aside { SameLoop.refl s with } (.inl rfl) (.inl rfl)
      | some r =>
          obtain ⟨x, y, hxy⟩ := countPoll_eq (s := s) r
          simp only [hxy] at h
          split at h
          · obtain rfl := Option.some.inj h
            exact SameLoop.aside { SameLoop.refl s with } (.inl rfl) (.inl rfl)
          · split at h
            · obtain rfl := Option.some.inj h
              exact SameLoop.aside { SameLoop.refl s with } (.inl rfl) (.inl rfl)
            · rename_i hlive
              have hgate : s.attached = true ∧ s.stopEvent = false := by
                simpa [attached, and_comm] using hlive
              obtain rfl := Option.some.inj h
              rcases orElse_request (φ := φ) { s with streaks := x, counted := y, gateStop := true }
                ({ · with gateWatch := .died }) ({ · with gateWatch := .terminating }) with
                hk | ⟨-, hk⟩
              · rw [hk]
                exact SameLoop.aside { SameLoop.refl s with } (.inl rfl)
                  (.inr ⟨rfl, hgate.1, hgate.2, _, _, rfl⟩)
              · rw [hk]
                exact SameLoop.aside { SameLoop.refl s with } (.inl rfl)
                  (.inr ⟨rfl, hgate.1, hgate.2, _, _, rfl⟩)
  | gateTerminated timeout φ =>
      simp only [gateStep, Option.ite_none_right_eq_some] at h
      obtain ⟨-, h⟩ := h
      split at h
      · cases h
      · obtain ⟨r, hr, rfl⟩ := Option.map_eq_some_iff.mp h
        rcases orElse_terminated ({ · with gateWatch := .died })
          ({ · with gateWatch := .finished }) hr with hk | ⟨-, ch, hch, hk⟩
        · rw [hk]
          exact SameLoop.aside { SameLoop.refl s with child := ages_sweepKill } (.inl rfl)
            (.inl rfl)
        · rw [hk]
          exact SameLoop.aside { SameLoop.refl s with child := hch.ages } (.inl rfl) (.inl rfl)
  | _ => simp only [gateStep, reduceCtorEq] at h

/-- A step of the path watcher happens beside the run loop. -/
theorem pathStep_aside (h : pathStep s e = some t) : Aside s e t := by
  cases e with
  | pathStarted scan wide φ =>
      simp only [pathStep, Option.ite_none_right_eq_some] at h
      obtain ⟨-, h⟩ := h
      split at h
      · obtain rfl := Option.some.inj h
        exact SameLoop.aside { SameLoop.refl s with } (.inl rfl) (.inl rfl)
      · obtain rfl := Option.some.inj h
        cases wide with
        | true =>
            rcases orElse_logNote (φ := φ) { s with baseline := scan }
              ({ · with pathWatch := .died })
              ({ · with previous := scan, pathWatch := .sleeping }) with hk | hk
            · rw [if_pos rfl, hk]
              exact SameLoop.aside { SameLoop.refl s with } (.inl rfl) (.inl rfl)
            · rw [if_pos rfl, hk]
              exact SameLoop.aside { SameLoop.refl s with } (.inl rfl) (.inl rfl)
        | false => exact SameLoop.aside { SameLoop.refl s with } (.inl rfl) (.inl rfl)
  | pathWoke current φ =>
      simp only [pathStep, Option.ite_none_right_eq_some] at h
      obtain ⟨-, h⟩ := h
      split at h
      · obtain rfl := Option.some.inj h
        exact SameLoop.aside { SameLoop.refl s with } (.inl rfl) (.inl rfl)
      · rename_i hlive
        have hgate : s.attached = true ∧ s.stopEvent = false := by
          simpa [and_comm] using hlive
        split at h
        · obtain rfl := Option.some.inj h
          exact SameLoop.aside { SameLoop.refl s with } (.inl rfl) (.inl rfl)
        · split at h
          · obtain rfl := Option.some.inj h
            exact SameLoop.aside { SameLoop.refl s with } (.inl rfl) (.inl rfl)
          · obtain rfl := Option.some.inj h
            rcases orElse_request (φ := φ) { s with previous := current, bounceRequested := true }
              ({ · with pathWatch := .died }) ({ · with pathWatch := .terminating }) with
              hk | ⟨-, hk⟩
            · rw [hk]
              exact SameLoop.aside { SameLoop.refl s with } (.inr ⟨rfl, hgate⟩) (.inl rfl)
            · rw [hk]
              exact SameLoop.aside { SameLoop.refl s with } (.inr ⟨rfl, hgate⟩) (.inl rfl)
  | pathTerminated timeout φ =>
      simp only [pathStep, Option.ite_none_right_eq_some] at h
      obtain ⟨-, h⟩ := h
      split at h
      · cases h
      · obtain ⟨r, hr, rfl⟩ := Option.map_eq_some_iff.mp h
        rcases orElse_terminated ({ · with pathWatch := .died })
          ({ · with pathWatch := .finished }) hr with hk | ⟨-, ch, hch, hk⟩
        · rw [hk]
          exact SameLoop.aside { SameLoop.refl s with child := ages_sweepKill } (.inl rfl)
            (.inl rfl)
        · rw [hk]
          exact SameLoop.aside { SameLoop.refl s with child := hch.ages } (.inl rfl) (.inl rfl)
  | _ => simp only [pathStep, reduceCtorEq] at h

/-- What a `restart` call does up to its first suspension. -/
theorem restart_cases (hst : restartStep s (.restart φ) = some t) :
    s.restartIgnored = true ∧ t = s ∨
      s.restartIgnored = false ∧ (φ ≠ none ∧ t = { s with bounceRequested := true } ∨
        t = { s with bounceRequested := true, bounces := s.proc.toList ++ s.bounces }) := by
  simp only [restartStep] at hst
  split at hst
  · exact .inl ⟨‹_›, (Option.some.inj hst).symm⟩
  · rename_i hign
    refine .inr ⟨by simpa using hign, ?_⟩
    obtain rfl := Option.some.inj hst
    rcases orElse_request (φ := φ) { s with bounceRequested := true }
      id (fun s => { s with bounces := s.proc.toList ++ s.bounces }) with hk | ⟨hφ, hk⟩
    · exact .inr hk
    · exact .inl ⟨hφ, hk⟩

/-- What a `restart` call does once the grace period of the process it captured is over. -/
theorem restarted_cases {i : ℕ} {timeout : Bool}
    (hst : restartStep s (.restarted i timeout φ) = some t) :
    ∃ ch, Swept s ch ∧ t = { s with child := ch, bounces := s.bounces.erase i } ∧
      (φ ≠ none ∨ (s.child i).returncode.isSome = true ∨ ch = s.sweepKill.child) := by
  simp only [restartStep, Option.ite_none_right_eq_some] at hst
  obtain ⟨-, hst⟩ := hst
  obtain ⟨r, hr, rfl⟩ := Option.map_eq_some_iff.mp hst
  rcases graceOver_cases hr with rfl | ⟨f, hφ, rfl⟩
  · simp only [bind, Except.bind]
    by_cases hnone : (s.child i).returncode = none
    · rcases sweep_cases φ s with hw | ⟨hφ, hw⟩
      · rw [if_pos hnone, hw]
        exact ⟨_, swept_sweepKill s, rfl, .inr (.inr rfl)⟩
      · rw [if_pos hnone, hw]
        exact ⟨_, swept_sweepRaised s, rfl, .inl (by simp [hφ])⟩
    · rw [if_neg hnone]
      exact ⟨_, .refl s, rfl, .inr (.inl (Option.isSome_iff_ne_none.mpr hnone))⟩
  · exact ⟨_, .refl s, rfl, .inl (by simp [hφ])⟩

private theorem restartStep_aside (h : restartStep s e = some t) : Aside s e t := by
  cases e with
  | restart φ =>
      rcases restart_cases h with ⟨-, rfl⟩ | ⟨hign, hasked⟩
      · exact (SameLoop.refl _).aside (.inl rfl) (.inl rfl)
      · have hgate : s.attached = true ∧ s.stopEvent = false := by
          simp only [restartIgnored, Bool.or_eq_false_iff, Bool.not_eq_false'] at hign
          exact ⟨hign.2, hign.1.1⟩
        have haside : Aside s (.restart φ) { s with bounceRequested := true } :=
          SameLoop.aside { SameLoop.refl s with } (.inr ⟨rfl, hgate⟩) (.inl rfl)
        rcases hasked with ⟨-, rfl⟩ | rfl
        · exact haside
        · exact { haside with bounces := fun hne => absurd rfl (hne φ) }
  | restarted i timeout φ =>
      obtain ⟨ch, hch, rfl, -⟩ := restarted_cases h
      have haside : Aside s (.restarted i timeout φ) { s with child := ch } :=
        SameLoop.aside { SameLoop.refl s with child := hch.ages } (.inl rfl) (.inl rfl)
      exact { haside with
        run := .inl rfl
        bounces := fun _ hne => absurd rfl (hne i timeout φ) }
  | _ => simp only [restartStep, reduceCtorEq] at h

/-- What the `stop` call does up to its first suspension, or its return. -/
theorem stop_cases (hst : stopStep s (.stop φ) = some t) : s.stop = .idle ∧
    (s.attached = true ∧ (∃ i n st, (st = .terminating i ∨ φ ≠ none ∧ st = .died) ∧
        t = { s with stopEvent := true, state := .stopping, notified := n, stop := st }) ∨
      ∃ ch st, Swept { s with stopEvent := true } ch ∧
        (ch = ({ s with stopEvent := true } : Service).sweepKill.child ∧ st = .finished ∨
          φ ≠ none ∧ st = .died) ∧
        t = { s with stopEvent := true, child := ch, stop := st }) := by
  simp only [stopStep, Option.ite_none_right_eq_some] at hst
  obtain ⟨hidle, hst⟩ := hst
  refine ⟨hidle, ?_⟩
  split at hst
  · rename_i i _ hatt
    refine .inl ⟨hatt, i, ?_⟩
    obtain rfl := Option.some.inj hst
    rcases setState_cases φ .stopping { s with stopEvent := true } with ⟨n, hn⟩ | ⟨hφ, hn⟩
    · rw [hn]
      rcases sweepGraceful_cases φ
        { s with stopEvent := true, state := .stopping, notified := n } with hw | ⟨hφ, hw⟩
      · simp only [bind, Except.bind, hw]
        exact ⟨n, _, .inl rfl, rfl⟩
      · simp only [bind, Except.bind, hw]
        exact ⟨n, _, .inr ⟨by simp [hφ], rfl⟩, rfl⟩
    · rw [hn]
      exact ⟨s.notified, _, .inr ⟨by simp [hφ], rfl⟩, rfl⟩
  · obtain rfl := Option.some.inj hst
    right
    rcases sweep_cases φ { s with stopEvent := true } with hw | ⟨hφ, hw⟩
    · rw [hw]
      exact ⟨_, _, swept_sweepKill _, .inl ⟨rfl, rfl⟩, rfl⟩
    · rw [hw]
      exact ⟨_, _, swept_sweepRaised _, .inr ⟨by simp [hφ], rfl⟩, rfl⟩

/-- What the `stop` call does once the grace period is over. -/
theorem stopped_cases {timeout : Bool} (hst : stopStep s (.stopped timeout φ) = some t) :
    (∃ i, s.stop = .terminating i) ∧ ∃ ch st, Swept s ch ∧
      (ch = s.sweepKill.child ∧ st = .finished ∨ φ ≠ none ∧ st = .died) ∧
      t = { s with child := ch, stop := st } := by
  simp only [stopStep] at hst
  split at hst
  · rename_i i hstop
    refine ⟨⟨i, hstop⟩, ?_⟩
    obtain ⟨r, hr, rfl⟩ := Option.map_eq_some_iff.mp hst
    rcases orElse_terminated ({ · with stop := .died }) ({ · with stop := .finished }) hr with
      hk | ⟨hφ, ch, hch, hk⟩
    · exact ⟨_, _, swept_sweepKill s, .inl ⟨rfl, rfl⟩, hk⟩
    · exact ⟨ch, _, hch, .inr ⟨hφ, rfl⟩, hk⟩
  · cases hst

private theorem stopStep_aside (h : stopStep s e = some t) : Aside s e t := by
  cases e with
  | stop φ =>
      obtain ⟨-, ⟨hatt, i, n, st, -, rfl⟩ | ⟨ch, st, hch, -, rfl⟩⟩ := stop_cases h
      · exact { SameLoop.refl s with
          run := .inl rfl
          state := .inr ⟨rfl, hatt⟩
          stopEvent := .inr ⟨rfl, φ, rfl⟩
          stop := fun hne => absurd rfl (hne φ)
          bounces := fun _ _ => rfl
          bounceRequested := .inl rfl
          gateStop := .inl rfl }
      · exact { SameLoop.refl s with
          run := .inl rfl
          state := .inl rfl
          stopEvent := .inr ⟨rfl, φ, rfl⟩
          stop := fun hne => absurd rfl (hne φ)
          bounces := fun _ _ => rfl
          child := hch.ages
          bounceRequested := .inl rfl
          gateStop := .inl rfl }
  | stopped timeout φ =>
      obtain ⟨-, ch, st, hch, -, rfl⟩ := stopped_cases h
      exact { SameLoop.refl s with
        run := .inl rfl
        state := .inl rfl
        stopEvent := .inl rfl
        stop := fun _ hne => absurd rfl (hne timeout φ)
        bounces := fun _ _ => rfl
        child := hch.ages
        bounceRequested := .inl rfl
        gateStop := .inl rfl }
  | _ => simp only [stopStep, reduceCtorEq] at h

private theorem setChild_aside {i : ℕ} {a : Child} (ha : (s.child i).Ages a) :
    Aside s e (s.setChild i a) :=
  SameLoop.aside { SameLoop.refl s with child := ages_setChild ha } (.inl rfl) (.inl rfl)

private theorem cancelled_aside (hrun : t.run = .cancelled)
    (hdead : ∀ i, s.run = .creating i → (t.child i).Gone) (hloop : SameLoop { s with
    run := .cancelled } t) (hb : t.bounceRequested = s.bounceRequested)
    (hg : t.gateStop = s.gateStop) : Aside s .cancel t :=
  { hloop with
    run := .inr ⟨rfl, hrun, hdead⟩
    state := .inl hloop.state
    stopEvent := .inl hloop.stopEvent
    stop := fun _ _ => hloop.stop
    bounces := fun _ _ => hloop.bounces
    bounceRequested := .inl hb
    gateStop := .inl hg }

private theorem processStep_aside (h : processStep s e = some t) : Aside s e t := by
  cases e with
  | die i code stragglers =>
      simp only [processStep, Option.ite_none_right_eq_some, Option.some.injEq] at h
      obtain ⟨⟨-, hnone⟩, rfl⟩ := h
      refine setChild_aside ⟨rfl, fun _ => ?_, fun hs => ?_, fun _ => rfl, .inl⟩
      · simp only [Child.live, hnone, Option.isNone_none, Bool.true_or]
      · simp only [hnone, Option.isSome_none, Bool.false_eq_true] at hs
  | stragglersDie i =>
      simp only [processStep, Option.ite_none_right_eq_some, Option.some.injEq] at h
      obtain ⟨-, rfl⟩ := h
      refine setChild_aside ⟨rfl, fun hl => ?_, fun _ => rfl, fun _ => rfl, .inl⟩
      simp only [Child.live, Bool.or_false] at hl
      simp only [Child.live, hl, Bool.true_or]
  | reap i =>
      simp only [processStep, Option.ite_none_right_eq_some, Option.some.injEq] at h
      obtain ⟨⟨-, hexited, hnone⟩, rfl⟩ := h
      refine setChild_aside ⟨rfl, id, fun _ => rfl, fun hs => ?_, fun _ => .inr hexited⟩
      simp only [hnone, Option.isSome_none, Bool.false_eq_true] at hs
  | killAll φ =>
      obtain rfl := Option.some.inj h
      have hswept {ch : ℕ → Child} (hch : Swept s ch) :
        Aside s (.killAll φ) { s with child := ch } :=
        SameLoop.aside { SameLoop.refl s with child := hch.ages } (.inl rfl) (.inl rfl)
      rcases sweep_cases φ s with hw | ⟨-, hw⟩
      · rw [hw]
        exact hswept (swept_sweepKill s)
      · rw [hw]
        exact hswept (swept_sweepRaised s)
  | cancel =>
      simp only [processStep] at h
      split at h
      · cases h
      · cases h
      · cases h
      · obtain rfl := Option.some.inj h
        exact (SameLoop.refl s).aside (.inl rfl) (.inl rfl)
      · obtain rfl := Option.some.inj h
        exact (SameLoop.refl s).aside (.inl rfl) (.inl rfl)
      · rename_i i hrun
        obtain rfl := Option.some.inj h
        refine cancelled_aside rfl (fun j hj => ?_)
          { SameLoop.refl s with
              run := rfl
              child := ages_setChild (Child.ages_kill _).reap } rfl rfl
        obtain rfl : i = j := by simpa only [hrun, RunPc.creating.injEq] using hj
        simpa only [setChild, Function.update_self] using Child.gone_kill _
      all_goals
        obtain rfl := Option.some.inj h
        refine cancelled_aside rfl (fun j hj => ?_) { SameLoop.refl _ with } rfl rfl
        grind
  | _ => simp only [processStep, reduceCtorEq] at h

/-- Every step that is not the run loop's leaves the run loop alone. -/
theorem step_aside (h : step c s e = some t) (he : ∀ e' φ, e ≠ .run e' φ) : Aside s e t := by
  cases e with
  | run e φ => exact absurd rfl (he e φ)
  | gateStarted | gateWoke | gatePolled | gateTerminated => exact gateStep_aside (c := c) h
  | pathStarted | pathWoke | pathTerminated => exact pathStep_aside h
  | restart | restarted => exact restartStep_aside h
  | stop | stopped => exact stopStep_aside h
  | die | stragglersDie | reap | killAll | cancel => exact processStep_aside h

end Service

end Jetty.Orchestrator
