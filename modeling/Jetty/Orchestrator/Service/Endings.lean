import Jetty.Orchestrator.Service.Processes
import Jetty.Orchestrator.Service.Scans

/-!
# How `run` ends

Nobody awaits the run loop's task before the shutdown, so an exception out of `run` leaves
the instance up with an unsupervised service. Several operations of the loop and of the
watchers it awaits are not guarded, and the backoff of the 1025th charged exit is not a
float. Where none of these raises, `run` ends on request or through the fail callback.
-/

namespace Jetty.Orchestrator

open Transition

/-- The `finally` clause of `_run_once` runs because of an exception. -/
def RunPc.unwinding : RunPc → Bool
  | .joinGate (.raised _) | .joinPath (.raised _) => true
  | _ => false

namespace Service

instance (c : ServiceSetup) (now : ℚ) (s : Service) : Decidable (s.OverflowsAt c now) :=
  inferInstanceAs (Decidable (_ ∧ _))

instance (c : ServiceSetup) (now : ℚ) (code : ℤ) (s : Service) :
    Decidable (s.ChargeOverflowsAt c now code) :=
  inferInstanceAs (Decidable (_ ∧ _))

instance (c : ServiceSetup) (s : Service) (e : RunEvent) : Decidable (s.Overflows c e) :=
  inferInstanceAs (Decidable (_ ∨ _))

/-- No unguarded operation of the run loop or of a watcher raises in the step, and it
charges no exit within the budget whose backoff is not a float. -/
def Harmless (c : ServiceSetup) (s : Service) (e : Event) : Prop :=
  match e with
  | .run e φ => φ = none ∧ raises e = none ∧ ¬ s.Overflows c e
  | .gatePolled r φ => r.isSome = true ∧ φ = none
  | .gateTerminated _ φ | .pathStarted _ _ φ | .pathWoke _ φ | .pathTerminated _ φ => φ = none
  | _ => True

instance (c : ServiceSetup) (s : Service) (e : Event) : Decidable (s.Harmless c e) := by
  unfold Harmless
  rcases e <;> infer_instance

/-- No exception is under way to the run loop's task, and if `run` has returned it has
concluded. -/
structure Sound (s : Service) : Prop where
  gateWatch : s.gateWatch ≠ .died
  pathWatch : s.pathWatch ≠ .died
  unwinding : s.run.unwinding = false
  raised : ∀ f, s.run ≠ .raised f
  returned : s.run = .returned → s.attached = false ∧ Concluded s

private theorem sound_init : Sound init where
  gateWatch := nofun
  pathWatch := nofun
  unwinding := rfl
  raised := nofun
  returned := nofun

variable {c : ServiceSetup} {φ : Option Fault} {s t : Service}

private theorem cancelled_ne_died {w : WatchPc} (h : w ≠ .died) : cancelled w ≠ .died := by
  unfold cancelled
  split
  · exact h
  · exact nofun

/-- The stop request is never taken back. -/
private theorem stopEvent_mono {e : Event} (h : Aside s e t) (hs : s.stopEvent = true) :
    t.stopEvent = true := by
  rcases h.stopEvent with heq | ⟨heq, -⟩
  · exact heq.trans hs
  · exact heq

/-! ### The watchers -/

/-- A step of the gate watcher none of whose operations raises. -/
private theorem gateStep_alive {e : Event} (hst : gateStep c s e = some t)
    (hp : s.Harmless c e) : t.gateWatch ≠ .died ∧ t.pathWatch = s.pathWatch := by
  cases e with
  | gateStarted =>
      simp only [gateStep, Option.ite_none_right_eq_some, Option.some.injEq] at hst
      obtain ⟨-, rfl⟩ := hst
      exact ⟨by rintro ⟨⟩, rfl⟩
  | gateWoke =>
      simp only [gateStep, Option.ite_none_right_eq_some, Option.some.injEq] at hst
      obtain ⟨-, rfl⟩ := hst
      refine ⟨?_, rfl⟩
      dsimp only
      split <;> rintro ⟨⟩
  | gatePolled r φ =>
      obtain ⟨hr, rfl⟩ := hp
      obtain ⟨r, rfl⟩ := Option.isSome_iff_exists.mp hr
      simp only [gateStep, Option.ite_none_right_eq_some] at hst
      obtain ⟨-, hst⟩ := hst
      obtain ⟨x, y, hxy⟩ := countPoll_eq (s := s) r
      simp only [hxy, logNote_none, bind, Except.bind, sweepGraceful_none] at hst
      split at hst
      · obtain rfl := Option.some.inj hst
        exact ⟨by rintro ⟨⟩, rfl⟩
      · split at hst
        · obtain rfl := Option.some.inj hst
          exact ⟨by rintro ⟨⟩, rfl⟩
        · obtain rfl := Option.some.inj hst
          exact ⟨by rintro ⟨⟩, rfl⟩
  | gateTerminated timeout φ =>
      obtain rfl : φ = none := hp
      simp only [gateStep, Option.ite_none_right_eq_some] at hst
      obtain ⟨-, hst⟩ := hst
      split at hst
      · cases hst
      · obtain ⟨r, hr, rfl⟩ := Option.map_eq_some_iff.mp hst
        rcases orElse_terminated ({ · with gateWatch := .died })
          ({ · with gateWatch := .finished }) hr with hk | ⟨hφ, -⟩
        · rw [hk]
          exact ⟨by rintro ⟨⟩, rfl⟩
        · exact absurd rfl hφ
  | _ => simp only [gateStep, reduceCtorEq] at hst

/-- A step of the path watcher none of whose operations raises. -/
private theorem pathStep_alive {e : Event} (hst : pathStep s e = some t)
    (hp : s.Harmless c e) : t.pathWatch ≠ .died ∧ t.gateWatch = s.gateWatch := by
  cases e with
  | pathStarted scan wide φ =>
      obtain rfl : φ = none := hp
      simp only [pathStep, Option.ite_none_right_eq_some, reduceCtorEq, if_false, logNote_none,
        ite_self, Option.some.injEq] at hst
      obtain ⟨-, rfl⟩ := hst
      exact ⟨by rintro ⟨⟩, rfl⟩
  | pathWoke current φ =>
      obtain rfl : φ = none := hp
      simp only [pathStep, Option.ite_none_right_eq_some, reduceCtorEq, if_false,
        logNote_none, bind, Except.bind, sweepGraceful_none] at hst
      obtain ⟨hsleep, hst⟩ := hst
      split at hst
      · obtain rfl := Option.some.inj hst
        exact ⟨by rintro ⟨⟩, rfl⟩
      · split at hst
        · obtain rfl := Option.some.inj hst
          exact ⟨by simp [hsleep], rfl⟩
        · obtain rfl := Option.some.inj hst
          exact ⟨by rintro ⟨⟩, rfl⟩
  | pathTerminated timeout φ =>
      obtain rfl : φ = none := hp
      simp only [pathStep, Option.ite_none_right_eq_some] at hst
      obtain ⟨-, hst⟩ := hst
      split at hst
      · cases hst
      · obtain ⟨r, hr, rfl⟩ := Option.map_eq_some_iff.mp hst
        rcases orElse_terminated ({ · with pathWatch := .died })
          ({ · with pathWatch := .finished }) hr with hk | ⟨hφ, -⟩
        · rw [hk]
          exact ⟨by rintro ⟨⟩, rfl⟩
        · exact absurd rfl hφ
  | _ => simp only [pathStep, reduceCtorEq] at hst

/-- In a harmless step of anything but the run loop no watcher dies. -/
private theorem alive_aside {e : Event} (hst : step c s e = some t) (hp : s.Harmless c e)
    (he : ∀ e' φ, e ≠ .run e' φ) (hg : s.gateWatch ≠ .died) (hw : s.pathWatch ≠ .died) :
    t.gateWatch ≠ .died ∧ t.pathWatch ≠ .died := by
  have hsame (h : SameWatchers s t) : t.gateWatch ≠ .died ∧ t.pathWatch ≠ .died := by
    rcases h with ⟨hg', hw'⟩ | ⟨hg', hw'⟩
    · exact ⟨hg' ▸ hg, hw' ▸ hw⟩
    · exact ⟨hg' ▸ cancelled_ne_died hg, hw' ▸ cancelled_ne_died hw⟩
  cases e with
  | run e φ => exact absurd rfl (he e φ)
  | gateStarted | gateWoke | gatePolled | gateTerminated =>
      simp only [step] at hst
      obtain ⟨hg', hw'⟩ := gateStep_alive hst hp
      exact ⟨hg', hw' ▸ hw⟩
  | pathStarted | pathWoke | pathTerminated =>
      simp only [step] at hst
      obtain ⟨hw', hg'⟩ := pathStep_alive hst hp
      exact ⟨hg' ▸ hg, hw'⟩
  | restart | restarted =>
      simp only [step] at hst
      exact hsame (restartStep_watchers hst).1
  | stop | stopped =>
      simp only [step] at hst
      exact hsame (stopStep_watchers hst).1
  | die | stragglersDie | reap | killAll | cancel =>
      simp only [step] at hst
      exact hsame (processStep_watchers hst).1

private theorem Sound.aside {e : Event} (h : Sound s) (hst : Steps c s e t)
    (hp : s.Harmless c e) (he : ∀ e' φ, e ≠ .run e' φ) : Sound t := by
  obtain ⟨hg, hw⟩ := alive_aside hst hp he h.gateWatch h.pathWatch
  have haside := step_aside hst he
  rcases haside.run with hrun | ⟨-, hrun, -⟩
  · refine ⟨hg, hw, hrun ▸ h.unwinding, hrun ▸ h.raised, fun hr => ?_⟩
    obtain ⟨hatt, hdone⟩ := h.returned (hrun ▸ hr)
    have hstate : t.state = s.state := by
      rcases haside.state with hs | ⟨-, hs⟩
      · exact hs
      · rw [hatt] at hs
        cases hs
    refine ⟨attached_of_ages haside.proc haside.child hatt, ?_⟩
    rcases hdone with ⟨hstop, hs⟩ | ⟨hfailed, hs⟩
    · exact .inl ⟨stopEvent_mono haside hstop, hstate.trans hs⟩
    · exact .inr ⟨haside.failed ▸ hfailed, hstate.trans hs⟩
  · refine ⟨hg, hw, ?_, ?_, ?_⟩
    all_goals simp [hrun, RunPc.unwinding]

/-! ### The run loop -/

private theorem Sound.books {u : Service} {o d g : Prop} (h : Sound s) (hb : Books none o d g u t)
    (ho : ¬ o) (hgate : u.gateWatch = s.gateWatch) (hpath : u.pathWatch = s.pathWatch)
    (hatt : u.attached = false) : Sound t where
  gateWatch := by
    rw [hb.keeps.gateWatch, hgate]
    exact h.gateWatch
  pathWatch := by
    rw [hb.keeps.pathWatch, hpath]
    exact h.pathWatch
  unwinding := by
    have hp := hb.parked
    cases hrun : t.run <;> simp_all [RunPc.parked, RunPc.idle, RunPc.over, RunPc.unwinding]
  raised f hf := by
    rcases hb.raised f hf with hφ | ⟨-, hover⟩
    · cases hφ
    · exact ho hover
  returned hr := by
    have hkeep : t.attached = u.attached := attached_congr hb.keeps.proc fun i _ => by
      rw [hb.keeps.child]
    exact ⟨hkeep.trans hatt, hb.returned hr⟩

private theorem Sound.stays {u : Service} {b : Prop} (hst : Stays none b u t)
    (hgate : u.gateWatch ≠ .died) (hpath : u.pathWatch ≠ .died) : Sound t := by
  have hrun : t.run = .waitExit ∨ t.run = .probing ∨ t.run = .probeSleep := by
    rcases hst.run with hr | hr | hr | ⟨f, hφ, -⟩
    · exact .inl hr
    · exact .inr (.inl hr)
    · exact .inr (.inr hr)
    · cases hφ
  refine ⟨?_, hst.pathWatch ▸ hpath, ?_, ?_, ?_⟩
  · rcases hst.gateWatch with hw | hw
    · exact hw ▸ hgate
    · exact hw ▸ cancelled_ne_died hgate
  all_goals rcases hrun with hr | hr | hr <;> simp [hr, RunPc.unwinding]

/-- The run loop goes on within an incarnation, and nothing raises. -/
private theorem Sound.of_run {u : Service} (hgate : u.gateWatch ≠ .died)
    (hpath : u.pathWatch ≠ .died) (hunwinding : u.run.unwinding = false)
    (hover : u.run.over = false) : Sound u where
  gateWatch := hgate
  pathWatch := hpath
  unwinding := hunwinding
  raised f hf := by simp [hf, RunPc.over] at hover
  returned hr := by simp [hr, RunPc.over] at hover

private theorem Sound.runEffect {e : RunEvent} (h : Sound s) (htr : Tracked s)
    (hst : RunEffect c none s e t) (hraises : raises e = none) (hover : ¬ s.Overflows c e) :
    Sound t := by
  cases hst with
  | idle hidle hb =>
      exact h.books hb hover rfl rfl (htr.detached (RunPc.down_of_idle hidle))
  | recheck => exact .of_run h.gateWatch h.pathWatch rfl rfl
  | raised hf _ _ =>
      rcases hf with hf | ⟨-, hf | hf⟩ | hf
      · rw [hraises] at hf
        cases hf
      · exact absurd hf h.gateWatch
      · exact absurd hf h.pathWatch
      · have hu := h.unwinding
        rw [hf] at hu
        cases hu
  | forked => exact .of_run h.gateWatch h.pathWatch rfl rfl
  | attached _ _ hst =>
      refine .stays hst ?_ ?_
      · dsimp only [attach]
        split <;> exact nofun
      · dsimp only [attach]
        split <;> exact nofun
  | attachRaised _ hφ _ | sweepRaises _ hφ _ => cases hφ
  | connectFailed hrun hb =>
      have hatt : s.attached = false := htr.detached (by rw [hrun]; rfl)
      exact h.books hb hover rfl rfl
        (attached_of_ages (s := s) rfl (ages_setChild (Child.ages_kill _).reap) hatt)
  | probed _ hst => exact .stays hst h.gateWatch h.pathWatch
  | waits _ hst => exact .stays hst h.gateWatch h.pathWatch
  | exited => exact .of_run (cancelled_ne_died h.gateWatch) h.pathWatch rfl rfl
  | @joined r now hrun =>
      have hu := h.unwinding
      rw [hrun] at hu
      cases r with
      | exited code => exact .of_run h.gateWatch (cancelled_ne_died h.pathWatch) rfl rfl
      | raised f => cases hu
  | drains => exact .of_run h.gateWatch h.pathWatch rfl rfl
  | classified hu hb _ =>
      rcases hu with ⟨hrun, rfl⟩ | ⟨hrun, rfl⟩
      · have hatt : s.attached = false := htr.detached (by rw [hrun]; rfl)
        exact h.books hb hover rfl rfl
          (attached_of_ages (s := s) rfl (swept_sweepKill s).ages hatt)
      · exact h.books hb hover rfl rfl (htr.detached (by rw [hrun]; rfl))

private theorem Sound.step {e : Event} (h : Sound s) (htr : Tracked s) (hst : Steps c s e t)
    (hp : s.Harmless c e) : Sound t := by
  cases e with
  | run e φ =>
      obtain ⟨rfl, hraises, hover⟩ := hp
      exact h.runEffect htr (runStep_effect hst) hraises hover
  | _ => exact h.aside hst hp (by simp)

/-- In every run in which no unguarded operation of the run loop or of a watcher raises and
no charged exit has a backoff that is not a float, `run` raises nothing, and it returns only
stopped after a stop request or failed after the fail callback. -/
theorem never_dies_silently {es : List Event}
    (h : Run ((Steps c).within (Harmless c)) init es s) :
    (∀ f, s.run ≠ .raised f) ∧ (s.run = .returned → Concluded s) := by
  have hboth : Tracked s ∧ Sound s := h.invariant (fun s => Tracked s ∧ Sound s)
    ⟨tracked_init, sound_init⟩
    fun _ _ _ ⟨htr, hs⟩ ⟨hp, hst⟩ => ⟨htr.step hst, hs.step htr hst hp⟩
  exact ⟨hboth.2.raised, fun hr => (hboth.2.returned hr).2⟩

/-- Without a budget the first crash fails the instance. -/
def crashed : List Event :=
  [.run .begin none, .run (.rendered (.ok { cmd := ["api"] } (some 100)) 0) none,
    .run (.connected true false 0) none, .die 0 1 false, .reap 0, .run .exited none,
    .run (.joined 1) none, .run (.joined 1) none, .run (.drained .ok 1) none]

/-- The instance that fails with its first crash tells so. -/
theorem never_dies_silently_crashed :
    ∃ s, Run ((Steps { restart := { maxRestarts := 0 } }).within
        (Harmless { restart := { maxRestarts := 0 } })) init crashed s ∧
      s.run = .returned ∧ Concluded s := by
  obtain ⟨s, hrun, hs⟩ := exists_run_of_execWithin (step { restart := { maxRestarts := 0 } })
    (Harmless { restart := { maxRestarts := 0 } }) init crashed
    (fun s => decide (s.run = .returned)) (by decide +kernel)
  have hr : s.run = .returned := of_decide_eq_true hs
  exact ⟨s, hrun, hr, (never_dies_silently hrun).2 hr⟩

/-- With the default restart policy, the log file that cannot be opened ends the task. -/
theorem not_never_dies_silently :
    ¬ ∀ (c : ServiceSetup) (es : List Event) (s : Service), Run (Steps c) init es s →
      (∀ f, s.run ≠ .raised f) ∧ (s.run = .returned → Concluded s) := by
  intro h
  obtain ⟨s, hrun, hs⟩ := exists_run_of_exec (step {}) init [.run .begin (some .openLog)]
    (fun s => decide (s.run = .raised .openLog)) (by decide +kernel)
  exact (h {} _ s hrun).1 .openLog (of_decide_eq_true hs)

end Service

end Jetty.Orchestrator
