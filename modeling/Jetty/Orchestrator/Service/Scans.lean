import Jetty.Orchestrator.Service.Tasks

/-!
# Who touches the path watcher

Only the path watcher itself takes scans. The run loop creates and cancels it, the gate watcher,
`restart`, `stop` and the processes leave it where it is, or it is cancelled with the run loop.
-/

namespace Jetty.Orchestrator

/-- Where watchers may be up beside the run loop, or be left behind by it. -/
def RunPc.beside : RunPc → Bool
  | .probing | .probeSleep | .waitExit | .joinGate _ | .returned | .raised _ | .cancelled => true
  | _ => false

/-- The task is not there, or takes no further step. -/
def WatchPc.over : WatchPc → Bool
  | .absent | .finished | .died => true
  | _ => false

/-- The signatures of the watched paths, in their order. -/
abbrev Scan := List (Option Signature)

/-- All paths are present. -/
def Scan.Present (scan : Scan) : Prop := ∀ sig ∈ scan, sig.isSome = true

instance (scan : Scan) : Decidable scan.Present := inferInstanceAs (Decidable (∀ _ ∈ _, _))

/-- The event is none of the run loop's and none of the path watcher's. -/
def Event.bystander : Event → Bool
  | .run _ _ | .pathStarted _ _ _ | .pathWoke _ _ | .pathTerminated _ _ => false
  | _ => true

/-- What a bystander does is no step of the run loop. -/
theorem Event.ne_run_of_bystander {e : Event} (h : e.bystander = true) (e' : RunEvent)
    (φ : Option Fault) : e ≠ .run e' φ := by
  rintro rfl
  cases h

private theorem RunPc.beside_of_idle {pc : RunPc} (h : pc.idle = true) : pc.beside = false := by
  cases pc <;> first | rfl | cases h

namespace Service

variable {c : ServiceSetup} {φ : Option Fault} {s t : Service}

/-- The watchers are where they were, or were both cancelled. -/
def SameWatchers (s t : Service) : Prop :=
  t.gateWatch = s.gateWatch ∧ t.pathWatch = s.pathWatch ∨
    t.gateWatch = cancelled s.gateWatch ∧ t.pathWatch = cancelled s.pathWatch

/-- The path watcher has the scans it had. -/
def SameScans (s t : Service) : Prop := t.baseline = s.baseline ∧ t.previous = s.previous

/-- A `restart` call touches neither the watchers nor the scans. -/
theorem restartStep_watchers {e : Event} (hst : restartStep s e = some t) :
    SameWatchers s t ∧ SameScans s t := by
  cases e with
  | restart φ =>
      rcases restart_cases hst with ⟨-, rfl⟩ | ⟨-, ⟨-, rfl⟩ | rfl⟩
      all_goals exact ⟨.inl ⟨rfl, rfl⟩, rfl, rfl⟩
  | restarted i timeout φ =>
      obtain ⟨ch, -, rfl, -⟩ := restarted_cases hst
      exact ⟨.inl ⟨rfl, rfl⟩, rfl, rfl⟩
  | _ => simp only [restartStep, reduceCtorEq] at hst

/-- Neither does a `stop` call. -/
theorem stopStep_watchers {e : Event} (hst : stopStep s e = some t) :
    SameWatchers s t ∧ SameScans s t := by
  cases e with
  | stop φ =>
      obtain ⟨-, ⟨-, i, n, st, -, rfl⟩ | ⟨ch, st, -, -, rfl⟩⟩ := stop_cases hst
      all_goals exact ⟨.inl ⟨rfl, rfl⟩, rfl, rfl⟩
  | stopped timeout φ =>
      obtain ⟨-, ch, st, -, -, rfl⟩ := stopped_cases hst
      exact ⟨.inl ⟨rfl, rfl⟩, rfl, rfl⟩
  | _ => simp only [stopStep, reduceCtorEq] at hst

/-- Neither does a process. -/
theorem processStep_watchers {e : Event} (hst : processStep s e = some t) :
    SameWatchers s t ∧ SameScans s t := by
  cases e with
  | die | stragglersDie | reap =>
      simp only [processStep, Option.ite_none_right_eq_some, Option.some.injEq] at hst
      obtain ⟨-, rfl⟩ := hst
      exact ⟨.inl ⟨rfl, rfl⟩, rfl, rfl⟩
  | killAll φ =>
      obtain rfl := Option.some.inj hst
      rcases sweep_cases φ s with hw | ⟨-, hw⟩
      all_goals
        rw [hw]
        exact ⟨.inl ⟨rfl, rfl⟩, rfl, rfl⟩
  | cancel =>
      simp only [processStep] at hst
      split at hst
      · cases hst
      · cases hst
      · cases hst
      all_goals obtain rfl := Option.some.inj hst
      all_goals first
        | exact ⟨.inl ⟨rfl, rfl⟩, rfl, rfl⟩
        | exact ⟨.inr ⟨rfl, rfl⟩, rfl, rfl⟩
  | _ => simp only [processStep, reduceCtorEq] at hst

private theorem gateStep_scans {e : Event} (hst : gateStep c s e = some t) :
    t.pathWatch = s.pathWatch ∧ SameScans s t := by
  cases e with
  | gateStarted =>
      simp only [gateStep, Option.ite_none_right_eq_some, Option.some.injEq] at hst
      obtain ⟨-, rfl⟩ := hst
      exact ⟨rfl, rfl, rfl⟩
  | gateWoke =>
      simp only [gateStep, Option.ite_none_right_eq_some, Option.some.injEq] at hst
      obtain ⟨-, rfl⟩ := hst
      exact ⟨rfl, rfl, rfl⟩
  | gatePolled r φ =>
      simp only [gateStep, Option.ite_none_right_eq_some] at hst
      obtain ⟨-, hst⟩ := hst
      cases r with
      | none =>
          obtain rfl := Option.some.inj hst
          exact ⟨rfl, rfl, rfl⟩
      | some r =>
          obtain ⟨x, y, hxy⟩ := countPoll_eq (s := s) r
          simp only [hxy] at hst
          split at hst
          · obtain rfl := Option.some.inj hst
            exact ⟨rfl, rfl, rfl⟩
          · split at hst
            · obtain rfl := Option.some.inj hst
              exact ⟨rfl, rfl, rfl⟩
            · obtain rfl := Option.some.inj hst
              rcases orElse_request (φ := φ) { s with streaks := x, counted := y, gateStop := true }
                ({ · with gateWatch := .died }) ({ · with gateWatch := .terminating }) with
                hk | ⟨-, hk⟩
              · rw [hk]
                exact ⟨rfl, rfl, rfl⟩
              · rw [hk]
                exact ⟨rfl, rfl, rfl⟩
  | gateTerminated timeout φ =>
      simp only [gateStep, Option.ite_none_right_eq_some] at hst
      obtain ⟨-, hst⟩ := hst
      split at hst
      · cases hst
      · obtain ⟨r, hr, rfl⟩ := Option.map_eq_some_iff.mp hst
        rcases orElse_terminated ({ · with gateWatch := .died })
          ({ · with gateWatch := .finished }) hr with hk | ⟨-, ch, -, hk⟩
        · rw [hk]
          exact ⟨rfl, rfl, rfl⟩
        · rw [hk]
          exact ⟨rfl, rfl, rfl⟩
  | _ => simp only [gateStep, reduceCtorEq] at hst

/-! ### The path watcher -/

/-- A poll of the path watcher takes place. -/
def Polls (φ : Option Fault) (s : Service) : Prop :=
  s.stopEvent = false ∧ s.attached = true ∧ φ ≠ some .scan

instance (φ : Option Fault) (s : Service) : Decidable (s.Polls φ) :=
  inferInstanceAs (Decidable (_ ∧ _))

/-- A note is encoded and goes through to the log and the echo, and the graceful sweep after it to
all its processes. -/
def Notes (φ : Option Fault) (s : Service) : Prop :=
  φ ≠ some .encode ∧ ¬(s.logOpen = true ∧ φ = some .writeLog) ∧ φ ≠ some .echo ∧
    ¬(s.registered ≠ none ∧ φ = some .sweep)

instance (φ : Option Fault) (s : Service) : Decidable (s.Notes φ) :=
  inferInstanceAs (Decidable (_ ∧ _))

/-- A poll that finds `current` is to relaunch. -/
def Fires (current : Scan) (s : Service) : Prop :=
  current ≠ s.baseline ∧ current.Present ∧ current = s.previous

instance (current : Scan) (s : Service) : Decidable (s.Fires current) :=
  inferInstanceAs (Decidable (_ ∧ _))

/-- What one poll comes to. -/
inductive PollEffect (current : Scan) (φ : Option Fault) (s t : Service) : Prop
  /-- The watcher ends, or dies, without a poll. -/
  | ended : ¬s.Polls φ → t.pathWatch = .finished ∨ t.pathWatch = .died →
      PollEffect current φ s t
  | quiet : s.Polls φ → ¬s.Fires current → t = { s with previous := current } →
      PollEffect current φ s t
  | relaunches : s.Polls φ → s.Fires current →
      t = { s with previous := current, bounceRequested := true, pathWatch := .terminating } →
      PollEffect current φ s t
  /-- The note of the change or the graceful sweep raises. -/
  | dies : s.Polls φ → s.Fires current → ¬s.Notes φ → t.pathWatch = .died →
      PollEffect current φ s t

/-- The path watcher wakes up from its sleep and polls. -/
theorem pathWoke_effect {current : Scan} (hst : pathStep s (.pathWoke current φ) = some t) :
    s.pathWatch = .sleeping ∧ PollEffect current φ s t := by
  simp only [pathStep, Option.ite_none_right_eq_some] at hst
  obtain ⟨hsleep, hst⟩ := hst
  refine ⟨hsleep, ?_⟩
  split at hst
  · rename_i hover
    obtain rfl := Option.some.inj hst
    refine .ended (fun hpolls => ?_) (.inl rfl)
    simp [hpolls.1, hpolls.2.1] at hover
  · rename_i hlive
    have hup : s.stopEvent = false ∧ s.attached = true := by simpa using hlive
    split at hst
    · rename_i hscan
      obtain rfl := Option.some.inj hst
      exact .ended (fun hpolls => hpolls.2.2 hscan) (.inr rfl)
    · rename_i hscan
      have hpolls : s.Polls φ := ⟨hup.1, hup.2, hscan⟩
      have hsettled : (current.all (·.isSome) && decide (current = s.previous)) = true ↔
          current.Present ∧ current = s.previous := by
        simp [Scan.Present, List.all_eq_true]
      split at hst
      · rename_i hquiet
        obtain rfl := Option.some.inj hst
        refine .quiet hpolls (fun hfires => ?_) rfl
        rcases hquiet with hsame | hmoved
        · exact hfires.1 hsame
        · exact Bool.eq_false_iff.mp hmoved (hsettled.mpr hfires.2)
      · rename_i hfires
        obtain rfl := Option.some.inj hst
        obtain ⟨hchanged, hstill⟩ := not_or.mp hfires
        replace hfires : s.Fires current :=
          ⟨hchanged, hsettled.mp (Bool.not_eq_false _ ▸ hstill)⟩
        rcases logNote_cases φ { s with previous := current, bounceRequested := true } with
          hn | ⟨f, hφ, hn⟩
        · rw [hn]
          simp only [bind, Except.bind]
          rcases sweepGraceful_cases φ { s with previous := current, bounceRequested := true } with
            hw | ⟨-, hw⟩
          · rw [hw]
            exact .relaunches hpolls hfires rfl
          · rw [hw]
            refine .dies hpolls hfires (fun hnotes => ?_) rfl
            rw [sweepGraceful, if_neg hnotes.2.2.2] at hw
            cases hw
        · rw [hn]
          refine .dies hpolls hfires (fun hnotes => ?_) rfl
          rw [logNote, if_neg hnotes.1, if_neg hnotes.2.1, if_neg hnotes.2.2.1] at hn
          cases hn

/-- The path watcher takes its baseline when it starts, or dies. -/
theorem pathStarted_effect {scan : Scan} {wide : Bool}
    (hst : pathStep s (.pathStarted scan wide φ) = some t) : s.pathWatch = .created ∧
      (t.pathWatch = .died ∨ t = { s with baseline := scan, previous := scan,
                                          pathWatch := .sleeping }) := by
  simp only [pathStep, Option.ite_none_right_eq_some] at hst
  obtain ⟨hcreated, hst⟩ := hst
  refine ⟨hcreated, ?_⟩
  split at hst
  · obtain rfl := Option.some.inj hst
    exact .inl rfl
  · obtain rfl := Option.some.inj hst
    cases wide with
    | true =>
        rcases orElse_logNote (φ := φ) { s with baseline := scan } ({ · with pathWatch := .died })
          ({ · with previous := scan, pathWatch := .sleeping }) with hk | hk
        · rw [if_pos rfl, hk]
          exact .inr rfl
        · rw [if_pos rfl, hk]
          exact .inl rfl
    | false => exact .inr rfl

/-- The termination that the path watcher waits for ends it. -/
theorem pathTerminated_effect {timeout : Bool}
    (hst : pathStep s (.pathTerminated timeout φ) = some t) : s.pathWatch = .terminating ∧
      (t.pathWatch = .finished ∨ t.pathWatch = .died) := by
  simp only [pathStep, Option.ite_none_right_eq_some] at hst
  obtain ⟨hterminating, hst⟩ := hst
  refine ⟨hterminating, ?_⟩
  split at hst
  · cases hst
  · obtain ⟨r, hr, rfl⟩ := Option.map_eq_some_iff.mp hst
    rcases orElse_terminated ({ · with pathWatch := .died })
      ({ · with pathWatch := .finished }) hr with hk | ⟨-, ch, -, hk⟩
    · rw [hk]
      exact .inl rfl
    · rw [hk]
      exact .inr rfl

/-! ### The run loop -/

/-- The run loop takes no scan. -/
theorem RunEffect.scans {e : RunEvent} (h : RunEffect c φ s e t) : SameScans s t := by
  cases h with
  | idle _ hb => exact ⟨hb.keeps.baseline, hb.keeps.previous⟩
  | raised _ _ ht | attachRaised _ _ ht | sweepRaises _ _ ht =>
      subst ht
      exact ⟨rfl, rfl⟩
  | connectFailed _ hb => exact ⟨hb.keeps.baseline, hb.keeps.previous⟩
  | attached _ _ hst => exact ⟨hst.baseline, hst.previous⟩
  | probed _ hst | waits _ hst => exact ⟨hst.baseline, hst.previous⟩
  | classified hu hb _ =>
      rcases hu with ⟨-, rfl⟩ | ⟨-, rfl⟩ <;> exact ⟨hb.keeps.baseline, hb.keeps.previous⟩
  | recheck | forked | exited | joined | drains => exact ⟨rfl, rfl⟩

/-- A watcher that is cancelled is over. -/
theorem over_cancelled (w : WatchPc) : (cancelled w).over = true := by
  cases w <;> rfl

/-- The run loop creates and cancels the path watcher. -/
theorem RunEffect.pathWatch {e : RunEvent} (h : RunEffect c φ s e t) :
    t.pathWatch = s.pathWatch ∨ t.pathWatch = cancelled s.pathWatch ∨
      (∃ i, s.run = .creating i) ∧ (t.pathWatch = .absent ∨ t.pathWatch = .created) := by
  cases h with
  | idle _ hb => exact .inl hb.keeps.pathWatch
  | raised _ _ ht | attachRaised _ _ ht | sweepRaises _ _ ht =>
      subst ht
      exact .inl rfl
  | connectFailed _ hb => exact .inl hb.keeps.pathWatch
  | @attached i _ _ _ r _ hrun _ hst =>
      refine .inr (.inr ⟨⟨i, hrun⟩, ?_⟩)
      rw [hst.pathWatch, attach]
      by_cases hwatch : r.watch = []
      · exact .inl (if_pos hwatch)
      · exact .inr (if_neg hwatch)
  | probed _ hst | waits _ hst => exact .inl hst.pathWatch
  | classified hu hb _ =>
      rcases hu with ⟨-, rfl⟩ | ⟨-, rfl⟩ <;> exact .inl hb.keeps.pathWatch
  | joined => exact .inr (.inl rfl)
  | recheck | forked | exited | drains => exact .inl rfl

/-- Outside an incarnation no path watcher is up. -/
def Unwatched (s : Service) : Prop := s.run.beside = false → s.pathWatch.over = true

/-- A new service has no path watcher. -/
theorem Unwatched.init : Unwatched init := fun _ => rfl

private theorem Unwatched.run {e : RunEvent} (h : Unwatched s) (hst : RunEffect c φ s e t) :
    Unwatched t := by
  intro hout
  -- inside an incarnation, a step that leaves the watcher alone ends inside as well
  have hsame (hrun : s.run.beside = false) (hpath : t.pathWatch = s.pathWatch) :
      t.pathWatch.over = true := hpath ▸ h hrun
  cases hst with
  | idle hidle hb => exact hsame (RunPc.beside_of_idle hidle) hb.keeps.pathWatch
  | raised _ _ ht | attachRaised _ _ ht | sweepRaises _ _ ht =>
      subst ht
      cases hout
  | connectFailed hrun hb => exact hsame (by rw [hrun]; rfl) hb.keeps.pathWatch
  | attached _ _ hstays | probed _ hstays | waits _ hstays =>
      rcases hstays.run with hrun | hrun | hrun | ⟨f, -, hrun⟩ <;> rw [hrun] at hout <;> cases hout
  | classified hu hb _ =>
      rcases hu with ⟨hrun, rfl⟩ | ⟨hrun, rfl⟩
      · exact hsame (by rw [hrun]; rfl) hb.keeps.pathWatch
      · exact hsame (by rw [hrun]; rfl) hb.keeps.pathWatch
  | drains hrun => exact hsame (by rw [hrun]; rfl) rfl
  | joined => exact over_cancelled _
  | recheck hrun => exact hsame (by rw [hrun]; rfl) rfl
  | forked hrun => exact hsame (by rw [hrun]; rfl) rfl
  | exited => cases hout

/-- A process is created at the end of a render. -/
theorem RunEffect.forks {e : RunEvent} (h : RunEffect c φ s e t) :
    t.spawned = s.spawned ∧ (∀ i, t.run ≠ .creating i) ∨
      s.run = .rendering ∧ s.spawned < t.spawned ∧ t.pathWatch = s.pathWatch := by
  have hparked (hrun : t.run.parked = true) (i : ℕ) : t.run ≠ .creating i := fun hi => by
    rw [hi] at hrun
    cases hrun
  have hstays {b : Prop} {u : Service} (hst : Stays φ b u t) (i : ℕ) : t.run ≠ .creating i := by
    rcases hst.run with hrun | hrun | hrun | ⟨f, -, hrun⟩ <;> rw [hrun] <;> exact nofun
  cases h with
  | idle _ hb => exact .inl ⟨hb.keeps.spawned, hparked hb.parked⟩
  | raised _ _ ht | attachRaised _ _ ht | sweepRaises _ _ ht =>
      subst ht
      exact .inl ⟨rfl, nofun⟩
  | connectFailed _ hb => exact .inl ⟨hb.keeps.spawned, hparked hb.parked⟩
  | attached _ _ hst => exact .inl ⟨hst.spawned, hstays hst⟩
  | probed _ hst | waits _ hst => exact .inl ⟨hst.spawned, hstays hst⟩
  | classified hu hb _ =>
      rcases hu with ⟨-, rfl⟩ | ⟨-, rfl⟩
      all_goals exact .inl ⟨hb.keeps.spawned, hparked hb.parked⟩
  | forked hrun => exact .inr ⟨hrun, Nat.lt_succ_self _, rfl⟩
  | recheck | exited | joined | drains => exact .inl ⟨rfl, nofun⟩

/-- A step of the gate watcher, `restart`, `stop` or the processes. -/
theorem step_scans {e : Event} (he : e.bystander = true) (hst : step c s e = some t) :
    (t.pathWatch = s.pathWatch ∨ t.pathWatch = cancelled s.pathWatch) ∧ SameScans s t := by
  have hsame (h : SameWatchers s t ∧ SameScans s t) :
      (t.pathWatch = s.pathWatch ∨ t.pathWatch = cancelled s.pathWatch) ∧ SameScans s t :=
    ⟨h.1.imp And.right And.right, h.2⟩
  cases e with
  | run | pathStarted | pathWoke | pathTerminated => cases he
  | gateStarted | gateWoke | gatePolled | gateTerminated =>
      simp only [step] at hst
      exact (gateStep_scans hst).imp_left .inl
  | restart | restarted =>
      simp only [step] at hst
      exact hsame (restartStep_watchers hst)
  | stop | stopped =>
      simp only [step] at hst
      exact hsame (stopStep_watchers hst)
  | die | stragglersDie | reap | killAll | cancel =>
      simp only [step] at hst
      exact hsame (processStep_watchers hst)

/-- Every step leaves the path watcher over outside an incarnation. -/
theorem Unwatched.of_step {e : Event} (h : Unwatched s) (hst : step c s e = some t) :
    Unwatched t := by
  -- a companion of the run loop moves the watcher only where it is up
  have haside (he : ∀ e' φ, e ≠ .run e' φ) (hpath : s.pathWatch.over = false ∨
      t.pathWatch = s.pathWatch ∨ t.pathWatch = cancelled s.pathWatch) : Unwatched t := by
    intro hout
    rcases (step_aside hst he).run with hrun | ⟨-, hrun, -⟩
    · have hover := h (hrun ▸ hout)
      rcases hpath with hup | hpath | hpath
      · rw [hup] at hover
        cases hover
      · exact hpath ▸ hover
      · exact hpath ▸ over_cancelled _
    · rw [hrun] at hout
      cases hout
  by_cases he : e.bystander = true
  · exact haside (Event.ne_run_of_bystander he) (.inr (step_scans he hst).1)
  cases e with
  | run e φ =>
      simp only [step] at hst
      exact h.run (runStep_effect hst)
  | pathStarted scan wide φ =>
      simp only [step] at hst
      have hup : s.pathWatch.over = false := by
        rw [(pathStarted_effect hst).1]
        rfl
      exact haside (by simp) (.inl hup)
  | pathWoke current φ =>
      simp only [step] at hst
      have hup : s.pathWatch.over = false := by
        rw [(pathWoke_effect hst).1]
        rfl
      exact haside (by simp) (.inl hup)
  | pathTerminated timeout φ =>
      simp only [step] at hst
      have hup : s.pathWatch.over = false := by
        rw [(pathTerminated_effect hst).1]
        rfl
      exact haside (by simp) (.inl hup)
  | _ => exact absurd rfl he

end Service

end Jetty.Orchestrator
