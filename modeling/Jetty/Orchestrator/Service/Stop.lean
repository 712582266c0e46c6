import Jetty.Orchestrator.Service.Processes

/-!
# The finality of `stop`

`run` looks at the stop event at the head of its loops and races its sleeps against it. The
awaits on the way up (the gate check at the top of the loop, the rendering, the creation of
the process and the readiness probe) are not raced, and the code after them does not look at
the event again. Along runs in which `stop` never overtakes such an await, `stop` is final.
-/

namespace Jetty.Orchestrator

open Transition

namespace Service

/-- `stop` overtakes an await of the run loop: it is called while a live child is being
created, or an await on the way up succeeds after it was called. -/
def Overtakes (s : Service) (e : Event) : Prop :=
  match e with
  | .stop _ =>
    match s.run with
    | .creating i => (s.child i).live = true
    | _ => False
  | .run e _ =>
    s.stopEvent = true ∧
      match s.run, e with
      | .gateCheck, .gates .ok _ => s.state ≠ .starting
      | .rendering, .rendered (.ok _ (some _)) _ => True
      | .creating _, .connected true _ _ => s.rendered.any (fun r => !r.probed) = true
      | .probing, .probed true => True
      | _, _ => False
  | _ => False

instance (s : Service) (e : Event) : Decidable (s.Overtakes e) := by
  unfold Overtakes
  rcases e <;> try infer_instance
  · refine @instDecidableAnd _ _ _ ?_
    split <;> infer_instance
  · generalize s.run = pc
    rcases pc <;> infer_instance

/-- What the `stop` call has achieved where it is suspended or has ended. -/
structure Halting (s : Service) : Prop where
  stopEvent : s.stop ≠ .idle → s.stopEvent = true
  terminating : ∀ i, s.stop = .terminating i → ∀ j, s.run ≠ .creating j
  finished : s.stop = .finished → ∀ i < s.spawned, (s.child i).live = false

/-- From `s` to `t` the service did not come up: no process was created, it did not turn
starting or running, and it did not turn ready. -/
structure Settles (s t : Service) : Prop where
  spawned : t.spawned = s.spawned
  state : t.state.launching = true → t.state = s.state
  readyEvent : t.readyEvent = true → s.readyEvent = true

variable {c : ServiceSetup} {φ : Option Fault} {s t : Service}

/-! ### The run loop -/

private theorem Settles.books {u : Service} {o d g : Prop} (h : Books φ o d g u t) (hg : ¬ g)
    (hevent : u.stopEvent = true) (hstate : u.state = s.state)
    (hready : u.readyEvent = s.readyEvent) (hspawned : u.spawned = s.spawned) : Settles s t where
  spawned := h.keeps.spawned.trans hspawned
  state ht := (h.calm hevent hg ht).trans hstate
  readyEvent ht := hready ▸ h.keeps.readyEvent ht

private theorem Settles.stays {u : Service} {b : Prop} (h : Stays φ b u t) (hb : ¬ b)
    (hstate : u.state = s.state) (hready : u.readyEvent = s.readyEvent)
    (hspawned : u.spawned = s.spawned) : Settles s t := by
  obtain ⟨hs, hr⟩ := h.ready.resolve_right hb
  exact {
    spawned := h.spawned.trans hspawned
    state := fun _ => hs.trans hstate
    readyEvent := fun ht => hready ▸ hr ▸ ht }

private theorem Settles.of_eq (hspawned : t.spawned = s.spawned) (hstate : t.state = s.state)
    (hready : t.readyEvent = s.readyEvent) : Settles s t :=
  ⟨hspawned, fun _ => hstate, fun ht => hready ▸ ht⟩

/-- A gate check that passes leaves the service starting, whatever the rest raises. -/
private theorem state_of_opens {e : RunEvent} (hst : runStep c φ s e = some t)
    (hopen : s.Opens e) : t.state = .starting := by
  unfold Opens at hopen
  split at hopen
  · rename_i hrun
    simp only [runStep, hrun, resume, Option.some.injEq] at hst
    subst hst
    unfold beginSpawn
    rcases setState_cases φ .starting s with ⟨n, hn⟩ | ⟨_, hn⟩
    · rw [hn]
      simp only [bind, Except.bind]
      split <;> rfl
    · rw [hn]
      rfl
  · exact hopen.elim

/-- After the stop request a step of the run loop that nothing overtook does not bring the
service up. -/
theorem settles_runStep {e : RunEvent} (hst : runStep c φ s e = some t)
    (hstop : s.stopEvent = true) (hp : ¬ s.Overtakes (.run e φ)) : Settles s t := by
  simp only [Overtakes, hstop, true_and] at hp
  cases runStep_effect hst with
  | idle hidle hb =>
      by_cases hopen : s.Opens e
      · have hstart := state_of_opens hst hopen
        refine ⟨hb.keeps.spawned, fun _ => ?_, hb.keeps.readyEvent⟩
        unfold Opens at hopen
        split at hopen
        · rename_i hrun
          simp only [hrun, ne_eq, not_not] at hp
          exact hstart.trans hp.symm
        · exact hopen.elim
      · exact .books hb hopen hstop rfl rfl rfl
  | recheck => exact .of_eq rfl rfl rfl
  | raised _ _ ht | sweepRaises _ _ ht =>
      subst ht
      exact .of_eq rfl rfl rfl
  | forked hrun => exact absurd trivial (by simpa only [hrun] using hp)
  | attached hrun hr hst =>
      refine .stays hst (fun hno => ?_) rfl rfl rfl
      simp only [hrun, hr, Option.any_some, hno, Bool.not_false, not_true_eq_false] at hp
  | attachRaised _ _ ht =>
      subst ht
      exact .of_eq rfl rfl rfl
  | connectFailed _ hb => exact .books hb id hstop rfl rfl rfl
  | probed hrun _ => exact absurd trivial (by simpa only [hrun] using hp)
  | waits _ hst => exact .stays hst id rfl rfl rfl
  | exited => exact .of_eq rfl rfl rfl
  | joined | drains => exact .of_eq rfl rfl rfl
  | classified hu hb _ =>
      rcases hu with ⟨-, rfl⟩ | ⟨-, rfl⟩ <;> exact .books hb id hstop rfl rfl rfl

/-! ### Runs -/

/-- No step but one of the run loop brings the service up. -/
theorem Settles.aside {e : Event} (h : Aside s e t) : Settles s t where
  spawned := h.spawned
  state ht := by
    rcases h.state with hs | ⟨hs, -⟩
    · exact hs
    · rw [hs] at ht
      cases ht
  readyEvent ht := h.readyEvent ▸ ht

/-- After the stop request a step that does not overtake it does not bring the service up. -/
theorem settles_step {e : Event} (hst : Steps c s e t) (hstop : s.stopEvent = true)
    (hp : ¬ s.Overtakes e) : Settles s t := by
  cases e with
  | run e φ => exact settles_runStep hst hstop hp
  | _ => exact .aside (step_aside hst (by simp))

private theorem Halting.run {e : RunEvent} (h : Halting s) (hst : runStep c φ s e = some t)
    (hp : ¬ s.Overtakes (.run e φ)) : Halting t := by
  have heffect := runStep_effect hst
  have hframe := heffect.frame
  have hsettles : s.stop ≠ .idle → Settles s t := fun hs =>
    settles_runStep hst (h.stopEvent hs) hp
  refine ⟨fun ht => ?_, fun i hi j hj => ?_, fun hf i hi => ?_⟩
  · rw [hframe.stopEvent]
    exact h.stopEvent (hframe.stop ▸ ht)
  · have hs : s.stop ≠ .idle := by simp [← hframe.stop, hi]
    have hspawned := (hsettles hs).spawned
    rw [(heffect.creating hj).2] at hspawned
    exact Nat.succ_ne_self _ hspawned
  · have hs : s.stop ≠ .idle := by simp [← hframe.stop, hf]
    rw [(hsettles hs).spawned] at hi
    have hdead := h.finished (hframe.stop ▸ hf) i hi
    by_contra hl
    rw [(hframe.child i hi).live (by simpa using hl)] at hdead
    cases hdead

/-- A sweep after which no process of the service is alive. -/
private theorem dead_of_sweep (htr : Tracked s)
    (hcreating : ∀ i, s.run = .creating i → (s.child i).live = false) {i : ℕ}
    (hi : i < s.spawned) : (s.sweepKill.child i).live = false := by
  by_cases hrun : ∃ j, s.run = .creating j
  · obtain ⟨j, hj⟩ := hrun
    by_contra hl
    have hlive := (ages_sweepKill (s := s) i).live (by simpa using hl)
    obtain rfl := htr.creating j hj i hi hlive
    rw [hcreating i hj] at hlive
    cases hlive
  · exact htr.dead_sweepKill (fun j hj => hrun ⟨j, hj⟩) hi

private theorem Halting.stopCalled {ψ : Option Fault} (htr : Tracked s)
    (hst : stopStep s (.stop ψ) = some t) (hp : ¬ s.Overtakes (.stop ψ)) : Halting t := by
  obtain ⟨-, ⟨hatt, i, n, st, hstop, rfl⟩ | ⟨ch, st, -, hstop, rfl⟩⟩ := stop_cases hst
  · have hrun : ∀ j, s.run ≠ .creating j := by
      intro j hj
      rw [htr.detached (by rw [hj]; rfl)] at hatt
      cases hatt
    exact ⟨fun _ => rfl, fun _ _ => hrun, by rcases hstop with rfl | ⟨-, rfl⟩ <;> exact nofun⟩
  · have hcreating : ∀ i, s.run = .creating i → (s.child i).live = false := by
      intro i hi
      simpa only [Overtakes, hi, Bool.not_eq_true] using hp
    rcases hstop with ⟨rfl, rfl⟩ | ⟨-, rfl⟩
    · exact ⟨fun _ => rfl, nofun, fun _ i hi =>
        dead_of_sweep (s := { s with stopEvent := true }) { htr with } hcreating hi⟩
    · exact ⟨fun _ => rfl, nofun, nofun⟩

private theorem Halting.stopReturns {ψ : Option Fault} {timeout : Bool} (h : Halting s)
    (htr : Tracked s) (hst : stopStep s (.stopped timeout ψ) = some t) : Halting t := by
  obtain ⟨⟨i, hterm⟩, ch, st, -, hstop, rfl⟩ := stopped_cases hst
  have hevent := h.stopEvent (by simp [hterm])
  rcases hstop with ⟨rfl, rfl⟩ | ⟨-, rfl⟩
  · exact ⟨fun _ => hevent, nofun, fun _ j hj => htr.dead_sweepKill (h.terminating i hterm) hj⟩
  · exact ⟨fun _ => hevent, nofun, nofun⟩

private theorem Halting.aside {e : Event} (h : Halting s) (hst : Aside s e t)
    (hstop : t.stop = s.stop) : Halting t := by
  refine ⟨fun ht => ?_, fun i hi j hj => ?_, fun hf i hi => ?_⟩
  · have hevent := h.stopEvent (hstop ▸ ht)
    rcases hst.stopEvent with heq | ⟨heq, -⟩
    · exact heq.trans hevent
    · exact heq
  · rcases hst.run with hrun | ⟨-, hrun, -⟩
    · exact h.terminating i (hstop ▸ hi) j (hrun ▸ hj)
    · rw [hrun] at hj
      cases hj
  · rw [hst.spawned] at hi
    have hdead := h.finished (hstop ▸ hf) i hi
    by_contra hl
    rw [(hst.child i).live (by simpa using hl)] at hdead
    cases hdead

private theorem Halting.step {e : Event} (h : Halting s) (htr : Tracked s) (hst : Steps c s e t)
    (hp : ¬ s.Overtakes e) : Halting t := by
  cases e with
  | run e φ => exact h.run hst hp
  | stop φ => exact .stopCalled htr hst hp
  | stopped timeout φ => exact h.stopReturns htr hst
  | _ =>
      have haside := step_aside hst (by simp)
      exact h.aside haside (haside.stop (by simp) (by simp))

private theorem Settles.trans {u : Service} (h : Settles s t) (h' : Settles t u) : Settles s u where
  spawned := h'.spawned.trans h.spawned
  state hu := by
    have ht := h'.state hu
    exact ht.trans (h.state (ht ▸ hu))
  readyEvent := h.readyEvent ∘ h'.readyEvent

/-- The stop request is never taken back. -/
theorem stopEvent_step {e : Event} (hst : Steps c s e t) (hstop : s.stopEvent = true) :
    t.stopEvent = true := by
  cases e with
  | run e φ => exact (runStep_effect hst).frame.stopEvent.trans hstop
  | _ =>
      rcases (step_aside hst (by simp)).stopEvent with heq | ⟨heq, -⟩
      · exact heq.trans hstop
      · exact heq

private theorem halting_run {es : List Event}
    (h : Run ((Steps c).within fun s e => ¬ s.Overtakes e) init es s) : Halting s := by
  have hboth : Tracked s ∧ Halting s := h.invariant (fun s => Tracked s ∧ Halting s)
    ⟨tracked_init, fun hs => absurd rfl hs, nofun, nofun⟩
    fun _ _ _ ⟨htr, hh⟩ ⟨hp, hst⟩ => ⟨htr.step hst, hh.step htr hst hp⟩
  exact hboth.2

/-- A service without gates is stopped while it runs and exits within the grace period. -/
def stoppedRunning : List Event :=
  [.run .begin none, .run (.rendered (.ok { cmd := ["api"] } (some 100)) 0) none,
    .run (.connected true false 0) none, .stop none, .die 0 0 true, .reap 0,
    .stopped false none]

/-- `stop` is called and returns while the service renders; then the rendering succeeds. -/
def stoppedRendering : List Event :=
  [.run .begin none, .stop none, .run (.rendered (.ok { cmd := ["api"] } (some 100)) 0) none,
    .run (.connected true false 0) none]

end Service

end Jetty.Orchestrator
