import Jetty.Orchestrator.Service.Tasks

/-!
# The processes of a service are tracked

At every reachable state at most one session of the service is alive: that of `self.proc`
or that of the child being created; all other processes have been reaped. Between two
incarnations, and while the log drains, no session is alive. The containment's registration
always names `self.proc`.
-/

namespace Jetty.Orchestrator

open Transition

/-- No process of the service is attached while the run loop is here. -/
def RunPc.down : RunPc → Bool
  | .creating _ | .joinGate (.exited _) | .joinPath (.exited _) | .drain _ => true
  | pc => pc.idle

/-- The last incarnation has been swept and the next one is not forked. -/
def RunPc.swept : RunPc → Bool
  | .drain _ => true
  | pc => pc.idle

/-- Between two incarnations no process is attached. -/
theorem RunPc.down_of_idle {pc : RunPc} (h : pc.idle = true) : pc.down = true := by
  cases pc <;> simp_all [RunPc.down, RunPc.idle]

/-- Between two incarnations the last one has been swept. -/
theorem RunPc.swept_of_idle {pc : RunPc} (h : pc.idle = true) : pc.swept = true := by
  cases pc <;> simp_all [RunPc.swept, RunPc.idle]

namespace Service

/-- Which processes can be attached and which can be alive. -/
structure Tracked (s : Service) : Prop where
  registered : s.registered = s.proc
  proc_lt : ∀ i, s.proc = some i → i < s.spawned
  creating_lt : ∀ i, s.run = .creating i → i < s.spawned
  detached : s.run.down = true → s.attached = false
  live : ∀ i < s.spawned, (s.child i).live = true → s.proc = some i ∨ s.run = .creating i
  reaped : ∀ i < s.spawned, (s.child i).returncode = none →
    s.proc = some i ∨ s.run = .creating i
  creating : ∀ i, s.run = .creating i → ∀ j < s.spawned, (s.child j).live = true → j = i
  swept : s.run.swept = true → ∀ i < s.spawned, (s.child i).live = false

/-- A new service has no process to keep track of. -/
theorem tracked_init : Tracked init where
  registered := rfl
  proc_lt i h := by cases h
  creating_lt i h := by cases h
  detached _ := rfl
  live i h := absurd h (Nat.not_lt_zero i)
  reaped i h := absurd h (Nat.not_lt_zero i)
  creating i h := by cases h
  swept _ i h := absurd h (Nat.not_lt_zero i)

variable {c : ServiceSetup} {φ : Option Fault} {s t : Service}

/-- Whether the service has a process depends on the return code of its own. -/
theorem attached_congr (hproc : t.proc = s.proc)
    (hch : ∀ i, s.proc = some i → (t.child i).returncode = (s.child i).returncode) :
    t.attached = s.attached := by
  unfold attached
  rw [hproc]
  cases hp : s.proc with
  | none => rfl
  | some i => simp only [hch i hp]

/-- A process that ages is not attached again. -/
theorem attached_of_ages (hproc : t.proc = s.proc) (hch : ∀ i, (s.child i).Ages (t.child i))
    (hs : s.attached = false) : t.attached = false := by
  unfold attached at *
  rw [hproc]
  cases hp : s.proc with
  | none => rfl
  | some i =>
      simp only [hp] at hs ⊢
      have hr : (s.child i).returncode.isSome = true := by
        cases h : (s.child i).returncode <;> simp [h] at hs ⊢
      rw [(hch i).returncode hr]
      exact hs

/-- A process that is not attached has been reaped. -/
theorem reaped_of_detached {i : ℕ} (hproc : s.proc = some i) (hs : s.attached = false) :
    (s.child i).returncode.isSome = true := by
  unfold attached at hs
  rw [hproc] at hs
  cases h : (s.child i).returncode with
  | none => simp [h] at hs
  | some x => rfl

/-- After a sweep every process of a tracked service is dead, unless it is being created. -/
theorem Tracked.dead_sweepKill (h : Tracked s) (hrun : ∀ i, s.run ≠ .creating i) {i : ℕ}
    (hi : i < s.spawned) : (s.sweepKill.child i).live = false := by
  by_contra hl
  rw [Bool.not_eq_false] at hl
  have hlive := (ages_sweepKill (s := s) i).live hl
  rcases h.live i hi hlive with hp | hc
  · have hdead := not_live_sweepKill (h.registered.trans hp)
    rw [hl] at hdead
    cases hdead
  · exact hrun i hc

/-- Nothing is created while processes only age. -/
theorem Tracked.of_ages (h : Tracked s) (hreg : t.registered = s.registered)
    (hproc : t.proc = s.proc) (hspawned : t.spawned = s.spawned)
    (hch : ∀ i, (s.child i).Ages (t.child i))
    (hcreating : ∀ i, t.run = .creating i → s.run = .creating i)
    (hstill : ∀ i, s.run = .creating i → t.run = .creating i ∨ (t.child i).Gone)
    (hdown : t.run.down = true → t.attached = false)
    (hswept : t.run.swept = true → ∀ i < t.spawned, (t.child i).live = false) : Tracked t where
  registered := by rw [hreg, hproc, h.registered]
  proc_lt i hi := hspawned ▸ h.proc_lt i (hproc ▸ hi)
  creating_lt i hi := hspawned ▸ h.creating_lt i (hcreating i hi)
  detached := hdown
  live i hi hl := by
    rcases h.live i (hspawned ▸ hi) ((hch i).live hl) with hp | hc
    · exact .inl (hproc ▸ hp)
    · rcases hstill i hc with hc | hd
      · exact .inr hc
      · rw [hd.1] at hl
        cases hl
  reaped i hi hr := by
    have hopen : (s.child i).returncode = none := by
      by_contra hsome
      rw [(hch i).returncode (Option.isSome_iff_ne_none.mpr hsome)] at hr
      exact hsome hr
    rcases h.reaped i (hspawned ▸ hi) hopen with hp | hc
    · exact .inl (hproc ▸ hp)
    · rcases hstill i hc with hc | hd
      · exact .inr hc
      · exact absurd hr (Option.isSome_iff_ne_none.mp hd.2)
  creating i hi j hj hl := h.creating i (hcreating i hi) j (hspawned ▸ hj) ((hch j).live hl)
  swept := hswept

private theorem Tracked.aside {e : Event} (h : Tracked s) (hst : Aside s e t) : Tracked t := by
  have hdead : s.run.swept = true → ∀ i < t.spawned, (t.child i).live = false := by
    intro hs i hi
    by_contra hl
    rw [Bool.not_eq_false] at hl
    have hcontra := h.swept hs i (hst.spawned ▸ hi)
    rw [(hst.child i).live hl] at hcontra
    cases hcontra
  rcases hst.run with hrun | ⟨-, hrun, hkilled⟩
  · refine h.of_ages hst.registered hst.proc hst.spawned hst.child ?_ ?_ ?_ ?_
    · exact fun i hi => hrun ▸ hi
    · exact fun i hi => .inl (hrun ▸ hi)
    · exact fun hd => attached_of_ages hst.proc hst.child (h.detached (hrun ▸ hd))
    · exact fun hs => hdead (hrun ▸ hs)
  · refine h.of_ages hst.registered hst.proc hst.spawned hst.child ?_ ?_ ?_ ?_
    · intro i hi
      rw [hrun] at hi
      cases hi
    · exact fun i hi => .inr (hkilled i hi)
    · intro hd
      rw [hrun] at hd
      cases hd
    · intro hs
      rw [hrun] at hs
      cases hs

/-- Bookkeeping that starts where no session is alive and nothing is attached. -/
theorem Tracked.books {o d g : Prop} {u : Service} (h : Tracked s) (hb : Books φ o d g u t)
    (hreg : u.registered = s.registered) (hproc : u.proc = s.proc)
    (hspawned : u.spawned = s.spawned) (hch : ∀ i, (s.child i).Ages (u.child i))
    (hdead : ∀ i < s.spawned, (u.child i).live = false)
    (hreaped : ∀ i, s.run = .creating i → (u.child i).returncode.isSome = true)
    (hatt : u.attached = false) : Tracked t := by
  have hk := hb.keeps
  have hnot : ∀ i, t.run ≠ .creating i := by
    intro i hi
    have hp := hb.parked
    rw [hi] at hp
    cases hp
  refine h.of_ages (hk.registered.trans hreg) (hk.proc.trans hproc)
    (hk.spawned.trans hspawned) ?_ ?_ ?_ ?_ ?_
  · exact fun i => hk.child ▸ hch i
  · exact fun i hi => absurd hi (hnot i)
  · exact fun i hi => .inr (hk.child ▸ ⟨hdead i (h.creating_lt i hi), hreaped i hi⟩)
  · exact fun _ => (attached_congr hk.proc fun i _ => by rw [hk.child]).trans hatt
  · intro _ i hi
    rw [hk.child]
    exact hdead i (hspawned ▸ hk.spawned ▸ hi)

private theorem Tracked.stays {b : Prop} (h : Tracked s) (hst : Stays φ b s t)
    (hs : ∀ i, s.run ≠ .creating i) : Tracked t := by
  have hrun : (∀ i, t.run ≠ .creating i) ∧ t.run.down = false ∧ t.run.swept = false := by
    rcases hst.run with hr | hr | hr | ⟨f, _, hr⟩ <;> simp [hr, RunPc.down, RunPc.swept, RunPc.idle]
  refine h.of_ages hst.registered hst.proc hst.spawned hst.child.ages ?_ ?_ ?_ ?_
  · exact fun i hi => absurd hi (hrun.1 i)
  · exact fun i hi => absurd hi (hs i)
  · intro hd
    rw [hrun.2.1] at hd
    cases hd
  · intro hd
    rw [hrun.2.2] at hd
    cases hd

/-- A step of the run loop within an incarnation that leaves the processes alone. -/
theorem Tracked.of_run (h : Tracked s) {u : Service} (hreg : u.registered = s.registered)
    (hproc : u.proc = s.proc) (hspawned : u.spawned = s.spawned) (hch : u.child = s.child)
    (hs : ∀ i, s.run ≠ .creating i) (hu : ∀ i, u.run ≠ .creating i)
    (hdown : u.run.down = true → s.attached = false)
    (hswept : u.run.swept = true → s.run.swept = true) : Tracked u := by
  refine h.of_ages hreg hproc hspawned (fun i => hch ▸ .refl _) ?_ ?_ ?_ ?_
  · exact fun i hi => absurd hi (hu i)
  · exact fun i hi => absurd hi (hs i)
  · exact fun hd => (attached_congr hproc fun i _ => by rw [hch]).trans (hdown hd)
  · exact fun hd i hi => hch ▸ h.swept (hswept hd) i (hspawned ▸ hi)

/-- While a process is being created all others have been reaped. -/
theorem Tracked.reaped_creating (h : Tracked s) {i : ℕ} (hrun : s.run = .creating i) (j : ℕ)
    (hj : j < s.spawned) (hr : (s.child j).returncode = none) : some i = some j := by
  rcases h.reaped j hj hr with hp | hc
  · have hsome := reaped_of_detached hp (h.detached (by rw [hrun]; rfl))
    rw [hr] at hsome
    cases hsome
  · simpa [hrun] using hc

/-- Between two incarnations every process has been reaped. -/
theorem Tracked.reaped_of_idle (h : Tracked s) (hidle : s.run.idle = true) {i : ℕ}
    (hi : i < s.spawned) : (s.child i).returncode.isSome = true := by
  by_contra hnone
  rcases h.reaped i hi (by simpa using hnone) with hp | hc
  · exact hnone (reaped_of_detached hp (h.detached (RunPc.down_of_idle hidle)))
  · rw [hc] at hidle
    cases hidle

/-- A fork between two incarnations adds the one process that is being created. -/
theorem Tracked.fork (h : Tracked s) (hidle : s.run.idle = true) (pid : ℕ) :
    Tracked (s.fork pid) := by
  have hdead := h.swept (RunPc.swept_of_idle hidle)
  have hatt := h.detached (RunPc.down_of_idle hidle)
  refine {
    registered := h.registered
    proc_lt := fun i hi => Nat.lt_succ_of_lt (h.proc_lt i hi)
    creating_lt := ?_
    detached := fun _ => ?_
    live := fun i hi hl => ?_
    reaped := fun i hi hr => ?_
    creating := fun i hi j hj hl => ?_
    swept := fun hs => by cases hs }
  · intro i hi
    obtain rfl : s.spawned = i := by simpa only [Service.fork, RunPc.creating.injEq] using hi
    exact Nat.lt_succ_self _
  · refine Eq.trans (attached_congr (s := s) rfl fun i hi => ?_) hatt
    have hne : i ≠ s.spawned := Nat.ne_of_lt (h.proc_lt i hi)
    simp only [Service.fork, Function.update_of_ne hne]
  · by_cases hi' : i = s.spawned
    · exact .inr (by simp only [Service.fork, hi'])
    · simp only [Service.fork, Function.update_of_ne hi'] at hl
      rw [hdead i (by simp only [Service.fork] at hi; omega)] at hl
      cases hl
  · by_cases hi' : i = s.spawned
    · exact .inr (by simp only [Service.fork, hi'])
    · simp only [Service.fork, Function.update_of_ne hi'] at hr
      have hsome := h.reaped_of_idle hidle (i := i) (by simp only [Service.fork] at hi; omega)
      rw [hr] at hsome
      cases hsome
  · obtain rfl : s.spawned = i := by simpa only [Service.fork, RunPc.creating.injEq] using hi
    by_contra hj'
    simp only [Service.fork, Function.update_of_ne hj'] at hl
    rw [hdead j (by simp only [Service.fork] at hj; omega)] at hl
    cases hl

/-- The process that was being created is the run loop's own from now on. -/
theorem Tracked.assign (h : Tracked s) {u : Service} {i : ℕ} (hrun : s.run = .creating i)
    (hproc : u.proc = some i) (hreg : u.registered = some i) (hspawned : u.spawned = s.spawned)
    (hch : u.child = s.child) (hu : ∀ j, u.run ≠ .creating j) (hdown : u.run.down = false)
    (hswept : u.run.swept = false) : Tracked u where
  registered := hreg.trans hproc.symm
  proc_lt j hj := by
    obtain rfl : i = j := Option.some.inj (hproc.symm.trans hj)
    exact hspawned ▸ h.creating_lt i hrun
  creating_lt j hj := absurd hj (hu j)
  detached hd := nomatch hdown.symm.trans hd
  live j hj hl := by
    have hij := h.creating i hrun j (hspawned ▸ hj) (hch ▸ hl)
    exact .inl (hij ▸ hproc)
  reaped j hj hr := .inl (hproc.trans (h.reaped_creating hrun j (hspawned ▸ hj) (hch ▸ hr)))
  creating j hj := absurd hj (hu j)
  swept hd := nomatch hswept.symm.trans hd

/-- The process whose pipes could not be connected is killed and reaped. -/
theorem Tracked.connectFailed (h : Tracked s) {b b' o : Prop} {i : ℕ} (hrun : s.run = .creating i)
    (hb : Books φ b b' o (s.setChild i (s.child i).kill.reap) t) : Tracked t := by
  have hatt : s.attached = false := h.detached (by rw [hrun]; rfl)
  have hages := ages_setChild (Child.ages_kill (s.child i)).reap
  have hgone := Child.gone_kill (s.child i)
  refine h.books hb rfl rfl rfl hages (fun j hj => ?_) (fun j hj => ?_)
    (attached_of_ages (s := s) rfl hages hatt)
  · by_cases hij : j = i
    · subst hij
      simpa only [setChild, Function.update_self] using hgone.1
    · simp only [setChild, Function.update_of_ne hij]
      by_contra hl
      rw [Bool.not_eq_false] at hl
      exact hij (h.creating i hrun j hj hl)
  · obtain rfl : i = j := by simpa only [hrun, RunPc.creating.injEq] using hj
    simpa only [setChild, Function.update_self] using hgone.2

private theorem Tracked.runEffect {e : RunEvent} (h : Tracked s) (hst : RunEffect c φ s e t) :
    Tracked t := by
  cases hst with
  | idle hidle hb =>
      refine h.books hb rfl rfl rfl (fun _ => .refl _) (h.swept (RunPc.swept_of_idle hidle))
        (fun i hi => ?_) (h.detached (RunPc.down_of_idle hidle))
      rw [hi] at hidle
      cases hidle
  | @sweepRaises code now t hrun _ ht =>
      subst ht
      refine h.of_ages rfl rfl rfl (swept_sweepRaised s).ages ?_ ?_ ?_ ?_
      · simp
      · simp [hrun]
      · simp [RunPc.down, RunPc.idle]
      · simp [RunPc.swept, RunPc.idle]
  | recheck hrun hs =>
      have hidle : s.run.idle = true := by rw [hrun]; rfl
      exact h.of_run rfl rfl rfl rfl (by simp [hrun]) (by simp)
        (fun _ => h.detached (RunPc.down_of_idle hidle)) fun _ => RunPc.swept_of_idle hidle
  | raised _ hcreating ht =>
      subst ht
      exact h.of_run rfl rfl rfl rfl hcreating (by simp) (by simp [RunPc.down, RunPc.idle])
        (by simp [RunPc.swept, RunPc.idle])
  | @forked r pid now hrun =>
      have hidle : s.run.idle = true := by rw [hrun]; rfl
      have hrendered : Tracked { s with rendered := some r } := { h with }
      exact hrendered.fork hidle pid
  | @attached i n late now r t hrun hr hst =>
      have htracked : Tracked { s.attach c i n r with run := .waitExit } :=
        h.assign hrun rfl rfl rfl rfl (by simp) rfl rfl
      exact htracked.stays { hst with } (by simp)
  | @attachRaised i late now t hrun hφ ht =>
      subst ht
      exact h.assign hrun rfl rfl rfl rfl (by simp) rfl rfl
  | @connectFailed i late now t hrun hb => exact h.connectFailed hrun hb
  | probed hrun hst => exact h.stays hst (by simp [hrun])
  | waits hrun hst => exact h.stays hst (by rcases hrun with hr | hr <;> simp [hr])
  | exited hrun hp hr =>
      have hatt : s.attached = false := by simp [Service.attached, hp, hr]
      exact h.of_run rfl rfl rfl rfl (by simp [hrun]) (by simp [leaveTry]) (fun _ => hatt)
        (by simp [leaveTry, RunPc.swept, RunPc.idle])
  | @joined r now hrun =>
      refine h.of_run rfl rfl rfl rfl (by simp [hrun]) (by simp) (fun hd => h.detached ?_)
        (by simp [RunPc.swept, RunPc.idle])
      cases r <;> simp_all [RunPc.down, RunPc.idle]
  | @drains code now hrun =>
      have hatt : s.attached = false := h.detached (by rw [hrun]; rfl)
      refine h.of_ages rfl rfl rfl (swept_sweepKill s).ages (by simp) (by simp [hrun]) (fun _ => ?_)
        fun _ i hi => h.dead_sweepKill (by simp [hrun]) hi
      exact attached_of_ages (s := s) rfl (swept_sweepKill s).ages hatt
  | @classified e u t code hu hb hflags =>
      rcases hu with ⟨hrun, rfl⟩ | ⟨hrun, rfl⟩
      · have hatt : s.attached = false := h.detached (by rw [hrun]; rfl)
        exact h.books hb rfl rfl rfl (swept_sweepKill s).ages
          (fun i hi => h.dead_sweepKill (by simp [hrun]) hi) (by simp [hrun])
          (attached_of_ages (s := s) rfl (swept_sweepKill s).ages hatt)
      · exact h.books hb rfl rfl rfl (fun _ => .refl _) (h.swept (by rw [hrun]; rfl))
          (by simp [hrun]) (h.detached (by rw [hrun]; rfl))

/-- Every step keeps the processes tracked. -/
theorem Tracked.step {e : Event} (h : Tracked s) (hst : Steps c s e t) : Tracked t := by
  cases e with
  | run e φ => exact h.runEffect (runStep_effect hst)
  | _ => exact h.aside (step_aside hst (by simp))

/-- The processes of a service are tracked in every reachable state. -/
theorem tracked_run {es : List Event} (h : Run (Steps c) init es s) : Tracked s :=
  h.invariant Tracked tracked_init fun _ _ _ => Tracked.step

/-! ### The run loop and the processes -/

/-- The run loop touches neither the `stop` nor the `restart` calls, and the processes it
does not create only age. -/
structure LoopFrame (s : Service) (e : RunEvent) (t : Service) : Prop where
  stop : t.stop = s.stop
  stopEvent : t.stopEvent = s.stopEvent
  bounces : t.bounces = s.bounces
  spawned : t.spawned = s.spawned ∨ s.run = .rendering ∧
    ∃ r pid now, e = .rendered (.ok r (some pid)) now ∧ t.spawned = s.spawned + 1 ∧
      t.child s.spawned = { pid := pid }
  child : ∀ i < s.spawned, (s.child i).Ages (t.child i)

private theorem LoopFrame.books {u : Service} {o d g : Prop} {e : RunEvent}
    (h : Books φ o d g u t) (hu : ∃ v, u = { s with child := v, rendered := u.rendered })
    (hchild : ∀ i < s.spawned, (s.child i).Ages (u.child i)) : LoopFrame s e t := by
  obtain ⟨v, hv⟩ := hu
  exact {
    stop := by rw [h.keeps.stop, hv]
    stopEvent := by rw [h.keeps.stopEvent, hv]
    bounces := by rw [h.keeps.bounces, hv]
    spawned := .inl (by rw [h.keeps.spawned, hv])
    child := fun i hi => by
      rw [h.keeps.child]
      exact hchild i hi }

private theorem LoopFrame.stays {u : Service} {b : Prop} {e : RunEvent} (h : Stays φ b u t)
    (hstop : u.stop = s.stop) (hevent : u.stopEvent = s.stopEvent)
    (hbounces : u.bounces = s.bounces) (hspawned : u.spawned = s.spawned)
    (hchild : u.child = s.child) : LoopFrame s e t where
  stop := h.stop.trans hstop
  stopEvent := h.stopEvent.trans hevent
  bounces := h.bounces.trans hbounces
  spawned := .inl (h.spawned.trans hspawned)
  child i _ := by
    rw [← hchild]
    exact h.child.ages i

private theorem LoopFrame.of_eq {e : RunEvent} (hstop : t.stop = s.stop)
    (hevent : t.stopEvent = s.stopEvent) (hbounces : t.bounces = s.bounces)
    (hspawned : t.spawned = s.spawned) (hchild : t.child = s.child) : LoopFrame s e t where
  stop := hstop
  stopEvent := hevent
  bounces := hbounces
  spawned := .inl hspawned
  child i _ := by
    rw [hchild]
    exact .refl _

/-- The run loop leaves the other calls alone. -/
theorem RunEffect.frame {e : RunEvent} (h : RunEffect c φ s e t) : LoopFrame s e t := by
  cases h with
  | idle _ hb => exact .books hb ⟨s.child, rfl⟩ fun _ _ => .refl _
  | recheck => exact .of_eq rfl rfl rfl rfl rfl
  | sweepRaises _ _ ht =>
      subst ht
      exact ⟨rfl, rfl, rfl, .inl rfl, fun i _ => (swept_sweepRaised s).ages i⟩
  | raised _ _ ht =>
      subst ht
      exact .of_eq rfl rfl rfl rfl rfl
  | @forked r pid now hrun =>
      refine ⟨rfl, rfl, rfl, .inr ⟨hrun, r, pid, now, rfl, rfl, ?_⟩, fun i hi => ?_⟩
      · simp only [fork, Function.update_self]
      · simp only [fork, Function.update_of_ne (Nat.ne_of_lt hi)]
        exact .refl _
  | attached _ _ hst => exact .stays hst rfl rfl rfl rfl rfl
  | attachRaised _ _ ht =>
      subst ht
      exact .of_eq rfl rfl rfl rfl rfl
  | connectFailed _ hb =>
      exact .books hb ⟨_, rfl⟩ fun i _ => ages_setChild (Child.ages_kill _).reap i
  | probed _ hst => exact .stays hst rfl rfl rfl rfl rfl
  | waits _ hst => exact .stays hst rfl rfl rfl rfl rfl
  | exited => exact .of_eq rfl rfl rfl rfl rfl
  | joined => exact .of_eq rfl rfl rfl rfl rfl
  | drains => exact ⟨rfl, rfl, rfl, .inl rfl, fun i _ => (swept_sweepKill s).ages i⟩
  | classified hu hb _ =>
      rcases hu with ⟨-, rfl⟩ | ⟨-, rfl⟩
      · exact .books hb ⟨_, rfl⟩ fun i _ => (swept_sweepKill s).ages i
      · exact .books hb ⟨_, rfl⟩ fun _ _ => .refl _

/-- Only a fork brings the run loop to the creation of a process. -/
theorem RunEffect.creating {e : RunEvent} (h : RunEffect c φ s e t) {i : ℕ}
    (ht : t.run = .creating i) : i = s.spawned ∧ t.spawned = s.spawned + 1 := by
  cases h with
  | forked =>
      obtain rfl : s.spawned = i := by simpa only [fork, RunPc.creating.injEq] using ht
      exact ⟨rfl, rfl⟩
  | idle _ hb | connectFailed _ hb | classified _ hb _ =>
      have hp := hb.parked
      rw [ht] at hp
      cases hp
  | attached _ _ hst | probed _ hst | waits _ hst =>
      rcases hst.run with hr | hr | hr | ⟨f, -, hr⟩ <;> simp [ht] at hr
  | raised _ _ h | attachRaised _ _ h | sweepRaises _ _ h =>
      subst h
      cases ht
  | recheck | exited | joined | drains => cases ht

/-- At most the latest process is alive, and only the dead are reaped. -/
structure Latest (s : Service) : Prop where
  live : ∀ i < s.spawned, (s.child i).live = true → i + 1 = s.spawned
  reaped : ∀ i < s.spawned, (s.child i).returncode.isSome = true →
    (s.child i).exited.isSome = true

/-- A new service has no process. -/
theorem latest_init : Latest init where
  live i h := absurd h (Nat.not_lt_zero i)
  reaped i h := absurd h (Nat.not_lt_zero i)

private theorem reaped_of_ages {a b : Child} (h : a.Ages b)
    (ha : a.returncode.isSome = true → a.exited.isSome = true)
    (hb : b.returncode.isSome = true) : b.exited.isSome = true := by
  rcases h.reaped hb with hr | hx
  · exact h.exited (ha hr) ▸ ha hr
  · exact hx

private theorem Latest.of_ages (h : Latest s) (hspawned : t.spawned = s.spawned)
    (hch : ∀ i < s.spawned, (s.child i).Ages (t.child i)) : Latest t where
  live i hi hl := by
    rw [hspawned] at hi ⊢
    exact h.live i hi ((hch i hi).live hl)
  reaped i hi := by
    rw [hspawned] at hi
    exact reaped_of_ages (hch i hi) (h.reaped i hi)

private theorem Latest.runEffect {e : RunEvent} (h : Latest s) (htr : Tracked s)
    (hst : RunEffect c φ s e t) : Latest t := by
  have hf := hst.frame
  rcases hf.spawned with hs | ⟨hrun, r, pid, now, -, hs, hnew⟩
  · exact h.of_ages hs hf.child
  · refine ⟨fun i hi hl => ?_, fun i hi => ?_⟩
    · by_cases hlt : i < s.spawned
      · have hdead := htr.swept (by rw [hrun]; rfl) i hlt
        rw [(hf.child i hlt).live hl] at hdead
        cases hdead
      · omega
    · by_cases hlt : i < s.spawned
      · exact reaped_of_ages (hf.child i hlt) (h.reaped i hlt)
      · obtain rfl : i = s.spawned := by omega
        simp only [hnew, Option.isSome_none, Bool.false_eq_true, false_imp_iff]

/-- Every step keeps the latest process the only one that may be alive. -/
theorem Latest.step {e : Event} (h : Latest s) (htr : Tracked s) (hst : Steps c s e t) :
    Latest t := by
  cases e with
  | run e φ => exact h.runEffect htr (runStep_effect hst)
  | _ =>
      have haside := step_aside hst (by simp)
      exact h.of_ages haside.spawned fun i _ => haside.child i

end Service

end Jetty.Orchestrator
