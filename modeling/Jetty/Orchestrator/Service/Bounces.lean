import Jetty.Orchestrator.Service.Processes

/-!
# Bounces of one service

A `restart` call that is not ignored terminates the process it captured: as long as the
call is under way and neither a log note nor a sweep of it raises, either that process is the
service's latest one or it is dead.
-/

namespace Jetty.Orchestrator

namespace Service

/-- The leader of one of the service's processes is alive. -/
def Holds (s : Service) : Prop := ∃ i < s.spawned, (s.child i).exited = none

/-- A `restart` call is terminating the latest process. -/
def Bouncing (s : Service) : Prop := ∃ i ∈ s.bounces, i + 1 = s.spawned

instance (s : Service) : Decidable s.Holds := by
  unfold Holds
  infer_instance

instance (s : Service) : Decidable s.Bouncing := by
  unfold Bouncing
  infer_instance

variable {c : ServiceSetup} {s t : Service} {e : Event}

/-- Who holds a process after its ageing has held it before. -/
theorem holds_of_ages (hspawned : t.spawned = s.spawned)
    (hch : ∀ i < s.spawned, (s.child i).Ages (t.child i)) (h : t.Holds) : s.Holds := by
  obtain ⟨i, hi, hnone⟩ := h
  rw [hspawned] at hi
  refine ⟨i, hi, ?_⟩
  by_contra hexited
  rw [(hch i hi).exited (Option.isSome_iff_ne_none.mpr hexited)] at hnone
  exact hexited hnone

/-- In every step processes only age, apart from the one it may create. -/
theorem ages_step (hst : Steps c s e t) {i : ℕ} (hi : i < s.spawned) :
    (s.child i).Ages (t.child i) := by
  cases e with
  | run e φ => exact (runStep_effect hst).frame.child i hi
  | _ => exact (step_aside hst (by simp)).child i

/-- A step that forks nobody gives a service no process. -/
theorem holds_step (hst : Steps c s e t) (hspawned : t.spawned = s.spawned) (h : t.Holds) :
    s.Holds :=
  holds_of_ages hspawned (fun _ => ages_step hst) h

/-- Only a step at the end of a render creates a process. -/
theorem spawned_step (hst : Steps c s e t) (h : t.spawned ≠ s.spawned) :
    ∃ r pid now φ, e = .run (.rendered (.ok r (some pid)) now) φ := by
  cases e with
  | run e φ =>
      rcases (runStep_effect hst).frame.spawned with hs | ⟨-, r, pid, now, he, -, -⟩
      · exact absurd hs h
      · exact ⟨r, pid, now, φ, by rw [he]⟩
  | _ => exact absurd (step_aside hst (by simp)).spawned h

private theorem live_of_exited {a : Child} (h : a.exited = none) : a.live = true := by
  simp only [Child.live, h, Option.isNone_none, Bool.true_or]

/-- The process that is alive is the latest. -/
theorem Latest.of_exited (h : Latest s) {i : ℕ} (hi : i < s.spawned)
    (hnone : (s.child i).exited = none) : i + 1 = s.spawned :=
  h.live i hi (live_of_exited hnone)

/-! ### The calls under way -/

/-- The `restart` calls under way captured processes that had been registered. -/
def Captured (s : Service) : Prop :=
  ∀ i ∈ s.bounces, i < s.spawned ∧ s.run ≠ .creating i

private theorem captured_step (htr : Tracked s) (h : Captured s) (hst : Steps c s e t) :
    Captured t := by
  have haside (hne : ∀ e' φ, e ≠ .run e' φ) (hmem : ∀ i ∈ t.bounces, i ∈ s.bounces ∨
      s.proc = some i ∧ s.attached = true) : Captured t := by
    have ha := step_aside hst hne
    intro i hi
    have hold : i < s.spawned ∧ s.run ≠ .creating i := by
      rcases hmem i hi with hi | ⟨hproc, hatt⟩
      · exact h i hi
      · refine ⟨htr.proc_lt i hproc, fun hrun => ?_⟩
        rw [htr.detached (by rw [hrun]; rfl)] at hatt
        cases hatt
    refine ⟨ha.spawned ▸ hold.1, fun hrun => ?_⟩
    rcases ha.run with hr | ⟨-, hr, -⟩
    · exact hold.2 (hr ▸ hrun)
    · rw [hrun] at hr
      cases hr
  cases e with
  | run e φ =>
      have heffect := runStep_effect hst
      intro i hi
      obtain ⟨hlt, -⟩ := h i (heffect.frame.bounces ▸ hi)
      refine ⟨?_, fun hrun => ?_⟩
      · rcases heffect.frame.spawned with hs | ⟨-, -, -, -, -, hs, -⟩ <;> omega
      · have hnew := (heffect.creating hrun).1
        omega
  | restart φ =>
      refine haside (by simp) fun i hi => ?_
      rcases restart_cases hst with ⟨-, rfl⟩ | ⟨hign, ⟨-, rfl⟩ | rfl⟩
      · exact .inl hi
      · exact .inl hi
      · rcases List.mem_append.mp hi with hi | hi
        · refine .inr ⟨by simpa using hi, ?_⟩
          simp only [restartIgnored, Bool.or_eq_false_iff, Bool.not_eq_false'] at hign
          exact hign.2
        · exact .inl hi
  | restarted j timeout φ =>
      refine haside (by simp) fun i hi => ?_
      obtain ⟨ch, -, rfl, -⟩ := restarted_cases hst
      exact .inl (List.mem_of_mem_erase hi)
  | _ =>
      refine haside (by simp) fun i hi => ?_
      rw [(step_aside hst (by simp)).bounces (by simp) (by simp)] at hi
      exact .inl hi

/-- While the service's latest process lives on, a call that terminates it stays under way,
unless its own log note or sweep raises. -/
theorem bouncing_step (htr : Tracked s) (hl : Latest s) (hcap : Captured s)
    (hst : Steps c s e t) (hspawned : t.spawned = s.spawned)
    (hp : ∀ i b φ, e = .restarted i b φ → φ = none) (h : s.Bouncing) (ht : t.Holds) :
    t.Bouncing := by
  obtain ⟨i, hi, hlast⟩ := h
  have hstay (hmem : i ∈ t.bounces) : t.Bouncing := ⟨i, hmem, hspawned ▸ hlast⟩
  cases e with
  | run e φ => exact hstay ((runStep_effect hst).frame.bounces ▸ hi)
  | restart φ =>
      apply hstay
      rcases restart_cases hst with ⟨-, rfl⟩ | ⟨-, ⟨-, rfl⟩ | rfl⟩
      · exact hi
      · exact hi
      · exact List.mem_append_right _ hi
  | restarted j timeout φ =>
      by_cases hij : i = j
      · subst hij
        obtain rfl := hp _ _ _ rfl
        exfalso
        have hlt : i < s.spawned := by omega
        have hdead : (t.child i).exited ≠ none := by
          obtain ⟨ch, hch, rfl, hφ | hret | rfl⟩ := restarted_cases hst
          · exact absurd rfl hφ
          · have hexited := hl.reaped i hlt hret
            have hages := hch.ages i
            exact Option.isSome_iff_ne_none.mp (hages.exited hexited ▸ hexited)
          · intro hnone
            have hlive : (s.sweepKill.child i).live = true := live_of_exited hnone
            rcases htr.live i hlt ((ages_sweepKill i).live hlive) with hproc | hrun
            · rw [not_live_sweepKill (htr.registered.trans hproc)] at hlive
              cases hlive
            · exact (hcap i hi).2 hrun
        obtain ⟨k, hk, hnone⟩ := ht
        have hklast := (hl.step htr hst).of_exited hk hnone
        obtain rfl : k = i := by omega
        exact hdead hnone
      · apply hstay
        obtain ⟨ch, -, rfl, -⟩ := restarted_cases hst
        exact (List.mem_erase_of_ne hij).mpr hi
  | _ =>
      apply hstay
      rw [(step_aside hst (by simp)).bounces (by simp) (by simp)]
      exact hi

/-- A `restart` call that is not ignored captures the latest process, if it is alive. -/
theorem bouncing_of_restart (htr : Tracked s) (hl : Latest s)
    (hst : restartStep s (.restart none) = some t) (hign : s.restartIgnored = false)
    (h : s.Holds) : t.Bouncing := by
  obtain ⟨i, hi, hnone⟩ := h
  have hlast := hl.of_exited hi hnone
  simp only [restartIgnored, Bool.or_eq_false_iff, Bool.not_eq_false'] at hign
  rcases restart_cases hst with ⟨hign', -⟩ | ⟨-, ⟨hφ, -⟩ | rfl⟩
  · simp [restartIgnored, hign] at hign'
  · exact absurd rfl hφ
  · refine ⟨i, ?_, hlast⟩
    rcases htr.live i hi (live_of_exited hnone) with hproc | hrun
    · simp [hproc]
    · rw [htr.detached (by rw [hrun]; rfl)] at hign
      cases hign.2

/-- What is known of the processes of a service in every reachable state. -/
structure Sane (s : Service) : Prop where
  tracked : Tracked s
  latest : Latest s
  captured : Captured s

/-- A new service is sane. -/
theorem sane_init : Sane init where
  tracked := tracked_init
  latest := latest_init
  captured _ h := by cases h

/-- Every step keeps a service sane. -/
theorem Sane.step (h : Sane s) (hst : Steps c s e t) : Sane t where
  tracked := h.tracked.step hst
  latest := h.latest.step h.tracked hst
  captured := captured_step h.tracked h.captured hst

end Service

end Jetty.Orchestrator
