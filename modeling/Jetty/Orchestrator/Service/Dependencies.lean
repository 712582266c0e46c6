import Jetty.Orchestrator.Service.Processes

/-!
# A service waits for its dependencies

The run loop goes through the events of its dependencies one after the other, each by an
`await` of its own, and comes back to none of them. A process is created, and the service found
ready, only behind the last one, and while no process of an earlier incarnation is alive.
-/

namespace Jetty.Orchestrator

open Transition

/-- The run loop is behind the loop over its dependencies. -/
def RunPc.begun : RunPc → Bool
  | .created | .depWait _ => false
  | _ => true

/-- How many of its `n` dependencies the run loop is behind; a loop that has ended counts as
behind none, as it may have been told to stop while it waited. -/
def RunPc.passed (n : ℕ) : RunPc → ℕ
  | .created => 0
  | .depWait i => i
  | .returned | .raised _ | .cancelled => 0
  | _ => n

private theorem RunPc.passed_of_over {pc : RunPc} (h : pc.over = true) (n : ℕ) :
    pc.passed n = 0 := by
  cases pc <;> first | rfl | cases h

private theorem RunPc.passed_le_of_begun {pc : RunPc} (h : pc.begun = true) (n : ℕ) :
    pc.passed n ≤ n := by
  cases pc <;> first | exact le_rfl | exact Nat.zero_le n | cases h

private theorem RunPc.passed_of_begun {pc : RunPc} (h : pc.begun = true) (hover : pc.over = false)
    (n : ℕ) : pc.passed n = n := by
  cases pc with
  | created | depWait i => cases h
  | returned | raised f | cancelled => cases hover
  | _ => rfl

namespace Service

variable {c : ServiceSetup} {φ : Option Fault} {s t : Service}

/-! ### Code behind the dependencies -/

/-- Wherever the code suspends is behind the loop over the dependencies. -/
def Onward (x : Code) : Prop := ∀ s, x = .ok s → s.run.begun = true

private theorem Onward.settle {x : Code} (h : Onward x) : (settle x).run.begun = true := by
  cases x with
  | ok s => exact h s rfl
  | error e => rfl

private theorem Onward.inTry {x : Code} (h : Onward x) : (inTry x).run.begun = true := by
  cases x with
  | ok s => exact h s rfl
  | error e => rfl

private theorem onward_ok (h : s.run.begun = true) : Onward (.ok s) := by
  rintro t ⟨⟩
  exact h

private theorem onward_error (e : Fault × Service) : Onward (.error e) := by
  rintro t ⟨⟩

private theorem Onward.bind {x : Code} {k : Service → Code} (h : ∀ s, Onward (k s)) : Onward
    (x >>= k) := by
  cases x with
  | ok s => exact h s
  | error e => exact onward_error e

private theorem onward_beginSpawn : Onward (beginSpawn φ s) := by
  refine .bind fun s => ?_
  split
  · exact onward_error _
  · exact onward_ok rfl

private theorem onward_loopTop : Onward (loopTop c φ s) := by
  unfold loopTop
  split
  · exact .bind fun s => onward_ok rfl
  · split
    · exact onward_ok rfl
    · exact onward_beginSpawn

private theorem onward_blockLoop : Onward (blockLoop c φ s) := by
  unfold blockLoop
  split
  · exact onward_loopTop
  · exact onward_ok rfl

private theorem onward_block (names : List String) : Onward (block c φ names s) :=
  .bind fun _ => .bind fun _ => onward_blockLoop

private theorem onward_fail (r : FailReason) : Onward (fail φ r s) := .bind fun _ => onward_ok rfl

private theorem onward_charge (now : ℚ) (code : ℤ) : Onward (charge c φ now code s) := by
  unfold charge
  dsimp only
  split
  · exact onward_fail _
  · split
    · exact onward_error _
    · exact .bind fun _ => .bind fun _ => onward_ok rfl

private theorem onward_afterExit (now : ℚ) (code : ℤ) : Onward (afterExit c φ now code s) := by
  unfold afterExit
  split
  · exact .bind fun _ => onward_ok rfl
  · exact onward_loopTop
  · exact onward_loopTop
  · exact onward_fail _
  · exact onward_ok rfl
  · exact onward_charge now code

private theorem onward_spawnFailed (now : ℚ) : Onward (spawnFailed c φ now s) :=
  .bind fun _ => .bind fun _ => onward_afterExit now 127

private theorem onward_finishOnce (now : ℚ) (code : ℤ) : Onward (finishOnce c φ now code s) :=
  .bind fun _ => onward_afterExit now code

private theorem onward_becomeReady : Onward (becomeReady φ s) := .bind fun _ => onward_ok rfl

private theorem onward_readyLoop (late : Bool) : Onward (readyLoop φ late s) := by
  unfold readyLoop
  split
  · exact onward_ok rfl
  · split
    · exact .bind fun _ => .bind fun _ => onward_ok rfl
    · split
      · exact onward_ok rfl
      · exact onward_ok rfl

private theorem onward_leaveFinally (now : ℚ) (r : Ending) : Onward (leaveFinally c φ now r s) := by
  unfold leaveFinally
  split
  · exact onward_error _
  · split
    · exact onward_error _
    · refine .bind fun s => ?_
      split
      · exact onward_ok rfl
      · exact onward_finishOnce now _

private theorem begun_enterTry (late : Bool) (r : RenderedService) :
    (s.enterTry c φ late r).run.begun = true := by
  unfold enterTry
  refine Onward.inTry ?_
  split
  · exact onward_readyLoop late
  · exact onward_becomeReady

/-! ### The stages of the loop, one by one -/

section Stages

variable {e : RunEvent}

private theorem begun_gateCheck (hrun : s.run = .gateCheck) (h : runStep c φ s e = some t) :
    t.run.begun = true := by
  rw [runStep, hrun] at h
  cases e <;> simp only [resume, reduceCtorEq, Option.some.injEq] at h
  subst h
  rename_i r now
  cases r with
  | ok => exact onward_beginSpawn.settle
  | failing names => exact (onward_block names).settle
  | raised => rfl

private theorem begun_blockSleep (hrun : s.run = .blockSleep) (h : runStep c φ s e = some t) :
    t.run.begun = true := by
  rw [runStep, hrun] at h
  cases e <;> simp only [resume, reduceCtorEq, Option.some.injEq] at h
  subst h
  split
  · exact onward_loopTop.settle
  · rfl

private theorem begun_blockCheck (hrun : s.run = .blockCheck) (h : runStep c φ s e = some t) :
    t.run.begun = true := by
  rw [runStep, hrun] at h
  cases e <;> simp only [resume, reduceCtorEq, Option.some.injEq] at h
  subst h
  rename_i r now
  cases r with
  | ok => exact (Onward.bind fun _ => onward_loopTop).settle
  | failing names =>
      refine Onward.settle ?_
      dsimp only
      split
      · exact onward_blockLoop
      · exact .bind fun _ => onward_blockLoop
  | raised => rfl

private theorem begun_rendering (hrun : s.run = .rendering) (h : runStep c φ s e = some t) :
    t.run.begun = true := by
  rw [runStep, hrun] at h
  cases e <;> simp only [resume, reduceCtorEq, Option.some.injEq] at h
  subst h
  rename_i r now
  cases r with
  | ok r forked =>
      refine (Onward.bind fun _ => ?_).settle
      cases forked with
      | none => exact onward_spawnFailed now
      | some pid => exact onward_ok rfl
  | prepFailed => exact (onward_spawnFailed now).settle
  | raised => rfl

private theorem begun_creating {i : ℕ} (hrun : s.run = .creating i) (h : runStep c φ s e = some t) :
    t.run.begun = true := by
  rw [runStep, hrun] at h
  cases e <;> simp only [resume, reduceCtorEq] at h
  rename_i ok late now
  cases ok with
  | true =>
      obtain ⟨r, -, rfl⟩ := Option.map_eq_some_iff.mp h
      split
      · exact begun_enterTry late r
      · rfl
  | false =>
      obtain rfl := Option.some.inj h
      exact (onward_spawnFailed now).settle

private theorem begun_probing (hrun : s.run = .probing) (h : runStep c φ s e = some t) :
    t.run.begun = true := by
  rw [runStep, hrun] at h
  cases e <;> simp only [resume, reduceCtorEq, Option.some.injEq] at h
  subst h
  split
  · rfl
  · split
    · exact onward_becomeReady.inTry
    · rfl

private theorem begun_probeSleep (hrun : s.run = .probeSleep) (h : runStep c φ s e = some t) :
    t.run.begun = true := by
  rw [runStep, hrun] at h
  cases e <;> simp only [resume, reduceCtorEq, Option.some.injEq] at h
  subst h
  exact (onward_readyLoop _).inTry

private theorem begun_waitExit (hrun : s.run = .waitExit) (h : runStep c φ s e = some t) :
    t.run.begun = true := by
  rw [runStep, hrun] at h
  cases e <;> simp only [resume, reduceCtorEq] at h
  split at h
  · cases h
  · obtain ⟨code, -, rfl⟩ := Option.map_eq_some_iff.mp h
    rfl

private theorem begun_joinGate {r : Ending} (hrun : s.run = .joinGate r)
    (h : runStep c φ s e = some t) :
    t.run.begun = true := by
  rw [runStep, hrun] at h
  cases e <;> simp only [resume, reduceCtorEq, Option.some.injEq] at h
  subst h
  unfold joinPath
  split
  · rfl
  · rfl

private theorem begun_joinPath {r : Ending} (hrun : s.run = .joinPath r)
    (h : runStep c φ s e = some t) :
    t.run.begun = true := by
  rw [runStep, hrun] at h
  cases e <;> simp only [resume, reduceCtorEq, Option.some.injEq] at h
  subst h
  exact (onward_leaveFinally _ r).settle

private theorem begun_drain {code : ℤ} (hrun : s.run = .drain code) (h : runStep c φ s e = some t) :
    t.run.begun = true := by
  rw [runStep, hrun] at h
  cases e <;> simp only [resume, reduceCtorEq, Option.some.injEq] at h
  subst h
  rename_i r now
  cases r with
  | ok => exact (onward_finishOnce now code).settle
  | timeout => exact (Onward.bind fun _ => onward_finishOnce now code).settle
  | raised => rfl

private theorem begun_exitGate {code : ℤ} (hrun : s.run = .exitGate code)
    (h : runStep c φ s e = some t) :
    t.run.begun = true := by
  rw [runStep, hrun] at h
  cases e <;> simp only [resume, reduceCtorEq, Option.some.injEq] at h
  subst h
  rename_i r now
  cases r with
  | ok => exact (onward_charge now code).settle
  | failing names => exact (Onward.bind fun _ => onward_loopTop).settle
  | raised => rfl

private theorem begun_backoff {delay : Duration} (hrun : s.run = .backoff delay)
    (h : runStep c φ s e = some t) :
    t.run.begun = true := by
  rw [runStep, hrun] at h
  cases e <;> simp only [resume, reduceCtorEq, Option.some.injEq] at h
  subst h
  exact onward_loopTop.settle

/-- Behind the dependencies the run loop stays behind them. -/
theorem begun_runStep (h : runStep c φ s e = some t) (hs : s.run.begun = true) :
    t.run.begun = true := by
  cases hrun : s.run with
  | created | depWait i =>
      rw [hrun] at hs
      cases hs
  | gateCheck => exact begun_gateCheck hrun h
  | blockSleep => exact begun_blockSleep hrun h
  | blockCheck => exact begun_blockCheck hrun h
  | rendering => exact begun_rendering hrun h
  | creating i => exact begun_creating hrun h
  | probing => exact begun_probing hrun h
  | probeSleep => exact begun_probeSleep hrun h
  | waitExit => exact begun_waitExit hrun h
  | joinGate r => exact begun_joinGate hrun h
  | joinPath r => exact begun_joinPath hrun h
  | drain code => exact begun_drain hrun h
  | exitGate code => exact begun_exitGate hrun h
  | backoff delay => exact begun_backoff hrun h
  | returned | raised f | cancelled =>
      rw [runStep_over c φ (by rw [hrun]; rfl)] at h
      cases h

end Stages

/-! ### The loop over the dependencies -/

private theorem passed_depLoop (i : ℕ) :
    (settle (depLoop c φ i s)).run.passed c.deps ≤ i := by
  unfold depLoop
  split
  · exact le_rfl
  · rename_i hi
    exact (RunPc.passed_le_of_begun onward_loopTop.settle _).trans (not_lt.mp hi)

/-- The run loop gets behind another dependency only when its wait for it is over and nobody
asked it to stop. -/
theorem passed_step {e : Event} (h : step c s e = some t) :
    t.run.passed c.deps ≤ s.run.passed c.deps ∨ ∃ i φ, e = .run .depFired φ ∧
      s.run = .depWait i ∧ s.stopEvent = false ∧ t.run.passed c.deps ≤ i + 1 := by
  by_cases he : ∃ e' φ, e = .run e' φ
  · obtain ⟨e', φ, rfl⟩ := he
    have hst : runStep c φ s e' = some t := h
    by_cases hbegun : s.run.begun = true
    · left
      have hover : s.run.over = false := by
        by_contra hover
        rw [Bool.not_eq_false] at hover
        rw [runStep_over c φ hover] at hst
        cases hst
      rw [RunPc.passed_of_begun hbegun hover]
      exact RunPc.passed_le_of_begun (begun_runStep hst hbegun) _
    · rw [runStep] at hst
      cases hrun : s.run with
      | created =>
          rw [hrun] at hst
          cases e' <;> simp only [resume, reduceCtorEq, Option.some.injEq] at hst
          subst hst
          exact .inl (passed_depLoop 0)
      | depWait i =>
          rw [hrun] at hst
          cases e' <;> simp only [resume, reduceCtorEq, Option.some.injEq] at hst
          subst hst
          cases hstop : s.stopEvent with
          | true =>
              left
              rw [if_pos rfl]
              have hover : (settle (do
                  let s ← setState φ .stopped s
                  return { s with run := .returned })).run.over = true := by
                cases setState φ .stopped s <;> rfl
              rw [RunPc.passed_of_over hover]
              exact Nat.zero_le _
          | false => exact .inr ⟨i, φ, rfl, rfl, rfl, passed_depLoop (i + 1)⟩
      | _ =>
          rw [hrun] at hbegun
          exact absurd rfl hbegun
  · have haside := step_aside h fun e' φ heq => he ⟨e', φ, heq⟩
    left
    rcases haside.run with hrun | ⟨-, hrun, -⟩
    · rw [hrun]
    · rw [hrun]
      exact Nat.zero_le _

/-- A process is created behind all dependencies. -/
theorem passed_of_spawned {e : Event} (h : Steps c s e t) (hspawned : t.spawned ≠ s.spawned) :
    s.run.passed c.deps = c.deps := by
  by_cases he : ∃ e' φ, e = .run e' φ
  · obtain ⟨e', φ, rfl⟩ := he
    rcases (runStep_effect h).frame.spawned with heq | ⟨hrun, -⟩
    · exact absurd heq hspawned
    · rw [hrun]
      rfl
  · exact absurd (step_aside h fun e' φ heq => he ⟨e', φ, heq⟩).spawned hspawned

/-! ### One incarnation -/

/-- No two processes of a service are live. -/
theorem Tracked.eq_of_live (h : Tracked s) {i j : ℕ} (hi : i < s.spawned) (hj : j < s.spawned)
    (hli : (s.child i).live = true) (hlj : (s.child j).live = true) : i = j := by
  rcases h.live i hi hli with hproc | hcreating
  · rcases h.live j hj hlj with hproc' | hcreating'
    · exact Option.some.inj (hproc.symm.trans hproc')
    · exact h.creating j hcreating' i hi hli
  · exact (h.creating i hcreating j hj hlj).symm

/-- A process is created when every earlier one has ended, with all that it left behind, and
has been reaped. -/
theorem Tracked.creates {e : Event} (h : Tracked s) (hst : Steps c s e t)
    (hspawned : t.spawned ≠ s.spawned) :
    t.spawned = s.spawned + 1 ∧
      ∀ i < s.spawned, (s.child i).Gone ∧ (t.child i).live = false := by
  by_cases he : ∃ e' φ, e = .run e' φ
  · obtain ⟨e', φ, rfl⟩ := he
    have hframe := (runStep_effect hst).frame
    rcases hframe.spawned with heq | ⟨hrun, -, -, -, -, heq, -⟩
    · exact absurd heq hspawned
    · have hidle : s.run.idle = true := by rw [hrun]; rfl
      refine ⟨heq, fun i hi => ?_⟩
      have hdead := h.swept (RunPc.swept_of_idle hidle) i hi
      refine ⟨⟨hdead, h.reaped_of_idle hidle hi⟩, ?_⟩
      by_contra hlive
      rw [Bool.not_eq_false] at hlive
      rw [(hframe.child i hi).live hlive] at hdead
      cases hdead
  · exact absurd (step_aside hst fun e' φ heq => he ⟨e', φ, heq⟩).spawned hspawned

/-! ### A ready service has a process -/

/-- A service that is up, or was found ready, has created a process. -/
structure Founded (s : Service) : Prop where
  up : s.run.parked = false → 0 < s.spawned
  ready : s.readyEvent = true → 0 < s.spawned

private theorem founded_init : Founded init where
  up h := by cases h
  ready h := by cases h

private theorem Founded.of_pos (h : 0 < t.spawned) : Founded t where
  up _ := h
  ready _ := h

private theorem Founded.runEffect {e : RunEvent} (h : Founded s) (hst : RunEffect c φ s e t) :
    Founded t := by
  have hle : s.spawned ≤ t.spawned := by
    rcases hst.frame.spawned with heq | ⟨-, -, -, -, -, heq, -⟩
    · exact heq.ge
    · exact heq.ge.trans' (Nat.le_succ _)
  cases hup : s.run.parked with
  | false => exact .of_pos ((h.up hup).trans_le hle)
  | true =>
      cases hst with
      | idle _ hb =>
          constructor
          · intro hparked
            rw [hb.parked] at hparked
            cases hparked
          · exact fun hready => (h.ready (hb.keeps.readyEvent hready)).trans_le hle
      | recheck =>
          constructor
          · intro hparked
            cases hparked
          · exact h.ready
      | raised _ _ heq =>
          subst heq
          constructor
          · intro hparked
            cases hparked
          · exact h.ready
      | forked => exact .of_pos (Nat.succ_pos _)
      | attached hrun | attachRaised hrun | connectFailed hrun | probed hrun | exited hrun
        | joined hrun | drains hrun | sweepRaises hrun =>
          rw [hrun] at hup
          cases hup
      | waits hrun =>
          rcases hrun with hrun | hrun
          all_goals
            rw [hrun] at hup
            cases hup
      | classified hrun =>
          rcases hrun with ⟨hrun, -⟩ | ⟨hrun, -⟩
          all_goals
            rw [hrun] at hup
            cases hup

private theorem Founded.step {e : Event} (h : Founded s) (hst : Steps c s e t) : Founded t := by
  by_cases he : ∃ e' φ, e = .run e' φ
  · obtain ⟨e', φ, rfl⟩ := he
    exact h.runEffect (runStep_effect hst)
  · have haside := step_aside hst fun e' φ heq => he ⟨e', φ, heq⟩
    constructor
    · intro hparked
      rw [haside.spawned]
      rcases haside.run with hrun | ⟨-, hrun, -⟩
      · exact h.up (hrun ▸ hparked)
      · rw [hrun] at hparked
        cases hparked
    · rw [haside.readyEvent, haside.spawned]
      exact h.ready

/-- In every reachable state a service that is up or was found ready has created a process. -/
theorem founded_run {es : List Event} (h : Run (Steps c) init es s) : Founded s :=
  h.invariant Founded founded_init fun _ _ _ => Founded.step

end Service

end Jetty.Orchestrator
