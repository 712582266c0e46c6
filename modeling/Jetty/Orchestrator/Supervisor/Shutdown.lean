import Jetty.Orchestrator.Supervisor.Effects

/-!
# The shutdown asked for by the operator

Services classify their exits until their own `stop` is called, and the exit code of the
instance is decided from `self._failure` after the teardown: a service that fails between
the signal and its `stop` turns an operator stop into a failure. Where none does, the
supervisor returns 0 and removes the record.
-/

namespace Jetty.Orchestrator

open Transition

namespace Supervisor

/-- In the step a service classifies an exit as a failure of the instance. -/
def Fails (c : SupervisorSetup) (S : Supervisor) (e : SupervisorEvent) : Prop :=
  match e with
  | .service n (.run e _) => (S.service n).Fails (c.service n) e
  | .consult n _ l | .resolved n (.ok _) _ l =>
    (S.service n).Fails (c.service n) (.rendered l.result l.now)
  | .resolved n .failed _ l => (S.service n).Fails (c.service n) (.rendered .prepFailed l.now)
  | _ => False

instance (c : SupervisorSetup) (S : Supervisor) (e : SupervisorEvent) :
    Decidable (S.Fails c e) := by
  unfold Fails
  rcases e with ⟨n, e⟩ | _ | ⟨n, r, now, l⟩
  · rcases e <;> infer_instance
  · infer_instance
  · rcases r <;> infer_instance
  all_goals infer_instance

/-- The shutdown has not been asked for: nothing has failed, and the main task waits. -/
structure Undisturbed (S : Supervisor) : Prop where
  failure : S.failure = none
  failing : S.failing = false
  main : S.main = .waiting
  record : S.record = some .running

/-- No failure is known, the record says so, and `run` has at most returned 0. -/
structure Graceful (S : Supervisor) : Prop where
  failure : S.failure = none
  failing : S.failing = false
  record : S.record = none ∨ S.record = some .running
  returned : ∀ code, S.main = .returned code → code = 0 ∧ S.record = none

variable {c : SupervisorSetup} {S T : Supervisor} {e : SupervisorEvent}

/-! ### Services -/

/-- A step of a service sets the shutdown event if it sets the failure, and the record it
writes, if any, is that of the main task's state. -/
theorem serviceStep_main {n : String} {e : Event} {U : Supervisor}
    (h : serviceStep c n e U = some T) : T.main = U.main ∧ T.failing = U.failing ∧
      (T.shutdown = false → U.shutdown = false ∧ T.failure = U.failure) ∧
      (T.record = U.record ∨ T.record = some U.instanceState) := by
  obtain ⟨t, -, rfl⟩ := serviceStep_eq_some.mp h
  refine ⟨rfl, rfl, fun hs => ?_, ?_⟩
  · simp only [setService, Bool.or_eq_false_iff, Bool.and_eq_false_iff, decide_eq_false_iff_not,
      Option.isSome_eq_false_iff, Option.isNone_iff_eq_none] at hs ⊢
    refine ⟨hs.1, ?_⟩
    rcases hs.2 with hold | hnew
    · rw [if_neg hold]
    · rw [hnew]
      simp
  · simp only [setService]
    split
    · exact .inl rfl
    · exact .inr rfl

/-- A step of a service that classifies no exit as a failure sets no failure. -/
theorem serviceStep_failure {n : String} {e : Event} {U : Supervisor}
    (h : serviceStep c n e U = some T)
    (hp : ∀ e' φ, e = .run e' φ → ¬ (U.service n).Fails (c.service n) e') :
    T.failure = U.failure := by
  obtain ⟨t, ht, rfl⟩ := serviceStep_eq_some.mp h
  have hfailed : t.failed = (U.service n).failed := by
    cases e with
    | run e φ => exact (Service.runStep_effect ht).failed.resolve_right (hp e φ rfl)
    | _ => exact (Service.step_aside ht (by simp)).failed
  simp only [setService, hfailed]
  split
  · rename_i hnone
    simp [hnone]
  · rfl

private theorem Graceful.serviceStep {n : String} {e : Event} {U : Supervisor}
    (hst : serviceStep c n e U = some T) (h : Graceful U) (hover : U.main.over = false)
    (hp : ∀ e' φ, e = .run e' φ → ¬ (U.service n).Fails (c.service n) e') : Graceful T := by
  obtain ⟨hmain, hfailing, -, hrecord⟩ := serviceStep_main hst
  refine ⟨(serviceStep_failure hst hp).trans h.failure, hfailing.trans h.failing, ?_, ?_⟩
  · rcases hrecord with hr | hr
    · exact hr ▸ h.record
    · simp [hr, instanceState, h.failing]
  · intro code hcode
    rw [← hmain, hcode] at hover
    cases hover

private theorem Graceful.consulted {n r : String} {g : ℕ} {rest : List String} {l : Launch}
    {U : Supervisor} (hst : consulted c n r g rest l U = some T) (h : Graceful U)
    (hover : U.main.over = false)
    (hp : ¬ (U.service n).Fails (c.service n) (.rendered l.result l.now)) : Graceful T := by
  simp only [Supervisor.consulted] at hst
  split at hst
  · refine Graceful.serviceStep hst { h with } hover fun e' φ he => ?_
    obtain ⟨rfl, -⟩ := Event.run.inj he
    exact hp
  · obtain rfl := Option.some.inj hst
    exact { h with }

/-! ### The main task -/

private theorem Graceful.killed (h : Graceful S) (bad : Option String) (names : List String) :
    Graceful (killed (killAll bad names S)) := by
  obtain ⟨f, hf, -⟩ := killed_eq bad names S
  rw [hf]
  exact { h with }

private theorem Graceful.onSignal (h : Graceful S) (bad : Option String) :
    Graceful (S.onSignal c bad) := by
  unfold Supervisor.onSignal
  split
  · exact { h with }
  · exact { h.killed bad c.services with }

private theorem Graceful.conclude (h : Graceful S) (φ : Option Fault) : Graceful
    (S.conclude φ) := by
  unfold Supervisor.conclude
  split
  · rename_i hsome
    rw [h.failure] at hsome
    cases hsome
  · split
    · exact ⟨h.failure, h.failing, h.record, by simp⟩
    · exact ⟨h.failure, h.failing, .inl rfl, by simp⟩

private theorem Graceful.finish (h : Graceful S) (bad : Option String) (φ : Option Fault) :
    Graceful (S.finish c bad φ) := by
  have hkilled := h.killed bad c.services
  unfold Supervisor.finish
  split
  · rename_i T hT
    rw [hT] at hkilled
    exact hkilled.conclude φ
  · rename_i T hT
    rw [hT] at hkilled
    exact ⟨hkilled.failure, hkilled.failing, hkilled.record, by simp⟩

private theorem Graceful.stopLoop (h : Graceful S) (stopped : List String) :
    Graceful (S.stopLoop c stopped) := by
  unfold Supervisor.stopLoop
  split
  · exact ⟨h.failure, h.failing, h.record, by simp⟩
  · exact ⟨h.failure, h.failing, h.record, by simp⟩

private theorem Graceful.mainStep (h : Graceful S) (hover : S.main.over = false)
    (hst : S.mainStep c e = some T) : Graceful T := by
  cases e with
  | wake =>
      simp only [Supervisor.mainStep, Option.ite_none_right_eq_some, Option.some.injEq] at hst
      obtain ⟨-, rfl⟩ := hst
      have hfailing : S.failure.isSome = false := by rw [h.failure]; rfl
      exact Graceful.stopLoop (S := { S with failing := S.failure.isSome })
        { h with failing := hfailing } []
  | stop n φ =>
      simp only [Supervisor.mainStep] at hst
      split at hst
      · rw [Option.ite_none_right_eq_some] at hst
        exact Graceful.serviceStep hst.2 h hover (by simp)
      · cases hst
  | waveDone =>
      simp only [Supervisor.mainStep] at hst
      split at hst
      · simp only [Option.ite_none_right_eq_some, Option.some.injEq] at hst
        obtain ⟨-, rfl⟩ := hst
        exact h.stopLoop _
      · cases hst
  | waveRaised bad =>
      simp only [Supervisor.mainStep] at hst
      split at hst
      · simp only [Option.ite_none_right_eq_some, Option.some.injEq] at hst
        obtain ⟨-, rfl⟩ := hst
        have hkilled := h.killed bad c.services
        exact ⟨hkilled.failure, hkilled.failing, hkilled.record, by simp⟩
      · cases hst
  | tasksDone timeout bad φ =>
      simp only [Supervisor.mainStep, Option.ite_none_right_eq_some] at hst
      obtain ⟨-, hst⟩ := hst
      split at hst
      · obtain rfl := Option.some.inj hst
        exact ⟨h.failure, h.failing, h.record, by simp⟩
      · simp only [Option.ite_none_right_eq_some, Option.some.injEq] at hst
        obtain ⟨-, rfl⟩ := hst
        exact h.finish bad φ
  | cancel n =>
      simp only [Supervisor.mainStep, Option.ite_none_right_eq_some] at hst
      exact Graceful.serviceStep hst.2 { h with } hover (by simp)
  | pendingDone bad φ =>
      simp only [Supervisor.mainStep, Option.ite_none_right_eq_some, Option.some.injEq] at hst
      obtain ⟨-, rfl⟩ := hst
      exact h.finish bad φ
  | _ => simp only [Supervisor.mainStep, reduceCtorEq] at hst

/-- A step in which no service fails keeps the shutdown graceful. -/
theorem Graceful.step (h : Graceful S) (hst : Steps c S e T) (hp : ¬ S.Fails c e) :
    Graceful T := by
  have heffect := step_effect hst
  have hst : S.step c e = some T := hst
  unfold Supervisor.step at hst
  split at hst
  · cases hst
  · rename_i hover
    rw [Bool.not_eq_true] at hover
    cases heffect with
    | @own n e T _ _ hst =>
        refine Graceful.serviceStep hst h hover fun e' φ he => ?_
        subst he
        exact hp
    | bounced _ hst => exact Graceful.serviceStep hst { h with } hover (by simp)
    | stops hst => exact Graceful.serviceStep hst h hover (by simp)
    | cancels hst => exact Graceful.serviceStep hst { h with } hover (by simp)
    | hit _ _ _ hst => exact Graceful.consulted hst h hover hp
    | ran _ _ hst => exact Graceful.consulted hst { h with } hover hp
    | @renderFailed n res r now l lock T hrun hres hst =>
        refine Graceful.serviceStep hst { h with } hover fun e' φ he => ?_
        obtain ⟨rfl, -⟩ := Event.run.inj he
        rcases hres with ⟨rfl, rfl⟩ | ⟨rfl, rfl⟩
        · exact hp
        · simp [Service.Fails, Service.exitAt, Service.chargeAt, hrun]
    | quiet _ hquiet =>
        rcases hquiet with ⟨n, now, l, lock, -, rfl⟩ | ⟨bad, -, rfl⟩ | hmain
        · exact { h with }
        · exact h.onSignal bad
        · exact h.mainStep hover hmain

/-! ### Before the shutdown -/

private theorem shutdown_stopLoop (stopped : List String) :
    (S.stopLoop c stopped).shutdown = S.shutdown := by
  unfold stopLoop
  split <;> rfl

private theorem shutdown_finish (bad : Option String) (φ : Option Fault) :
    (S.finish c bad φ).shutdown = S.shutdown := by
  obtain ⟨f, hf, -⟩ := killed_eq bad c.services S
  have hkilled : (killed (killAll bad c.services S)).shutdown = S.shutdown := by rw [hf]
  unfold finish
  split
  · rename_i T hT
    rw [hT] at hkilled
    obtain ⟨record, main, heq⟩ := conclude_eq φ T
    rw [heq]
    exact hkilled
  · rename_i T hT
    rw [hT] at hkilled
    exact hkilled

/-- The main task never clears the shutdown event, and takes no step before it is set. -/
private theorem shutdown_mainStep (hst : S.mainStep c e = some T)
    (hwaiting : S.shutdown = false → S.main = .waiting) : T.shutdown = true := by
  have hset : S.main ≠ .waiting → S.shutdown = true := by
    intro hne
    by_contra hs
    exact hne (hwaiting (by simpa using hs))
  cases e with
  | wake =>
      simp only [mainStep, Option.ite_none_right_eq_some, Option.some.injEq] at hst
      obtain ⟨⟨-, hs⟩, rfl⟩ := hst
      exact (shutdown_stopLoop []).trans hs
  | stop n φ =>
      simp only [mainStep] at hst
      split at hst
      · rename_i hmain
        rw [Option.ite_none_right_eq_some] at hst
        obtain ⟨t, -, rfl⟩ := serviceStep_eq_some.mp hst.2
        simp [setService, hset (by simp [hmain])]
      · cases hst
  | waveDone =>
      simp only [mainStep] at hst
      split at hst
      · rename_i hmain
        simp only [Option.ite_none_right_eq_some, Option.some.injEq] at hst
        obtain ⟨-, rfl⟩ := hst
        exact (shutdown_stopLoop _).trans (hset (by simp [hmain]))
      · cases hst
  | waveRaised bad =>
      simp only [mainStep] at hst
      split at hst
      · rename_i hmain
        simp only [Option.ite_none_right_eq_some, Option.some.injEq] at hst
        obtain ⟨-, rfl⟩ := hst
        obtain ⟨f, hf, -⟩ := killed_eq bad c.services S
        rw [hf]
        exact hset (by simp [hmain])
      · cases hst
  | tasksDone timeout bad φ =>
      simp only [mainStep, Option.ite_none_right_eq_some] at hst
      obtain ⟨hmain, hst⟩ := hst
      have hs := hset (by simp [hmain])
      split at hst
      · obtain rfl := Option.some.inj hst
        exact hs
      · simp only [Option.ite_none_right_eq_some, Option.some.injEq] at hst
        obtain ⟨-, rfl⟩ := hst
        exact (shutdown_finish bad φ).trans hs
  | cancel n =>
      simp only [mainStep, Option.ite_none_right_eq_some] at hst
      obtain ⟨t, -, rfl⟩ := serviceStep_eq_some.mp hst.2
      simp [setService, hset (by simp [hst.1.1])]
  | pendingDone bad φ =>
      simp only [mainStep, Option.ite_none_right_eq_some, Option.some.injEq] at hst
      obtain ⟨hmain, rfl⟩ := hst
      exact (shutdown_finish bad φ).trans (hset (by simp [hmain]))
  | _ => simp only [mainStep, reduceCtorEq] at hst

/-- While the shutdown event is not set, nothing has disturbed the main task. -/
theorem Undisturbed.step (h : S.shutdown = false → Undisturbed S) (hst : Steps c S e T)
    (hT : T.shutdown = false) : Undisturbed T := by
  have hservice {n : String} {e : Event} {U : Supervisor}
      (hst : Supervisor.serviceStep c n e U = some T)
      (hU : U.shutdown = false → Undisturbed U) : Undisturbed T := by
    obtain ⟨hmain, hfailing, hfailure, hrecord⟩ := serviceStep_main hst
    obtain ⟨hs, hf⟩ := hfailure hT
    have hu := hU hs
    refine ⟨hf.trans hu.failure, hfailing.trans hu.failing, hmain.trans hu.main, ?_⟩
    rcases hrecord with hr | hr
    · exact hr.trans hu.record
    · simp [hr, instanceState, hu.failing]
  have hconsulted {n r : String} {g : ℕ} {rest : List String} {l : Launch} {U : Supervisor}
      (hst : Supervisor.consulted c n r g rest l U = some T)
      (hU : U.shutdown = false → Undisturbed U) : Undisturbed T := by
    simp only [Supervisor.consulted] at hst
    split at hst
    · exact hservice hst fun hs => { hU hs with }
    · obtain rfl := Option.some.inj hst
      exact { hU hT with }
  cases step_effect hst with
  | own _ _ hst => exact hservice hst h
  | bounced _ hst => exact hservice hst fun hs => { h hs with }
  | stops hst => exact hservice hst h
  | cancels hst => exact hservice hst fun hs => { h hs with }
  | hit _ _ _ hst => exact hconsulted hst h
  | ran _ _ hst => exact hconsulted hst fun hs => { h hs with }
  | renderFailed _ _ hst => exact hservice hst fun hs => { h hs with }
  | quiet _ hquiet =>
      rcases hquiet with ⟨n, now, l, lock, -, rfl⟩ | ⟨bad, -, rfl⟩ | hmain
      · exact { h hT with }
      · unfold onSignal at hT ⊢
        split
        · rename_i hseen
          rw [if_pos hseen] at hT
          cases hT
        · rename_i hseen
          rw [if_neg hseen] at hT
          obtain ⟨f, hf, -⟩ := killed_eq bad c.services S
          rw [hf] at hT ⊢
          exact { h hT with }
      · rw [shutdown_mainStep hmain fun hs => (h hs).main] at hT
        cases hT

/-- In every run whose first request for the shutdown is a signal, and in which no service
classifies an exit as a failure from then on: the supervisor returns nothing but 0, with the
record removed, and never leaves the post-mortem of a failure. -/
theorem operator_stop_wins {es es' : List SupervisorEvent} {S₀ S₁ : Supervisor}
    {bad : Option String} (h : Run (Steps c) init es S₀) (hfirst : S₀.shutdown = false)
    (hsignal : Steps c S₀ (.signal bad) S₁)
    (hafter : Run ((Steps c).within fun S e => ¬ S.Fails c e) S₁ es' S) :
    (∀ code, S.main = .returned code → code = 0 ∧ S.record = none) ∧
      ∀ n reason, S.record ≠ some (.failed n reason) := by
  have hbefore : S₀.shutdown = false → Undisturbed S₀ := h.invariant
    (fun S => S.shutdown = false → Undisturbed S) (fun _ => ⟨rfl, rfl, rfl, rfl⟩)
    fun _ _ _ => Undisturbed.step
  have hu := hbefore hfirst
  have hstart : Graceful S₀ := ⟨hu.failure, hu.failing, .inr hu.record, by simp [hu.main]⟩
  have hgraceful : Graceful S := hafter.invariant Graceful (hstart.step hsignal id)
    fun _ _ _ hg ⟨hp, hst⟩ => hg.step hst hp
  refine ⟨hgraceful.returned, fun n reason => ?_⟩
  rcases hgraceful.record with hr | hr <;> simp [hr]

/-- A database and a service that depends on it. -/
def chainSetup : SupervisorSetup where
  services := ["db", "api"]
  service := fun n => if n = "api" then { deps := 1 } else {}
  after := fun n => if n = "api" then ["db"] else []

/-- A render after which the process `pid` is created. -/
private def renderedAs (pid : ℕ) : RunEvent := .rendered (.ok { cmd := ["run"] } (some pid)) 0

/-- Both services come up. -/
def broughtUp : List SupervisorEvent :=
  [.service "db" (.run .begin none), .service "db" (.run (renderedAs 101) none),
    .service "db" (.run (.connected true false 0) none), .service "api" (.run .begin none),
    .service "api" (.run .depFired none), .service "api" (.run (renderedAs 102) none),
    .service "api" (.run (.connected true false 0) none)]

/-- The exit of the process of a service, up to the classification. -/
def exits (n : String) (code : ℤ) : List SupervisorEvent :=
  [.service n (.die 0 code false), .service n (.reap 0), .service n (.run .exited none),
    .service n (.run (.joined 1) none), .service n (.run (.joined 1) none),
    .service n (.run (.drained .ok 1) none)]

/-- The teardown in the order of the waves. -/
def teardown : List SupervisorEvent :=
  [.wake, .stop "api" none] ++ exits "api" 0 ++ [.service "api" (.stopped false none), .waveDone,
    .stop "db" none] ++ exits "db" 0 ++ [.service "db" (.stopped false none), .waveDone,
    .tasksDone false none none]

/-- The database crashes with exit code 2 while its dependent is being stopped. -/
def crashedTeardown : List SupervisorEvent :=
  [.wake, .stop "api" none] ++ exits "db" 2 ++ exits "api" 0 ++
    [.service "api" (.stopped false none), .waveDone, .stop "db" none, .waveDone,
      .tasksDone false none none]

/-- The operator stops the two services, and the supervisor returns 0. -/
theorem operator_stop_wins_chain :
    ∃ S₀ S : Supervisor, Run (Steps chainSetup) init broughtUp S₀ ∧
      Run (Steps chainSetup) (S₀.onSignal chainSetup none) teardown S ∧ S.main = .returned 0 ∧
      S.record = none := by
  obtain ⟨S₀, hbefore, hS₀⟩ := exists_run_of_exec (step chainSetup) init broughtUp
    (fun S₀ => !S₀.shutdown && (execWithin (step chainSetup)
      (fun S e => ¬ S.Fails chainSetup e) (S₀.onSignal chainSetup none) teardown).any
        (fun S : Supervisor => decide (S.main = .returned 0)) && !S₀.main.over)
    (by decide +kernel)
  simp only [Bool.and_eq_true, Bool.not_eq_true'] at hS₀
  obtain ⟨⟨hfirst, hS⟩, hover⟩ := hS₀
  have hsignal : Steps chainSetup S₀ (.signal none) (S₀.onSignal chainSetup none) := by
    show step chainSetup S₀ (.signal none) = _
    simp only [step, hover, Bool.false_eq_true, if_false]
  obtain ⟨S, hafter, hcode⟩ := exists_run_of_execWithin (step chainSetup)
    (fun S e => ¬ S.Fails chainSetup e) (S₀.onSignal chainSetup none) teardown _ hS
  have hcode : S.main = .returned 0 := of_decide_eq_true hcode
  exact ⟨S₀, S, hbefore, hafter.of_within, hcode,
    ((operator_stop_wins hbefore hfirst hsignal hafter).1 0 hcode).2⟩

/-- The operator's stop ends as a failure of the instance. -/
theorem not_operator_stop_wins :
    ¬ ∀ (c : SupervisorSetup) (es es' : List SupervisorEvent) (S₀ S₁ S : Supervisor),
      Run (Steps c) init es S₀ → S₀.shutdown = false → Steps c S₀ (.signal none) S₁ →
      Run (Steps c) S₁ es' S → ∀ code, S.main = .returned code → code = 0 ∧ S.record = none := by
  intro h
  obtain ⟨S₀, hbefore, hS₀⟩ := exists_run_of_exec (step chainSetup) init broughtUp
    (fun S₀ => !S₀.shutdown &&
      (exec (step chainSetup) (S₀.onSignal chainSetup none) crashedTeardown).any
      (fun S : Supervisor => decide (S.main = .returned 1)) && !S₀.main.over)
    (by decide +kernel)
  simp only [Bool.and_eq_true, Bool.not_eq_true'] at hS₀
  obtain ⟨⟨hfirst, hS⟩, hover⟩ := hS₀
  have hsignal : Steps chainSetup S₀ (.signal none) (S₀.onSignal chainSetup none) := by
    show step chainSetup S₀ (.signal none) = _
    simp only [step, hover, Bool.false_eq_true, if_false]
  obtain ⟨S, hafter, hcode⟩ := exists_run_of_exec (step chainSetup)
    (S₀.onSignal chainSetup none) crashedTeardown
    _ hS
  have hzero := (h chainSetup _ _ S₀ _ S hbefore hfirst hsignal hafter 1
    (of_decide_eq_true hcode)).1
  exact absurd hzero (by decide)

end Supervisor

end Jetty.Orchestrator
