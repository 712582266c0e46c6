import Jetty.Orchestrator.Supervisor.Step
import Jetty.Orchestrator.Service.Processes

/-!
# What a step of the supervisor can do

The inversion of the supervisor's step: one service takes a step, perhaps on behalf of the
supervisor, a render gets one resolver further, or the main task moves on. Each service
of a running supervisor is in a state that some run of its own reaches.
-/

namespace Jetty.Orchestrator

open Transition

namespace Supervisor

/-- The main task or a lock moved on: nothing but kills happened to the services, and the
renders, the resolvers' results and the bounces are as they were. -/
structure Quiet (S T : Supervisor) : Prop where
  service : ∀ n, ∃ ch, (S.service n).Swept ch ∧ T.service n = { S.service n with child := ch }
  generation : T.generation = S.generation
  cache : T.cache = S.cache
  todo : T.todo = S.todo
  context : T.context = S.context
  spawnGens : T.spawnGens = S.spawnGens
  launched : T.launched = S.launched
  bouncing : T.bouncing = S.bouncing

/-- The state in which `_resolve` returns after a run of the resolver `r`. -/
def afterRun (r : String) (release : Release) (now : ℚ) (S : Supervisor) : Supervisor :=
  let g := S.nextGeneration r release
  { S with
    lock := Function.update S.lock r none
    generation := Function.update S.generation r g
    cache := Function.update S.cache r (some ⟨now, release, g⟩) }

/-- The effects of one step of the supervisor. -/
inductive Effect (c : SupervisorSetup) (S : Supervisor) : SupervisorEvent → Supervisor → Prop
  /-- A service takes a step of its own. -/
  | own {n : String} {e : Event} {T : Supervisor} : n ∈ c.services → c.manages n e = false →
      serviceStep c n e S = some T → Effect c S (.service n e) T
  | bounced {n : String} {φ : Option Fault} {T : Supervisor} : n ∈ S.bouncing →
      serviceStep c n (.restart φ) { S with bouncing := S.bouncing.erase n } = some T →
      Effect c S (.bounce n φ) T
  | stops {n : String} {φ : Option Fault} {T : Supervisor} :
      serviceStep c n (.stop φ) S = some T → Effect c S (.stop n φ) T
  | cancels {n : String} {lock : String → Option String} {T : Supervisor} :
      serviceStep c n .cancel { S with lock := lock } = some T → Effect c S (.cancel n) T
  /-- A cached release is used. -/
  | hit {n r : String} {rest : List String} {now : ℚ} {l : Launch} {e : CacheEntry}
      {T : Supervisor} : (S.service n).run = .rendering → S.todo n = r :: rest →
      S.cache r = some e → consulted c n r e.generation rest l S = some T →
      Effect c S (.consult n now l) T
  /-- A release has just been resolved. -/
  | ran {n r : String} {rest : List String} {now : ℚ} {l : Launch} {release : Release}
      {T : Supervisor} : (S.service n).run = .rendering → S.todo n = r :: rest →
      consulted c n r (S.nextGeneration r release) rest l (S.afterRun r release now) = some T →
      Effect c S (.resolved n (.ok release) now l) T
  | renderFailed {n : String} {res : Resolution} {r : RenderResult} {now : ℚ} {l : Launch}
      {lock : String → Option String} {T : Supervisor} : (S.service n).run = .rendering →
      res = .failed ∧ r = .prepFailed ∨ res = .raised ∧ r = .raised →
      serviceStep c n (.run (.rendered r l.now) l.fault) { S with lock := lock } = some T →
      Effect c S (.resolved n res now l) T
  /-- A resolver starts to run, a signal arrives, or the main task takes a step. -/
  | quiet {e : SupervisorEvent} {T : Supervisor} : Quiet S T →
      (∃ n now l lock, e = .consult n now l ∧ T = { S with lock := lock }) ∨
        (∃ bad, e = .signal bad ∧ T = S.onSignal c bad) ∨ S.mainStep c e = some T → Effect c S e T

variable {c : SupervisorSetup} {S T : Supervisor} {e : SupervisorEvent}

private theorem Quiet.refl (S : Supervisor) : Quiet S S where
  service _ := ⟨_, .refl _, rfl⟩
  generation := rfl
  cache := rfl
  todo := rfl
  context := rfl
  spawnGens := rfl
  launched := rfl
  bouncing := rfl

/-- Killing changes nothing but processes. -/
theorem killed_eq (bad : Option String) (names : List String) (S : Supervisor) :
    ∃ f, killed (killAll bad names S) = { S with service := f } ∧
      ∀ n, ∃ ch, (S.service n).Swept ch ∧ f n = { S.service n with child := ch } := by
  induction names generalizing S with
  | nil => exact ⟨S.service, rfl, fun n => ⟨_, .refl _, rfl⟩⟩
  | cons m rest ih =>
      rw [killAll]
      rcases Service.sweep_cases (if bad = some m then some .sweep else none) (S.service m) with
        hw | ⟨-, hw⟩
      · rw [hw]
        obtain ⟨f, hf, hswept⟩ := ih { S with service := Function.update S.service m _ }
        refine ⟨f, hf, fun n => ?_⟩
        obtain ⟨ch, hch, hn⟩ := hswept n
        by_cases hnm : n = m
        · subst hnm
          simp only [Function.update_self] at hch hn
          exact ⟨ch, .inr (.inl (hch.of_sweepKill)), hn⟩
        · simp only [Function.update_of_ne hnm] at hch hn
          exact ⟨ch, hch, hn⟩
      · rw [hw]
        refine ⟨_, rfl, fun n => ?_⟩
        by_cases hnm : n = m
        · subst hnm
          exact ⟨_, Service.swept_sweepRaised _, by rw [Function.update_self]⟩
        · exact ⟨_, .refl _, by rw [Function.update_of_ne hnm]⟩

/-- `kill_all` does nothing but kill. -/
theorem quiet_killed (bad : Option String) (names : List String) (S : Supervisor) :
    Quiet S (killed (killAll bad names S)) := by
  obtain ⟨f, hf, hswept⟩ := killed_eq bad names S
  rw [hf]
  exact { Quiet.refl S with service := hswept }

private theorem quiet_onSignal (bad : Option String) (S : Supervisor) :
    Quiet S (S.onSignal c bad) := by
  unfold onSignal
  split
  · exact { Quiet.refl S with }
  · exact { quiet_killed bad c.services S with }

/-- The next wave of the shutdown begins without a step of any service. -/
theorem quiet_stopLoop (stopped : List String) (S : Supervisor) :
    Quiet S (S.stopLoop c stopped) := by
  unfold stopLoop
  split
  · exact { Quiet.refl S with }
  · exact { Quiet.refl S with }

/-- `run` concludes with a record and a result. -/
theorem conclude_eq (φ : Option Fault) (S : Supervisor) :
    ∃ record main, S.conclude φ = { S with record := record, main := main } := by
  unfold conclude
  split
  all_goals
    split
    · exact ⟨_, _, rfl⟩
    · exact ⟨_, _, rfl⟩

/-- The end of `run` does nothing to the services but kill. -/
theorem quiet_finish (bad : Option String) (φ : Option Fault) (S : Supervisor) :
    Quiet S (S.finish c bad φ) := by
  have hkilled := quiet_killed bad c.services S
  unfold finish
  split
  · rename_i T hT
    rw [hT] at hkilled
    obtain ⟨record, main, heq⟩ := conclude_eq φ T
    rw [heq]
    exact { hkilled with }
  · rename_i T hT
    rw [hT] at hkilled
    exact { hkilled with }

/-- A step of a service is a step of its own and what the supervisor hears of it. -/
theorem serviceStep_eq_some {n : String} {e : Event} :
    serviceStep c n e S = some T ↔
      ∃ t, Service.step (c.service n) (S.service n) e = some t ∧ S.setService c n e t = T := by
  simp only [serviceStep, Option.map_eq_some_iff]

private theorem renderStep_effect (h : S.renderStep c e = some T) : Effect c S e T := by
  cases e with
  | consult n now l =>
      simp only [renderStep] at h
      split at h
      · rename_i r rest hrun htodo
        rw [Option.ite_none_right_eq_some] at h
        obtain ⟨-, h⟩ := h
        split at h
        · rename_i entry hentry
          split at h
          · exact .hit hrun htodo hentry h
          · obtain rfl := Option.some.inj h
            exact .quiet { Quiet.refl S with } (.inl ⟨n, now, l, _, rfl, rfl⟩)
        · obtain rfl := Option.some.inj h
          exact .quiet { Quiet.refl S with } (.inl ⟨n, now, l, _, rfl, rfl⟩)
      · cases h
  | resolved n res now l =>
      simp only [renderStep] at h
      split at h
      · rename_i r rest hrun htodo
        rw [Option.ite_none_right_eq_some] at h
        obtain ⟨-, h⟩ := h
        cases res with
        | ok release => exact .ran hrun htodo h
        | failed => exact .renderFailed hrun (.inl ⟨rfl, rfl⟩) h
        | raised => exact .renderFailed hrun (.inr ⟨rfl, rfl⟩) h
      · cases h
  | _ => simp only [renderStep, reduceCtorEq] at h

private theorem mainStep_effect (hmain : S.mainStep c e = some T) : Effect c S e T := by
  have h := hmain
  cases e with
  | wake =>
      simp only [mainStep, Option.ite_none_right_eq_some, Option.some.injEq] at h
      obtain ⟨-, rfl⟩ := h
      exact .quiet { quiet_stopLoop [] { S with failing := S.failure.isSome } with }
        (.inr (.inr hmain))
  | stop n φ =>
      simp only [mainStep] at h
      split at h
      · rw [Option.ite_none_right_eq_some] at h
        exact .stops h.2
      · cases h
  | waveDone =>
      simp only [mainStep] at h
      split at h
      · simp only [Option.ite_none_right_eq_some, Option.some.injEq] at h
        obtain ⟨-, rfl⟩ := h
        exact .quiet (quiet_stopLoop _ S) (.inr (.inr hmain))
      · cases h
  | waveRaised bad =>
      simp only [mainStep] at h
      split at h
      · simp only [Option.ite_none_right_eq_some, Option.some.injEq] at h
        obtain ⟨-, rfl⟩ := h
        exact .quiet { quiet_killed bad c.services S with } (.inr (.inr hmain))
      · cases h
  | tasksDone timeout bad φ =>
      simp only [mainStep, Option.ite_none_right_eq_some] at h
      obtain ⟨-, h⟩ := h
      split at h
      · obtain rfl := Option.some.inj h
        exact .quiet { Quiet.refl S with } (.inr (.inr hmain))
      · simp only [Option.ite_none_right_eq_some, Option.some.injEq] at h
        obtain ⟨-, rfl⟩ := h
        exact .quiet (quiet_finish bad φ S) (.inr (.inr hmain))
  | cancel n =>
      simp only [mainStep, Option.ite_none_right_eq_some] at h
      exact .cancels h.2
  | pendingDone bad φ =>
      simp only [mainStep, Option.ite_none_right_eq_some, Option.some.injEq] at h
      obtain ⟨-, rfl⟩ := h
      exact .quiet (quiet_finish bad φ S) (.inr (.inr hmain))
  | _ => simp only [mainStep, reduceCtorEq] at h

/-- Every step of the supervisor has one of the listed effects. -/
theorem step_effect (h : S.step c e = some T) : Effect c S e T := by
  unfold step at h
  split at h
  · cases h
  · cases e with
    | service n e =>
        simp only [Option.ite_none_right_eq_some] at h
        exact .own h.1.1 h.1.2 h.2
    | consult | resolved => exact renderStep_effect h
    | bounce n φ =>
        simp only [bounceStep, Option.ite_none_right_eq_some] at h
        exact .bounced h.1 h.2
    | signal bad =>
        obtain rfl := Option.some.inj h
        exact .quiet (quiet_onSignal bad S) (.inr (.inl ⟨bad, rfl, rfl⟩))
    | wake | stop | waveDone | waveRaised | tasksDone | cancel | pendingDone =>
        exact mainStep_effect h

/-! ### The services of a supervisor -/

/-- Each service stays where it is or takes a step of its own. -/
def Projects (c : SupervisorSetup) (S T : Supervisor) : Prop :=
  ∀ n, T.service n = S.service n ∨
    ∃ e, Service.Steps (c.service n) (S.service n) e (T.service n)

private theorem projects_serviceStep {n : String} {e : Event} {U : Supervisor}
    (h : serviceStep c n e U = some T) (hservice : U.service = S.service) : Projects c S T := by
  obtain ⟨t, ht, rfl⟩ := serviceStep_eq_some.mp h
  intro m
  by_cases hm : m = n
  · subst hm
    refine .inr ⟨e, ?_⟩
    show Service.step _ _ _ = some _
    simpa only [setService, Function.update_self, hservice] using ht
  · left
    simp only [setService, Function.update_of_ne hm, hservice]

private theorem projects_consulted {n r : String} {g : ℕ} {rest : List String} {l : Launch}
    {U : Supervisor} (h : consulted c n r g rest l U = some T)
    (hservice : U.service = S.service) : Projects c S T := by
  simp only [consulted] at h
  split at h
  · exact projects_serviceStep h hservice
  · obtain rfl := Option.some.inj h
    exact fun m => .inl (congrFun hservice m)

/-- Every effect leaves each service where it is or is a step of it. -/
theorem Effect.projects (h : Effect c S e T) : Projects c S T := by
  cases h with
  | own _ _ h => exact projects_serviceStep h rfl
  | bounced _ h => exact projects_serviceStep h rfl
  | stops h => exact projects_serviceStep h rfl
  | cancels h => exact projects_serviceStep h rfl
  | hit _ _ _ h => exact projects_consulted h rfl
  | ran _ _ h => exact projects_consulted h rfl
  | renderFailed _ _ h => exact projects_serviceStep h rfl
  | quiet h _ =>
      intro n
      obtain ⟨ch, hch, hs⟩ := h.service n
      rw [hs]
      rcases Service.killAll_of_swept hch with heq | ⟨φ, hφ⟩
      · exact .inl heq
      · exact .inr ⟨.killAll φ, hφ⟩

/-- The services of a running supervisor run by their own steps. -/
theorem service_run {es : List SupervisorEvent} (h : Run (Steps c) init es S) (n : String) :
    ∃ es', Run (Service.Steps (c.service n)) Service.init es' (S.service n) := by
  refine h.simulate (fun S => S.service n) fun S e T hst => ?_
  rcases (step_effect hst).projects n with heq | ⟨e', he'⟩
  · exact .inl heq.symm
  · exact .inr ⟨e', he'⟩

/-- Every service of a running supervisor has its processes tracked. -/
theorem tracked_service {es : List SupervisorEvent} (h : Run (Steps c) init es S) (n : String) :
    (S.service n).Tracked := by
  obtain ⟨es', hrun⟩ := service_run h n
  exact Service.tracked_run hrun

end Supervisor

end Jetty.Orchestrator
