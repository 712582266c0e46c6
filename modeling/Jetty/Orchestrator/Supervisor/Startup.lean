import Jetty.Orchestrator.Supervisor.Effects
import Jetty.Orchestrator.Service.Dependencies
import Mathlib.Logic.Relation

/-!
# Services start behind their dependencies

The supervisor hands every service the ready events of the services it is declared `after`.
Here the waits for these events are no longer left to the environment: a wait is over once the
event was set at some moment of it, or the service was told to stop. In any interleaving a
service's first process is then created behind the readiness of all services it depends on,
directly or not.
-/

namespace Jetty.Orchestrator

open Transition

/-- A supervisor with the waits for the ready events. -/
structure Startup where
  supervisor : Supervisor := Supervisor.init
  /-- The event that the service's run loop awaits was set at some moment of the wait. -/
  woken : String → Bool := fun _ => false

namespace Startup

variable (c : SupervisorSetup)

/-- The service whose ready event the run loop of `n` awaits. -/
def awaited (S : Supervisor) (n : String) : Option String :=
  match (S.service n).run with
  | .depWait i => (c.after n)[i]?
  | _ => none

/-- The race of a dependency's event with the stop event is over only for one of the two. -/
def Released (S : Startup) : SupervisorEvent → Prop
  | .service n (.run .depFired _) =>
    S.woken n = true ∨ (S.supervisor.service n).stopEvent = true
  | _ => True

instance (S : Startup) (e : SupervisorEvent) : Decidable (S.Released e) := by
  unfold Released
  rcases e with ⟨n, e⟩ | _
  · rcases e with ⟨e, φ⟩ | _
    · rcases e <;> infer_instance
    all_goals infer_instance
  all_goals infer_instance

/-- Which waits are woken behind a step from `S` to `T`: those that were and go on, and those
whose event is set. A wait that starts anew while the event is set counts as woken at once. -/
def wake (S : Startup) (T : Supervisor) (n : String) : Bool :=
  match awaited c T n with
  | none => false
  | some d =>
    (S.woken n && decide ((S.supervisor.service n).run = (T.service n).run)) ||
      (T.service d).readyEvent

/-- One step of the supervisor, under the condition on the waits. -/
def step (S : Startup) (e : SupervisorEvent) : Option Startup :=
  if S.Released e then
    (S.supervisor.step c e).map fun T => { supervisor := T, woken := S.wake c T }
  else none

abbrev Steps : Transition.Rel Startup SupervisorEvent := ofPartial (step c)

/-- A supervisor whose services' tasks have just been created. -/
def init : Startup := {}

/-- A service's ready event was set at some moment of the run. -/
def WasReady (es : List SupervisorEvent) (S : Startup) (d : String) : Prop :=
  Once (Steps c) init es S fun U => (U.supervisor.service d).readyEvent = true

variable {c} {S T : Startup} {e : SupervisorEvent} {es : List SupervisorEvent} {n d : String}

private theorem step_eq_some (h : Steps c S e T) : S.Released e ∧
    Supervisor.Steps c S.supervisor e T.supervisor ∧ T.woken = S.wake c T.supervisor := by
  obtain ⟨hreleased, h⟩ := Option.ite_none_right_eq_some.mp h
  obtain ⟨U, hU, rfl⟩ := Option.map_eq_some_iff.mp h
  exact ⟨hreleased, hU, rfl⟩

private theorem supervisor_run (h : Run (Steps c) init es S) :
    Run (Supervisor.Steps c) Supervisor.init es S.supervisor := by
  induction h with
  | nil => exact .nil
  | snoc _ hlast ih => exact ih.snoc (step_eq_some hlast).2.1

end Startup

namespace Supervisor

variable {c : SupervisorSetup} {S T U : Supervisor} {e : SupervisorEvent}

/-- A service gets behind a dependency only by the end of its wait. -/
def Advances (c : SupervisorSetup) (S : Supervisor) (e : SupervisorEvent) (T : Supervisor) :
    Prop :=
  ∀ n, (T.service n).run.passed (c.service n).deps ≤ (S.service n).run.passed (c.service n).deps ∨
    ∃ i φ, e = .service n (.run .depFired φ) ∧ (S.service n).run = .depWait i ∧
      (S.service n).stopEvent = false ∧
      (T.service n).run.passed (c.service n).deps ≤ i + 1

private theorem advances_of_service (h : T.service = S.service) : Advances c S e T :=
  fun n => .inl (by rw [h])

private theorem advances_serviceStep {n : String} {e' : Event} (h : serviceStep c n e' U = some T)
    (hservice : U.service = S.service)
    (he : ∀ φ, e' = .run .depFired φ → e = .service n e') : Advances c S e T := by
  obtain ⟨t, ht, rfl⟩ := serviceStep_eq_some.mp h
  rw [hservice] at ht
  intro m
  by_cases hm : m = n
  · subst hm
    simp only [setService, Function.update_self]
    rcases Service.passed_step ht with hle | ⟨i, φ, rfl, hrun, hstop, hle⟩
    · exact .inl hle
    · exact .inr ⟨i, φ, he φ rfl, hrun, hstop, hle⟩
  · simp only [setService, Function.update_of_ne hm, hservice]
    exact .inl le_rfl

private theorem advances_consulted {n r : String} {g : ℕ} {rest : List String} {l : Launch}
    (h : consulted c n r g rest l U = some T) (hservice : U.service = S.service) :
    Advances c S e T := by
  simp only [consulted] at h
  split at h
  · exact advances_serviceStep h hservice fun φ h => by cases h
  · obtain rfl := Option.some.inj h
    exact advances_of_service hservice

private theorem Effect.advances (h : Effect c S e T) : Advances c S e T := by
  cases h with
  | own _ _ h => exact advances_serviceStep h rfl fun _ _ => rfl
  | bounced _ h => exact advances_serviceStep h rfl fun φ h => by cases h
  | stops h => exact advances_serviceStep h rfl fun φ h => by cases h
  | cancels h => exact advances_serviceStep h rfl fun φ h => by cases h
  | hit _ _ _ h => exact advances_consulted h rfl
  | ran _ _ h => exact advances_consulted h rfl
  | renderFailed _ _ h => exact advances_serviceStep h rfl fun φ h => by cases h
  | quiet h _ =>
      intro n
      left
      obtain ⟨ch, -, hs⟩ := h.service n
      rw [hs]

/-- A service that creates a process is behind all of its dependencies. -/
theorem passed_of_spawned (h : Steps c S e T) {n : String}
    (hspawned : (T.service n).spawned ≠ (S.service n).spawned) :
    (S.service n).run.passed (c.service n).deps = (c.service n).deps := by
  rcases (step_effect h).projects n with heq | ⟨e', he'⟩
  · exact absurd (congrArg Service.spawned heq) hspawned
  · exact Service.passed_of_spawned he' hspawned

private theorem founded_service {es : List SupervisorEvent} (h : Run (Steps c) init es S)
    (n : String) : (S.service n).Founded := by
  obtain ⟨es', hrun⟩ := service_run h n
  exact Service.founded_run hrun

end Supervisor

namespace Startup

variable {c : SupervisorSetup} {S T : Startup} {e : SupervisorEvent} {es : List SupervisorEvent}

/-- Everything a service is behind of was ready before. -/
structure Ordered (c : SupervisorSetup) (es : List SupervisorEvent) (S : Startup) : Prop where
  passed : ∀ n i d, (c.after n)[i]? = some d →
    i < (S.supervisor.service n).run.passed (c.service n).deps → WasReady c es S d
  spawned : ∀ n, 0 < (S.supervisor.service n).spawned → ∀ d ∈ c.after n, WasReady c es S d
  woken : ∀ n, S.woken n = true → ∀ d, awaited c S.supervisor n = some d → WasReady c es S d

private theorem ordered_init : Ordered c [] init where
  passed n i d _ hi := absurd hi (Nat.not_lt_zero i)
  spawned n h := absurd h (Nat.not_lt_zero 0)
  woken n h := by cases h

private theorem Ordered.wasReady_of_passed (h : Ordered c es S) {n : String}
    (hdeps : (c.service n).deps = (c.after n).length)
    (hpassed : (S.supervisor.service n).run.passed (c.service n).deps = (c.service n).deps) :
    ∀ d ∈ c.after n, WasReady c es S d := by
  intro d hd
  obtain ⟨i, hi, hget⟩ := List.mem_iff_getElem.mp hd
  refine h.passed n i d (by rw [List.getElem?_eq_getElem hi, hget]) ?_
  rw [hpassed, hdeps]
  exact hi

private theorem Ordered.step (h : Ordered c es S)
    (hdeps : ∀ n, (c.service n).deps = (c.after n).length)
    (hrun : Run (Steps c) init es S) (hst : Steps c S e T) : Ordered c (es ++ [e]) T := by
  obtain ⟨hreleased, hsup, hwoken⟩ := step_eq_some hst
  have hlater : ∀ d, WasReady c es S d → WasReady c (es ++ [e]) T d := fun d hd => hd.snoc hst
  constructor
  · intro n i d hget hi
    rcases (Supervisor.step_effect hsup).advances n with hle | ⟨j, φ, rfl, hpc, hstop, hle⟩
    · exact hlater d (h.passed n i d hget (hi.trans_le hle))
    · rcases Nat.lt_or_ge i j with hij | hij
      · refine hlater d (h.passed n i d hget ?_)
        rw [hpc]
        exact hij
      · -- the wait that has just ended was for this very event
        obtain rfl : i = j := Nat.le_antisymm (Nat.lt_succ_iff.mp (hi.trans_le hle)) hij
        have hawake : S.woken n = true := by
          rcases hreleased with hawake | hstopped
          · exact hawake
          · rw [hstop] at hstopped
            cases hstopped
        refine hlater d (h.woken n hawake d ?_)
        simp only [awaited, hpc, hget]
  · intro n hpos d hd
    by_cases hsame : (T.supervisor.service n).spawned = (S.supervisor.service n).spawned
    · exact hlater d (h.spawned n (hsame ▸ hpos) d hd)
    · exact hlater d
        (h.wasReady_of_passed (hdeps n) (Supervisor.passed_of_spawned hsup hsame) d hd)
  · intro n hawake d hd
    rw [hwoken] at hawake
    simp only [wake, hd, Bool.or_eq_true, Bool.and_eq_true, decide_eq_true_eq] at hawake
    rcases hawake with ⟨hbefore, hpc⟩ | hready
    · refine hlater d (h.woken n hbefore d ?_)
      simp only [awaited] at hd ⊢
      rw [hpc]
      exact hd
    · exact .now (hrun.snoc hst) hready

private theorem ordered_run (hdeps : ∀ n, (c.service n).deps = (c.after n).length)
    (h : Run (Steps c) init es S) : Ordered c es S := by
  induction h with
  | nil => exact ordered_init
  | snoc hrun hlast ih => exact ih.step hdeps hrun hlast

/-- A service that was ready had created a process, behind all its dependencies. -/
theorem WasReady.after {n d : String} (hdeps : ∀ n, (c.service n).deps = (c.after n).length)
    (h : WasReady c es S n) (hd : d ∈ c.after n) : WasReady c es S d :=
  h.bind fun _ _ hU hready => (ordered_run hdeps hU).spawned n
    ((Supervisor.founded_service (supervisor_run hU) n).ready hready) d hd

/-- Whatever the tasks of the services, the resolvers, bounces, signals and the teardown do in
between, a service creates a process only when every service it depends on, directly or not,
has passed its readiness probe at some earlier moment of the run. -/
theorem starts_in_order (hdeps : ∀ n, (c.service n).deps = (c.after n).length)
    (h : Run (Steps c) init es S) (hst : Steps c S e T) {n d : String}
    (hspawned : (T.supervisor.service n).spawned ≠ (S.supervisor.service n).spawned)
    (hd : Relation.TransGen (fun d n => d ∈ c.after n) d n) : WasReady c es S d := by
  have hdirect := (ordered_run hdeps h).wasReady_of_passed (hdeps n)
    (Supervisor.passed_of_spawned (step_eq_some hst).2.1 hspawned)
  induction hd using Relation.TransGen.head_induction_on with
  | single hd => exact hdirect _ hd
  | head hd _ ih => exact ih.after hdeps hd

/-- A web server behind a cache behind a database. -/
def tierSetup : SupervisorSetup where
  services := ["db", "cache", "web"]
  service := fun n => { deps := if n = "db" then 0 else 1 }
  after := fun n => if n = "db" then [] else if n = "cache" then ["db"] else ["cache"]

/-- The web server and the cache begin to wait before there is a database. -/
def tiersUp : List SupervisorEvent :=
  [.service "web" (.run .begin none), .service "cache" (.run .begin none),
    .service "db" (.run .begin none),
    .service "db" (.run (.rendered (.ok { cmd := ["db"] } (some 10)) 0) none),
    .service "db" (.run (.connected true false 0) none),
    .service "cache" (.run .depFired none),
    .service "cache" (.run (.rendered (.ok { cmd := ["cache"] } (some 11)) 1) none),
    .service "cache" (.run (.connected true false 1) none),
    .service "web" (.run .depFired none)]

/-- The first process of the web server. -/
def webForked : SupervisorEvent :=
  .service "web" (.run (.rendered (.ok { cmd := ["web"] } (some 12)) 2) none)

/-- The database was ready before the web server behind the cache may be forked. -/
theorem starts_in_order_tiers : ∃ S, Run (Steps tierSetup) init tiersUp S ∧
    WasReady tierSetup tiersUp S "db" := by
  obtain ⟨S, hrun, hS⟩ := exists_run_of_exec (step tierSetup) init tiersUp
    (fun S => (step tierSetup S webForked).any fun T =>
      decide ((T.supervisor.service "web").spawned ≠ (S.supervisor.service "web").spawned))
    (by decide +kernel)
  obtain ⟨T, hst, hT⟩ := (Option.any_eq_true _ _).mp hS
  have hdeps : ∀ n, (tierSetup.service n).deps = (tierSetup.after n).length := by
    intro n
    simp only [tierSetup]
    split
    · rfl
    · split
      · rfl
      · rfl
  exact ⟨S, hrun, starts_in_order hdeps hrun hst (of_decide_eq_true hT)
    (.head (by decide : "db" ∈ tierSetup.after "cache")
      (.single (by decide : "cache" ∈ tierSetup.after "web")))⟩

end Startup

namespace Supervisor

variable {c : SupervisorSetup} {S T : Supervisor} {e : SupervisorEvent}
  {es : List SupervisorEvent}

/-- A database that crashes once and is about to be created again. -/
def crashed : List SupervisorEvent :=
  [.service "db" (.run .begin none),
    .service "db" (.run (.rendered (.ok { cmd := ["db"] } (some 10)) 0) none),
    .service "db" (.run (.connected true false 0) none), .service "db" (.die 0 1 true),
    .service "db" (.reap 0), .service "db" (.run .exited none),
    .service "db" (.run (.joined 5) none), .service "db" (.run (.joined 5) none),
    .service "db" (.run (.drained .ok 5) none), .service "db" (.run (.slept false) none)]

def respawned : SupervisorEvent :=
  .service "db" (.run (.rendered (.ok { cmd := ["db"] } (some 11)) 6) none)

end Supervisor

end Jetty.Orchestrator
