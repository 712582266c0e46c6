import Jetty.Orchestrator.Service.Tasks

/-!
# The state of a supervisor

The services of an instance with their run loops, the resolvers they share, the renders in
progress, the bounce tasks and the main task. Ports, gates and the console are left out:
what they do to a service is in the labels of the service's own steps.
-/

namespace Jetty.Orchestrator

/-- What one run of a resolver returned. -/
structure Release where
  binaries : List (String × String)
  fingerprints : List (String × String)
deriving DecidableEq, Repr

/-- Equality of the two dicts, whatever the order of their entries. -/
def Release.same (a b : Release) : Bool :=
  a.binaries.isPerm b.binaries && a.fingerprints.isPerm b.fingerprints

/-- An entry of `Resolvers._cache`. -/
structure CacheEntry where
  resolvedAt : ℚ
  release : Release
  /-- The resolver's generation once this release was resolved. The source keeps no such
  tag; it is here to say which generation a spawn's binaries are of. -/
  generation : ℕ

/-- `state` in the registry record. -/
inductive InstanceState
  | running
  | failing
  | failed (service : String) (reason : FailReason)
deriving DecidableEq

/-- Where `Supervisor.run` is suspended. -/
inductive MainPc
  /-- `await shutdown.wait()`. -/
  | waiting
  /-- `_stop_all`: the `gather` over a wave, after the services in `stopped`. -/
  | stopping (wave stopped : List String)
  /-- `asyncio.wait(tasks, timeout=10)`. -/
  | waitTasks
  /-- `asyncio.wait(pending, timeout=5)` after the cancellation. -/
  | waitPending
  | returned (code : ℤ)
  | raised
deriving DecidableEq

/-- `run` has ended. -/
def MainPc.over : MainPc → Bool
  | .returned _ | .raised => true
  | _ => false

/-- What the supervisor is configured with. -/
structure SupervisorSetup where
  services : List String
  service : String → ServiceSetup
  after : String → List String := fun _ => []
  /-- `sorted(self.resolver_names(service_bin_refs(svc)))`. -/
  uses : String → List String := fun _ => []
  resolver : String → ResolverConfig := fun _ => { cmd := [] }

namespace SupervisorSetup

/-- The resolver pins the binaries it provides together. -/
def pins (c : SupervisorSetup) (r : String) : Bool :=
  (c.resolver r).refresh = .spawn && 2 ≤ (c.resolver r).provides.length

/-- The services declared `after` a service. -/
def dependents (c : SupervisorSetup) (n : String) : List String :=
  c.services.filter fun m => n ∈ c.after m

/-- `_stop_all`'s next wave. -/
def wave (c : SupervisorSetup) (stopped : List String) : List String :=
  c.services.filter fun n => n ∉ stopped ∧ ∀ m ∈ c.dependents n, m ∈ stopped

end SupervisorSetup

/-- A `Supervisor` object with its services, its resolvers and its main task. -/
structure Supervisor where
  service : String → Service := fun _ => Service.init
  /-- `Resolvers.generation`. -/
  generation : String → ℕ := fun _ => 0
  /-- `Resolvers._cache`. -/
  cache : String → Option CacheEntry := fun _ => none
  /-- `Resolvers._locks`: the service that runs the resolver. -/
  lock : String → Option String := fun _ => none
  /-- A render in progress: the resolvers `context_for` still has to consult. -/
  todo : String → List String := fun _ => []
  /-- A render in progress: the resolvers consulted, each with the generation of the
  binaries it contributed to the context. -/
  context : String → List (String × ℕ) := fun _ => []
  /-- `self._spawn_gens`. -/
  spawnGens : String → Option (List (String × ℕ)) := fun _ => none
  /-- The context of the last spawn that got as far as `_enforce_pinning`. -/
  launched : String → List (String × ℕ) := fun _ => []
  /-- The bounce tasks that have not taken their first step, by their service. -/
  bouncing : List String := []
  shutdown : Bool := false
  signalsSeen : ℕ := 0
  /-- `self._failure`: the service that failed and why. -/
  failure : Option (String × FailReason) := none
  /-- `self._state = "failing"`. -/
  failing : Bool := false
  main : MainPc := .waiting
  /-- The registry record. -/
  record : Option InstanceState := some .running

end Jetty.Orchestrator
