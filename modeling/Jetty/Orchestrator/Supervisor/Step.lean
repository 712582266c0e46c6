import Jetty.Orchestrator.Supervisor.State

/-!
# The steps of a supervisor

A step is one step of a service, one stage of a render (`context_for` consults the resolvers
one after the other), the start of a bounce task, a signal, or a step of the main task. A
service's render, `restart`, `stop` and cancellation are steps of the supervisor; all other
steps of a service are its own.
-/

namespace Jetty.Orchestrator

/-- What follows the last consultation without another `await`: the outcome of rendering
the templates and of creating the process. -/
structure Launch where
  result : RenderResult
  now : ℚ := 0
  fault : Option Fault := none

/-- The outcome of running a resolver. -/
inductive Resolution
  | ok (release : Release)
  /-- `ResolveError`. -/
  | failed
  | raised

inductive SupervisorEvent
  /-- A step of a service's own. -/
  | service (n : String) (e : Event)
  /-- `_resolve` takes the lock of the next resolver: a cache hit or the start of a run. -/
  | consult (n : String) (now : ℚ) (l : Launch)
  /-- The resolver has run. -/
  | resolved (n : String) (r : Resolution) (now : ℚ) (l : Launch)
  /-- A bounce task takes its first step. -/
  | bounce (n : String) (φ : Option Fault)
  /-- `on_signal`; `bad`, here and below: the service whose sweep raises in `kill_all`. -/
  | signal (bad : Option String)
  /-- The main task resumes after `shutdown.wait()`. -/
  | wake
  /-- A `stop` call of the current wave starts. -/
  | stop (n : String) (φ : Option Fault)
  /-- Every `stop` call of the wave has returned. -/
  | waveDone
  /-- A `stop` call of the wave raised. -/
  | waveRaised (bad : Option String)
  /-- The wait for the services' tasks is over. -/
  | tasksDone (timeout : Bool) (bad : Option String) (φ : Option Fault)
  /-- A pending task is cancelled. -/
  | cancel (n : String)
  /-- The wait for the cancelled tasks is over. -/
  | pendingDone (bad : Option String) (φ : Option Fault)

/-- The steps of a service that the supervisor takes for it. -/
def SupervisorSetup.manages (c : SupervisorSetup) (n : String) : Event → Bool
  | .run (.rendered ..) _ => c.uses n ≠ []
  | .restart _ | .stop _ | .killAll _ | .cancel => true
  | _ => false

namespace Supervisor

variable (c : SupervisorSetup)

/-! ### Services -/

/-- What `_write_record` writes as the instance's state. -/
def instanceState (S : Supervisor) : InstanceState := if S.failing then .failing else .running

/-- The resolvers a service still has to consult, or has consulted, once it is at `pc`: a step
of the run loop that gets to a render starts a new one with `start`. -/
def renderAt {α : Type} (e : Event) (pc : RunPc) (start now : List α) : List α :=
  if pc = .rendering then
    match e with
    | .run .. => start
    | _ => now
  else []

/-- A service has taken the step `e` to `t`: a new render may start, the fail callback keeps
the first failure, and the notify callback writes the record. -/
def setService (n : String) (e : Event) (t : Service) (S : Supervisor) : Supervisor :=
  let s := S.service n
  { S with
    service := Function.update S.service n t
    todo := Function.update S.todo n (renderAt e t.run (c.uses n) (S.todo n))
    context := Function.update S.context n (renderAt e t.run [] (S.context n))
    failure := if s.failed = none then S.failure.or (t.failed.map (n, ·)) else S.failure
    shutdown := S.shutdown || (s.failed = none && t.failed.isSome)
    record := if t.notified = s.notified then S.record else some S.instanceState }

/-- The service `n` takes the step `e`. -/
def serviceStep (n : String) (e : Event) (S : Supervisor) : Option Supervisor :=
  (Service.step (c.service n) (S.service n) e).map fun t => S.setService c n e t

/-- `Containment.kill_all` over the services left: a sweep that raises leaves the loop. -/
def killAll (bad : Option String) : List String → Supervisor → Except Supervisor Supervisor
  | [], S => .ok S
  | n :: rest, S =>
    match Service.sweep (if bad = some n then some .sweep else none) (S.service n) with
    | .ok t => killAll bad rest { S with service := Function.update S.service n t }
    | .error (_, t) => .error { S with service := Function.update S.service n t }

/-- The state after `kill_all`, whether it raised or not. -/
def killed : Except Supervisor Supervisor → Supervisor
  | .ok S | .error S => S

/-! ### Renders and bounces -/

/-- The generation recorded for a service differs from `g`; a resolver it did not record
counts as unchanged. -/
def outdated (S : Supervisor) (n r : String) (g : ℕ) : Bool :=
  match S.spawnGens n with
  | none => false
  | some gens => (gens.lookup r).getD g ≠ g

/-- `Resolvers.generations_for`. -/
def generationsFor (S : Supervisor) (n : String) : List (String × ℕ) :=
  (c.uses n).map fun r => (r, S.generation r)

/-- `_enforce_pinning`. -/
def enforcePinning (n : String) (S : Supervisor) : Supervisor :=
  { S with
    spawnGens := Function.update S.spawnGens n (some (S.generationsFor c n))
    launched := Function.update S.launched n (S.context n)
    bouncing := S.bouncing ++ (S.generationsFor c n).flatMap fun (r, g) =>
      if c.pins r then c.services.filter fun m => m ≠ n ∧ S.outdated m r g = true else [] }

/-- `context_for` has consulted the resolver `r`: the next one is due, or the render goes on
to the creation of the process. -/
def consulted (n r : String) (g : ℕ) (rest : List String) (l : Launch) (S : Supervisor) :
    Option Supervisor :=
  let S := { S with
    todo := Function.update S.todo n rest
    context := Function.update S.context n (S.context n ++ [(r, g)]) }
  if rest = [] then
    serviceStep c n (.run (.rendered l.result l.now) l.fault) (S.enforcePinning c n)
  else some S

/-- The entry is good for another spawn. -/
def valid (r : String) (now : ℚ) (e : CacheEntry) : Bool :=
  (c.resolver r).refresh = .perInstance ||
    decide (((now - e.resolvedAt : ℚ) : Duration) < (c.resolver r).cacheSeconds)

/-- The generation of a resolver after one more successful run. -/
def nextGeneration (S : Supervisor) (r : String) (release : Release) : ℕ :=
  if (S.cache r).any (·.release.same release) then S.generation r else S.generation r + 1

/-- A stage of a render. -/
def renderStep (S : Supervisor) : SupervisorEvent → Option Supervisor
  | .consult n now l =>
    match (S.service n).run, S.todo n with
    | .rendering, r :: rest =>
      if S.lock r = none then
        match S.cache r with
        | some e =>
          if valid c r now e then S.consulted c n r e.generation rest l
          else some { S with lock := Function.update S.lock r (some n) }
        | none => some { S with lock := Function.update S.lock r (some n) }
      else none
    | _, _ => none
  | .resolved n res now l =>
    match (S.service n).run, S.todo n with
    | .rendering, r :: rest =>
      if S.lock r = some n then
        let S := { S with lock := Function.update S.lock r none }
        match res with
        | .failed => serviceStep c n (.run (.rendered .prepFailed l.now) l.fault) S
        | .raised => serviceStep c n (.run (.rendered .raised l.now) l.fault) S
        | .ok release =>
          let g := S.nextGeneration r release
          consulted c n r g rest l { S with
            generation := Function.update S.generation r g
            cache := Function.update S.cache r (some ⟨now, release, g⟩) }
      else none
    | _, _ => none
  | _ => none

/-- The start of a bounce task. -/
def bounceStep (S : Supervisor) (n : String) (φ : Option Fault) : Option Supervisor :=
  if n ∈ S.bouncing then
    serviceStep c n (.restart φ) { S with bouncing := S.bouncing.erase n }
  else none

/-! ### The main task -/

/-- `on_signal`: the first signal asks for the shutdown, every further one kills. The event
loop logs what a signal handler raises and goes on. -/
def onSignal (bad : Option String) (S : Supervisor) : Supervisor :=
  if S.signalsSeen = 0 then { S with signalsSeen := 1, shutdown := true }
  else { killed (killAll bad c.services S) with signalsSeen := S.signalsSeen + 1 }

/-- `_stop_all`'s `while remaining:`. -/
def stopLoop (stopped : List String) (S : Supervisor) : Supervisor :=
  if ∀ n ∈ c.services, n ∈ stopped then { S with main := .waitTasks }
  else { S with main := .stopping (c.wave stopped) stopped }

/-- `run` after its `finally` clause; `φ`: the registry's file operation raises. -/
def conclude (φ : Option Fault) (S : Supervisor) : Supervisor :=
  match S.failure with
  | some (n, reason) =>
    if φ = some .notify then { S with main := .raised }
    else { S with record := some (.failed n reason), main := .returned 1 }
  | none =>
    if φ = some .notify then { S with main := .raised }
    else { S with record := none, main := .returned 0 }

/-- From the `finally` clause of `run` to its return. -/
def finish (bad : Option String) (φ : Option Fault) (S : Supervisor) : Supervisor :=
  match killAll bad c.services S with
  | .ok S => S.conclude φ
  | .error S => { S with main := .raised }

/-- A step of the main task. -/
def mainStep (S : Supervisor) : SupervisorEvent → Option Supervisor
  | .wake =>
    if S.main = .waiting ∧ S.shutdown = true then
      some ({ S with failing := S.failure.isSome } |>.stopLoop c [])
    else none
  | .stop n φ =>
    match S.main with
    | .stopping wave _ => if n ∈ wave then serviceStep c n (.stop φ) S else none
    | _ => none
  | .waveDone =>
    match S.main with
    | .stopping wave stopped =>
      if ∀ n ∈ wave, (S.service n).stop = .finished then
        some (S.stopLoop c (stopped ++ wave))
      else none
    | _ => none
  | .waveRaised bad =>
    match S.main with
    | .stopping wave _ =>
      if ∃ n ∈ wave, (S.service n).stop = .died then
        some { killed (killAll bad c.services S) with main := .raised }
      else none
    | _ => none
  | .tasksDone timeout bad φ =>
    if S.main = .waitTasks then
      if timeout then some { S with main := .waitPending }
      else if ∀ n ∈ c.services, (S.service n).run.over = true then some (S.finish c bad φ)
      else none
    else none
  | .cancel n =>
    if S.main = .waitPending ∧ n ∈ c.services then
      serviceStep c n .cancel { S with
        lock := fun r => if S.lock r = some n then none else S.lock r }
    else none
  | .pendingDone bad φ => if S.main = .waitPending then some (S.finish c bad φ) else none
  | _ => none

/-- One step of a supervisor. -/
def step (S : Supervisor) (e : SupervisorEvent) : Option Supervisor :=
  if S.main.over then none
  else match e with
  | .service n e =>
    if n ∈ c.services ∧ c.manages n e = false then S.serviceStep c n e else none
  | .consult .. | .resolved .. => S.renderStep c e
  | .bounce n φ => S.bounceStep c n φ
  | .signal bad => some (S.onSignal c bad)
  | .wake | .stop .. | .waveDone | .waveRaised _ | .tasksDone .. | .cancel _
  | .pendingDone .. => S.mainStep c e

/-- A supervisor whose services' tasks have just been created. -/
def init : Supervisor := {}

/-- The runs of a supervisor: every interleaving of its tasks and the environment. -/
abbrev Steps : Transition.Rel Supervisor SupervisorEvent := Transition.ofPartial (step c)

end Supervisor

end Jetty.Orchestrator
