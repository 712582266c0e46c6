import Jetty.Orchestrator.Service.State
import Jetty.Core.Transition

/-!
# The steps of one supervised service

One step is the code one task runs between two `await`s. What the environment decides
(the outcome of the awaited operation, the clock, an exception of a fallible operation)
is in the step's label. An `await` that need not suspend, such as a gate check answered
from the cache, is the case in which no other label comes in between.
-/

namespace Jetty.Orchestrator

/-- The outcome of `self._gates.satisfied(...)`. -/
inductive GateResult
  | ok
  | failing (names : List String)
  | raised
deriving DecidableEq, Repr

/-- The outcome of `self._render()` and, where it returns, of forking the child: the pid,
or `none` when `create_subprocess_exec` raised before there was a process. -/
inductive RenderResult
  | ok (r : RenderedService) (forked : Option ℕ)
  /-- `ResolveError` or `RenderError`. -/
  | prepFailed
  | raised

inductive DrainResult
  | ok
  | timeout
  | raised
deriving DecidableEq, Repr

/-- The resumption of the run loop after an `await`. -/
inductive RunEvent
  | begin
  /-- The race for a dependency's event is over. -/
  | depFired
  | gates (r : GateResult) (now : ℚ)
  /-- The race with a sleep is over; `late`: the readiness deadline has passed. -/
  | slept (late : Bool)
  | rendered (r : RenderResult) (now : ℚ)
  /-- `create_subprocess_exec` returned (`ok`) or raised after the fork. -/
  | connected (ok late : Bool) (now : ℚ)
  | probed (ok : Bool)
  /-- `_wait_exit` saw the return code. -/
  | exited
  /-- A cancelled watcher has ended. -/
  | joined (now : ℚ)
  | drained (r : DrainResult) (now : ℚ)

/-- Everything that can happen to a service. A `φ` names the fallible operation of the
step that raises, if any. -/
inductive Event
  | run (e : RunEvent) (φ : Option Fault)
  | gateStarted
  | gateWoke
  /-- `poll` returned each gate's verdict and run stamp, or raised. -/
  | gatePolled (r : Option (List (String × Bool × ℚ))) (φ : Option Fault)
  /-- `_terminate_group` is over: the process exited, or the grace period did. -/
  | gateTerminated (timeout : Bool) (φ : Option Fault)
  | pathStarted (scan : List (Option Signature)) (wide : Bool) (φ : Option Fault)
  | pathWoke (current : List (Option Signature)) (φ : Option Fault)
  | pathTerminated (timeout : Bool) (φ : Option Fault)
  /-- A `restart` call up to its first suspension. -/
  | restart (φ : Option Fault)
  | restarted (i : ℕ) (timeout : Bool) (φ : Option Fault)
  /-- The `stop` call up to its first suspension. -/
  | stop (φ : Option Fault)
  | stopped (timeout : Bool) (φ : Option Fault)
  /-- The leader of the `i`-th session dies, perhaps leaving members behind. -/
  | die (i : ℕ) (code : ℤ) (stragglers : Bool)
  | stragglersDie (i : ℕ)
  /-- `asyncio` records the exit status of the `i`-th process. -/
  | reap (i : ℕ)
  /-- The sweep of the service in `Containment.kill_all`. -/
  | killAll (φ : Option Fault)
  /-- The supervisor cancels the run loop's task. -/
  | cancel

/-- Straight-line code: it runs through or raises, in either case in some state. -/
abbrev Code := Except (Fault × Service) Service

namespace Service

variable (c : ServiceSetup) (φ : Option Fault)

/-! ### Shared pieces -/

def notify (s : Service) : Code :=
  if φ = some .notify then .error (.notify, s) else .ok { s with notified := s.notified + 1 }

/-- `_set_state`. -/
def setState (st : ServiceState) (s : Service) : Code :=
  if s.state = st then .ok s else notify φ { s with state := st }

/-- `_append_output`, and `_log_note`, which swallows the `OSError` of the file it opens
itself when no log is open. Both are given a text that is encoded first. -/
def logNote (s : Service) : Code :=
  if φ = some .encode then .error (.encode, s)
  else if s.logOpen = true ∧ φ = some .writeLog then .error (.writeLog, s)
  else if φ = some .echo then .error (.echo, s) else .ok s

/-- `self._logf.close()` and `self._logf = None`. -/
def closeLog (s : Service) : Code :=
  if s.logOpen = true ∧ φ = some .closeLog then .error (.closeLog, s)
  else .ok { s with logOpen := false }

/-- `self._containment.sweep(self.name, signal.SIGKILL)`. -/
def sweep (s : Service) : Code :=
  if s.registered ≠ none ∧ φ = some .sweep then .error (.sweep, s.sweepRaised)
  else .ok s.sweepKill

/-- The sweep with the graceful signal at the head of `_terminate_group`. The signal has no
effect of its own: whether and when a process dies of it is up to the process. -/
def sweepGraceful (s : Service) : Code :=
  if s.registered ≠ none ∧ φ = some .sweep then .error (.sweep, s) else .ok s

/-- `_fail`. -/
def fail (r : FailReason) (s : Service) : Code := do
  let s ← setState φ .failed s
  return { s with failed := some r, run := .returned }

/-- `_spawn` up to `await self._render()`. -/
def beginSpawn (s : Service) : Code := do
  let s ← setState φ .starting s
  if φ = some .openLog then throw (.openLog, s)
  return { s with logOpen := true, run := .rendering }

/-- `while not self.stopping:` with the code up to the next `await`. -/
def loopTop (s : Service) : Code :=
  if s.stopEvent = true then do
    let s ← setState φ .stopped s
    return { s with run := .returned }
  else if c.requires ≠ [] then return { s with run := .gateCheck }
  else beginSpawn φ s

/-- `for ev in self._dep_events:` from the `i`-th event on. -/
def depLoop (i : ℕ) (s : Service) : Code :=
  if i < c.deps then return { s with run := .depWait i } else loopTop c φ s

/-- `_block`'s `while not self.stopping:`. -/
def blockLoop (s : Service) : Code :=
  if s.stopEvent = true then loopTop c φ s else return { s with run := .blockSleep }

/-- `_block` up to its first `await`. -/
def block (failing : List String) (s : Service) : Code := do
  let s ← setState φ .blocked { s with blockedOn := failing, failTimes := [] }
  let s ← notify φ s
  blockLoop c φ s

/-! ### Exit classification -/

/-- What the run loop makes of an exit before it asks the gates. -/
inductive Verdict
  | stopping
  | gateStopped
  | bounced
  | noRestart
  | askGates
  | charge
deriving DecidableEq, Repr

def classify (s : Service) (code : ℤ) : Verdict :=
  if s.stopEvent then .stopping
  else if s.gateStop then .gateStopped
  else if s.bounceRequested then .bounced
  else if code ∈ c.restart.noRestartExit then .noRestart
  else if c.requires ≠ [] then .askGates
  else .charge

/-- `self._fail_times` once an exit at `now` is charged. -/
def charged (now : ℚ) (s : Service) : List ℚ :=
  s.failTimes.filter (fun t => ((now - t : ℚ) : Duration) < c.restart.windowSeconds) ++ [now]

/-- The restart budget does not cover a further exit at `now`. -/
def exhausted (now : ℚ) (s : Service) : Prop :=
  c.restart.maxRestarts < (s.charged c now).length

instance (now : ℚ) (s : Service) : Decidable (s.exhausted c now) :=
  inferInstanceAs (Decidable (_ < _))

/-- `2 ** (n - 1)` does not convert to a float: it is `2 ** 1024` or more. -/
def backoffOverflows (n : ℕ) : Prop := 1024 ≤ n - 1

instance (n : ℕ) : Decidable (backoffOverflows n) := inferInstanceAs (Decidable (_ ≤ _))

/-- The backoff delay after the `n`-th charged exit in the window. -/
def backoffDelay (n : ℕ) : Duration :=
  min (c.restart.backoffInitialSeconds.map (· * 2 ^ (n - 1))) c.restart.backoffMaxSeconds

/-- Charge an exit to the restart budget: fail the instance or back off. -/
def charge (now : ℚ) (code : ℤ) (s : Service) : Code :=
  let times := s.charged c now
  let s := { s with failTimes := times, restarts := s.restarts + 1 }
  if c.restart.maxRestarts < times.length then
    fail φ (.budget times.length (now - times.headD now) c.restart.maxRestarts
      c.restart.windowSeconds code) s
  else if backoffOverflows times.length then throw (.overflow, s)
  else do
    let s ← logNote φ s
    let s ← setState φ .backoff s
    return { s with run := .backoff (backoffDelay c times.length) }

/-- The run loop from the return of `_run_once` on. -/
def afterExit (now : ℚ) (code : ℤ) (s : Service) : Code :=
  match s.classify c code with
  | .stopping => do
    let s ← setState φ .stopped s
    return { s with run := .returned }
  | .gateStopped => loopTop c φ { s with gateStop := false }
  | .bounced => loopTop c φ { s with bounceRequested := false }
  | .noRestart => fail φ (.noRestartExit code) { s with lastExit := some code }
  | .askGates => return { s with lastExit := some code, run := .exitGate code }
  | .charge => charge c φ now code { s with lastExit := some code }

/-! ### One incarnation -/

/-- `except` clauses of `_spawn`: note the failure, close the log, count as exit 127. -/
def spawnFailed (now : ℚ) (s : Service) : Code := do
  let s ← logNote φ s
  let s ← closeLog φ s
  afterExit c φ now 127 s

/-- Popen has succeeded: there is a new process, the leader of a new session. -/
def fork (pid : ℕ) (s : Service) : Service :=
  { s with
    spawned := s.spawned + 1
    child := Function.update s.child s.spawned { pid := pid }
    run := .creating s.spawned }

/-- `watcher.cancel()`: a watcher that is there and has not raised ends at its `await`. -/
def cancelled (w : WatchPc) : WatchPc :=
  if w = .absent ∨ w = .died then w else .finished

/-- Leave the `try` body of `_run_once`: the gate watcher is cancelled first. -/
def leaveTry (r : Ending) (s : Service) : Service :=
  { s with gateWatch := cancelled s.gateWatch, run := .joinGate r }

/-- Code inside the `try` body: an exception runs the `finally` clause first. -/
def inTry : Code → Service
  | .ok s => s
  | .error (f, s) => s.leaveTry (.raised f)

/-- The service passed its readiness probe. -/
def becomeReady (s : Service) : Code := do
  let s ← setState φ .running s
  return { s with readyEvent := true, run := .waitExit }

/-- `_wait_ready`'s loop head; `late`: the deadline has passed. -/
def readyLoop (late : Bool) (s : Service) : Code :=
  if s.stopEvent = true then return { s with run := .waitExit }
  else if late = true then do
    let s ← logNote φ s
    let s ← sweep φ s
    return { s with run := .waitExit }
  else if s.attached = true then return { s with run := .probing }
  else return { s with run := .waitExit }

/-- `_spawn` after `create_subprocess_exec` returned. -/
def register (i : ℕ) (s : Service) : Code :=
  notify φ { s with
    proc := some i, pid := some (s.child i).pid, registered := some i, readerTask := true }

/-- `_run_once` between the spawn and the first `await` of `_wait_ready`. -/
def enterTry (late : Bool) (r : RenderedService) (s : Service) : Service :=
  let s := { s with
    gateWatch := if c.continuousRequires = [] then .absent else .created
    pathWatch := if r.watch = [] then .absent else .created }
  inTry (if r.probed then readyLoop φ late s else becomeReady φ s)

/-- The end of `_run_once`, after the drain. -/
def finishOnce (now : ℚ) (code : ℤ) (s : Service) : Code := do
  let s ← closeLog φ { s with readerTask := false }
  afterExit c φ now code { s with readyEvent := false, pid := none }

/-- An exception out of `run`. -/
def settle : Code → Service
  | .ok s => s
  | .error (f, s) => { s with run := .raised f }

/-- `finally` after the gate watcher has ended: cancel the path watcher, or pass the gate
watcher's own exception on. -/
def joinPath (r : Ending) (s : Service) : Service :=
  if s.gateWatch = .died then { s with run := .raised .watcher }
  else { s with pathWatch := cancelled s.pathWatch, run := .joinPath r }

/-- `_run_once` after both watchers have ended, up to its next `await`. -/
def leaveFinally (now : ℚ) (r : Ending) (s : Service) : Code :=
  if s.pathWatch = .died then throw (.watcher, s)
  else match r with
  | .raised f => throw (f, s)
  | .exited code => do
    let s ← sweep φ s
    if s.readerTask = true then return { s with run := .drain code }
    else finishOnce c φ now code s

/-! ### The run loop -/

/-- The run loop resumes at an `await`; `none` where it is not waiting for such an outcome. -/
def resume (s : Service) : RunPc → RunEvent → Option Service
  | .created, .begin => some (settle (depLoop c φ 0 s))
  | .depWait i, .depFired =>
    some (settle (if s.stopEvent then (do
      let s ← setState φ .stopped s
      return { s with run := .returned })
    else depLoop c φ (i + 1) s))
  | .gateCheck, .gates r _ => some (settle (match r with
    | .ok => beginSpawn φ s
    | .failing names => block c φ names s
    | .raised => .error (.gate, s)))
  | .blockSleep, .slept _ =>
    some (if s.stopEvent then settle (loopTop c φ s) else { s with run := .blockCheck })
  | .blockCheck, .gates r _ => some (settle (match r with
    | .ok => do
      let s ← logNote φ { s with blockedOn := [] }
      loopTop c φ s
    | .failing names => do
      let s ← if names = s.blockedOn then .ok s else notify φ { s with blockedOn := names }
      blockLoop c φ s
    | .raised => .error (.gate, s)))
  | .rendering, .rendered r now => some (settle (match r with
    | .ok r forked => do
      let s ← logNote φ { s with rendered := some r }
      match forked with
      | some pid => return s.fork pid
      | none => spawnFailed c φ now s
    | .prepFailed => spawnFailed c φ now s
    | .raised => .error (.render, s)))
  | .creating i, .connected ok late now =>
    if ok then
      s.rendered.map fun r =>
        match register φ i s with
        | .ok s => s.enterTry c φ late r
        | .error (f, s) => { s with run := .raised f }
    -- `asyncio` kills the child and waits for it before it raises.
    else some (settle (spawnFailed c φ now (s.setChild i (s.child i).kill.reap)))
  | .probing, .probed ok =>
    some (if φ = some .probe then s.leaveTry (.raised .probe)
      else if ok then inTry (becomeReady φ s)
      else { s with run := .probeSleep })
  | .probeSleep, .slept late => some (inTry (readyLoop φ late s))
  | .waitExit, .exited =>
    match s.proc with
    | none => none
    | some i => (s.child i).returncode.map fun code => s.leaveTry (.exited code)
  | .joinGate r, .joined _ => some (s.joinPath r)
  | .joinPath r, .joined now => some (settle (leaveFinally c φ now r s))
  | .drain code, .drained r now => some (settle (match r with
    | .ok => finishOnce c φ now code s
    | .timeout => do
      let s ← logNote φ s
      finishOnce c φ now code s
    | .raised => .error (.reader, s)))
  | .exitGate code, .gates r now => some (settle (match r with
    | .ok => charge c φ now code s
    | .failing _ => do
      let s ← logNote φ s
      loopTop c φ s
    | .raised => .error (.gate, s)))
  | .backoff _, .slept _ => some (settle (loopTop c φ s))
  | _, _ => none

def runStep (s : Service) (e : RunEvent) : Option Service := resume c φ s s.run e

/-- A run loop that has ended does not resume. -/
theorem runStep_over {s : Service} (h : s.run.over = true) (e : RunEvent) :
    runStep c φ s e = none := by
  rw [runStep]
  cases hrun : s.run with
  | returned | raised f | cancelled => simp only [resume]
  | _ => simp only [hrun, RunPc.over, Bool.false_eq_true] at h

/-! ### Watchers, `restart` and `stop` -/

/-- The code of another task: an exception ends that task only. -/
def orElse (onError : Service → Service) : Code → Service
  | .ok s => s
  | .error (_, s) => onError s

/-- `_wait_exit(proc)` under `wait_for`: the process has exited, or the grace period is
over and says so in the log. -/
def graceOver (timeout : Bool) (i : ℕ) (s : Service) : Option Code :=
  if timeout = true then some (logNote φ s)
  else if (s.child i).returncode.isSome then some (.ok s) else none

/-- The streaks and counted runs after one more `poll`. -/
def countPoll (s : Service) (r : List (String × Bool × ℚ)) : Service :=
  r.foldl (fun s (name, ok, stamp) =>
    if s.counted name = some stamp then s
    else { s with
      counted := Function.update s.counted name (some stamp)
      streaks := Function.update s.streaks name (if ok then 0 else s.streaks name + 1) }) s

/-- The gates of a poll that count as closed. -/
def closedGates (s : Service) (r : List (String × Bool × ℚ)) : List String :=
  (r.filter fun (name, ok, _) => !ok && decide (c.closeAfter name ≤ s.streaks name)).map (·.1)

/-- The continuous-gate watcher. -/
def gateStep (s : Service) : Event → Option Service
  | .gateStarted =>
    if s.gateWatch = .created then
      some { s with gateWatch := .sleeping, streaks := fun _ => 0, counted := fun _ => none }
    else none
  | .gateWoke =>
    if s.gateWatch = .sleeping then
      some { s with gateWatch := if s.stopEvent || !s.attached then .finished else .polling }
    else none
  | .gatePolled r φ =>
    if s.gateWatch = .polling then
      match r with
      | none => some { s with gateWatch := .died }
      | some r =>
        let s := s.countPoll r
        if s.closedGates c r = [] then some { s with gateWatch := .sleeping }
        else if s.stopEvent || !s.attached then some { s with gateWatch := .finished }
        else some (orElse ({ · with gateWatch := .died })
          (do let s ← logNote φ { s with gateStop := true }
              let s ← sweepGraceful φ s
              return { s with gateWatch := .terminating }))
    else none
  | .gateTerminated timeout φ =>
    if s.gateWatch = .terminating then
      match s.proc with
      | none => none
      | some i => (graceOver φ timeout i s).map fun r =>
          orElse ({ · with gateWatch := .died })
            (do let s ← r
                let s ← sweep φ s
                return { s with gateWatch := .finished })
    else none
  | _ => none

/-- The path watcher. -/
def pathStep (s : Service) : Event → Option Service
  | .pathStarted scan wide φ =>
    if s.pathWatch = .created then
      if φ = some .scan then some { s with pathWatch := .died }
      else some (orElse ({ · with pathWatch := .died })
        (do let s ← if wide then logNote φ { s with baseline := scan } else .ok { s with
              baseline := scan }
            return { s with previous := scan, pathWatch := .sleeping }))
    else none
  | .pathWoke current φ =>
    if s.pathWatch = .sleeping then
      if s.stopEvent || !s.attached then some { s with pathWatch := .finished }
      else if φ = some .scan then some { s with pathWatch := .died }
      else
        let settled := current.all (·.isSome) && decide (current = s.previous)
        let s := { s with previous := current }
        if current = s.baseline ∨ settled = false then some s
        else some (orElse ({ · with pathWatch := .died })
          (do let s ← logNote φ { s with bounceRequested := true }
              let s ← sweepGraceful φ s
              return { s with pathWatch := .terminating }))
    else none
  | .pathTerminated timeout φ =>
    if s.pathWatch = .terminating then
      match s.proc with
      | none => none
      | some i => (graceOver φ timeout i s).map fun r =>
          orElse ({ · with pathWatch := .died })
            (do let s ← r
                let s ← sweep φ s
                return { s with pathWatch := .finished })
    else none
  | _ => none

/-- `restart` returns without asking for anything. -/
def restartIgnored (s : Service) : Bool := s.stopEvent || s.bounceRequested || !s.attached

/-- `restart`. -/
def restartStep (s : Service) : Event → Option Service
  | .restart φ =>
    if s.restartIgnored = true then some s
    else some (orElse id
      (do let s ← logNote φ { s with bounceRequested := true }
          let s ← sweepGraceful φ s
          return { s with bounces := s.proc.toList ++ s.bounces }))
  | .restarted i timeout φ =>
    if i ∈ s.bounces then
      (graceOver φ timeout i s).map fun r =>
        let done (s : Service) : Service := { s with bounces := s.bounces.erase i }
        orElse done (do
          let s ← r
          -- Escalate only while the captured process is still alive.
          let s ← if (s.child i).returncode = none then sweep φ s else .ok s
          return done s)
    else none
  | _ => none

/-- `stop`. -/
def stopStep (s : Service) : Event → Option Service
  | .stop φ =>
    if s.stop = .idle then
      let s := { s with stopEvent := true }
      match s.proc, s.attached with
      | some i, true =>
        some (orElse ({ · with stop := .died })
          (do let s ← setState φ .stopping s
              let s ← sweepGraceful φ s
              return { s with stop := .terminating i }))
      | _, _ =>
        some (orElse ({ · with stop := .died })
          (do let s ← sweep φ s
              return { s with stop := .finished }))
    else none
  | .stopped timeout φ =>
    match s.stop with
    | .terminating i => (graceOver φ timeout i s).map fun r =>
        orElse ({ · with stop := .died })
          (do let s ← r
              let s ← sweep φ s
              return { s with stop := .finished })
    | _ => none
  | _ => none

/-! ### Processes -/

/-- What the kernel, `asyncio`'s child watcher and the supervisor do to a service. -/
def processStep (s : Service) : Event → Option Service
  | .die i code stragglers =>
    if i < s.spawned ∧ (s.child i).exited = none then
      some (s.setChild i { s.child i with exited := some code, stragglers := stragglers })
    else none
  | .stragglersDie i =>
    if i < s.spawned ∧ (s.child i).stragglers = true then
      some (s.setChild i { s.child i with stragglers := false })
    else none
  | .reap i =>
    if i < s.spawned ∧ (s.child i).exited.isSome ∧ (s.child i).returncode = none then
      some (s.setChild i { s.child i with returncode := (s.child i).exited })
    else none
  | .killAll φ => some (orElse id (sweep φ s))
  | .cancel =>
    match s.run with
    | .returned | .raised _ | .cancelled => none
    -- The `except CancelledError` around `await watcher` swallows the cancellation.
    | .joinGate _ | .joinPath _ => some s
    -- `asyncio` kills a child whose transport is not connected yet, and waits for it.
    | .creating i => some { s.setChild i (s.child i).kill.reap with run := .cancelled }
    | .probing | .probeSleep | .waitExit =>
      some { s with
        gateWatch := cancelled s.gateWatch
        pathWatch := cancelled s.pathWatch
        run := .cancelled }
    | _ => some { s with run := .cancelled }
  | _ => none

/-- One step of a service. -/
def step (s : Service) (e : Event) : Option Service :=
  match e with
  | .run e φ => runStep c φ s e
  | .gateStarted | .gateWoke | .gatePolled .. | .gateTerminated .. => gateStep c s e
  | .pathStarted .. | .pathWoke .. | .pathTerminated .. => pathStep s e
  | .restart _ | .restarted .. => restartStep s e
  | .stop _ | .stopped .. => stopStep s e
  | .die .. | .stragglersDie _ | .reap _ | .killAll _ | .cancel => processStep s e

/-- A service as its constructor leaves it. -/
def init : Service := {}

/-- The runs of a service: every interleaving of its tasks, its processes and the
environment. -/
abbrev Steps : Transition.Rel Service Event := Transition.ofPartial (step c)

end Service

end Jetty.Orchestrator
