import Jetty.Orchestrator.Config.Types
import Mathlib.Logic.Function.Basic

/-!
# The state of one supervised service

`asyncio` is cooperative: a task runs undisturbed from one `await` to the next. The
state therefore records, for each task of a service, the `await` it is suspended in,
beside the attributes of the `Service` object and the kernel's view of the processes
it started. The tasks are the run loop (`run`), the continuous-gate watcher, the path
watcher, any number of `restart` calls and the `stop` call.

The output tail, the log file's contents and the texts of log notes are left out:
no decision of the service reads them.
-/

namespace Jetty.Orchestrator

inductive ServiceState
  | pending
  | starting
  | running
  | backoff
  | blocked
  | stopping
  | stopped
  | failed
deriving DecidableEq, Repr

/-- The fallible operations whose exceptions no `except` clause on the way catches. -/
inductive Fault
  /-- The `notify` callback (it writes the registry record). -/
  | notify
  /-- `open(self.log_path, "ab")` in `_spawn`. -/
  | openLog
  /-- `self._logf.write`, which is guarded against `ValueError` only. -/
  | writeLog
  /-- `self._logf.close()`. -/
  | closeLog
  /-- `.encode()` of a note or of the header of an incarnation: a text with a lone surrogate, as an
  environment variable that is not UTF-8 gives one. -/
  | encode
  /-- The console echo. -/
  | echo
  /-- `self._render()` raising anything but `ResolveError` and `RenderError`. -/
  | render
  /-- A gate check raising (it catches `OSError` around the spawn of the check only). -/
  | gate
  /-- A readiness probe raising anything but `OSError` and `ValueError`, as `connect` does
  for a port out of range. -/
  | probe
  /-- The scan of a watched path raising anything but `OSError`, as `os.stat` does for a
  path with a null character. -/
  | scan
  /-- The log pump died, and the drain re-raises its exception. -/
  | reader
  /-- A watcher task died, and awaiting it after `cancel` re-raises its exception. -/
  | watcher
  /-- A sweep: it reads the `stat` file of every process of the host, and the text of one
  that is not UTF-8 raises. -/
  | sweep
  /-- `2 ** (len(self._fail_times) - 1)` does not convert to a float. -/
  | overflow
deriving DecidableEq, Repr

/-- Why the fail callback was invoked: the data of the headline. -/
inductive FailReason
  /-- `exited with code {code}, which restart.no_restart_exit marks as not worth retrying` -/
  | noRestartExit (code : ℤ)
  /-- `exited {times} times in {span}s (limit: {limit} restarts per {window}s); last exit
  code {code}` -/
  | budget (times : ℕ) (span : ℚ) (limit : ℕ) (window : Duration) (code : ℤ)
deriving DecidableEq

/-- How the body of `_run_once`'s `try` ended: with an exit code or an exception. -/
inductive Ending
  | exited (code : ℤ)
  | raised (f : Fault)
deriving DecidableEq, Repr

/-- Where the run loop is suspended. -/
inductive RunPc
  /-- The task has not taken its first step. -/
  | created
  /-- `await self._race(ev.wait())` for the `i`-th dependency. -/
  | depWait (i : ℕ)
  /-- The gate check at the top of the loop. -/
  | gateCheck
  /-- `_block`: the sleep between two checks. -/
  | blockSleep
  /-- `_block`: a check. -/
  | blockCheck
  /-- `await self._render()`. -/
  | rendering
  /-- `await asyncio.create_subprocess_exec(...)`: the child `i` is forked, its transport
  is not connected yet. -/
  | creating (i : ℕ)
  /-- `await self._probe_once()`. -/
  | probing
  /-- The race of the stop event with the sleep between two probes. -/
  | probeSleep
  /-- `await _wait_exit(self.proc)`. -/
  | waitExit
  /-- `finally`: the gate watcher is cancelled and awaited. -/
  | joinGate (r : Ending)
  /-- `finally`: the path watcher is cancelled and awaited. -/
  | joinPath (r : Ending)
  /-- The log pipe drains. -/
  | drain (code : ℤ)
  /-- The gate check that classifies an exit. -/
  | exitGate (code : ℤ)
  /-- The race of the stop event with the backoff delay. -/
  | backoff (delay : Duration)
  | returned
  | raised (f : Fault)
  /-- The supervisor cancelled the task. -/
  | cancelled
deriving DecidableEq

/-- The task has ended. -/
def RunPc.over : RunPc → Bool
  | .returned | .raised _ | .cancelled => true
  | _ => false

/-- Where a watcher is suspended. -/
inductive WatchPc
  /-- This incarnation has no such watcher. -/
  | absent
  /-- The task has not taken its first step. -/
  | created
  | sleeping
  /-- The gate watcher awaits `self._gates.poll(names)`. -/
  | polling
  /-- The watcher asked for a stop and awaits `_terminate_group`. -/
  | terminating
  | finished
  /-- An exception ended the task; whoever awaits it gets the exception. -/
  | died
deriving DecidableEq, Repr

/-- Where the `stop` call is suspended. -/
inductive StopPc
  | idle
  /-- `await self._terminate_group()` on the process `i`. -/
  | terminating (i : ℕ)
  | finished
  | died
deriving DecidableEq, Repr

/-- A watched path's change signature. -/
inductive Signature
  | file (ino size : ℕ) (mtimeNs : ℤ)
  | tree (digest : String)
deriving DecidableEq, Repr

/-- One process the service started, the leader of its own session. -/
structure Child where
  pid : ℕ
  /-- The leader's exit status once it is dead. -/
  exited : Option ℤ := none
  /-- Members of the session other than the leader are alive. -/
  stragglers : Bool := false
  /-- `proc.returncode`: what `asyncio` has recorded. -/
  returncode : Option ℤ := none
deriving DecidableEq, Repr

/-- Some process of the child's session is alive. -/
def Child.live (c : Child) : Bool := c.exited.isNone || c.stragglers

/-- `SIGKILL` to every member of the session. -/
def Child.kill (c : Child) : Child :=
  { c with exited := some (c.exited.getD (-9)), stragglers := false }

/-- `SIGKILL` to the leader's process group alone, which the stragglers may have left. -/
def Child.killpg (c : Child) : Child := { c with exited := some (c.exited.getD (-9)) }

/-- `asyncio` records the exit status, once. -/
def Child.reap (c : Child) : Child := { c with returncode := c.returncode.or c.exited }

/-- What the constructor of `Service` is given. -/
structure ServiceSetup where
  /-- The number of events in `dep_events`. -/
  deps : ℕ := 0
  /-- The service's gates and those of the resolvers it uses. -/
  requires : List String := []
  /-- The continuous ones among them. -/
  continuousRequires : List String := []
  /-- `close_after` of each gate. -/
  closeAfter : String → ℕ := fun _ => 3
  restart : RestartConfig := {}

/-- A `Service` object with its tasks and its processes. -/
structure Service where
  state : ServiceState := .pending
  pid : Option ℕ := none
  lastExit : Option ℤ := none
  restarts : ℕ := 0
  blockedOn : List String := []
  readyEvent : Bool := false
  rendered : Option RenderedService := none
  stopEvent : Bool := false
  bounceRequested : Bool := false
  gateStop : Bool := false
  failTimes : List ℚ := []
  /-- `self._logf is not None`. -/
  logOpen : Bool := false
  /-- `self._reader_task is not None`. -/
  readerTask : Bool := false
  /-- The process `self.proc` refers to, by its number. -/
  proc : Option ℕ := none
  /-- The fail callback's argument, once it was invoked. -/
  failed : Option FailReason := none
  /-- How often the notify callback was invoked. -/
  notified : ℕ := 0
  run : RunPc := .created
  gateWatch : WatchPc := .absent
  /-- The gate watcher's `streaks`; an absent key counts as 0. -/
  streaks : String → ℕ := fun _ => 0
  /-- The gate watcher's `counted`: the stamp of the last run counted. -/
  counted : String → Option ℚ := fun _ => none
  pathWatch : WatchPc := .absent
  baseline : List (Option Signature) := []
  previous : List (Option Signature) := []
  /-- The `restart` calls in `_terminate_group`, by the process each one captured. -/
  bounces : List ℕ := []
  stop : StopPc := .idle
  /-- The number of processes created so far. -/
  spawned : ℕ := 0
  child : ℕ → Child := fun _ => ⟨0, none, false, none⟩
  /-- The process whose session the containment remembers for this service. -/
  registered : Option ℕ := none

namespace Service

/-- `self.proc is not None and self.proc.returncode is None`. -/
def attached (s : Service) : Bool :=
  match s.proc with
  | none => false
  | some i => (s.child i).returncode.isNone

/-- The session of some process of the service has a live member. -/
def anyLive (s : Service) : Prop := ∃ i < s.spawned, (s.child i).live = true

def setChild (s : Service) (i : ℕ) (c : Child) : Service :=
  { s with child := Function.update s.child i c }

/-- `self._containment.sweep(self.name, signal.SIGKILL)` where it runs through, assuming that
`SIGKILL` to the session the containment remembers kills every member of it. -/
def sweepKill (s : Service) : Service :=
  match s.registered with
  | none => s
  | some i => s.setChild i (s.child i).kill

/-- The same sweep where it raises: `killpg` comes before the members are listed. -/
def sweepRaised (s : Service) : Service :=
  match s.registered with
  | none => s
  | some i => s.setChild i (s.child i).killpg

end Service

end Jetty.Orchestrator
