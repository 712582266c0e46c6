import Jetty.Core.Transition
import Jetty.Core.Processes
import Jetty.Orchestrator.Config.Types
import Mathlib.Logic.Function.Basic

/-!
# Process-group containment

`PgroupBackend` between the services of one supervisor and the process table, together with
`kill --force` from outside. The origin of a process is the service it was spawned for. The
table holds all other processes too, among them the supervisor's own entry, whatever else the
supervisor starts, and strangers.

Sweeps are synchronous calls in the supervisor's only thread, but every system call they make
is a step of its own, between which the other processes go on. A call that signals names the
processes that the kernel spares, because the caller may not signal them; where it spares all,
the call raises `PermissionError`, which is passed over like `ProcessLookupError`. A `stat` file
whose `comm` is not UTF-8 makes `session_members` raise what nobody catches.
-/

namespace Jetty.Orchestrator

open Transition Processes

inductive Signal
  | KILL
  | stop (s : StopSignal)
deriving DecidableEq, Repr

/-- The signal ends the process at once, whatever the process makes of it. What a process does
about the others is left to the process. -/
def Signal.ends {τ : Type*} : Signal → Proc τ → Bool
  | .KILL, _ => true
  | .stop .TERM, p => !p.ignoresTerm
  | .stop .INT, _ => false
  | .stop .HUP, _ => false

/-- A call of `sweep`. -/
structure SweepCall where
  service : String
  signal : Signal
deriving DecidableEq, Repr

/-- Where the first of the calls is. -/
inductive SweepPc
  /-- About to look up the session id and to call `killpg`. -/
  | start
  /-- About to list `/proc`. -/
  | list (sid : ℕ)
  /-- About to read the session of the pids in `todo`; `found`: those of the session. -/
  | stat (sid : ℕ) (todo found : List ℕ)
  /-- About to signal the pids in `found`. -/
  | kill (found : List ℕ)
deriving DecidableEq, Repr

/-- The pids that the sweep has found in the session and has not signalled yet. -/
def SweepPc.found : SweepPc → List ℕ
  | .start | .list _ => []
  | .stat _ _ found | .kill found => found

/-- A signal that `sweep` has delivered. -/
structure Delivery where
  call : SweepCall
  pid : ℕ
  origin : Option String
deriving DecidableEq, Repr

/-- Where `_cmd_kill` with `--force` is. -/
inductive ForcePc
  | idle
  /-- The record is loaded; about to check whether the supervisor is alive. -/
  | loaded (servicePids : List ℕ)
  /-- `external_kill`: about to list `/proc`. -/
  | list (sids : List ℕ)
  /-- `external_kill`: about to read the session of the pids in `todo`. -/
  | stat (sids todo found : List ℕ)
  /-- `external_kill`: about to signal the pids in `found`. -/
  | kill (sids found : List ℕ)
  /-- `external_kill`: about to signal the groups in `todo`. -/
  | groups (sids todo : List ℕ)
  /-- About to send `SIGKILL` to the supervisor. -/
  | supervisor (sids : List ℕ)
  | poll
  /-- The command has reported that the instance is stopped. -/
  | stopped
  /-- The command has ended otherwise. -/
  | over
deriving DecidableEq, Repr

/-- The process table, the supervisor of one instance and the command. -/
structure World where
  table : Table (Option String)
  /-- `_services` of the backend: the services of the configuration. -/
  services : List String
  /-- The supervisor is alive. -/
  alive : Bool := true
  /-- `_sids` of the backend. -/
  sids : String → Option ℕ := fun _ => none
  /-- The child that `create_subprocess_exec` has forked but not returned yet. -/
  creating : String → Option ℕ := fun _ => none
  /-- `Service.pid`. -/
  pid : String → Option ℕ := fun _ => none
  /-- The sweeps that the supervisor's running callback has still to make. -/
  calls : List SweepCall := []
  pc : SweepPc := .start
  log : List Delivery := []
  /-- The pids of the services in the registry record. -/
  record : Option (List ℕ) := none
  command : ForcePc := .idle

inductive WorldEvent
  /-- A process of the table acts. -/
  | process (e : Processes.Event)
  /-- `create_subprocess_exec` forks a child. -/
  | spawn (service : String) (pid : ℕ)
  /-- `create_subprocess_exec` raises. -/
  | abandon (service : String)
  /-- `create_subprocess_exec` returns. -/
  | register (service : String)
  /-- `_run_once` ends: the child was seen to exit. -/
  | clear (service : String)
  /-- `_write_record`. -/
  | write
  /-- `Registry.remove`. -/
  | remove
  | sweep (service : String) (signal : Signal)
  | killAll
  /-- The next system call of the current sweep. -/
  | advance (spared : List ℕ := [])
  /-- The current sweep raises in `session_members`. -/
  | sweepRaises
  /-- The supervisor ends. -/
  | supervisorEnds
  /-- `_cmd_kill` loads the record. -/
  | force
  /-- The next step of the command. -/
  | command (spared : List ℕ := [])
  /-- `external_kill` raises in `session_members`. -/
  | commandRaises
  /-- The command may not signal the supervisor. -/
  | supervisorSpared
  /-- `external_kill` signals one of the groups. -/
  | killGroup (sid : ℕ) (spared : List ℕ := [])
  /-- The deadline of the poll passes. -/
  | deadline
deriving DecidableEq, Repr

namespace World

variable {W : World}

/-- The supervisor's thread is free to run another callback. -/
def free (W : World) : Bool := W.alive && W.calls.isEmpty

/-- `procfs.session_id`. -/
def sessionId (W : World) (pid : ℕ) : Option ℕ :=
  (W.table.procs.find? fun p => p.pid == pid).map Proc.sid

/-- What `/proc` says about the session of a process. -/
theorem sid_of_sessionId {pid sid : ℕ} (hread : W.sessionId pid = some sid)
    {p : Proc (Option String)} (hp : p ∈ W.table.procs) (hpid : p.pid = pid) : p.sid = sid := by
  obtain ⟨r, hr, hrs⟩ := Option.map_eq_some_iff.mp hread
  have hrpid : r.pid = pid := by simpa using List.find?_some hr
  rw [← W.table.wf.eq_of_pid (List.mem_of_find?_eq_some hr) hp (hrpid.trans hpid.symm)]
  exact hrs

/-- The session of a process in the table is what `getsid` returns. -/
theorem sessionId_of_mem {pid : ℕ} {p : Proc (Option String)} (hp : p ∈ W.table.procs)
    (hpid : p.pid = pid) : W.sessionId pid = some p.sid := by
  obtain ⟨r, hr⟩ := Option.isSome_iff_exists.mp
    (List.find?_isSome.mpr ⟨p, hp, beq_iff_eq.mpr hpid⟩ :
      (W.table.procs.find? fun p => p.pid == pid).isSome = true)
  have hrpid : r.pid = pid := by simpa using List.find?_some hr
  rw [sessionId, hr, Option.map_some,
    W.table.wf.eq_of_pid (List.mem_of_find?_eq_some hr) hp (hrpid.trans hpid.symm)]

/-- `procfs.all_pids`. -/
def allPids (W : World) : List ℕ := W.table.procs.map Proc.pid

/-- The process is signalled: it meets the test, and the kernel does not spare it. -/
def hit (spared : List ℕ) (test : Proc (Option String) → Bool) (p : Proc (Option String)) : Bool :=
  test p && decide (p.pid ∉ spared)

/-- Whoever meets the test and is not signalled is spared. -/
theorem spared_of_not_hit {spared : List ℕ} {test : Proc (Option String) → Bool}
    {p : Proc (Option String)} (h : hit spared test p = false) (ht : test p = true) :
    p.pid ∈ spared := by
  rw [hit, ht, Bool.true_and] at h
  exact not_not.mp (of_decide_eq_false h)

/-- A sweep signals the processes that meet a test. -/
def deliver (W : World) (c : SweepCall) (test : Proc (Option String) → Bool) : World :=
  { W with
    table := W.table.kill fun p => test p && c.signal.ends p
    log := W.log ++ (W.table.procs.filter test).map fun p => ⟨c, p.pid, p.origin⟩ }

/-- The next system call of `PgroupBackend.sweep`. -/
def advance (W : World) (spared : List ℕ) : Option World :=
  match W.calls, W.pc with
  | [], _ => none
  | c :: calls, .start =>
    match W.sids c.service with
    | none => some { W with calls := calls }
    | some sid => some { W.deliver c (hit spared fun p => p.pgid == sid) with pc := .list sid }
  | _ :: _, .list sid => some { W with pc := .stat sid W.allPids [] }
  | _ :: _, .stat sid (pid :: todo) found =>
    some { W with
      pc := .stat sid todo (if W.sessionId pid = some sid then found ++ [pid] else found) }
  | _ :: _, .stat _ [] found => some { W with pc := .kill found }
  | c :: _, .kill (pid :: found) =>
    some { W.deliver c (hit spared fun p => p.pid == pid) with pc := .kill found }
  | _ :: calls, .kill [] => some { W with calls := calls, pc := .start }

/-- `_write_record`, as far as `external_kill` reads the record. -/
def writeRecord (W : World) : World := { W with record := some (W.services.filterMap W.pid) }

/-- The supervisor ends, and the kernel tells its children. -/
def orphan (W : World) : World :=
  { W with
    table := W.table.kill fun p => p.deathsig && (Signal.stop .TERM).ends p
    alive := false
    calls := [] }

/-- `SIGKILL` from the command. -/
def slay (W : World) (test : Proc (Option String) → Bool) : World :=
  { W with table := W.table.kill test }

/-- The next step of `_cmd_kill` with `--force`. -/
def stepCommand (W : World) (spared : List ℕ) : Option World :=
  match W.command with
  | .loaded pids => some { W with command := if W.alive then .list pids else .over }
  | .list sids => some { W with command := .stat sids W.allPids [] }
  | .stat sids (pid :: todo) found =>
    let found := if (W.sessionId pid).any (· ∈ sids) then found ++ [pid] else found
    some { W with command := .stat sids todo found }
  | .stat sids [] found => some { W with command := .kill sids found }
  | .kill sids (pid :: found) =>
    some { W.slay (hit spared fun p => p.pid == pid) with command := .kill sids found }
  | .kill sids [] => some { W with command := .groups sids sids }
  | .groups sids [] => some { W with command := .supervisor sids }
  | .supervisor _ => some { if W.alive then W.orphan else W with command := .poll }
  | .poll => some { W with command := if W.alive then .poll else .stopped }
  | _ => none

/-- The child of the service was seen to exit: the process spawned under the pid is gone. -/
def exited (W : World) (pid : ℕ) : Bool :=
  W.table.procs.all fun p => !(p.pid == pid && p.native && !p.zombie)

/-- One step of the world. -/
def step (W : World) : WorldEvent → Option World
  | .process e => (W.table.step e).map fun table => { W with table := table }
  | .spawn service pid =>
    if service ∈ W.services ∧ W.free = true ∧ W.creating service = none ∧ W.pid service = none then
      if h : 1 < pid ∧ used W.table.procs pid = false then
        some { W with
          table := W.table.spawn pid (some service) h.2
          creating := Function.update W.creating service (some pid) }
      else none
    else none
  | .abandon service =>
    if W.free = true then some { W with creating := Function.update W.creating service none }
    else none
  | .register service =>
    match W.creating service with
    | some pid =>
      if W.free = true then
        some { W with
          sids := Function.update W.sids service (some pid)
          creating := Function.update W.creating service none
          pid := Function.update W.pid service (some pid) }.writeRecord
      else none
    | none => none
  | .clear service =>
    if W.free = true ∧ (W.pid service).any W.exited = true then
      some { W with pid := Function.update W.pid service none }
    else none
  | .write => if W.free = true then some W.writeRecord else none
  | .remove => if W.free = true then some { W with record := none } else none
  | .sweep service signal =>
    if W.free = true then some { W with calls := [⟨service, signal⟩], pc := .start } else none
  | .killAll =>
    if W.free = true then
      some { W with calls := W.services.map fun service => ⟨service, .KILL⟩, pc := .start }
    else none
  | .advance spared => if W.alive = true then W.advance spared else none
  | .sweepRaises =>
    match W.pc with
    | .stat _ (_ :: _) _ =>
      if W.alive = true then some { W with calls := [], pc := .start } else none
    | _ => none
  | .supervisorEnds => if W.alive = true then some W.orphan else none
  | .force =>
    match W.command, W.record with
    | .idle, some pids => some { W with command := .loaded pids }
    | _, _ => none
  | .command spared => W.stepCommand spared
  | .commandRaises =>
    match W.command with
    | .stat _ (_ :: _) _ => some { W with command := .over }
    | _ => none
  | .supervisorSpared =>
    match W.command with
    | .supervisor _ => some { W with command := .poll }
    | _ => none
  | .killGroup sid spared =>
    match W.command with
    | .groups sids todo =>
      if sid ∈ todo then
        some { W.slay (hit spared fun p => p.pgid == sid) with
          command := .groups sids (todo.filter (· ≠ sid)) }
      else none
    | _ => none
  | .deadline => if W.command = .poll then some { W with command := .over } else none

/-- The supervisor has just set up the backend. -/
def init (K : Table (Option String)) (services : List String) : World :=
  { table := K, services := services }

abbrev Steps : Transition.Rel World WorldEvent := ofPartial step

end World

end Jetty.Orchestrator
