import Jetty.Core.Transition
import Mathlib.Logic.Function.Basic

/-!
# The commands that share one registry entry

`up --name n` and `kill n` are processes that act on the registry file of the name `n`. A
process is named by its pid and its kernel start ticks, which no other process ever shares.
Of a record only the supervisor's identity is kept: nothing else of it is read by these
commands on the way to removing or replacing it.
-/

namespace Jetty.Orchestrator

/-- What `supervisor_alive` reads of a record. -/
structure Record where
  supervisor : ℕ
deriving DecidableEq, Repr

/-- Where a command is. -/
inductive CommandPc
  /-- The process does not exist yet. -/
  | unborn
  /-- `_cmd_up`: about to load the record. -/
  | upLoad
  /-- `_cmd_up`: about to check whether the record's supervisor is alive. -/
  | upCheck (r : Option Record)
  /-- `_cmd_up`: about to acquire the containment. -/
  | upAcquire
  /-- `Supervisor.run` before its first record. -/
  | starting
  /-- `Registry.write` has written the temporary file; `first`: it is the first record. -/
  | writing (first : Bool)
  | supervising
  /-- The post-mortem is in the temporary file. -/
  | writingLast
  /-- `Supervisor.run` is over. -/
  | exiting
  /-- `_cmd_kill`: about to resolve the instance. -/
  | killLoad
  /-- `_cmd_kill`: about to check whether the supervisor is alive. -/
  | killCheck (r : Record)
  /-- `_cmd_kill`: the supervisor was dead; about to remove the record. -/
  | killStale
  /-- `_cmd_kill`: the supervisor was signalled; the command polls for its end. -/
  | killPoll (r : Record)
  /-- `_cmd_kill`: the supervisor is gone; about to load the record again. -/
  | killReload
  /-- `_cmd_kill`: there is a record; about to remove it. -/
  | killRemove
  | dead
deriving DecidableEq, Repr

namespace CommandPc

/-- The process exists. -/
def alive : CommandPc → Bool
  | .unborn | .dead => false
  | _ => true

/-- The process is a supervisor: it has entered `Supervisor.run` and still exists. -/
def supervises : CommandPc → Bool
  | .starting | .writing _ | .supervising | .writingLast | .exiting => true
  | _ => false

/-- The process has passed the liveness check and holds the name. -/
def holds : CommandPc → Bool
  | .upAcquire => true
  | pc => pc.supervises

/-- The process holds the name, but its first record is still to come, or `Supervisor.run` is
over. -/
def unrecorded : CommandPc → Bool
  | .upAcquire | .starting | .writing true | .exiting => true
  | _ => false

/-- `kill` between its load of the record and its removal. -/
def killing : CommandPc → Bool
  | .killCheck _ | .killStale | .killPoll _ | .killReload | .killRemove => true
  | _ => false

end CommandPc

/-- The registry directory, as far as the name `n` goes, and the processes. -/
structure Registry where
  pc : ℕ → CommandPc := fun _ => .unborn
  /-- The processes that were started. -/
  started : List ℕ := []
  /-- `n.json`. -/
  record : Option Record := none
  /-- `n.tmp`. -/
  tmp : Option Record := none

inductive RegistryEvent
  | up
  | kill
  /-- `Registry.load`; `unreadable`: the file is there but reading it raises `OSError`. -/
  | load (unreadable : Bool)
  /-- The liveness check. -/
  | check
  /-- `containment.acquire` re-executes the process, which enters `_cmd_up` again. -/
  | reexec
  /-- `containment.acquire` returns. -/
  | acquire
  /-- `Registry.write`: the temporary file is written. -/
  | write (last : Bool)
  /-- `Registry.write`: the temporary file replaces the record. -/
  | replace
  /-- `Registry.remove`. -/
  | remove
  /-- The process ends, for whatever reason. -/
  | die
deriving DecidableEq, Repr

namespace Registry

/-- `supervisor_alive`. -/
def supervisorAlive (S : Registry) (r : Record) : Bool := (S.pc r.supervisor).alive

def goto (S : Registry) (p : ℕ) (pc : CommandPc) : Registry :=
  { S with pc := Function.update S.pc p pc }

/-- `Registry.load`. -/
def load (S : Registry) (unreadable : Bool) : Option Record :=
  if unreadable = true then none else S.record

/-- `os.replace` in `Registry.write`; it raises if the temporary file is gone. -/
def replace (S : Registry) (p : ℕ) (pc raised : CommandPc) : Registry :=
  match S.tmp with
  | some r => { S.goto p pc with record := some r, tmp := none }
  | none => S.goto p raised

/-- One step of the process `p`. -/
def step (S : Registry) : ℕ × RegistryEvent → Option Registry
  | (p, e) =>
    match S.pc p, e with
    | .unborn, .up => some { S.goto p .upLoad with started := p :: S.started }
    | .unborn, .kill => some { S.goto p .killLoad with started := p :: S.started }
    | .upLoad, .load unreadable => some (S.goto p (.upCheck (S.load unreadable)))
    | .upCheck r, .check => some (S.goto p (if r.any S.supervisorAlive then .dead else .upAcquire))
    | .upAcquire, .reexec => some (S.goto p .upLoad)
    | .upAcquire, .acquire => some (S.goto p .starting)
    | .starting, .write false => some { S.goto p (.writing true) with tmp := some ⟨p⟩ }
    | .supervising, .write last =>
      some { S.goto p (if last then .writingLast else .writing false) with tmp := some ⟨p⟩ }
    | .writing first, .replace => some (S.replace p .supervising (if first then .dead else
        .supervising))
    | .writingLast, .replace => some (S.replace p .exiting .dead)
    | .supervising, .remove => some { S.goto p .exiting with record := none }
    | .killLoad, .load unreadable =>
      some (S.goto p ((S.load unreadable).elim .dead .killCheck))
    | .killCheck r, .check =>
      some (S.goto p (if S.supervisorAlive r then .killPoll r else .killStale))
    | .killStale, .remove => some { S.goto p .dead with record := none }
    | .killPoll r, .check =>
      some (if S.supervisorAlive r then S else S.goto p .killReload)
    | .killReload, .load unreadable =>
      some (S.goto p ((S.load unreadable).elim .dead fun _ => .killRemove))
    | .killRemove, .remove => some { S.goto p .dead with record := none }
    | pc, .die => if pc.alive then some (S.goto p .dead) else none
    | _, _ => none

/-- Neither a record nor a process. -/
def init : Registry := {}

/-- Every interleaving of the commands. -/
abbrev Steps : Transition.Rel Registry (ℕ × RegistryEvent) := Transition.ofPartial step

end Registry

end Jetty.Orchestrator
