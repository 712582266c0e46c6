import Jetty.Core.Transition
import Mathlib.Logic.Function.Basic

/-!
# Commands under a deadline

The three places that run a command and give it a deadline: the check of a gate, a resolver, and
the call of an exec function. The command may fork descendants, which keep the pipes open that
they inherit. Once the child was reaped and its pipes are disconnected, `asyncio` closes its
transport: `Process.wait` resolves, and `Process.kill` raises from then on. An output is
disconnected when the event loop has read it to its end, and the event loop does not read while the
`StreamReader` holds more than its limit allows.
-/

namespace Jetty.Deadlines

inductive Pipe
  | stdin
  | stdout
  | stderr
deriving DecidableEq, Repr

/-- The event loop reads the pipe into a `StreamReader`. -/
def Pipe.isOutput : Pipe → Bool
  | .stdin => false
  | .stdout | .stderr => true

/-- The limit of a `StreamReader`, `asyncio.streams._DEFAULT_LIMIT`. -/
def streamLimit : ℕ := 65536

/-- What the event loop takes out of a pipe at once, `_UnixReadPipeTransport.max_size`. -/
def chunkLimit : ℕ := 262144

/-- `_OUTPUT_LIMIT` of the resolvers. -/
def outputLimit : ℕ := 1048576

/-- Where the coroutine is suspended. -/
inductive Pc
  /-- In `asyncio.wait_for`. -/
  | waiting
  /-- In `proc.wait()`, after `proc.kill()`. -/
  | reaping
  /-- It cancels the tasks that read the pipes, and awaits them; those that are left. -/
  | cancelling (left : ℕ)
  /-- In the loop on `proc.returncode`. -/
  | polling
  /-- It has returned or raised; whether for the deadline. -/
  | finished (timedOut : Bool)
  /-- `proc.kill()` has raised `ProcessLookupError`. -/
  | lost
deriving DecidableEq, Repr

/-- The child, its descendants, and what the event loop knows of them. -/
structure Proc where
  /-- The child has not exited. -/
  alive : Bool := true
  /-- The child has been sent `SIGKILL`. -/
  killed : Bool := false
  /-- The child was reaped: `returncode` is set. -/
  reaped : Bool := false
  /-- The transport has been closed, and has let go of the child. -/
  closed : Bool := false
  /-- The child has its end of the pipe open. -/
  child : Pipe → Bool
  /-- A descendant has the child's end of the pipe open. -/
  descendants : Pipe → Bool := fun _ => false
  /-- The pipe is not disconnected on the side of the event loop. -/
  connected : Pipe → Bool
  /-- The bytes that are in the pipe. -/
  inPipe : Pipe → ℕ := fun _ => 0
  /-- The bytes that the `StreamReader` holds. -/
  unread : Pipe → ℕ := fun _ => 0
  /-- The `StreamReader` has paused its transport: the event loop does not look at the pipe. -/
  paused : Pipe → Bool := fun _ => false
  /-- The bytes that were read from the `StreamReader`. -/
  taken : Pipe → ℕ := fun _ => 0
  /-- The payload is written, and `stdin` is closed once it is flushed. -/
  fed : Bool := false
  /-- The deadline has passed. -/
  deadline : Bool := false

namespace Proc

variable (P : Proc)

/-- Some process has the other end of the pipe open. -/
def held (p : Pipe) : Bool := P.alive && P.child p || P.descendants p

/-- `_try_finish`: the transport is to be closed. -/
def finishes : Bool :=
  P.reaped && !P.connected .stdin && !P.connected .stdout && !P.connected .stderr

/-- `SIGKILL`; it does nothing to a child that has exited. -/
def sigkill : Proc := { P with killed := P.killed || P.alive }

/-- `proc.kill()`, and where the coroutine goes on; once the transport is closed, it raises. -/
def kill (pc : Pc) : Pc × Proc := if P.closed then (.lost, P) else (pc, P.sigkill)

/-- The event loop comes upon the end of the pipe once nobody has the other end open: of an output
when it has emptied the pipe. -/
def seesEnd (p : Pipe) : Bool := !p.isOutput || (P.inPipe p == 0 && !P.paused p)

/-- The pipe has been read to its end. -/
def drained (p : Pipe) : Bool := !P.connected p && P.unread p == 0

/-- The event loop reads what is in the pipe: `StreamReader.feed_data`. -/
def receive (p : Pipe) : Proc :=
  let n := min (P.inPipe p) chunkLimit
  { P with
    inPipe := Function.update P.inPipe p (P.inPipe p - n)
    unread := Function.update P.unread p (P.unread p + n)
    paused := Function.update P.paused p (decide (2 * streamLimit < P.unread p + n)) }

/-- `StreamReader.read` with data at hand; it resumes the transport when little enough is left. -/
def read (p : Pipe) : Proc :=
  let n := min (P.unread p) streamLimit
  { P with
    unread := Function.update P.unread p (P.unread p - n)
    taken := Function.update P.taken p (P.taken p + n)
    paused := Function.update P.paused p (P.paused p && decide (streamLimit < P.unread p - n)) }

end Proc

/-- How a suspended coroutine goes on: with what it waits for, or since the deadline passes. -/
inductive Move
  | resume
  | timeout
deriving DecidableEq, Repr

/-- `GateSet._run`; `proc.wait()` resolves when the transport is closed. -/
def gateRun (P : Proc) : Pc → Move → Option (Pc × Proc)
  | .waiting, .resume => if P.closed then some (.finished false, P) else none
  | .waiting, .timeout => if P.deadline then some (P.kill .reaping) else none
  | .reaping, .resume => if P.closed then some (.finished true, P) else none
  | _, _ => none

/-- `Resolvers._run_exec`, up to its result. -/
def resolverRunExec (P : Proc) : Pc → Move → Option (Pc × Proc)
  | .waiting, .resume =>
    if P.closed && (decide (outputLimit ≤ P.taken .stdout) || P.drained .stdout) &&
        P.drained .stderr then some (.finished false, P)
    else none
  | .waiting, .timeout =>
    if P.deadline then some (if P.reaped then (.cancelling 2, P) else P.kill (.cancelling 2))
    else none
  | .cancelling (left + 1), .resume => some (.cancelling left, P)
  | .cancelling 0, .resume => some (.polling, P)
  | .polling, .resume => if P.reaped then some (.finished true, P) else none
  | _, _ => none

/-- `ExecFunctionDriver.call`, of a known function; `communicate` has fed the payload and read both
outputs to their ends before it waits. -/
def execFunctionCall (P : Proc) : Pc → Move → Option (Pc × Proc)
  | .waiting, .resume =>
    if (P.fed || !P.connected .stdin) && P.drained .stdout && P.drained .stderr && P.closed then
      some (.finished false, P)
    else none
  | .waiting, .timeout => if P.deadline then some (P.kill .reaping) else none
  | .reaping, .resume => if P.closed then some (.finished true, P) else none
  | _, _ => none

inductive Runner
  | gate
  | resolver
  | execFunction
deriving DecidableEq, Repr

namespace Runner

/-- The pipes that the command is created with; the rest of its input and output is `DEVNULL`. -/
def pipes : Runner → Pipe → Bool
  | gate, _ => false
  | resolver, p => decide (p ≠ .stdin)
  | execFunction, _ => true

def next : Runner → Proc → Pc → Move → Option (Pc × Proc)
  | gate => gateRun
  | resolver => resolverRunExec
  | execFunction => execFunctionCall

/-- A task of the coroutine reads the pipe. The deadline cancels these tasks; `read_stdout` of a
resolver ends by itself when it has taken enough. -/
def reads : Runner → Proc → Pc → Pipe → Bool
  | resolver, P, .waiting, .stdout => decide (P.taken .stdout < outputLimit)
  | resolver, _, .waiting, .stderr => true
  | execFunction, _, .waiting, p => p.isOutput
  | _, _, _, _ => false

end Runner

/-- One call. -/
structure Call where
  runner : Runner
  pc : Pc := .waiting
  proc : Proc

inductive Event
  /-- The child forks: a descendant inherits its open ends. -/
  | fork
  | childCloses (p : Pipe)
  | childExits
  /-- The last descendant that has the end of the pipe open closes it, or exits. -/
  | release (p : Pipe)
  /-- The child or a descendant writes `n` bytes; what the kernel lets a pipe hold is left open. -/
  | write (p : Pipe) (n : ℕ)
  /-- The payload is written to the transport, and `stdin` closed behind it. -/
  | feed
  /-- The child or a descendant has read what was left of the payload. -/
  | flush
  | deadline
  /-- The event loop reaps the child. -/
  | reap
  /-- The event loop notices that nobody has the other end of the pipe open. -/
  | disconnect (p : Pipe)
  /-- `_call_connection_lost`: the event loop closes the transport. -/
  | close
  /-- The event loop reads what is in the pipe. -/
  | receive (p : Pipe)
  /-- A task of the coroutine reads what the event loop has read. -/
  | read (p : Pipe)
  /-- The coroutine goes on. -/
  | move (m : Move)
deriving DecidableEq, Repr

/-- The event loop and the coroutine take the step, no process of the command. -/
def Event.own : Event → Prop
  | reap | disconnect _ | close | receive _ | read _ | move _ => True
  | _ => False

/-- The event loop takes the step by itself. -/
def Event.loops : Event → Prop
  | reap | disconnect _ | close | receive _ => True
  | _ => False

theorem Event.own_of_loops {e : Event} (h : e.loops) : e.own := by
  cases e <;> trivial

namespace Call

open Function

/-- One step. -/
def step (c : Call) : Event → Option Call
  | .fork =>
    if c.proc.alive then
      some { c with proc := { c.proc with
        descendants := fun p => c.proc.descendants p || c.proc.child p } }
    else none
  | .childCloses p =>
    if c.proc.alive then
      some { c with proc := { c.proc with child := update c.proc.child p false } }
    else none
  | .childExits =>
    if c.proc.alive then some { c with proc := { c.proc with alive := false } } else none
  | .release p =>
    if c.proc.descendants p then
      some { c with proc := { c.proc with descendants := update c.proc.descendants p false } }
    else none
  | .write p n =>
    if p.isOutput && c.proc.held p then
      some { c with proc := { c.proc with
        inPipe := update c.proc.inPipe p (c.proc.inPipe p + n) } }
    else none
  | .feed =>
    if c.runner = .execFunction ∧ c.pc = .waiting then
      some { c with proc := { c.proc with fed := true } }
    else none
  | .flush =>
    if c.proc.fed then
      some { c with proc := { c.proc with connected := update c.proc.connected .stdin false } }
    else none
  | .deadline => some { c with proc := { c.proc with deadline := true } }
  | .reap =>
    if c.proc.alive || c.proc.reaped then none
    else some { c with proc := { c.proc with reaped := true } }
  | .disconnect p =>
    if c.proc.connected p && !c.proc.held p && c.proc.seesEnd p then
      some { c with proc := { c.proc with connected := update c.proc.connected p false } }
    else none
  | .close =>
    if c.proc.finishes && !c.proc.closed then
      some { c with proc := { c.proc with closed := true } }
    else none
  | .receive p =>
    if p.isOutput && c.proc.connected p && !c.proc.paused p && decide (0 < c.proc.inPipe p) then
      some { c with proc := c.proc.receive p }
    else none
  | .read p =>
    if c.runner.reads c.proc c.pc p && decide (0 < c.proc.unread p) then
      some { c with proc := c.proc.read p }
    else none
  | .move m => (c.runner.next c.proc c.pc m).map fun (pc, proc) => { c with pc := pc, proc := proc }

/-- The command has just been created. -/
def init (runner : Runner) : Call where
  runner := runner
  proc := { child := runner.pipes, connected := runner.pipes }

/-- The call has a result or its timeout error. -/
def Finished (c : Call) : Prop := ∃ timedOut, c.pc = .finished timedOut

abbrev Steps : Transition.Rel Call Event := Transition.ofPartial step

end Call

end Jetty.Deadlines
