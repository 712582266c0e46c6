import Jetty.Core.Python.Dict
import Jetty.Core.Transition
import Jetty.Orchestrator.Config.Types

/-!
# The gates of an instance

All services share one set of gates: the result of each gate's last check, and a lock around its
checks. The run loops call `satisfied`, at the start, after an exit and while they block; the
watchers of continuous gates call `poll`. One step is the code between two `await`s; the check
command runs in between, and whoever waits for a lock may get it next.
-/

namespace Jetty.Orchestrator

open Python

/-- A call of `satisfied` or `poll` that goes through its gates. -/
structure GateCall where
  /-- The gates it has still to check. -/
  left : List String
  refresh : Bool
  /-- What it has found so far, with the stamps of the checks. -/
  found : List (String × Bool × ℚ) := []

namespace GateCall

/-- What `satisfied` returns. -/
def satisfied (call : GateCall) : Bool × List String :=
  let failing := (call.found.filter fun r => !r.2.1).map Prod.fst
  (failing.isEmpty, failing)

/-- What `poll` returns. -/
def out (call : GateCall) : Dict String (Bool × ℚ) :=
  call.found.foldl (fun d r => d.set r.1 r.2) .empty

/-- The call has a result for its next gate. -/
def take (call : GateCall) (gate : String) (ok : Bool) (stamp : ℚ) : GateCall :=
  { call with left := call.left.tail, found := call.found ++ [(gate, ok, stamp)] }

end GateCall

/-! ### Watchers -/

/-- Where a watcher of continuous gates is suspended. -/
inductive WatcherPc
  | sleeping
  | polling
  /-- It has set `_gate_stop` and stops the service. -/
  | stopping
  | finished
deriving DecidableEq

/-- `_watch_continuous_gates`, beside one incarnation. -/
structure Watcher where
  pc : WatcherPc := .sleeping
  /-- An absent key counts as 0. -/
  streaks : String → ℕ := fun _ => 0
  counted : String → Option ℚ := fun _ => none

namespace Watcher

/-- One round of the loop over the results. -/
def count (w : Watcher) (r : String × Bool × ℚ) : Watcher :=
  if w.counted r.1 = some r.2.2 then w
  else { w with
    counted := Function.update w.counted r.1 (some r.2.2)
    streaks := Function.update w.streaks r.1 (if r.2.1 then 0 else w.streaks r.1 + 1) }

/-- The streaks after a poll. -/
def counts (w : Watcher) (results : Dict String (Bool × ℚ)) : Watcher :=
  results.entries.foldl count w

/-- The gates that count as closed. -/
def closed (closeAfter : String → ℕ) (w : Watcher) (results : Dict String (Bool × ℚ)) :
    List String :=
  (results.entries.filter fun r => !r.2.1 && decide (closeAfter r.1 ≤ w.streaks r.1)).map Prod.fst

/-- The watcher after a poll; `gone`: the service stops or its process has exited. -/
def polled (closeAfter : String → ℕ) (w : Watcher) (results : Dict String (Bool × ℚ))
    (gone : Bool) : Watcher :=
  let w := w.counts results
  { w with pc := if w.closed closeAfter results = [] then .sleeping
                 else if gone then .finished else .stopping }

end Watcher

/-! ### The gates and their users -/

/-- The gates of the instance, and what the watchers were given. -/
structure GatesSetup (ω : Type) where
  recheckSeconds : String → Duration
  closeAfter : String → ℕ
  /-- The continuous gates that a watcher's service requires. -/
  names : ω → List String

/-- The `GateSet`, with the watchers and the calls that are under way. A call of `satisfied` has a
name of its own. -/
structure Gates (ω κ : Type) where
  cache : String → Option (ℚ × Bool) := fun _ => none
  /-- Who holds the lock of a gate, and runs its check. -/
  lock : String → Option (ω ⊕ κ) := fun _ => none
  call : ω ⊕ κ → Option GateCall := fun _ => none
  watcher : ω → Watcher := fun _ => {}

inductive GatesEvent (ω κ : Type)
  /-- `satisfied` is called. -/
  | ask (k : κ) (names : List String) (refresh : Bool)
  /-- A watcher wakes up; `gone`: the service stops, its process has exited, or the watcher is
  cancelled in its sleep. -/
  | woke (w : ω) (gone : Bool)
  /-- A call gets the lock of its next gate and looks at the cache. -/
  | consult (u : ω ⊕ κ) (now : ℚ)
  /-- The check of a gate is over. -/
  | checked (gate : String) (ok : Bool) (now : ℚ)
  /-- `satisfied` returns. -/
  | answered (k : κ)
  /-- `poll` returns. -/
  | polled (w : ω) (gone : Bool)
  /-- The call raises, or its task is cancelled. -/
  | abandoned (u : ω ⊕ κ)

namespace Gates

variable {ω κ : Type} [DecidableEq ω] [DecidableEq κ]

/-- The call of `u` is `call` from now on. -/
def setCall (S : Gates ω κ) (u : ω ⊕ κ) (call : Option GateCall) : Gates ω κ :=
  { S with call := Function.update S.call u call }

def setWatcher (S : Gates ω κ) (w : ω) (watcher : Watcher) : Gates ω κ :=
  { S with watcher := Function.update S.watcher w watcher }

/-- The cached result is fresh enough. -/
def fresh (c : GatesSetup ω) (gate : String) (now stamp : ℚ) : Prop :=
  ((now - stamp : ℚ) : Duration) < c.recheckSeconds gate

instance (c : GatesSetup ω) (gate : String) (now stamp : ℚ) : Decidable (fresh c gate now stamp) :=
  inferInstanceAs (Decidable (_ < _))

/-- `_check` up to its first `await` inside the lock. -/
def consult (c : GatesSetup ω) (S : Gates ω κ) (u : ω ⊕ κ) (call : GateCall) (gate : String)
    (now : ℚ) : Gates ω κ :=
  match S.cache gate with
  | some (stamp, ok) =>
    if call.refresh = false ∧ fresh c gate now stamp then S.setCall u (call.take gate ok stamp)
    else { S with lock := Function.update S.lock gate (some u) }
  | none => { S with lock := Function.update S.lock gate (some u) }

/-- `_check` from the end of the run on. -/
def checked (S : Gates ω κ) (u : ω ⊕ κ) (call : GateCall) (gate : String) (ok : Bool) (now : ℚ) :
    Gates ω κ :=
  { S with
    cache := Function.update S.cache gate (some (now, ok))
    lock := Function.update S.lock gate none
    call := Function.update S.call u (call.take gate ok now) }

/-- A call is dropped, and with it the lock that it holds. -/
def abandon (S : Gates ω κ) (u : ω ⊕ κ) : Gates ω κ :=
  { S with
    call := Function.update S.call u none
    lock := fun gate => if S.lock gate = some u then none else S.lock gate }

/-- One step of the gates; nothing where it is not possible. -/
def step (c : GatesSetup ω) (S : Gates ω κ) : GatesEvent ω κ → Option (Gates ω κ)
  | .ask k names refresh =>
    match S.call (.inr k) with
    | some _ => none
    | none => some (S.setCall (.inr k) (some { left := names, refresh }))
  | .woke w gone =>
    if (S.watcher w).pc = .sleeping then
      if gone then some (S.setWatcher w { S.watcher w with pc := .finished })
      else
        some ((S.setWatcher w { S.watcher w with pc := .polling }).setCall (.inl w)
          (some { left := c.names w, refresh := false }))
    else none
  | .consult u now =>
    match S.call u with
    | none => none
    | some call =>
      match call.left with
      | [] => none
      | gate :: _ => if S.lock gate = none then some (S.consult c u call gate now) else none
  | .checked gate ok now =>
    match S.lock gate with
    | none => none
    | some u => (S.call u).map fun call => S.checked u call gate ok now
  | .answered k =>
    match S.call (.inr k) with
    | some { left := [], .. } => some (S.setCall (.inr k) none)
    | _ => none
  | .polled w gone =>
    match S.call (.inl w) with
    | none => none
    | some call =>
      if call.left = [] then
        some ((S.setWatcher w ((S.watcher w).polled c.closeAfter call.out gone)).setCall (.inl w)
          none)
      else none
  | .abandoned u =>
    match S.call u with
    | none => none
    | some _ =>
      match u with
      | .inl w => some ((S.abandon u).setWatcher w { S.watcher w with pc := .finished })
      | .inr _ => some (S.abandon u)

/-- The runs of the gates: every interleaving of their users. -/
abbrev Steps (c : GatesSetup ω) : Transition.Rel (Gates ω κ) (GatesEvent ω κ) :=
  Transition.ofPartial (step c)

end Gates

end Jetty.Orchestrator
