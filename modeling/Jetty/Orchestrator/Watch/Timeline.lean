import Jetty.Orchestrator.Service.Scans
import Jetty.Orchestrator.Watch.Signature
import Mathlib.Algebra.GroupWithZero.Nat

/-!
# A service beside its watched files

The files move at any time between the steps of a service. What its path watcher reads are the
signatures that the watched paths have at that moment. A timeline remembers the signatures that
the paths had when the latest process was created, and what the watcher has polled since.
-/

namespace Jetty.Orchestrator.Watch

open Transition Service

/-- What the watched paths lead to. -/
abbrev Files := String → Target

section Reads

variable (o : NameOrder) (digest : Bytes → String)

/-- `_stat_sig` of every path. -/
def scan (files : Files) (paths : List String) : Scan :=
  paths.map fun path => (pathSig o digest (files path)).1

/-- The watch covers more files than `_WATCH_WIDE_TREE`. -/
def wide (files : Files) (paths : List String) : Bool :=
  decide (10000 < (paths.dedup.map fun path => (pathSig o digest (files path)).2).sum)

end Reads

/-- A service and its watched files. -/
structure Timeline where
  service : Service := Service.init
  files : Files
  /-- The `paths` of the path watcher. -/
  paths : List String := []
  /-- What the paths to watch had for signatures when the latest process was created. -/
  launched : Scan := []
  /-- What has been polled since, the latest poll first. -/
  polls : List Scan := []
  /-- The path watcher has terminated the process because of a change. -/
  relaunched : Bool := false

inductive Moment
  | move (files : Files)
  | service (e : Event)

namespace Timeline

variable (c : ServiceSetup) (o : NameOrder) (digest : Bytes → String)

/-- `self._rendered.watch`. -/
def watch (s : Service) : List String := (s.rendered.map RenderedService.watch).getD []

/-- The path watcher reads the files as they are. -/
def Reads (T : Timeline) : Event → Prop
  | .pathStarted scanned isWide _ =>
    scanned = scan o digest T.files (watch T.service) ∧
      isWide = wide o digest T.files (watch T.service)
  | .pathWoke current _ => current = scan o digest T.files T.paths
  | _ => True

instance (T : Timeline) (e : Event) : Decidable (T.Reads o digest e) := by
  unfold Reads
  rcases e <;> infer_instance

/-- The timeline after a step of the service. -/
def record (T : Timeline) (e : Event) (s : Service) : Timeline :=
  match e with
  | .run _ _ =>
    if T.service.spawned < s.spawned then
      { T with
        service := s
        launched := scan o digest T.files (watch s)
        polls := []
        relaunched := false }
    else { T with service := s }
  | .pathStarted _ _ _ => { T with service := s, paths := watch s }
  | .pathWoke current φ =>
    if T.service.Polls φ then
      { T with
        service := s
        polls := current :: T.polls
        relaunched := decide (s.pathWatch = .terminating) }
    else { T with service := s }
  | _ => { T with service := s }

def step (T : Timeline) : Moment → Option Timeline
  | .move files => some { T with files := files }
  | .service e =>
    if T.Reads o digest e then (Service.step c T.service e).map (T.record o digest e) else none

/-- Every order of moves of the files and steps of the service. -/
abbrev Steps : Transition.Rel Timeline Moment := ofPartial (step c o digest)

end Timeline

end Jetty.Orchestrator.Watch
