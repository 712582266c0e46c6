import Mathlib.Algebra.Order.Ring.Rat
import Mathlib.Order.WithBot

/-!
# Orchestrator configuration objects

The validated configuration, field for field. Durations are the numbers a config
can hold after validation: TOML admits `inf`, NaN fails every bound the accessors
check, so a duration is a rational or infinity.
-/

namespace Jetty.Orchestrator

/-- A validated number of seconds (or days); `⊤` is the TOML float `inf`. -/
abbrev Duration := WithTop ℚ

/-- An external condition: `check` exits 0 iff it is satisfied. -/
structure GateConfig where
  check : List String
  recheckSeconds : Duration := (15 : ℚ)
  timeoutSeconds : Duration := (20 : ℚ)
  continuous : Bool := false
  closeAfter : ℕ := 3

/-- When a resolver runs again: `"spawn"` or `"instance"`. -/
inductive Refresh
  | spawn
  | perInstance
deriving DecidableEq, Repr

/-- A script that maps names to binary paths. -/
structure ResolverConfig where
  cmd : List String
  provides : List String := []
  timeoutSeconds : Duration := (30 : ℚ)
  refresh : Refresh := .spawn
  cacheSeconds : Duration := (5 : ℚ)
  copyBinaries : Bool := false
  copyKeepDays : Duration := (7 : ℚ)
  requires : List String := []

/-- How to tell the service is up; at most one of the four probes is set. -/
structure ReadyConfig where
  http : Option String := none
  tcp : Option String := none
  uds : Option String := none
  path : Option String := none
  timeoutSeconds : Duration := (30 : ℚ)
  intervalSeconds : Duration := (1 / 4 : ℚ)

/-- Bounded restarts. -/
structure RestartConfig where
  maxRestarts : ℕ := 3
  windowSeconds : Duration := (60 : ℚ)
  backoffInitialSeconds : Duration := (1 / 2 : ℚ)
  backoffMaxSeconds : Duration := (15 : ℚ)
  noRestartExit : List ℤ := [2]

inductive StopSignal
  | TERM
  | INT
  | HUP
deriving DecidableEq, Repr

structure StopConfig where
  signal : StopSignal := .TERM
  graceSeconds : Duration := (10 : ℚ)

structure ServiceConfig where
  cmd : List String
  cwd : Option String := none
  env : List (String × String) := []
  after : List String := []
  requires : List String := []
  ready : ReadyConfig := {}
  restart : RestartConfig := {}
  stop : StopConfig := {}
  watch : List String := []

inductive ContainmentMode
  | auto
  | cgroup
  | scope
  | pgroup
deriving DecidableEq, Repr

structure InstanceConfig where
  name : String
  containment : ContainmentMode := .auto
  workdir : Option String := none

/-- A service's templates after rendering: what one incarnation is launched with. -/
structure RenderedService where
  cmd : List String
  cwd : Option String := none
  env : List (String × String) := []
  readyHttp : Option String := none
  readyTcp : Option String := none
  readyUds : Option String := none
  readyPath : Option String := none
  watch : List String := []

/-- Some readiness probe is configured. -/
def RenderedService.probed (r : RenderedService) : Bool :=
  r.readyHttp.isSome || r.readyTcp.isSome || r.readyUds.isSome || r.readyPath.isSome

end Jetty.Orchestrator
