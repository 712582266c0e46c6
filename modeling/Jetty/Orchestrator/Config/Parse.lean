import Jetty.Orchestrator.Config.Validate

/-!
# Parsing a configuration

The `parse` methods of the configuration objects. Keys are taken in the order of the source,
so that the first error is the source's.
-/

namespace Jetty.Orchestrator

open Take

variable (repr : Toml → String)

def seconds (q : ℚ) : Duration := q

def GateConfig.parse (raw : Toml) (loc : String) : Except ParseError GateConfig :=
  Take.parse repr raw loc do
    let check ← takeArgv "check" 1
    let recheckSeconds ← takeNumber "recheck_seconds" (seconds 15) true
    let timeoutSeconds ← takeNumber "timeout_seconds" (seconds 20) true
    let continuous ← takeBool "continuous" false
    let closeAfter ← takeInt "close_after" 3 1
    return { check, recheckSeconds, timeoutSeconds, continuous, closeAfter }

def ResolverConfig.parse (raw : Toml) (loc : String) : Except ParseError ResolverConfig :=
  Take.parse repr raw loc do
    let cmd ← takeArgv "cmd" 1
    let provides ← takeStrList "provides" 0
    let timeoutSeconds ← takeNumber "timeout_seconds" (seconds 30) true
    let refresh ← takeChoice "refresh" [("spawn", .spawn), ("instance", .perInstance)] .spawn
    let cacheSeconds ← takeNumber "cache_seconds" (seconds 5) false
    let copyBinaries ← takeBool "copy" false
    let copyKeepDays ← takeNumber "copy_keep_days" (seconds 7) true
    let requires ← takeStrList "requires" 0
    return { cmd, provides, timeoutSeconds, refresh, cacheSeconds, copyBinaries, copyKeepDays,
             requires }

def ReadyConfig.parse (raw : Toml) (loc : String) : Except ParseError ReadyConfig := do
  let cfg ← Take.parse repr raw loc do
    let http ← takeStr "http"
    let tcp ← takeStr "tcp"
    let uds ← takeStr "uds"
    let path ← takeStr "path"
    let timeoutSeconds ← takeNumber "timeout_seconds" (seconds 30) true
    let intervalSeconds ← takeNumber "interval_seconds" (seconds (1 / 4)) true
    return { http, tcp, uds, path, timeoutSeconds, intervalSeconds : ReadyConfig }
  if 1 < [cfg.http, cfg.tcp, cfg.uds, cfg.path].countP Option.isSome then
    throw (.config s!"{loc}: configure at most one of http/tcp/uds/path")
  if cfg.http.any fun url => !"http://".toList.isPrefixOf url.toList then
    throw (.config s!"{loc}.http must be an http:// URL (probes are loopback)")
  return cfg

def RestartConfig.parse (raw : Toml) (loc : String) : Except ParseError RestartConfig :=
  Take.parse repr raw loc do
    let maxRestarts ← takeInt "max_restarts" 3 0
    let windowSeconds ← takeNumber "window_seconds" (seconds 60) true
    let backoffInitialSeconds ← takeNumber "backoff_initial_seconds" (seconds (1 / 2)) true
    let backoffMaxSeconds ← takeNumber "backoff_max_seconds" (seconds 15) true
    let noRestartExit ← takeIntList "no_restart_exit" [2]
    return { maxRestarts, windowSeconds, backoffInitialSeconds, backoffMaxSeconds, noRestartExit }

def StopConfig.parse (raw : Toml) (loc : String) : Except ParseError StopConfig :=
  Take.parse repr raw loc do
    let signal ← takeChoice "signal" [("TERM", .TERM), ("INT", .INT), ("HUP", .HUP)] .TERM
    let graceSeconds ← takeNumber "grace_seconds" (seconds 10) true
    return { signal, graceSeconds }

def ServiceConfig.parse (raw : Toml) (loc : String) : Except ParseError ServiceConfig :=
  Take.parse repr raw loc do
    let cmd ← takeArgv "cmd" 1
    let cwd ← takeStr "cwd"
    let env ← takeStrDict "env"
    let after ← takeStrList "after" 0
    let requires ← takeStrList "requires" 0
    let watch ← takeStrList "watch" 0
    let ready ← takeTable "ready"
    let ready ← liftM (ReadyConfig.parse repr (.table ready) (loc ++ ".ready"))
    let restart ← takeTable "restart"
    let restart ← liftM (RestartConfig.parse repr (.table restart) (loc ++ ".restart"))
    let stop ← takeTable "stop"
    let stop ← liftM (StopConfig.parse repr (.table stop) (loc ++ ".stop"))
    return { cmd, cwd, env, after, requires, watch, ready, restart, stop }

def InstanceConfig.parse (raw : Toml) (loc : String) : Except ParseError InstanceConfig := do
  let cfg ← Take.parse repr raw loc do
    let name ← takeRequiredStr "name"
    let containment ← takeChoice "containment"
      [("auto", .auto), ("cgroup", .cgroup), ("scope", .scope), ("pgroup", .pgroup)] .auto
    let workdir ← takeStr "workdir"
    return { name, containment, workdir : InstanceConfig }
  if !isName cfg.name then
    let name := repr (.str cfg.name)
    throw (.config s!"instance.name {name} must match {namePattern}")
  return cfg

/-- A table of configuration objects. -/
def parseEntries {α : Type} (parse : Toml → String → Except ParseError α) (kind : String)
    (entries : List (String × Toml)) : Except ParseError (List (String × α)) :=
  entries.mapM fun (name, raw) => (parse raw (kind ++ "." ++ name)).map fun cfg => (name, cfg)

/-- `OrchestratorConfig.parse`, but for the validation. -/
def OrchestratorConfig.parseTables (raw : Toml) : Except ParseError OrchestratorConfig :=
  Take.parse repr raw "" do
    let inst ← takeTable "instance"
    let inst ← liftM (InstanceConfig.parse repr (.table inst) "instance")
    let ports ← takeTable "ports"
    let gates ← takeTable "gates"
    let gates ← liftM (parseEntries (GateConfig.parse repr) "gates" gates)
    let resolvers ← takeTable "resolvers"
    let resolvers ← liftM (parseEntries (ResolverConfig.parse repr) "resolvers" resolvers)
    let services ← takeTable "services"
    let services ← liftM (parseEntries (ServiceConfig.parse repr) "services" services)
    return { inst, ports, gates, resolvers, services }

/-- `OrchestratorConfig.parse`. -/
def OrchestratorConfig.parse (raw : Toml) : Except ParseError OrchestratorConfig := do
  let cfg ← parseTables repr raw
  cfg.validate repr

end Jetty.Orchestrator
