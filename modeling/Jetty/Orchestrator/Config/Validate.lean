import Jetty.Orchestrator.Config.Toml
import Jetty.Core.Python.Format
import Mathlib.Data.List.TakeDrop
import Mathlib.Data.List.TakeWhile

/-!
# Validation of a configuration

What `OrchestratorConfig._validate` rejects once the tables are parsed: dangling references,
port specs, binary names in the wrong places, and dependency cycles. Dictionaries are lists
of entries; `repr` is that of Python, for the messages.
-/

namespace Jetty.Orchestrator

structure OrchestratorConfig where
  inst : InstanceConfig
  ports : List (String × Toml)
  gates : List (String × GateConfig)
  resolvers : List (String × ResolverConfig)
  services : List (String × ServiceConfig)

def isLower (c : Char) : Bool := decide ('a' ≤ c) && decide (c ≤ 'z')

def isAsciiDigit (c : Char) : Bool := decide ('0' ≤ c) && decide (c ≤ '9')

/-- A match of `[a-z0-9][a-z0-9_-]{0,extra}` between `^` and `$`, which also matches in front
of a newline at the end. -/
def matchesName (extra : ℕ) (s : String) : Bool :=
  let cs := s.toList
  match if cs.getLast? = some '\n' then cs.dropLast else cs with
  | [] => false
  | c :: cs => (isLower c || isAsciiDigit c) && decide (cs.length ≤ extra) &&
      cs.all fun c => isLower c || isAsciiDigit c || c == '_' || c == '-'

/-- `_NAME_RE.match`. -/
def isName (s : String) : Bool := matchesName 63 s

/-- `_NAME_RE.pattern`. -/
def namePattern : String := "^[a-z0-9][a-z0-9_-]\x7b0,63\x7d$"

/-- The name behind `bin.` in a field name. -/
def binName (field : String) : Option String :=
  if "bin.".toList <+: field.toList then some (String.ofList (field.toList.drop 4)) else none

/-- `bin_refs`: the `{bin.<name>}` placeholders of the templates; malformed ones count for
nothing. -/
def binRefs (templates : List String) : List String :=
  templates.flatMap fun template =>
    let parsed := Python.parse template
    if parsed.error.isSome then [] else parsed.fields.filterMap fun field => binName field.name

/-- `service_bin_refs`. -/
def serviceBinRefs (svc : ServiceConfig) : List String :=
  binRefs (svc.cmd ++ svc.watch ++ svc.env.map Prod.snd ++ [svc.cwd.getD "", svc.ready.http.getD "",
    svc.ready.tcp.getD "", svc.ready.uds.getD "", svc.ready.path.getD ""])

/-- A normalised port spec. -/
inductive PortRange
  | auto
  | range (low high : ℕ)
deriving DecidableEq, Repr

/-- `str.partition` at one character. -/
def partition (c : Char) (s : List Char) : List Char × Bool × List Char :=
  let (before, rest) := s.span (· ≠ c)
  (before, !rest.isEmpty, rest.tail)

private theorem partition_eq (c : Char) (s : List Char) : partition c s =
    (s.takeWhile (· ≠ c), !(s.dropWhile (· ≠ c)).isEmpty, (s.dropWhile (· ≠ c)).tail) := by
  rw [partition, List.span_eq_takeWhile_dropWhile]

/-- `partition` finds the first occurrence. -/
theorem partition_append {c : Char} {s : List Char} (h : c ∉ s) (t : List Char) :
    partition c (s ++ c :: t) = (s, true, t) := by
  have hs : ∀ d ∈ s, decide (d ≠ c) = true := by
    rintro d hd
    rw [decide_eq_true_eq]
    rintro rfl
    exact h hd
  rw [partition_eq, List.takeWhile_append_of_pos hs, List.dropWhile_append_of_pos hs]
  simp

/-- `partition` finds nothing that is not there. -/
theorem partition_of_not_mem {c : Char} {s : List Char} (h : c ∉ s) :
    partition c s = (s, false, []) := by
  have hs : ∀ d ∈ s, decide (d ≠ c) = true := by
    rintro d hd
    rw [decide_eq_true_eq]
    rintro rfl
    exact h hd
  rw [partition_eq, List.takeWhile_eq_self_iff.mpr hs, List.dropWhile_eq_nil_iff.mpr hs]
  rfl

/-- The separator is found, and the text is put together again from its parts. -/
theorem partition_found {c : Char} {s : List Char} : (partition c s).2.1 = true ↔ c ∈ s := by
  by_cases h : c ∈ s
  · obtain ⟨before, after, rfl, hbefore⟩ := List.eq_append_cons_of_mem h
    rw [partition_append hbefore]
    exact iff_of_true rfl h
  · rw [partition_of_not_mem h]
    exact iff_of_false Bool.false_ne_true h

/-- `int` of a text. -/
def intOf (s : List Char) : Except ParseError ℕ :=
  match Python.toInt s with
  | some n => .ok n
  | none => .error .literal

def fixedPort (port : ℤ) : Option PortRange :=
  if 1 ≤ port ∧ port ≤ 65535 then some (.range port.toNat port.toNat) else none

/-- `isinstance(want, (int, str))`; a boolean is an integer. -/
def isIntOrStr : Toml → Bool
  | .str _ | .int _ | .bool _ => true
  | .float _ | .moment _ | .list _ | .table _ => false

/-- `parse_port_spec`; nothing for a malformed spec. A value that is neither an integer nor a
string has no `isdigit`. -/
def parsePortSpec : Toml → Except ParseError (Option PortRange)
  | .str want =>
    if want = "auto" then .ok (some .auto)
    else if Python.isDigit want.toList then do
      let port ← intOf want.toList
      .ok (fixedPort port)
    else
      let (low, dash, high) := partition '-' want.toList
      let (below, plus, rest) := partition '+' want.toList
      if dash && Python.isDigit high && Python.isDigit low then do
        let low ← intOf low
        let high ← intOf high
        .ok (if 1 ≤ low ∧ low ≤ high ∧ high ≤ 65535 then some (.range low high) else none)
      else if !dash && plus && rest.isEmpty && Python.isDigit below then do
        let low ← intOf below
        .ok (if 1 ≤ low ∧ low ≤ 65535 then some (.range low 65535) else none)
      else .ok none
  | .int want => .ok (fixedPort want)
  | .bool want => .ok (fixedPort (if want then 1 else 0))
  | .float _ | .moment _ | .list _ | .table _ => .error .attribute

/-- `parse_port_spec(want) if isinstance(want, (int, str)) else None`. -/
def checkedSpec (want : Toml) : Except ParseError (Option PortRange) :=
  if isIntOrStr want then parsePortSpec want else .ok none

/-- A templated spec. -/
def isTemplated : Toml → Bool
  | .str want => decide ('{' ∈ want.toList)
  | _ => false

/-- The waves of `start_order` over the services that remain with what they still wait for.
There are never more waves than services. -/
def startWaves : ℕ → List (String × List String) → List String → Except ParseError (List String)
  | _, [], order => .ok order
  | 0, _ :: _, order => .ok order
  | n + 1, remaining, order =>
    let ready := ((remaining.filter fun entry => entry.2.isEmpty).map Prod.fst).mergeSort
    if ready.isEmpty then
      let cycle := ", ".intercalate (remaining.map Prod.fst).mergeSort
      .error (.config s!"`after` dependencies form a cycle among: {cycle}")
    else
      startWaves n
        ((remaining.filter fun entry => entry.1 ∉ ready).map fun entry =>
          (entry.1, entry.2.filter fun dep => dep ∉ ready))
        (order ++ ready)

/-- `start_order`. -/
def startOrder (services : List (String × ServiceConfig)) : Except ParseError (List String) :=
  startWaves services.length (services.map fun entry => (entry.1, entry.2.after)) []

namespace OrchestratorConfig

variable (repr : Toml → String)

def reprStr (s : String) : String := repr (.str s)

/-- Every key of a table is a name. -/
def checkNames (kind : String) (names : List String) : Except ParseError Unit :=
  names.forM fun name =>
    if isName name then .ok ()
    else .error (.config s!"{kind} key {reprStr repr name} must match {namePattern}")

/-- Every port spec is well formed, and no two pin the same port; `fixed`: the ports pinned so
far. -/
def checkPorts : List (String × Toml) → List (ℕ × String) → Except ParseError Unit
  | [], _ => .ok ()
  | (name, want) :: ports, fixed =>
    if isTemplated want then checkPorts ports fixed
    else do
      match ← checkedSpec want with
      | none =>
        .error (.config (s!"ports.{name} = {repr want} is not a valid port spec " ++
          "(want \"auto\", 8000, \"8000+\" or \"8000-8020\")"))
      | some (.range low high) =>
        if low = high then
          match fixed.lookup low with
          | some other =>
            .error (.config s!"ports.{name} and ports.{other} both fixed to {low}")
          | none => checkPorts ports ((low, name) :: fixed)
        else checkPorts ports fixed
      | some .auto => checkPorts ports fixed

/-- The names a resolver provides are names that no other resolver provides; `provided`: those
so far, with their resolvers. -/
def checkProvides (rname : String) :
    List String → List (String × String) → Except ParseError (List (String × String))
  | [], provided => .ok provided
  | bin :: bins, provided =>
    if isName bin then
      match provided.lookup bin with
      | some other => .error (.config (s!"binary {reprStr repr bin} is provided by both " ++
          s!"resolvers {reprStr repr other} and {reprStr repr rname}"))
      | none => checkProvides rname bins ((bin, rname) :: provided)
    else .error (.config (s!"resolvers.{rname} provides {reprStr repr bin}, which must " ++
      s!"match {namePattern}"))

/-- A resolver without a list of names provides its own. -/
def withProvides (rname : String) (resolver : ResolverConfig) : ResolverConfig :=
  if resolver.provides.isEmpty then { resolver with provides := [rname] } else resolver

/-- The loop over the resolvers. -/
def checkResolvers (gates : List String) : List (String × ResolverConfig) →
    List (String × String) → Except ParseError (List (String × String))
  | [], provided => .ok provided
  | (rname, resolver) :: resolvers, provided => do
    let provided ← checkProvides repr rname (withProvides rname resolver).provides provided
    if !(binRefs resolver.cmd).isEmpty then
      throw (.config (s!"resolvers.{rname}: a resolver's own cmd cannot use " ++
        "\x7bbin.*\x7d placeholders"))
    match resolver.requires.find? (· ∉ gates) with
    | some gate =>
      throw (.config s!"resolvers.{rname} requires unknown gate {reprStr repr gate}")
    | none => checkResolvers gates resolvers provided

/-- The loop over the gates. -/
def checkGates (gates : List (String × GateConfig)) : Except ParseError Unit :=
  gates.forM fun (gname, gate) =>
    if (binRefs gate.check).isEmpty then .ok ()
    else .error (.config (s!"gates.{gname}: gate commands cannot use \x7bbin.*\x7d " ++
      "placeholders (gates run before binaries are resolved)"))

/-- The check of one entry of `after`. -/
def checkDep (services : List String) (sname dep : String) : Except ParseError Unit :=
  if dep = sname then .error (.config s!"service {reprStr repr sname} lists itself in `after`")
  else if dep ∈ services then .ok ()
  else .error (.config (s!"service {reprStr repr sname} is `after` unknown service " ++
    s!"{reprStr repr dep}"))

/-- The checks of one service. -/
def checkService (services gates provided : List String) (sname : String) (svc : ServiceConfig) :
    Except ParseError Unit := do
  svc.after.forM (checkDep repr services sname)
  svc.requires.forM fun gate =>
    if gate ∈ gates then .ok ()
    else .error (.config (s!"service {reprStr repr sname} requires unknown gate " ++
      s!"{reprStr repr gate}"))
  (serviceBinRefs svc).mergeSort.forM fun bin =>
    if bin ∈ provided then .ok ()
    else .error (.config (s!"service {reprStr repr sname} references \x7bbin.{bin}\x7d but " ++
      "no resolver provides it"))

/-- `_validate`; the resolvers without a list of names get theirs. -/
def validate (cfg : OrchestratorConfig) : Except ParseError OrchestratorConfig := do
  if cfg.services.isEmpty then throw (.config "at least one [services.<name>] is required")
  checkNames repr "ports" (cfg.ports.map Prod.fst)
  checkNames repr "gates" (cfg.gates.map Prod.fst)
  checkNames repr "resolvers" (cfg.resolvers.map Prod.fst)
  checkNames repr "services" (cfg.services.map Prod.fst)
  checkPorts repr cfg.ports []
  let provided ← checkResolvers repr (cfg.gates.map Prod.fst) cfg.resolvers []
  checkGates cfg.gates
  cfg.services.forM fun (sname, svc) =>
    checkService repr (cfg.services.map Prod.fst) (cfg.gates.map Prod.fst)
      (provided.map Prod.fst) sname svc
  let _ ← startOrder cfg.services
  return { cfg with
    resolvers := cfg.resolvers.map fun (r, resolver) => (r, withProvides r resolver) }

end OrchestratorConfig

end Jetty.Orchestrator
