import Jetty.Orchestrator.Config.Validate

/-!
# Rendering placeholders

Commands, environments, probes, paths and port specs are templates. Field names are flat keys
of a context, apart from `env.NAME`, which reads the environment.
-/

namespace Jetty.Orchestrator

open Python

/-- What rendering asks the interpreter and the file system. -/
structure Host where
  /-- `os.environ.get`. -/
  environ : String → Option String
  /-- `os.path.expanduser`. -/
  expanduser : String → String
  /-- `os.path.realpath`. -/
  realpath : String → String
  realpath_abs : ∀ path, (realpath path).toList.head? = some '/'
  /-- `repr` and `ascii` of a string. -/
  repr : String → String
  ascii : String → String
  /-- `str` of an `_EnvValue`, which names its address. -/
  objectRepr : String

inductive RenderError
  | unknownPlaceholder (field : String) (known : List String)
  | badSpec (spec name : String)
  | unset (name : String)
  | badTemplate (template : String) (e : FormatError)
  | outside (what value resolved base : String)
  | badSplit (what element : String) (e : ShlexError)
  /-- Another error, raised by an element that is nothing but an env placeholder. -/
  | inElement (what element : String) (e : RenderError)
  | emptyCommand (what : String)
  | sunPath (path : String) (bytes : ℕ)
  | badPortSpec (name want rendered : String)
deriving DecidableEq, Repr

/-- What rendering raises: a `RenderError`, or the `ValueError` of `int` on a port. -/
inductive Raised
  | render (e : RenderError)
  | literal
deriving DecidableEq, Repr

/-- The error is about an unknown placeholder. -/
def RenderError.isUnknown : RenderError → Bool
  | .unknownPlaceholder _ _ => true
  | .inElement _ _ e => e.isUnknown
  | _ => false

/-- A `RenderError` about an unknown placeholder. -/
def Raised.isUnknown : Raised → Bool
  | .render e => e.isUnknown
  | .literal => false

abbrev Context := List (String × String)

/-- A value between look-up and formatting. -/
inductive RenderValue
  | text (s : String)
  | env (name : String) (value : Option String)
deriving DecidableEq, Repr

/-- Without the newline that `$` allows at the end. -/
def stripNewline (s : List Char) : List Char :=
  if s.getLast? = some '\n' then s.dropLast else s

def isWordChar (c : Char) : Bool :=
  decide ('a' ≤ c) && decide (c ≤ 'z') || decide ('A' ≤ c) && decide (c ≤ 'Z') ||
    decide ('0' ≤ c) && decide (c ≤ '9') || c == '_'

/-- `[A-Za-z_][A-Za-z0-9_]*`. -/
def isVariable : List Char → Bool
  | [] => false
  | c :: cs => isWordChar c && !(decide ('0' ≤ c) && decide (c ≤ '9')) && cs.all isWordChar

/-- The group of a match of `_ENV_FIELD`. -/
def envField (field : String) : Option String :=
  let cs := field.toList
  let name := stripNewline (cs.drop 4)
  if "env.".toList <+: cs ∧ isVariable name = true then some (String.ofList name) else none

/-- The default in `_ENV_STANDALONE`, if any. -/
def isDefault : List Char → Bool
  | [] => true
  | ':' :: '-' :: cs => cs.all fun c => c != '{' && c != '}'
  | _ => false

/-- A match of `_ENV_STANDALONE`. -/
def envStandalone (element : String) : Bool :=
  let cs := stripNewline element.toList
  let inner := (cs.drop 5).dropLast
  let (name, rest) := inner.span isWordChar
  decide ("\x7benv.".toList <+: cs) && cs.getLast? == some '}' && decide (6 ≤ cs.length) &&
    isVariable name && isDefault rest

/-- The names of a context, sorted. -/
def known (ctx : Context) : List String := (ctx.map Prod.fst).mergeSort

/-- `get_field`. -/
def getField (host : Host) (ctx : Context) (field : String) :
    Except (FormatError ⊕ RenderError) RenderValue :=
  match envField field with
  | some name => .ok (.env name (host.environ name))
  | none =>
    match ctx.lookup field with
    | some value => .ok (.text value)
    | none => .error (.inr (.unknownPlaceholder field (known ctx)))

/-- `format_field`. -/
def formatField : RenderValue → String → Except (FormatError ⊕ RenderError) String
  | .env name value, spec =>
    match spec.toList with
    | '-' :: default =>
      .ok (match value with
        | some v => if v = "" then String.ofList default else v
        | none => String.ofList default)
    | _ :: _ => .error (.inr (.badSpec spec name))
    | [] =>
      match value with
      | some v => .ok v
      | none => .error (.inr (.unset name))
  | .text value, spec => (formatStr value spec).mapError .inl

/-- `_Formatter`. -/
def formatter (host : Host) (ctx : Context) :
    Formatter RenderValue (FormatError ⊕ RenderError) where
  getField := getField host ctx
  formatField := formatField
  str
    | .text s => .text s
    | .env _ _ => .text host.objectRepr
  repr
    | .text s => .text (host.repr s)
    | .env _ _ => .text host.objectRepr
  ascii
    | .text s => .text (host.ascii s)
    | .env _ _ => .text (host.ascii host.objectRepr)
  valueError := .inl

/-- `build_context`. -/
def buildContext (host : Host) (instanceName : String) (ports : List (String × ℕ))
    (stateDir logsDir : String) : Context :=
  [("instance.name", instanceName), ("state_dir", stateDir), ("logs_dir", logsDir),
    ("home", host.expanduser "~")] ++
    ports.map fun (name, port) => ("ports." ++ name, toString port)

/-- `render_str`. -/
def renderStr (host : Host) (ctx : Context) (template : String) : Except Raised String :=
  ((formatter host ctx).vformat template).mapError fun
    | .inl e => .render (.badTemplate template e)
    | .inr e => .render e

/-- `os.path.isabs`. -/
def isAbs (path : String) : Bool := path.toList.head? == some '/'

/-- `os.path.join` with a relative path. -/
def joinPath (base value : String) : String :=
  if base.toList.getLast?.all (· == '/') then base ++ value else base ++ "/" ++ value

/-- A host without environment variables. -/
def bareHost : Host where
  environ _ := none
  expanduser path := path
  realpath path := if isAbs path then path else "/" ++ path
  realpath_abs path := by
    split
    · rename_i h
      exact beq_iff_eq.mp h
    · rw [String.toList_append]
      rfl
  repr s := "'" ++ s ++ "'"
  ascii s := "'" ++ s ++ "'"
  objectRepr := "<jetty.orchestrator.render._EnvValue object>"

/-- `resolve_config_path`. -/
def resolveConfigPath (host : Host) (configDir what value : String) : Except Raised String :=
  let value :=
    if value.toList.head? = some '~' then
      if isAbs (host.expanduser value) then host.expanduser value else value
    else value
  if isAbs value then .ok value
  else
    let base := host.realpath configDir
    let resolved := host.realpath (joinPath base value)
    if resolved ≠ base ∧ ¬ (base ++ "/").toList <+: resolved.toList then
      .error (.render (.outside what value resolved base))
    else .ok resolved

/-- `resolve_command`. -/
def resolveCommand (host : Host) (configDir what : String) :
    List String → Except Raised (List String)
  | [] => .error (.render (.emptyCommand what))
  | arg :: args =>
    if '/' ∈ arg.toList then do
      let arg ← resolveConfigPath host configDir what arg
      .ok (arg :: args)
    else .ok (arg :: args)

/-- The words that one element of a command stands for. -/
def renderElement (host : Host) (ctx : Context) (what element : String) :
    Except Raised (List String) :=
  if envStandalone element then do
    let text ← (renderStr host ctx element).mapError fun
      | .render e => .render (.inElement what element e)
      | .literal => .literal
    (shlexSplit text).mapError fun e => .render (.badSplit what element e)
  else (renderStr host ctx element).map fun text => [text]

/-- `render_argv`. -/
def renderArgv (host : Host) (ctx : Context) (configDir what : String) (elements : List String) :
    Except Raised (List String) := do
  let out ← elements.mapM (renderElement host ctx what)
  resolveCommand host configDir what out.flatten

/-- `_SUN_PATH_MAX`. -/
def sunPathMax : ℕ := 107

/-- A template that is absent or empty is not rendered. -/
def renderOptional (render : String → Except Raised String) (template : Option String) :
    Except Raised (Option String) :=
  match template.filter (· ≠ "") with
  | some t => some <$> render t
  | none => .ok none

/-- A path of a service. -/
def renderPath (host : Host) (ctx : Context) (configDir what template : String) :
    Except Raised String := do
  let path ← renderStr host ctx template
  resolveConfigPath host configDir what path

/-- The socket of a probe, which has to fit into a socket address. -/
def renderUds (host : Host) (ctx : Context) (configDir template : String) :
    Except Raised String := do
  let path ← renderPath host ctx configDir "ready.uds" template
  if sunPathMax < path.utf8ByteSize then .error (.render (.sunPath path path.utf8ByteSize))
  else .ok path

/-- The directory a service runs in. -/
def renderCwd (host : Host) (ctx : Context) (configDir : String) (defaultCwd cwd : Option String) :
    Except Raised String := do
  let cwd ←
    match cwd with
    | some template => renderStr host ctx template
    | none => .ok (defaultCwd.getD configDir)
  resolveConfigPath host configDir "cwd" cwd

/-- `render_service`. -/
def renderService (host : Host) (ctx : Context) (configDir : String) (defaultCwd : Option String)
    (svc : ServiceConfig) : Except Raised RenderedService := do
  let cmd ← renderArgv host ctx configDir "cmd" svc.cmd
  let cwd ← renderCwd host ctx configDir defaultCwd svc.cwd
  let readyPath ← renderOptional (renderPath host ctx configDir "ready.path") svc.ready.path
  let readyUds ← renderOptional (renderUds host ctx configDir) svc.ready.uds
  let env ← svc.env.mapM fun (k, v) => (renderStr host ctx v).map fun v => (k, v)
  let readyHttp ← renderOptional (renderStr host ctx) svc.ready.http
  let readyTcp ← renderOptional (renderStr host ctx) svc.ready.tcp
  let watch ← svc.watch.mapM (renderPath host ctx configDir "watch")
  return { cmd, cwd := some cwd, env, readyHttp, readyTcp, readyUds, readyPath, watch }

/-- `render_gate_argv`. -/
def renderGateArgv (host : Host) (ctx : Context) (configDir : String) (gate : GateConfig) :
    Except Raised (List String) :=
  renderArgv host ctx configDir "gate check" gate.check

/-- One templated port spec. -/
def renderPortSpec (host : Host) (ctx : Context) (name want : String) : Except Raised String := do
  let rendered ← renderStr host ctx want
  match parsePortSpec (.str rendered) with
  | .ok (some _) => .ok rendered
  | .ok none => .error (.render (.badPortSpec name want rendered))
  | .error _ => .error .literal

/-- `render_port_specs`. -/
def renderPortSpecs (host : Host) (ctx : Context) (ports : List (String × Toml)) :
    Except Raised (List (String × Toml)) :=
  ports.mapM fun (name, want) =>
    match want with
    | .str template =>
      if isTemplated want then
        (renderPortSpec host ctx name template).map fun rendered => (name, .str rendered)
      else .ok (name, want)
    | _ => .ok (name, want)

/-- The context of the check, with a dummy for every port and every binary. -/
def checkContext (host : Host) (cfg : OrchestratorConfig) : Context :=
  buildContext host cfg.inst.name (cfg.ports.map fun (name, _) => (name, 1)) "/dev/null"
    "/dev/null" ++
  cfg.resolvers.flatMap fun (_, resolver) =>
    resolver.provides.map fun provided => ("bin." ++ provided, "/dev/null")

/-- The default directory of the instance's processes. -/
def renderWorkdir (host : Host) (ctx : Context) (configDir : String) (inst : InstanceConfig) :
    Except Raised String :=
  match inst.workdir with
  | some template => renderPath host ctx configDir "instance.workdir" template
  | none => .ok configDir

/-- `validate_templates`. -/
def validateTemplates (host : Host) (cfg : OrchestratorConfig) (configDir : String) :
    Except Raised Unit := do
  let _ ← renderPortSpecs host (buildContext host cfg.inst.name [] "/dev/null" "/dev/null")
    cfg.ports
  let ctx := checkContext host cfg
  let _ ← renderWorkdir host ctx configDir cfg.inst
  let _ ← cfg.services.mapM fun (_, svc) => renderService host ctx configDir none svc
  let _ ← cfg.gates.mapM fun (_, gate) => renderGateArgv host ctx configDir gate
  let _ ← cfg.resolvers.mapM fun (rname, resolver) =>
    renderArgv host ctx configDir s!"resolvers.{rname} cmd" resolver.cmd
  return ()

/-- What one `up` decides before anything is rendered, and what it finds out. -/
structure Occasion where
  name : String
  stateDir : String
  logsDir : String
  /-- The ports that `allocate_ports` hands out. -/
  port : String → ℕ
  objectRepr : String

/-- What `Supervisor.run` renders before the first service. -/
structure Rendered where
  ctx : Context
  workdir : String
  gates : List (String × List String)
  resolvers : List (String × List String)

/-- The static rendering of `Supervisor.run`. -/
def renderStatic (host : Host) (cfg : OrchestratorConfig) (configDir : String) (launch : Occasion) :
    Except Raised Rendered := do
  let host := { host with objectRepr := launch.objectRepr }
  let _ ← renderPortSpecs host (buildContext host launch.name [] launch.stateDir launch.logsDir)
    cfg.ports
  let ctx := buildContext host launch.name (cfg.ports.map fun (name, _) => (name, launch.port name))
    launch.stateDir launch.logsDir
  let workdir ← renderWorkdir host ctx configDir cfg.inst
  let gates ← cfg.gates.mapM fun (gname, gate) =>
    (renderGateArgv host ctx configDir gate).map fun argv => (gname, argv)
  let resolvers ← cfg.resolvers.mapM fun (rname, resolver) =>
    (renderArgv host ctx configDir s!"resolvers.{rname} cmd" resolver.cmd).map fun argv =>
      (rname, argv)
  return { ctx, workdir, gates, resolvers }

/-- `_by_bin` of the resolvers. -/
def byBin (resolvers : List (String × ResolverConfig)) (bin : String) : Option String :=
  (resolvers.reverse.find? fun entry => entry.2.provides.contains bin).map Prod.fst

/-- `resolver_names`. -/
def resolverNames (resolvers : List (String × ResolverConfig)) (bins : List String) :
    List String :=
  (bins.filterMap (byBin resolvers)).dedup

/-- `context_for`, with the paths that the resolvers answer. -/
def contextFor (resolvers : List (String × ResolverConfig)) (path : String → String)
    (bins : List String) : Context :=
  (resolverNames resolvers bins).mergeSort.flatMap fun rname =>
    (resolvers.filter fun entry => entry.1 = rname).flatMap fun entry =>
      entry.2.provides.map fun bin => ("bin." ++ bin, path bin)

/-- The `render` of a service, with every resolver succeeding. -/
def renderLaunched (host : Host) (cfg : OrchestratorConfig) (configDir : String) (launch : Occasion)
    (st : Rendered) (path : String → String) (svc : ServiceConfig) :
    Except Raised RenderedService :=
  renderService { host with objectRepr := launch.objectRepr }
    (contextFor cfg.resolvers path (serviceBinRefs svc) ++ st.ctx) configDir (some st.workdir) svc

end Jetty.Orchestrator
