import Jetty.Orchestrator.Render.Render

/-!
# Inheritance between configuration files

`load_raw` follows the `extends` chain of a file and merges the tables on the way back. What the
interpreter's stack allows is not modelled: a chain is followed as far as its fuel goes.
-/

namespace Jetty.Orchestrator

/-- `_resolve_extends`. -/
def resolveExtends (host : Host) (value configDir : String) : Except ParseError String :=
  let value :=
    if value.toList.head? = some '~' then
      if isAbs (host.expanduser value) then host.expanduser value else value
    else value
  if isAbs value then .ok value
  else
    let base := host.realpath configDir
    let resolved := host.realpath (joinPath base value)
    if resolved ≠ base ∧ ¬ (base ++ "/").toList <+: resolved.toList then
      .error (.config (s!"extends: relative path {host.repr value} resolves to {resolved}, " ++
        "outside " ++
        s!"this config's directory ({base}); relative paths may only reach the config's own " ++
        "subtree — use an absolute path if this is intentional"))
    else .ok resolved

/-! ### Tables -/

/-- `table[key] = value`: a known key keeps its place. -/
def setKey (table : List (String × Toml)) (key : String) (value : Toml) : List (String × Toml) :=
  if key ∈ table.map Prod.fst then table.map fun e => if e.1 = key then (key, value) else e
  else table ++ [(key, value)]

/-- `table.pop(key, None)`. -/
def popKey (table : List (String × Toml)) (key : String) : List (String × Toml) :=
  table.filter fun e => e.1 ≠ key

/-- `merge_raw`. -/
def mergeRaw (base : List (String × Toml)) : List (String × Toml) → List (String × Toml)
  | [] => base
  | (key, .table value) :: override =>
    match base.lookup key with
    | some (.table inherited) =>
      mergeRaw (setKey base key (.table (mergeRaw inherited value))) override
    | _ => mergeRaw (setKey base key (.table value)) override
  | (key, .bool false) :: override =>
    match base.lookup key with
    -- the delete sentinel for inherited tables
    | some (.table _) => mergeRaw (popKey base key) override
    | _ => mergeRaw (setKey base key (.bool false)) override
  | (key, value) :: override => mergeRaw (setKey base key value) override

/-! ### Files -/

/-- What comes of reading and parsing a file. -/
inductive ReadOutcome
  | parsed (raw : List (String × Toml))
  /-- `TOMLDecodeError`, with its message. -/
  | malformed (message : String)
  /-- `FileNotFoundError`. -/
  | missing
  /-- Another `OSError`, or a text that is not UTF-8. -/
  | unreadable

/-- What `load_raw` raises. -/
inductive LoadError
  | parse (e : ParseError)
  | unreadable
deriving DecidableEq, Repr

/-- A `ConfigError`. -/
def LoadError.config (message : String) : LoadError := .parse (.config message)

/-- `str(Path(real).parent)` of a resolved path. -/
def parentDir (real : String) : String :=
  match (real.toList.reverse.dropWhile (· ≠ '/')).tail.reverse with
  | [] => "/"
  | dir => String.ofList dir

variable (host : Host) (files : String → ReadOutcome)

/-- `load_raw`; `files`: what comes of reading the file of a resolved path. Nothing where the fuel
runs out. -/
def loadRaw : ℕ → String → List String → Option (Except LoadError (List (String × Toml)))
  | 0, _, _ => none
  | fuel + 1, path, seen =>
    let real := host.realpath path
    if real ∈ seen then some (.error (.config s!"extends cycle involving {path}"))
    else
      match files real with
      | .missing => some (.error (.config s!"config file not found: {path}"))
      | .malformed e => some (.error (.config s!"{path}: {e}"))
      | .unreadable => some (.error .unreadable)
      | .parsed raw =>
        match raw.lookup "extends" with
        | none => some (.ok raw)
        | some (.str value) =>
          match resolveExtends host value (parentDir real) with
          | .error e => some (.error (.parse e))
          | .ok parent =>
            (loadRaw fuel parent (real :: seen)).map fun result =>
              result.map fun base => mergeRaw base (popKey raw "extends")
        | some _ => some (.error (.config s!"{path}: extends must be a path string"))

end Jetty.Orchestrator
