import Jetty.Orchestrator.Config.Types
import Jetty.Core.Python.Shlex
import Mathlib.Data.Nat.Log

/-!
# Tables of a configuration file

Parsed TOML, and the typed accessors of one table. An accessor takes its key out of the
table, and `done` rejects what is left.
-/

namespace Jetty.Orchestrator

/-- A TOML float. -/
inductive TomlFloat
  | finite (q : ℚ)
  | inf
  | negInf
  | nan
deriving DecidableEq

/-- A TOML value; of dates and times only the text. -/
inductive Toml
  | str (s : String)
  | int (n : ℤ)
  | float (x : TomlFloat)
  | bool (b : Bool)
  | moment (text : String)
  | list (xs : List Toml)
  | table (entries : List (String × Toml))

/-- Why a configuration is rejected: `ConfigError` with its message, the `OverflowError` of
`float` on an integer that is too large, the `ValueError` of `int` on a text, or the
`AttributeError` of a value that has no `isdigit`. -/
inductive ParseError
  | config (message : String)
  | overflow
  | literal
  | attribute
deriving DecidableEq, Repr

/-- `float` of an integer: the nearest number of 53 significant bits, ties to even. -/
def floatOfInt (n : ℤ) : Option ℚ :=
  let e := n.natAbs.log2 + 1 - 53
  let quotient := n.natAbs / 2 ^ e
  let remainder := n.natAbs % 2 ^ e
  let up := 2 ^ e < remainder * 2 || (remainder * 2 == 2 ^ e && quotient % 2 == 1)
  let magnitude := (if up then quotient + 1 else quotient) * 2 ^ e
  if magnitude < 2 ^ 1024 then some (if n < 0 then -(magnitude : ℚ) else magnitude) else none

/-- A table: its keys that are left, and where it stands in the file. -/
abbrev Take := ReaderT String (StateT (List (String × Toml)) (Except ParseError))

namespace Take

def fail {α : Type} (message : String) : Take α := throw (.config message)

/-- `_Table.at`. -/
def place (key : String) : Take String := do
  let loc ← read
  return if loc = "" then key else loc ++ "." ++ key

/-- Take the value of a key out of the table. -/
def pop (key : String) : Take (Option Toml) := do
  let raw ← get
  set (raw.filter fun entry => entry.1 ≠ key)
  return raw.lookup key

def takeStr (key : String) : Take (Option String) := do
  match ← pop key with
  | none => return none
  | some (.str s) => return some s
  | some _ => fail s!"{← place key} must be a string"

/-- `take_str` with `required=True`. -/
def takeRequiredStr (key : String) : Take String := do
  match ← takeStr key with
  | some s => return s
  | none => fail s!"{← place key} is required"

/-- `take_number`; `strict`: the bound 0 is excluded. -/
def takeNumber (key : String) (default : Duration) (strict : Bool) : Take Duration := do
  let bound := if strict then "> 0" else ">= 0"
  let within (q : ℚ) : Take Duration := do
    if if strict then 0 < q else 0 ≤ q then return q
    else fail s!"{← place key} must be {bound}"
  match ← pop key with
  | none => return default
  | some (.int n) =>
    match floatOfInt n with
    | some q => within q
    | none => throw .overflow
  | some (.float (.finite q)) => within q
  | some (.float .inf) => return ⊤
  | some (.float _) => fail s!"{← place key} must be {bound}"
  | some _ => fail s!"{← place key} must be a number"

/-- `take_int` with a lower bound. -/
def takeInt (key : String) (default ge : ℕ) : Take ℕ := do
  match ← pop key with
  | none => return default
  | some (.int n) =>
    if ge ≤ n then return n.toNat else fail s!"{← place key} must be >= {ge}"
  | some _ => fail s!"{← place key} must be an integer"

def takeBool (key : String) (default : Bool) : Take Bool := do
  match ← pop key with
  | none => return default
  | some (.bool b) => return b
  | some _ => fail s!"{← place key} must be true or false"

def strings : List Toml → Option (List String)
  | [] => some []
  | .str s :: xs => (strings xs).map (s :: ·)
  | _ :: _ => none

def takeStrList (key : String) (minLen : ℕ) : Take (List String) := do
  let value ← pop key
  match value.elim (some []) fun | .list xs => strings xs | _ => none with
  | none => fail s!"{← place key} must be a list of strings"
  | some xs =>
    if xs.length < minLen then
      let entries := if minLen = 1 then "entry" else "entries"
      fail s!"{← place key} needs at least {minLen} {entries}"
    else return xs

/-- `take_argv`: a list of strings, or one string that is split shell-style. -/
def takeArgv (key : String) (minLen : ℕ) : Take (List String) := do
  match (← get).lookup key with
  | some (.str s) =>
    match Python.shlexSplit s with
    | .ok words => modify fun raw => (key, .list (words.map .str)) :: raw.filter (·.1 ≠ key)
    | .error e => fail s!"{← place key}: {e.message}"
  | _ => pure ()
  takeStrList key minLen

def ints : List Toml → Option (List ℤ)
  | [] => some []
  | .int n :: xs => (ints xs).map (n :: ·)
  | _ :: _ => none

def takeIntList (key : String) (default : List ℤ) : Take (List ℤ) := do
  let value ← pop key
  match value.elim (some default) fun | .list xs => ints xs | _ => none with
  | none => fail s!"{← place key} must be a list of integers"
  | some xs => return xs

def stringEntries : List (String × Toml) → Option (List (String × String))
  | [] => some []
  | (k, .str s) :: xs => (stringEntries xs).map ((k, s) :: ·)
  | _ :: _ => none

def takeStrDict (key : String) : Take (List (String × String)) := do
  let value ← pop key
  match value.elim (some []) fun | .table xs => stringEntries xs | _ => none with
  | none => fail s!"{← place key} must be a table of strings"
  | some xs => return xs

def takeChoice {α : Type} (key : String) (choices : List (String × α)) (default : α) :
    Take α := do
  let names := ", ".intercalate (choices.map Prod.fst)
  match ← pop key with
  | none => return default
  | some (.str s) =>
    match choices.lookup s with
    | some choice => return choice
    | none => fail s!"{← place key} must be one of: {names}"
  | some _ => fail s!"{← place key} must be one of: {names}"

def takeTable (key : String) : Take (List (String × Toml)) := do
  match ← pop key with
  | none => return []
  | some (.table entries) => return entries
  | some _ => fail s!"{← place key} must be a table"

/-- `done`. -/
def finish (repr : Toml → String) : Take Unit := do
  let raw ← get
  if raw.isEmpty then return ()
  let loc ← read
  let keys := ", ".intercalate ((raw.map Prod.fst).mergeSort.map fun key => repr (.str key))
  let place := if loc = "" then "config" else loc
  fail s!"{place}: unknown key(s) {keys}"

/-- Parse one table and reject the keys that are left. -/
def parse {α : Type} (repr : Toml → String) (raw : Toml) (loc : String) (take : Take α) :
    Except ParseError α :=
  match raw with
  | .table entries => ((take <* finish repr).run loc).run' entries
  | _ =>
    let name := if loc = "" then "config" else loc
    .error (.config s!"{name}: expected a table")

end Take

end Jetty.Orchestrator
