import Jetty.Core.Failure
import Jetty.Core.Python.Dict
import Jetty.Core.Python.Text
import Jetty.Orchestrator.Config.Validate

/-!
# The output of a resolver

`parse_output` and what `_run_exec` makes of one execution of the script. The environment's part is
in the arguments: how the execution went, and what came of each binary's file. What is accepted
names exactly the binaries that the resolver provides.
-/

namespace Jetty.Orchestrator

open Failure Python

/-- `ResolveError`. -/
structure ResolveError where
  message : String
deriving DecidableEq, Repr

/-! ### Lines -/

def isSpace (c : Char) : Bool := Text.isSpace (Fin.ofNat _ c.toNat)

/-- A character at which `str.splitlines` ends a line. -/
def isBreak (c : Char) : Bool :=
  decide (c.toNat ∈ [0xA, 0xB, 0xC, 0xD, 0x1C, 0x1D, 0x1E, 0x85, 0x2028, 0x2029])

/-- The lines from here on; `line`: what has been read of the current one, backwards. -/
def linesFrom (line : List Char) : List Char → List (List Char)
  | [] => if line = [] then [] else [line.reverse]
  | '\r' :: '\n' :: cs => line.reverse :: linesFrom [] cs
  | c :: cs => if isBreak c then line.reverse :: linesFrom [] cs else linesFrom (c :: line) cs

/-- `str.splitlines`. -/
def splitlines (s : List Char) : List (List Char) := linesFrom [] s

/-- `str.lstrip`. -/
def lstrip (s : List Char) : List Char := s.dropWhile isSpace

/-- `str.strip`. -/
def stripLine (s : List Char) : List Char := ((lstrip s).reverse.dropWhile isSpace).reverse

/-! ### `parse_output` -/

section

variable (repr : String → String)

/-- The lines that count, stripped. -/
def outputLines (stdout : List Char) : List (List Char) :=
  ((splitlines stdout).filter fun line =>
    stripLine line ≠ [] && !decide (['#'] <+: lstrip line)).map stripLine

/-- One `name=path` line. -/
def parseLine (name : String) (provides : List String) (out : Dict String String)
    (line : List Char) : Except ResolveError (Dict String String) :=
  let (key, sep, value) := partition '=' line
  let key := String.ofList (stripLine key)
  let value := String.ofList (stripLine value)
  if !sep || key = "" || value = "" then
    .error ⟨s!"resolver {repr name}: unparseable output line {repr (String.ofList line)} " ++
      "(want name=path)"⟩
  else if key ∉ provides then
    .error ⟨s!"resolver {repr name} returned unknown name {repr key} " ++
      "(provides: " ++ String.intercalate ", " provides ++ ")"⟩
  else if key ∈ out.keys then
    .error ⟨s!"resolver {repr name} returned {repr key} twice"⟩
  else .ok (out.set key value)

/-- `parse_output`. -/
def parseOutput (name : String) (provides : List String) (stdout : List Char) :
    Except ResolveError (Dict String String) :=
  match provides, outputLines stdout with
  | [provided], [line] =>
    if '=' ∉ line then .ok (Dict.empty.set provided (String.ofList line))
    else parseLines [provided] [line]
  | provides, lines => parseLines provides lines
where
  parseLines (provides : List String) (lines : List (List Char)) :
      Except ResolveError (Dict String String) := do
    let out ← lines.foldlM (parseLine repr name provides) Dict.empty
    let missing := provides.filter fun p => p ∉ out.keys
    if missing = [] then return out
    else throw ⟨s!"resolver {repr name} did not return: " ++ String.intercalate ", " missing⟩

variable {repr : String → String} {name : String} {provides : List String}

private theorem parseLine_keys {out out' : Dict String String} {line : List Char}
    (h : parseLine repr name provides out line = .ok out') (hout : ∀ k ∈ out.keys, k ∈ provides) :
    ∀ k ∈ out'.keys, k ∈ provides := by
  unfold parseLine at h
  dsimp only at h
  split_ifs at h with hparsed hknown hfresh
  obtain rfl := Except.ok.inj h
  intro k hk
  rcases Dict.mem_keys_set.mp hk with hk | rfl
  · exact hout k hk
  · exact hknown

private theorem foldlM_parseLine_keys {lines : List (List Char)} {out out' : Dict String String}
    (h : lines.foldlM (parseLine repr name provides) out = .ok out')
    (hout : ∀ k ∈ out.keys, k ∈ provides) : ∀ k ∈ out'.keys, k ∈ provides := by
  induction lines generalizing out with
  | nil =>
      obtain rfl := Except.ok.inj h
      exact hout
  | cons line lines ih =>
      obtain ⟨next, hnext, h⟩ := bind_eq_ok.mp h
      exact ih h (parseLine_keys hnext hout)

/-- An accepted output names the binaries that the resolver provides, and no others. -/
theorem parseOutput_keys {stdout : List Char} {out : Dict String String}
    (h : parseOutput repr name provides stdout = .ok out) (k : String) :
    k ∈ out.keys ↔ k ∈ provides := by
  have hlines : ∀ provides lines, parseOutput.parseLines repr name provides lines = .ok out →
      (k ∈ out.keys ↔ k ∈ provides) := by
    intro provides lines h
    obtain ⟨out', hfold, h⟩ := bind_eq_ok.mp h
    dsimp only at h
    split at h
    · rename_i hmissing
      obtain rfl := Except.ok.inj h
      refine ⟨foldlM_parseLine_keys hfold (List.forall_mem_nil _) k, fun hk => ?_⟩
      by_contra hnot
      have hmem : k ∈ provides.filter fun p => p ∉ out'.keys :=
        List.mem_filter.mpr ⟨hk, decide_eq_true hnot⟩
      rw [hmissing] at hmem
      cases hmem
    · cases h
  unfold parseOutput at h
  split at h
  · split at h
    · obtain rfl := Except.ok.inj h
      rw [Dict.mem_keys_set, List.mem_singleton]
      exact or_iff_right (List.not_mem_nil)
    · exact hlines _ _ h
  · exact hlines _ _ h

end

/-! ### One execution -/

/-- How one execution of a resolver went. -/
inductive Execution
  /-- `create_subprocess_exec` raises the `OSError`. -/
  | notStarted (error : String)
  /-- The deadline has passed; `exited`: the process had exited, but a pipe was still open. -/
  | timedOut (exited : Bool)
  /-- What the process has printed; of `stderr`, what `stderr_tail` holds. -/
  | ended (returncode : ℤ) (stdout stderr : List Char)

/-- Why there is no local copy of a binary. -/
inductive CopyFailure
  | resolve (e : ResolveError)
  | os (error : String)

/-- What `_run` returns. -/
structure Resolved where
  binaries : Dict String String
  /-- The sources, if `copy` has rewritten the paths. -/
  sources : Option (Dict String String)
  fingerprints : Dict String String

/-- What the environment contributes to one run of a resolver. -/
structure Occurrence where
  execution : Execution
  /-- `materialize` of a binary's path: the local path and the fingerprint. -/
  copied : String → Except CopyFailure (String × String) := fun _ => .error (.os "")
  /-- The size and the modification time of a binary's file. -/
  stat : String → Option (ℕ × ℤ) := fun _ => none

/-- `_STDERR_TAIL`. -/
def stderrTail : ℕ := 2000

section

variable (repr : String → String) (seconds : Duration → String) (name : String)

/-- A loop over the binaries that fills a dictionary. -/
def collect {ν : Type} (f : String × String → Except ResolveError ν)
    (binaries : Dict String String) : Except ResolveError (Dict String ν) :=
  binaries.entries.foldlM (fun out entry => (f entry).map fun v => out.set entry.1 v) Dict.empty

/-- `_copy_all`. -/
def copyAll (o : Occurrence) (binaries : Dict String String) :
    Except ResolveError (Dict String (String × String)) :=
  collect (fun (bin, path) =>
    match o.copied bin with
    | .ok v => .ok v
    | .error (.resolve e) => .error ⟨s!"resolver {repr name}: {bin}: {e.message}"⟩
    | .error (.os e) =>
      .error ⟨s!"resolver {repr name}: copying {bin}={path} failed: {e}"⟩) binaries

/-- The fingerprints of binaries that are used in place. -/
def statAll (o : Occurrence) (binaries : Dict String String) :
    Except ResolveError (Dict String String) :=
  collect (fun (bin, path) =>
    match o.stat bin with
    | some (size, mtimeNs) => .ok s!"{size} {mtimeNs}"
    | none =>
      .error ⟨s!"resolver {repr name} returned {bin}={path}, which does not exist"⟩) binaries

/-- Every path is absolute. -/
def checkAbsolute (binaries : Dict String String) : Except ResolveError Unit :=
  binaries.entries.forM fun (bin, path) =>
    if ['/'] <+: path.toList then .ok ()
    else .error ⟨s!"resolver {repr name} returned {bin}={repr path}, which is not an absolute " ++
      "path (services run from their own cwd)"⟩

/-- `_run_exec`. -/
def runExec (cfg : ResolverConfig) (argv : List String) (o : Occurrence) :
    Except ResolveError Resolved :=
  match o.execution with
  | .notStarted e =>
    let program := argv.headD ""
    .error ⟨s!"resolver {repr name}: cannot run {repr program}: {e}"⟩
  | .timedOut exited =>
    .error ⟨s!"resolver {repr name} timed out after {seconds cfg.timeoutSeconds}s" ++
      if exited then " (the process exited, but something it spawned still holds its " ++
        "stdout/stderr open)" else ""⟩
  | .ended returncode stdout stderr =>
    if returncode ≠ 0 then
      let text := stripLine stderr
      let tail := text.drop (text.length - stderrTail)
      .error ⟨s!"resolver {repr name} exited {returncode}" ++
        if tail = [] then "" else s!"; stderr: {String.ofList tail}"⟩
    else do
      let binaries ← parseOutput repr name cfg.provides stdout
      checkAbsolute repr name binaries
      if cfg.copyBinaries then
        let copies ← copyAll repr name o binaries
        return {
          binaries := copies.mapValues Prod.fst
          sources := some binaries
          fingerprints := copies.mapValues Prod.snd }
      else
        let fingerprints ← statAll repr name o binaries
        return { binaries, sources := none, fingerprints }

variable {repr : String → String} {seconds : Duration → String} {name : String}

private theorem collect_keys {ν : Type} {f : String × String → Except ResolveError ν}
    {binaries : Dict String String} {out : Dict String ν} (h : collect f binaries = .ok out)
    (k : String) : k ∈ out.keys ↔ k ∈ binaries.keys := by
  have hfold : ∀ (l : List (String × String)) (d : Dict String ν),
      l.foldlM (fun out entry => (f entry).map fun v => out.set entry.1 v) d = .ok out →
      (k ∈ out.keys ↔ k ∈ d.keys ∨ k ∈ l.map Prod.fst) := by
    intro l
    induction l with
    | nil =>
        intro d hd
        obtain rfl := Except.ok.inj hd
        simp
    | cons entry l ih =>
        intro d hd
        obtain ⟨next, hnext, hd⟩ := bind_eq_ok.mp hd
        obtain ⟨v, -, rfl⟩ := map_eq_ok.mp hnext
        rw [ih _ hd, Dict.mem_keys_set, List.map_cons, List.mem_cons, or_assoc]
  rw [hfold _ _ h]
  exact or_iff_right List.not_mem_nil

/-- A run that succeeds has a path for each binary that the resolver provides, and no others. -/
theorem runExec_keys {cfg : ResolverConfig} {argv : List String} {o : Occurrence} {r : Resolved}
    (h : runExec repr seconds name cfg argv o = .ok r) (k : String) :
    k ∈ r.binaries.keys ↔ k ∈ cfg.provides := by
  unfold runExec at h
  split at h
  · cases h
  · cases h
  · split at h
    · cases h
    · obtain ⟨binaries, hparse, h⟩ := bind_eq_ok.mp h
      obtain ⟨u, -, h⟩ := bind_eq_ok.mp h
      rw [← parseOutput_keys hparse]
      split at h
      · obtain ⟨copies, hcopies, h⟩ := bind_eq_ok.mp h
        obtain rfl := Except.ok.inj h
        rw [Dict.keys_mapValues]
        exact collect_keys hcopies k
      · obtain ⟨fingerprints, -, h⟩ := bind_eq_ok.mp h
        obtain rfl := Except.ok.inj h
        exact Iff.rfl

end

end Jetty.Orchestrator
