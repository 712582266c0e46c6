import Jetty.Core.Files.Directory
import Jetty.Core.Python.Words
import Jetty.Core.Transition
import Jetty.Orchestrator.Config.Types

/-!
# Copies of binaries

`materialize` by its single steps on a shared bin root: the calls of any number of threads of
any number of supervisors, their crashes, and what happens to the sources meanwhile. A file
that is open is an inode; everything else goes by name. Different sources are assumed to have
different digests, and no source's basename is `.tmp-` and the pid of a supervisor.
-/

namespace Jetty.Orchestrator

open Files

/-- The entries of a bin root. -/
inductive BinName
  /-- `.tmp-{pid}-{digest}`. -/
  | tmp (pid : ℕ) (source : String)
  /-- `{basename}-{digest}`. -/
  | dest (source : String)
  /-- `{basename}-{digest}.src`. -/
  | sidecar (source : String)
deriving DecidableEq

/-- `os.path.basename`. -/
def basename (path : List Char) : List Char :=
  (path.reverse.takeWhile fun c => c ≠ '/').reverse

/-- `entry.name.startswith(".tmp-")`. -/
def BinName.startsTmp : BinName → Bool
  | .tmp .. => true
  | .dest source | .sidecar source => decide (".tmp-".toList <+: basename source.toList)

/-- A version of a source. -/
structure SourceFile where
  content : List UInt8
  mtimeNs : ℤ
  /-- `stat.S_ISREG`. -/
  regular : Bool := true
deriving DecidableEq

/-- `f"{st_size} {st_mtime_ns}"`. -/
def SourceFile.fingerprint (f : SourceFile) : List UInt8 :=
  (s!"{f.content.length} {f.mtimeNs}").toUTF8.toList

/-- `meta.read_text()` of a sidecar with these bytes, as the bytes of the text; nothing where it
raises `UnicodeDecodeError`. -/
def sidecarText (bytes : List UInt8) : Option (List UInt8) :=
  (Python.Text.readText (bytes.map UInt8.toNat)).map fun text =>
    ((Python.Text.encode text).getD []).map UInt8.ofNat

/-- Why a call of `materialize` raised. -/
inductive CopyError
  /-- The source is unreachable and there is no copy; with the time of the copy that a prune
  has removed, if it was there once. -/
  | unreachable (lost : Option ℚ)
  | notRegular
  /-- The temporary file is gone. -/
  | missingTmp
  /-- `UnicodeDecodeError`: the sidecar is not UTF-8. -/
  | undecodable
  /-- Any other `OSError`: what the environment does to a call. -/
  | os
deriving DecidableEq

/-- The next step of a call. -/
inductive CopyPc
  /-- `time.time()` and `root.iterdir()`. -/
  | listing
  /-- `entry.stat()` of the next entry. -/
  | pruning (rest : List BinName)
  /-- `entry.unlink()`. -/
  | unlinking (name : BinName) (rest : List BinName)
  /-- `os.stat(source)`. -/
  | statSource
  /-- `dest.exists()` once the source was found unreachable. -/
  | lookForCopy
  /-- `dest.exists()` in front of `meta.read_text()`. -/
  | lookForDest
  /-- `meta.read_text() == fingerprint`. -/
  | readMeta
  /-- `shutil.copy2`: `open(source, "rb")`. -/
  | openSource
  /-- `open(tmp, "wb")`. -/
  | openTmp (file : ℕ)
  /-- The data is copied from the open source to the open temporary file. -/
  | copying (file tmp offset : ℕ)
  /-- `copystat`: `os.utime` with the times of the source. -/
  | copyTimes
  /-- `copystat`: `os.chmod`. -/
  | copyMode
  /-- `os.replace(tmp, dest)`. -/
  | rename
  /-- `meta.write_text`: `open(meta, "w")`. -/
  | openMeta
  /-- The write itself. -/
  | writeMeta (sidecar : ℕ)
  /-- `os.utime(dest)`; `reads`: the sidecar is still to be read. -/
  | touchDest (reads : Bool)
  | touchMeta (reads : Bool)
  /-- `meta.read_text()` for the fingerprint of an unreachable source. -/
  | readBack
  | returned
  | raised (e : CopyError)
deriving DecidableEq

/-- The temporary file is open, or closed and not renamed yet. -/
def CopyPc.hasTmp : CopyPc → Bool
  | .copying .. | .copyTimes | .copyMode | .rename => true
  | _ => false

/-- The copy is renamed, and its sidecar is not written yet. -/
def CopyPc.owesMeta : CopyPc → Bool
  | .openMeta | .writeMeta _ => true
  | _ => false

/-- The fingerprint of a copy without a sidecar. -/
def unknownFingerprint : List UInt8 := "unknown".toUTF8.toList

/-- A call of `materialize`. -/
structure CopyCall where
  pid : ℕ
  source : String
  keepDays : Duration
  /-- The time taken at the start of `_prune`. -/
  now : ℚ := 0
  fingerprint : List UInt8 := []
  pc : CopyPc := .listing
deriving DecidableEq

/-- `_prune`'s test of an entry by its modification time. -/
def CopyCall.stale (c : CopyCall) (name : BinName) (mtime : ℚ) : Bool :=
  let age : Duration := (c.now - mtime : ℚ)
  decide ((if name.startsTmp then ((3600 : ℚ) : Duration)
    else c.keepDays.map (· * 86400)) < age)

/-- A bin root with the calls at work in it, and the sources. -/
structure BinRoot where
  now : ℚ := 0
  /-- The file that the source path names; nothing while it is unreachable. -/
  source : String → Option ℕ := fun _ => none
  file : ℕ → SourceFile := fun _ => ⟨[], 0, true⟩
  /-- The number of files so far. -/
  files : ℕ := 0
  /-- The versions that each source has had. -/
  versions : String → List SourceFile := fun _ => []
  root : Directory BinName := Directory.empty
  /-- The modification time of the copy of a source that a prune has removed. -/
  lost : String → Option ℚ := fun _ => none
  call : ℕ → Option CopyCall := fun _ => none
  /-- The number of calls so far. -/
  calls : ℕ := 0

inductive BinEvent
  | clock (now : ℚ)
  /-- A new file appears under the source path. -/
  | publish (source : String) (f : SourceFile)
  /-- The file under the source path is written in place. -/
  | overwrite (source : String) (f : SourceFile)
  | vanish (source : String)
  | begin (pid : ℕ) (source : String) (keepDays : Duration)
  /-- The listing of the root; the directory may change while it is read. -/
  | listed (id : ℕ) (names : List BinName)
  /-- Up to `n` bytes are copied. -/
  | copied (id n : ℕ)
  /-- The next step of a call. -/
  | next (id : ℕ)
  /-- The next step of a call fails with an `OSError` of the environment. -/
  | fault (id : ℕ)
  /-- A supervisor crashes. -/
  | crash (pid : ℕ)

namespace BinRoot

def setCall (S : BinRoot) (id : ℕ) (c : CopyCall) : BinRoot :=
  { S with call := Function.update S.call id (some c) }

/-- The modification time of an entry. -/
def mtime (S : BinRoot) (name : BinName) : Option ℚ :=
  (S.root.entry name).map fun i => (S.root.inode i).mtime

/-- `entry.unlink()`. -/
def unlink (S : BinRoot) (name : BinName) : BinRoot :=
  { S with
    root := S.root.unlink name
    lost := match name, S.mtime name with
      | .dest source, some t => Function.update S.lost source (some t)
      | _, _ => S.lost }

/-- `os.replace(tmp, dest)`. -/
def replace (S : BinRoot) (c : CopyCall) : BinRoot :=
  { S with
    root := S.root.replace (.tmp c.pid c.source) (.dest c.source)
    lost := Function.update S.lost c.source none }

/-- Copying up to `n` bytes. -/
def copy (S : BinRoot) (id : ℕ) (c : CopyCall) (n : ℕ) : Option BinRoot :=
  match c.pc with
  | .copying file tmp offset =>
    let chunk := ((S.file file).content.drop offset).take n
    if chunk = [] then none
    else some (setCall { S with root := S.root.write tmp offset chunk S.now } id
      { c with pc := .copying file tmp (offset + chunk.length) })
  | _ => none

/-- The next step of a call. -/
def advance (S : BinRoot) (id : ℕ) (c : CopyCall) : Option BinRoot :=
  let goto (pc : CopyPc) := some (S.setCall id { c with pc := pc })
  let tmp := BinName.tmp c.pid c.source
  let dest := BinName.dest c.source
  let sidecar := BinName.sidecar c.source
  match c.pc with
  | .listing | .returned | .raised _ => none
  | .pruning [] => goto .statSource
  | .pruning (name :: rest) =>
    match S.mtime name with
    | none => goto (.pruning rest)
    | some t => if c.stale name t then goto (.unlinking name rest) else goto (.pruning rest)
  | .unlinking name rest => some ((S.unlink name).setCall id { c with pc := .pruning rest })
  | .statSource =>
    match S.source c.source with
    | none => goto .lookForCopy
    | some k =>
      if (S.file k).regular then
        some (S.setCall id { c with
          fingerprint := (S.file k).fingerprint
          pc := .lookForDest })
      else goto (.raised .notRegular)
  | .lookForCopy =>
    if (S.root.entry dest).isSome then goto (.touchDest true)
    else goto (.raised (.unreachable (S.lost c.source)))
  | .lookForDest => if (S.root.entry dest).isSome then goto .readMeta else goto .openSource
  | .readMeta =>
    match S.root.read sidecar with
    | none => goto .openSource
    | some bytes =>
      -- The `except` clause is for `OSError` only.
      match sidecarText bytes with
      | none => goto (.raised .undecodable)
      | some text => if text = c.fingerprint then goto (.touchDest false) else goto .openSource
  | .openSource =>
    match S.source c.source with
    | none => goto (.raised .os)
    | some k => goto (.openTmp k)
  | .openTmp k =>
    some (setCall { S with root := S.root.openWrite tmp S.now } id
      { c with pc := .copying k (S.root.opened tmp) 0 })
  | .copying k _ offset =>
    if (S.file k).content.length ≤ offset then goto .copyTimes else none
  | .copyTimes =>
    match S.source c.source with
    | none => goto (.raised .os)
    | some k =>
      if (S.root.entry tmp).isSome then
        some (setCall { S with root := S.root.utime tmp ((S.file k).mtimeNs / 1000000000) } id
          { c with pc := .copyMode })
      else goto (.raised .missingTmp)
  | .copyMode =>
    if (S.root.entry tmp).isSome then goto .rename else goto (.raised .missingTmp)
  | .rename =>
    if (S.root.entry tmp).isSome then some ((S.replace c).setCall id { c with pc := .openMeta })
    else goto (.raised .missingTmp)
  | .openMeta =>
    some (setCall { S with root := S.root.openWrite sidecar S.now } id
      { c with pc := .writeMeta (S.root.opened sidecar) })
  | .writeMeta i =>
    some (setCall { S with root := S.root.write i 0 c.fingerprint S.now } id
      { c with pc := .touchDest false })
  | .touchDest reads =>
    some (setCall { S with root := S.root.utime dest S.now } id { c with pc := .touchMeta reads })
  | .touchMeta reads =>
    some (setCall { S with root := S.root.utime sidecar S.now } id
      { c with pc := if reads then .readBack else .returned })
  | .readBack =>
    match S.root.read sidecar with
    | none => some (S.setCall id { c with fingerprint := unknownFingerprint, pc := .returned })
    | some bytes =>
      match sidecarText bytes with
      | none => goto (.raised .undecodable)
      | some text => some (S.setCall id { c with fingerprint := text, pc := .returned })

/-- What becomes of a call whose next step fails for a reason of the environment's. -/
def afterFault (c : CopyCall) : Option CopyCall :=
  match c.pc with
  | .pruning (_ :: rest) | .unlinking _ rest => some { c with pc := .pruning rest }
  | .statSource => some { c with pc := .lookForCopy }
  | .lookForDest | .readMeta => some { c with pc := .openSource }
  | .listing | .lookForCopy | .openSource | .openTmp _ | .copying .. | .copyTimes | .copyMode
  | .rename | .openMeta | .writeMeta _ => some { c with pc := .raised .os }
  | .touchDest reads => some { c with pc := .touchMeta reads }
  | .touchMeta reads => some { c with pc := if reads then .readBack else .returned }
  | .readBack => some { c with fingerprint := unknownFingerprint, pc := .returned }
  | .pruning [] | .returned | .raised _ => none

/-- One step in a bin root. -/
def step (S : BinRoot) : BinEvent → Option BinRoot
  | .clock now => some { S with now := now }
  | .publish source f =>
    some { S with
      source := Function.update S.source source (some S.files)
      file := Function.update S.file S.files f
      files := S.files + 1
      versions := Function.update S.versions source (f :: S.versions source) }
  | .overwrite source f =>
    (S.source source).map fun k =>
      { S with
        file := Function.update S.file k f
        versions := Function.update S.versions source (f :: S.versions source) }
  | .vanish source => some { S with source := Function.update S.source source none }
  | .begin pid source keepDays =>
    some { S with
      call := Function.update S.call S.calls (some { pid, source, keepDays })
      calls := S.calls + 1 }
  | .listed id names =>
    (S.call id).bind fun c =>
      if c.pc = .listing then
        some (S.setCall id { c with now := S.now, pc := .pruning names })
      else none
  | .copied id n => (S.call id).bind fun c => S.copy id c n
  | .next id => (S.call id).bind fun c => S.advance id c
  | .fault id =>
    (S.call id).bind fun c => (afterFault c).map fun c => S.setCall id c
  | .crash pid =>
    some { S with
      call := fun id =>
        match S.call id with
        | some c => if c.pid = pid then none else some c
        | none => none }

/-- The runs in a bin root: every interleaving of the calls. -/
abbrev Steps : Transition.Rel BinRoot BinEvent := Transition.ofPartial step

end BinRoot

end Jetty.Orchestrator
