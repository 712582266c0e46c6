import Jetty.Core.Files.Walks

/-!
# The local driver's door

Path syntax as the surface checks it, and `LocalFsDriver._resolve`: which resolved paths lie
inside the root or a scratch directory that is still the one that was handed out.
-/

namespace Jetty.Filesystem

open Files

/-- What `lstat` says about a directory. -/
structure Stat where
  dev : ℕ
  ino : ℕ
  uid : ℕ
deriving DecidableEq

/-- The machine the driver runs on. -/
structure Host where
  tree : Files.Tree Stat
  cwd : Place
  cwd_isDir : tree.isDir cwd = true
  euid : ℕ
  /-- How many links the kernel follows in one walk. -/
  maxLinks : ℕ

namespace Host

/-- `os.path.realpath`. -/
def realpath (host : Host) (path : List Char) : Place :=
  host.tree.realpath (start host.cwd path) path

/-- Where the kernel gets with a path, following all links. -/
def lookup (host : Host) (path : List Char) : Option Place :=
  host.tree.walk host.maxLinks (start host.cwd path) (parts path)

/-- `os.lstat` of a normal path: where the entry is, and the entry. -/
def lstat (host : Host) : Place → Option (Place × Entry Stat)
  | [] => (host.tree.entry []).map fun e => ([], e)
  | n :: dir => do
    let dir ← host.lookup (text dir)
    let e ← host.tree.entry (n :: dir)
    return (n :: dir, e)

end Host

/-- Why the surface rejects a path. -/
inductive InvalidPath
  | syntactic (path : String)
  | tooLong
deriving DecidableEq

/-- `_MAX_PATH_BYTES`. -/
def maxPathBytes : ℕ := 4096

def InvalidPath.message (repr : String → String) : InvalidPath → String
  | .syntactic path => s!"invalid file path {repr path}"
  | .tooLong => s!"path exceeds {maxPathBytes} bytes"

/-- `_check_path`. -/
def checkPath (path : String) : Except InvalidPath String :=
  let cs := path.toList
  if cs.head? ≠ some '/' ∨ '\\' ∈ cs ∨ Char.ofNat 0 ∈ cs ∨
      (cs.tail.splitOn '/').any fun seg => seg ∈ [[], ['.'], ['.', '.']] then
    .error (.syntactic path)
  else if maxPathBytes < path.utf8ByteSize then .error .tooLong
  else .ok path

/-- `InvalidTarget`, as `_resolve` raises it. -/
structure InvalidTarget where
  path : String
deriving DecidableEq

def InvalidTarget.message (repr : String → String) (e : InvalidTarget) : String :=
  repr e.path ++ " lies outside the root and every scratch directory this server created"

structure LocalFsDriver where
  root : String
  /-- The scratch directories handed out, with their `st_dev` and `st_ino`. -/
  scratch : List (Place × ℕ × ℕ)
deriving DecidableEq

namespace LocalFsDriver

/-- `self._scratch.pop`. -/
def pop (drv : LocalFsDriver) (dir : Place) : LocalFsDriver :=
  { drv with scratch := drv.scratch.filter fun entry => entry.1 ≠ dir }

/-- `_scratch_ancestor`. -/
def scratchAncestor (drv : LocalFsDriver) : Place → Option Place
  | [] => if (drv.scratch.lookup []).isSome then some [] else none
  | n :: dir =>
    if (drv.scratch.lookup (n :: dir)).isSome then some (n :: dir) else drv.scratchAncestor dir

/-- `_scratch_alive`. -/
def scratchAlive (drv : LocalFsDriver) (host : Host) (dir : Place) : LocalFsDriver × Bool :=
  match host.lstat dir with
  | some (_, .directory st) =>
    if st.uid = host.euid ∧ drv.scratch.lookup dir = some (st.dev, st.ino) then (drv, true)
    else (drv.pop dir, false)
  | _ => (drv.pop dir, false)

/-- `_resolve`; the resolved path is given by its place. -/
def resolve (drv : LocalFsDriver) (host : Host) (path : String) :
    LocalFsDriver × Except InvalidTarget Place :=
  let full := host.realpath path.toList
  let root := host.realpath drv.root.toList
  if text full = text root ∨ text root ++ ['/'] <+: text full then (drv, .ok full)
  else
    match drv.scratchAncestor full with
    | none => (drv, .error ⟨path⟩)
    | some scratch =>
      let (drv, alive) := drv.scratchAlive host scratch
      if alive then (drv, .ok full) else (drv, .error ⟨path⟩)

end LocalFsDriver

end Jetty.Filesystem
