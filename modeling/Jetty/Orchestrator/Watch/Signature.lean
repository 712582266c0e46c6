import Jetty.Orchestrator.Service.State

/-!
# Signatures of watched paths

What `_path_sig` reads of a path: the identity of a file, or the walk over a directory, whose
bytes go to a digest. Symlinked directories are recorded by name and not entered.
-/

namespace Jetty.Orchestrator.Watch

abbrev Bytes := List ℕ

/-- The name of a directory entry: bytes other than NUL and the slash. No listing has the names
`.` and `..`, which `relpath` would resolve. -/
structure Name where
  bytes : Bytes
  ne_nil : bytes ≠ []
  valid : ∀ b ∈ bytes, 0 < b ∧ b < 0x100 ∧ b ≠ 0x2F
  listed : bytes ≠ [0x2E] ∧ bytes ≠ [0x2E, 0x2E]
deriving DecidableEq

/-- The order of the names as `str`: a linear order. -/
structure NameOrder where
  le : Name → Name → Bool
  trans : ∀ {a b c}, le a b = true → le b c = true → le a c = true
  total : ∀ a b, (le a b || le b a) = true
  antisymm : ∀ {a b}, le a b = true → le b a = true → a = b

structure Stat where
  ino : ℕ
  size : ℕ
  mtimeNs : ℤ
deriving DecidableEq, Repr

/-- A file with its `stat`, or that of a link which leads nowhere; nothing where both fail. -/
abbrev File := Name × Option Stat

/-- The directories in a directory, in the order they are listed in: links to directories, and
directories with their files and their own directories. -/
inductive Dirs
  | nil
  | link (name : Name) (rest : Dirs)
  | dir (name : Name) (files : List File) (subs : Dirs) (rest : Dirs)

namespace Dirs

def names : Dirs → List Name
  | nil => []
  | link name rest => name :: rest.names
  | dir name _ _ rest => name :: rest.names

/-- No directory binds a name twice. -/
def Distinct : Dirs → Prop
  | nil => True
  | link name rest => name ∉ rest.names ∧ rest.Distinct
  | dir name files subs rest => name ∉ rest.names ∧
      (subs.names ++ files.map Prod.fst).Nodup ∧ subs.Distinct ∧ rest.Distinct

end Dirs

/-- A directory tree. -/
structure Tree where
  files : List File
  subs : Dirs
  nodup : (subs.names ++ files.map Prod.fst).Nodup
  distinct : subs.Distinct

variable (o : NameOrder)

/-- `names.sort()`. -/
def sortFiles (files : List File) : List File := files.mergeSort fun a b => o.le a.1 b.1

namespace Dirs

/-- Puts a name, with what `cons` puts in front of the rest, in its place. -/
def insert (name : Name) (cons : Dirs → Dirs) : Dirs → Dirs
  | nil => cons nil
  | link name' rest =>
    if o.le name name' then cons (link name' rest) else link name' (insert name cons rest)
  | dir name' files' subs' rest =>
    if o.le name name' then cons (dir name' files' subs' rest)
    else dir name' files' subs' (insert name cons rest)

/-- `dirs.sort()`, at every level, with the sorted files. -/
def sort : Dirs → Dirs
  | nil => nil
  | link name rest => insert o name (link name) rest.sort
  | dir name files subs rest => insert o name (dir name (sortFiles o files) subs.sort) rest.sort

end Dirs

inductive Kind
  | directory
  | file (stat : Option Stat)
deriving DecidableEq

/-- An entry of a directory, with the path of the directory. -/
structure Entry where
  parent : List Name
  name : Name
  kind : Kind
deriving DecidableEq

/-- What the walk comes to: a directory that it enters, or an entry of the one it is in. -/
inductive Token
  | enter (path : List Name)
  | entry (e : Entry)
deriving DecidableEq

/-- `os.path.relpath` of a directory below the watched one. -/
def relpath : List Name → Bytes
  | [] => [0x2E]
  | path => [0x2F].intercalate (path.map Name.bytes)

def ascii (s : String) : Bytes := s.toList.map Char.toNat

/-- The byte that says what a record is about: `d`, `f` or `?`. -/
def Kind.mark : Kind → ℕ
  | directory => 0x64
  | file (some _) => 0x66
  | file none => 0x3F

/-- The numbers behind the name of a file. -/
def Kind.numbers : Kind → Bytes
  | directory => []
  | file none => []
  | file (some ⟨ino, size, mtimeNs⟩) => ascii s!"{ino}:{size}:{mtimeNs}"

/-- What one token feeds to the digest. -/
def Token.bytes : Token → Bytes
  | enter path => relpath path
  | entry e => 0 :: e.kind.mark :: (e.name.bytes ++ e.kind.numbers)

/-- The entries of one directory. -/
def level (path : List Name) (subs : Dirs) (files : List File) : List Token :=
  (subs.names.map fun name => .entry ⟨path, name, .directory⟩) ++
    files.map fun file => .entry ⟨path, file.1, .file file.2⟩

/-- The walk below a directory, through the directories in it. -/
def walkBelow (path : List Name) : Dirs → List Token
  | .nil => []
  | .link _ rest => walkBelow path rest
  | .dir name files subs rest =>
    .enter (path ++ [name]) ::
      (level (path ++ [name]) subs files ++ walkBelow (path ++ [name]) subs ++
        walkBelow path rest)

/-- `os.walk`, top down. -/
def walk (files : List File) (subs : Dirs) : List Token :=
  .enter [] :: (level [] subs files ++ walkBelow [] subs)

/-- The walk of `_path_sig`, sorted at every level. -/
def Tree.walk (T : Tree) : List Token := Watch.walk (sortFiles o T.files) (T.subs.sort o)

/-- The bytes that `_path_sig` feeds to the digest. -/
def Tree.stream (T : Tree) : Bytes := (T.walk o).flatMap Token.bytes

/-- What a path leads to. -/
inductive Target
  | missing
  | file (stat : Stat)
  | directory (T : Tree)

/-- The files that a walk counts. -/
def Token.isFile : Token → Bool
  | entry ⟨_, _, .file _⟩ => true
  | _ => false

/-- `_path_sig`; `digest` is the hexadecimal digest of what the hash was fed. -/
def pathSig (digest : Bytes → String) : Target → Option Signature × ℕ
  | .missing => (none, 0)
  | .file st => (some (.file st.ino st.size st.mtimeNs), 1)
  | .directory T => (some (.tree (digest (T.stream o))), (T.walk o).countP Token.isFile)

end Jetty.Orchestrator.Watch
