import Jetty.Core.Files.Moves
import Jetty.Modules.Filesystem.Operations
import Mathlib.Data.Int.Notation

/-!
# The file system of the client

The methods of `JettyFileSystem`, on the local file system and through the sidecar. Of the transport
there is the way that a path takes through a URL; a body gets to the surface as it is, and so does
the answer.
-/

namespace Jetty.Fsspec

open Files Effects Filesystem

/-! ### Calls of the client -/

/-- What a method raises. -/
inductive Raised
  | valueError
  | fileNotFound
  | fileExists
  | permission
  | sameFile
  /-- Any other `OSError`. -/
  | osError
deriving DecidableEq, Repr

/-- The exception of an error number. -/
def Raised.ofErrno : Errno → Raised
  | .noent => fileNotFound
  | .exist => fileExists
  | .acces => permission
  | _ => osError

abbrev Session := Program Raised Server

/-- What the world does to a method on the local file system. -/
structure Surroundings where
  faults : Faults
  /-- What comes of reading from a device or a pipe, or of writing to it. -/
  device : Except Errno (List UInt8)

def system {α : Type} (x : Calls α) : Session α :=
  rescue x fun errno => throw (.ofErrno errno)

section Calls

variable (L : Surroundings)

/-- What a path leads to, all links followed. -/
def seek (path : List Char) : Calls (Place × Entry Stat) := do
  let s ← get
  match s.machine.host.lookup path with
  | none => throw (s.machine.blame path)
  | some p =>
    match s.machine.disk.tree.entry p with
    | none => throw .noent
    | some e => return (p, e)

/-- The place of the last name of a path, which is not followed, and whether slashes come after
it. -/
def lastName (path : List Char) : Calls (Place × Bool) := do
  let segments := (path.splitOn '/').reverse
  match segments.dropWhile List.isEmpty with
  | [] => throw .io
  | seg :: dirs =>
    match Part.ofChars seg with
    | .name n => do
      let s ← get
      let here := start s.machine.cwd path
      let way := dirs.reverse.map Part.ofChars
      match s.machine.disk.tree.walk s.machine.maxLinks here way with
      | none => throw (s.machine.disk.tree.blame s.machine.maxLinks here way)
      | some q =>
        if s.machine.disk.tree.isDir q then return (n :: q, segments.head? == some [])
        else throw .notdir
    | _ => throw .io

/-- `open` for reading. -/
def openIn (path : List Char) : Calls (Place × Entry Stat) := do
  attempt L.faults .open_
  let (p, e) ← seek path
  match e with
  | .directory _ => throw .isdir
  | _ => return (p, e)

/-- `read` of what has been opened. -/
def readIn (p : Place) (e : Entry Stat) : Calls (List UInt8) := do
  attempt L.faults .read
  match e with
  | .regular =>
    let s ← get
    return (s.machine.disk.inode (s.machine.disk.node p)).content
  | _ =>
    match L.device with
    | .ok content => return content
    | .error errno => throw errno

/-- `open` for writing, with `O_TRUNC` or without; the inode of what has been opened, if that is a
file. -/
def openOut (truncate : Bool) (path : List Char) : Calls (Option ℕ) := do
  attempt L.faults .create
  let s ← get
  match s.machine.host.lookup path with
  | none => throw (s.machine.blame path)
  | some p =>
    match s.machine.disk.tree.entry p with
    | none => do
      onDisk fun d => d.create p (s.machine.modes.created 0o666)
      return some s.machine.disk.next
    | some .regular => do
      let ino := s.machine.disk.node p
      let f := s.machine.disk.inode ino
      set (if truncate then s.moved (s.machine.disk.put ino ⟨[], s.machine.modes.written f.mode⟩)
        else s)
      return some ino
    | some (.directory _) => throw .isdir
    | some _ => return none

/-- `open` with `O_CREAT` and `O_EXCL`. -/
def createOut (path : List Char) : Calls (Option ℕ) := do
  attempt L.faults .create
  let (p, slash) ← lastName path
  if slash then throw .isdir
  else do
    let s ← get
    onDisk fun d => d.create p (s.machine.modes.created 0o666)
    return some s.machine.disk.next

/-- The buffer goes to the file, and the file is closed, which flushes what is left. -/
def save (ino : ℕ) (content : List UInt8) : Calls Unit := do
  rescue
    (do
      advance ino content (L.faults.reached .write)
      attempt L.faults .write)
    fun errno => do
      advance ino content (L.faults.reached .close)
      attempt L.faults .close
      throw errno
  advance ino content
    (if (L.faults.fails .close).isNone then content.length else L.faults.reached .close)
  attempt L.faults .close

/-- `write` and `close` of what has been opened; what is there already stays in front. -/
def writeOut (target : Option ℕ) (value : List UInt8) : Calls Unit :=
  match target with
  | some ino => do
    let s ← get
    save L ino ((s.machine.disk.inode ino).content ++ value)
  | none =>
    match L.device with
    | .ok _ => pure ()
    | .error errno => throw errno

/-- `os.path.isdir`. -/
def isdir (path : List Char) : Calls Bool :=
  rescue
    (do
      attempt L.faults .stat
      let (_, e) ← seek path
      return Disk.forDirectory (some e))
    fun _ => return false

def rmdirPath (path : List Char) : Calls Unit := do
  attempt L.faults .rmdir
  let (p, _) ← lastName path
  onDisk fun d => d.rmdir p

/-- `os.remove`. -/
def removePath (path : List Char) : Calls Unit := do
  attempt L.faults .unlink
  let (p, slash) ← lastName path
  if slash then throw .notdir
  else onDisk fun d => d.unlink p

/-- `os.replace`. -/
def replacePath (src dst : List Char) : Calls Unit := do
  attempt L.faults .rename
  let (p, slash) ← lastName src
  let (q, slash') ← lastName dst
  let s ← get
  if (slash || slash') && (s.machine.disk.tree.entry p).isSome && !s.machine.disk.tree.isDir p then
    throw .notdir
  else onDisk fun d => d.replace p q

/-- `_samefile` of `shutil`. -/
def samefile (src dst : List Char) : Calls Bool :=
  rescue
    (do
      attempt L.faults .stat
      let (p, e) ← seek src
      attempt L.faults .statTarget
      let (q, e') ← seek dst
      let s ← get
      return decide (p = q) || (Disk.forRegular (some e) && Disk.forRegular (some e') &&
        decide (s.machine.disk.node p = s.machine.disk.node q)))
    fun _ => return false

/-- `shutil.copyfile`, once the files are known to be two. -/
def copyfile (src dst : List Char) : Calls Unit := do
  let (p, e) ← openIn L src
  let target ← openOut L true dst
  let content ← readIn L p e
  writeOut L target content

end Calls

/-! ### The local file system -/

inductive OpenMode
  | rb
  | wb
  | ab
  | xb
deriving DecidableEq, Repr

/-- A row of `info`. Of the modification time nothing is said, and of the size and the mode of a
directory or a special file neither: the disk has none. -/
structure Info where
  name : String
  type : String
  /-- The size and the mode of a file. -/
  file : Option (ℕ × String)
deriving DecidableEq, Repr

/-- The mode as `chmod` would write it. -/
def modeText (mode : ℕ) : String :=
  String.ofList ((Nat.toDigits 8 (mode % 0o10000)).leftpad 4 '0')

def Info.of (name : String) (st : LocalFsDriver.StatResult) : Info where
  name := name
  type := st.type
  file := st.file.map fun f => (f.content.length, modeText f.mode)

/-- `data[start:end]`. -/
def sliced (start stop : Option ℤ) (data : List UInt8) : List UInt8 :=
  let clamp (i : ℤ) : ℕ := min (if i < 0 then i + data.length else i).toNat data.length
  let low := start.elim 0 clamp
  let high := stop.elim data.length clamp
  (data.drop low).take (high - low)

namespace Fallback

variable (L : Surroundings)

/-- `_local`. -/
def absolute (path : String) : Session Unit :=
  if isAbsolute path.toList then pure () else throw .valueError

def cat (path : String) : Session (List UInt8) := do
  absolute path
  system do
    let (p, e) ← openIn L path.toList
    readIn L p e

def pipe (path : String) (value : List UInt8) : Session Unit := do
  absolute path
  system do
    let target ← openOut L true path.toList
    writeOut L target value

def rm (path : String) : Session Unit := do
  absolute path
  system do
    if ← isdir L path.toList then rmdirPath L path.toList else removePath L path.toList

def mv (src dst : String) : Session Unit := do
  absolute src
  absolute dst
  system (replacePath L src.toList dst.toList)

def cp (src dst : String) : Session Unit := do
  absolute src
  absolute dst
  if ← system (samefile L src.toList dst.toList) then throw .sameFile
  else system (copyfile L src.toList dst.toList)

/-- `_stat`. -/
def stat (path : String) : Session LocalFsDriver.StatResult := do
  absolute path
  system do
    attempt L.faults .stat
    let (p, e) ← seek path.toList
    let s ← get
    match e with
    | .regular => return ⟨"file", some (s.machine.disk.inode (s.machine.disk.node p))⟩
    | .directory _ => return ⟨"directory", none⟩
    | _ => return ⟨"other", none⟩

/-- A file opened in the mode, written if it is opened for that, and closed. -/
def opened (mode : OpenMode) (path : String) (body : List UInt8) : Session (List UInt8) := do
  absolute path
  match mode with
  | .rb => system do
    let (p, e) ← openIn L path.toList
    readIn L p e
  | .wb => system do
    let target ← openOut L true path.toList
    writeOut L target body
    return []
  | .ab => system do
    let target ← openOut L false path.toList
    writeOut L target body
    return []
  | .xb => system do
    let target ← createOut L path.toList
    writeOut L target body
    return []

end Fallback

/-! ### The sidecar -/

/-- What the client makes of the sidecar's errors. -/
def Raised.ofDriver : DriverError → Raised
  | .fileMissing _ => fileNotFound
  | .permissionDenied _ => permission
  | .os _ => osError
  | _ => valueError

/-- A request, and the answer to it. -/
def request {α : Type} (paths : List String) (x : Serving α) : Session α :=
  if paths.all fun path => (checkPath path).isOk then
    rescue x fun error => throw (.ofDriver error)
  else throw .valueError

/-- What the route of `{file_path:path}` takes a path for, which is `.*` up to `$`: the dot stands
for no newline, and `$` stands before a final one too. -/
def routed (path : String) : Option String :=
  match path.toList.dropWhile (· ≠ '\n') with
  | [] => some path
  | ['\n'] => some (String.ofList (path.toList.takeWhile (· ≠ '\n')))
  | _ => none

/-- A request with the path in its URL, and the answer to it. Where there is no such route, the
answer is `not_found`. -/
def requestAt {α : Type} (path : String) (x : String → Serving α) : Session α :=
  match routed path with
  | some rel => request [rel] (x rel)
  | none => throw .fileNotFound

namespace Remote

variable (F : Faults)

def cat (path : String) : Session (List UInt8) := requestAt path (LocalFsDriver.read F)

def pipe (path : String) (value : List UInt8) : Session Unit :=
  requestAt path fun rel => (fun _ => ()) <$> LocalFsDriver.write F rel value

def rm (path : String) : Session Unit := requestAt path (LocalFsDriver.delete F)

def mv (src dst : String) : Session Unit :=
  request [src, dst] ((fun _ => ()) <$> LocalFsDriver.rename F src dst)

def cp (src dst : String) : Session Unit :=
  request [src, dst] ((fun _ => ()) <$> LocalFsDriver.copy F src dst)

/-- `_stat`. -/
def stat (path : String) : Session LocalFsDriver.StatResult :=
  requestAt path (LocalFsDriver.stat F)

end Remote

/-- `exists`. -/
def existing (x : Session LocalFsDriver.StatResult) : Session Bool :=
  rescue (do
    let _ ← x
    return true)
    fun raised => if raised = .fileNotFound then return false else throw raised

namespace Remote

variable (strip : String → String) (F F' : Faults)

/-- `_open` with a stripped path, and `close` of what it returns. There may be two requests. -/
def opened (mode : OpenMode) (path : String) (body : List UInt8) : Session (List UInt8) := do
  match mode with
  | .rb => cat F (strip path)
  | .wb =>
    pipe F' (strip path) body
    return []
  | .ab =>
    let initial ← rescue (cat F (strip path)) fun raised =>
      if raised = .fileNotFound then return [] else throw raised
    pipe F' (strip path) (initial ++ body)
    return []
  | .xb =>
    if ← existing (stat F (strip path)) then throw .fileExists
    else do
      pipe F' (strip path) body
      return []

end Remote

/-! ### Methods -/

inductive Method
  | catFile (path : String) (start stop : Option ℤ)
  | pipeFile (path : String) (value : List UInt8)
  | rmFile (path : String)
  | mv (path1 path2 : String)
  | cpFile (path1 path2 : String)
  | exists_ (path : String)
  | info (path : String)
  /-- A `with` block around `open`, with what is written in it. -/
  | open_ (path : String) (mode : OpenMode) (body : List UInt8)
deriving Repr

inductive Value
  | none
  | bytes (content : List UInt8)
  | bool (b : Bool)
  | info (row : Info)
deriving DecidableEq, Repr

namespace Method

variable (strip : String → String)

/-- The method on the local file system. -/
def fallback (L : Surroundings) : Method → Session Value
  | catFile path start stop => do
    let data ← Fallback.cat L (strip path)
    return .bytes (sliced start stop data)
  | pipeFile path value => (fun _ => .none) <$> Fallback.pipe L (strip path) value
  | rmFile path => (fun _ => .none) <$> Fallback.rm L (strip path)
  | mv path1 path2 => (fun _ => .none) <$> Fallback.mv L (strip path1) (strip path2)
  | cpFile path1 path2 => (fun _ => .none) <$> Fallback.cp L (strip path1) (strip path2)
  | exists_ path => .bool <$> existing (Fallback.stat L (strip path))
  | info path => (fun st => .info (.of (strip path) st)) <$> Fallback.stat L (strip path)
  | open_ path mode body => .bytes <$> Fallback.opened L mode (strip path) body

/-- The method through the sidecar, with what the world does to its requests. -/
def remote (F F' : Faults) : Method → Session Value
  | catFile path start stop => do
    let data ← Remote.cat F (strip path)
    return .bytes (sliced start stop data)
  | pipeFile path value => (fun _ => .none) <$> Remote.pipe F (strip path) value
  | rmFile path => (fun _ => .none) <$> Remote.rm F (strip path)
  | mv path1 path2 => (fun _ => .none) <$> Remote.mv F (strip path1) (strip path2)
  | cpFile path1 path2 => (fun _ => .none) <$> Remote.cp F (strip path1) (strip path2)
  | exists_ path => .bool <$> existing (Remote.stat F (strip path))
  | info path => (fun st => .info (.of (strip path) st)) <$> Remote.stat F (strip path)
  | open_ path mode body => .bytes <$> Remote.opened strip F F' mode (strip path) body

end Method

end Jetty.Fsspec
