import Jetty.Core.Effects
import Jetty.Core.Files.Disk
import Jetty.Modules.Filesystem.Driver

/-!
# The local driver's operations

What `LocalFsDriver` does to the machine, system call by system call. Which calls fail is a
parameter, and so are the names that are drawn and what the kernel keeps of the mode bits.
-/

namespace Jetty.Filesystem

open Files Effects

/-! ### The machine -/

/-- What the kernel makes of mode bits. -/
structure ModeRules where
  umask : Fin 0o1000
  /-- The mode of a file that is written to: `S_ISUID` and `S_ISGID` may be cleared. -/
  written : ℕ → ℕ
  /-- The mode that `chmod(2)` sets: `S_ISGID` may be cleared. -/
  granted : ℕ → ℕ
  written_bits : ∀ mode, written mode % 0o2000 = mode % 0o2000
  granted_bits : ∀ mode, granted mode % 0o2000 = mode % 0o2000
  written_written : ∀ mode, written (written mode) = written mode

/-- The mode of a file that is created. -/
def ModeRules.created (rules : ModeRules) (mode : ℕ) : ℕ :=
  mode &&& (0o7777 ^^^ rules.umask.val)

/-- The machine that the driver runs on, with a disk it can change. -/
structure Machine where
  disk : Disk Stat
  cwd : Place
  cwd_isDir : disk.tree.isDir cwd = true
  euid : ℕ
  maxLinks : ℕ
  modes : ModeRules
  /-- `tempfile.gettempdir()`. -/
  tempdir : List Char
  tempdir_absolute : isAbsolute tempdir = true

namespace Machine

def host (m : Machine) : Host :=
  { tree := m.disk.tree, cwd := m.cwd, cwd_isDir := m.cwd_isDir, euid := m.euid,
    maxLinks := m.maxLinks }

/-- Another disk. Where the working directory is gone, relative paths are not looked at again. -/
def withDisk (m : Machine) (d : Disk Stat) : Machine :=
  if h : d.tree.isDir m.cwd = true then { m with disk := d, cwd_isDir := h }
  else { m with disk := d, cwd := [], cwd_isDir := Tree.isDir_top }

@[simp] theorem disk_withDisk (m : Machine) (d : Disk Stat) : (m.withDisk d).disk = d := by
  unfold withDisk
  split <;> rfl

/-- The machines differ in their disks at most. -/
structure Same (m m' : Machine) : Prop where
  cwd : m'.cwd = m.cwd
  euid : m'.euid = m.euid
  maxLinks : m'.maxLinks = m.maxLinks
  modes : m'.modes = m.modes
  tempdir : m'.tempdir = m.tempdir

/-- A machine is set up like itself. -/
theorem Same.refl (m : Machine) : Same m m := ⟨rfl, rfl, rfl, rfl, rfl⟩

/-- Machines that are set up like a third one are set up alike. -/
theorem Same.trans {m m' m'' : Machine} (h : Same m m') (h' : Same m' m'') : Same m m'' :=
  ⟨h'.cwd.trans h.cwd, h'.euid.trans h.euid, h'.maxLinks.trans h.maxLinks,
    h'.modes.trans h.modes, h'.tempdir.trans h.tempdir⟩

/-- A disk on which the working directory is. -/
theorem same_withDisk {m : Machine} {d : Disk Stat} (h : d.tree.isDir m.cwd = true) :
    Same m (m.withDisk d) := by
  unfold withDisk
  rw [dif_pos h]
  exact ⟨rfl, rfl, rfl, rfl, rfl⟩

/-- A disk that differs where no directory was. -/
theorem same_of_agree {m : Machine} {d : Disk Stat}
    (h : ∀ p, m.disk.tree.isDir p = true → d.tree.entry p = m.disk.tree.entry p) :
    Same m (m.withDisk d) := by
  refine same_withDisk ?_
  have hcwd := m.cwd_isDir
  unfold Tree.isDir at hcwd ⊢
  rwa [h m.cwd m.cwd_isDir]

/-- Why the kernel does not get anywhere with a path. -/
def blame (m : Machine) (path : List Char) : Errno :=
  m.disk.tree.blame m.maxLinks (start m.cwd path) (parts path)

/-- The regular file that a path leads to. -/
def look (m : Machine) (path : List Char) : Option Regular :=
  match m.host.lookup path with
  | none => none
  | some p =>
    match m.disk.tree.entry p with
    | some .regular => some (m.disk.inode (m.disk.node p))
    | _ => none

end Machine

/-! ### Failures -/

/-- Why a call fails that could have been done. -/
inductive Fault
  | denied
  | crossing
  | store
deriving DecidableEq, Repr

def Fault.errno : Fault → Errno
  | denied => .acces
  | crossing => .xdev
  | store => .io

/-- The calls of one operation. -/
inductive Call
  | stat
  | statTarget
  | open_
  | read
  | create
  | write
  | flush
  | fsync
  | close
  | chmod
  | rename
  /-- The clean-up of `_replace`. -/
  | tidy
  | unlink
  | rmdir
  | mkdtemp
  | lstat
deriving DecidableEq, Repr

/-- What the world does to one operation. -/
structure Faults where
  fails : Call → Option Fault
  /-- How many bytes have got into the temporary file when the call returns. -/
  reached : Call → ℕ
  /-- The names that are drawn. -/
  names : List Name

/-- What the driver raises. -/
inductive DriverError
  | fileMissing (path : String)
  | outside (error : InvalidTarget)
  | isDirectory (path : String)
  | irregular (path : String)
  | looping (path : String)
  | notEmpty (path : String)
  | sameFile (src dst : String)
  | crossing (src dst : String)
  | permissionDenied (path : String)
  | os (errno : Errno)
deriving DecidableEq

def DriverError.message (repr : String → String) : DriverError → Option String
  | fileMissing path => s!"no file at {repr path}"
  | outside error => error.message repr
  | isDirectory path => s!"{repr path} is a directory"
  | irregular path => s!"{repr path} is not a regular file"
  | looping path => s!"{repr path} runs through a symlink loop"
  | notEmpty path => s!"{repr path} is not empty"
  | sameFile src dst => s!"{repr src} and {repr dst} are the same file"
  | crossing src dst => s!"{repr src} -> {repr dst} crosses a filesystem boundary; " ++
      "an atomic rename is impossible"
  | permissionDenied path => s!"permission denied for {repr path}"
  | os _ => none

/-- `_translate`. -/
def translate (path : String) : Errno → DriverError
  | .acces => .permissionDenied path
  | .noent | .notdir => .fileMissing path
  | .isdir => .isDirectory path
  | .loop => .looping path
  | errno => .os errno

/-! ### System calls -/

/-- The driver's process. -/
structure Server where
  driver : LocalFsDriver
  machine : Machine
  /-- The states of the machine before this one; nothing reads it. -/
  seen : List Machine := []

def Server.moved (s : Server) (d : Disk Stat) : Server :=
  { s with machine := s.machine.withDisk d, seen := s.machine :: s.seen }

abbrev Calls := Program Errno Server

abbrev Serving := Program DriverError Server

section Calls

variable (F : Faults)

def attempt (c : Call) : Calls Unit :=
  match F.fails c with
  | some fault => throw fault.errno
  | none => pure ()

def onDisk (change : Disk Stat → Except Errno (Disk Stat)) : Calls Unit := do
  let s ← get
  match change s.machine.disk with
  | .ok d => set (s.moved d)
  | .error errno => throw errno

/-- The place of the last name of a path, links on the way to it followed. -/
def spot : Place → Calls Place
  | [] => return []
  | n :: dir => do
    let s ← get
    match s.machine.host.lookup (text dir) with
    | some q => return n :: q
    | none => throw (s.machine.blame (text dir))

/-- What a path leads to, all links followed. -/
def find (full : Place) : Calls (Place × Entry Stat) := do
  let s ← get
  match s.machine.host.lookup (text full) with
  | none => throw (s.machine.blame (text full))
  | some p =>
    match s.machine.disk.tree.entry p with
    | none => throw .noent
    | some e => return (p, e)

/-- `os.stat`. -/
def stat (c : Call) (full : Place) : Calls (Place × Entry Stat) := do
  attempt F c
  find full

/-- More of the content gets into the file. -/
def advance (ino : ℕ) (content : List UInt8) (count : ℕ) : Calls Unit :=
  modify fun s =>
    let f := s.machine.disk.inode ino
    let done := content.take (max f.content.length count)
    let mode := if done = f.content then f.mode else s.machine.modes.written f.mode
    s.moved (s.machine.disk.put ino ⟨done, mode⟩)

/-- `f.write`, `f.flush` and `os.fsync`. -/
def writeOut (ino : ℕ) (content : List UInt8) : Calls Unit := do
  advance ino content (F.reached .write)
  attempt F .write
  advance ino content (if (F.fails .flush).isNone then content.length else F.reached .flush)
  attempt F .flush
  attempt F .fsync

/-- The `with` block around them: the file is closed in any case, which flushes again what is
still buffered. -/
def writeTemp (ino : ℕ) (content : List UInt8) : Calls Unit := do
  rescue (writeOut F ino content) fun errno => do
    advance ino content (F.reached .close)
    attempt F .close
    throw errno
  attempt F .close

/-- `os.chmod`. -/
def chmod (full : Place) (mode : ℕ) : Calls Unit := do
  attempt F .chmod
  let (p, _) ← find full
  modify fun s =>
    let ino := s.machine.disk.node p
    let f := s.machine.disk.inode ino
    s.moved (s.machine.disk.put ino { f with mode := s.machine.modes.granted mode })

def renameCall (src dst : Place) : Calls Unit := do
  attempt F .rename
  let p ← spot src
  let q ← spot dst
  onDisk fun d => d.rename p q

def unlinkCall (c : Call) (full : Place) : Calls Unit := do
  attempt F c
  let p ← spot full
  onDisk fun d => d.unlink p

/-- `os.rmdir`. -/
def rmdirCall (full : Place) : Calls Unit := do
  attempt F .rmdir
  let p ← spot full
  onDisk fun d => d.rmdir p

/-- `_open_temp`: names are drawn until one is free; the file with its inode. -/
def openTemp (dir : Place) (mode : ℕ) : List Name → Calls (ℕ × Place)
  | [] => throw .exist
  | n :: names =>
    rescue
      (do
        attempt F .create
        let p ← spot (n :: dir)
        let s ← get
        onDisk fun d => d.create p (s.machine.modes.created mode)
        return (s.machine.disk.next, n :: dir))
      fun errno => if errno = .exist then openTemp dir mode names else throw errno

/-- `tempfile.mkdtemp`; the new directory has the device and the inode number. -/
def makeTemp (dev ino : ℕ) : List Name → Calls (List Char)
  | [] => throw .exist
  | n :: names =>
    rescue
      (do
        attempt F .mkdtemp
        let s ← get
        match s.machine.host.lookup s.machine.tempdir with
        | none => throw (s.machine.blame s.machine.tempdir)
        | some p =>
          onDisk fun d => d.mkdir (n :: p) ⟨dev, ino, s.machine.euid⟩
          return s.machine.tempdir ++ '/' :: n.chars)
      fun errno => if errno = .exist then makeTemp dev ino names else throw errno

end Calls

/-! ### The driver -/

structure WriteResult where
  size : ℕ
  created : Bool
deriving DecidableEq, Repr

namespace LocalFsDriver

variable (F : Faults)

/-- `_resolve`. -/
def door (path : String) : Serving Place := do
  let s ← get
  set { s with driver := (s.driver.resolve s.machine.host path).1 }
  match (s.driver.resolve s.machine.host path).2 with
  | .ok full => return full
  | .error error => throw (.outside error)

/-- `_stat_regular`; the mode of the file. -/
def statRegular (c : Call) (full : Place) (path : String) : Serving (Option ℕ) := do
  let st ← rescue (some <$> Filesystem.stat F c full) fun errno =>
    if errno = .noent then return none else throw (translate path errno)
  match st with
  | none => return none
  | some (_, .directory _) => throw (.isDirectory path)
  | some (p, .regular) => do
    let s ← get
    return some (s.machine.disk.inode (s.machine.disk.node p)).mode
  | some _ => throw (.irregular path)

/-- `_require`. -/
def require (c : Call) (full : Place) (path : String) : Serving ℕ := do
  match ← statRegular F c full path with
  | some mode => return mode
  | none => throw (.fileMissing path)

/-- `_replace`. -/
def replace (full : Place) (path : String) (content : List UInt8) (createMode : ℕ) :
    Serving WriteResult := do
  let st ← statRegular F .statTarget full path
  let (ino, tmp) ← rescue (openTemp F full.tail (if st.isNone then createMode else 0o600) F.names)
    fun errno => throw (translate path errno)
  rescue
    (do
      writeTemp F ino content
      match st with
      | some mode => chmod F tmp mode
      | none => pure ()
      renameCall F tmp full)
    fun errno => do
      rescue (unlinkCall F .tidy tmp) fun _ => pure ()
      throw (translate path errno)
  return { size := content.length, created := st.isNone }

/-- `open` for reading, and `read`. -/
def contents (full : Place) : Calls (List UInt8) := do
  attempt F .open_
  let (p, _) ← find full
  attempt F .read
  let s ← get
  return (s.machine.disk.inode (s.machine.disk.node p)).content

def read (path : String) : Serving (List UInt8) := do
  let full ← door path
  let _ ← require F .stat full path
  rescue (contents F full) fun errno => throw (translate path errno)

def write (path : String) (content : List UInt8) : Serving WriteResult := do
  let full ← door path
  replace F full path content 0o666

/-- An `OSError` of the removal. -/
def translateRemoval (path : String) (errno : Errno) : DriverError :=
  if errno = .notempty ∨ errno = .exist then .notEmpty path else translate path errno

def delete (path : String) : Serving Unit := do
  let full ← door path
  let (_, e) ← rescue (Filesystem.stat F .stat full) fun errno =>
    throw (translate path errno)
  match e with
  | .directory _ =>
    rescue (rmdirCall F full) fun errno => throw (translateRemoval path errno)
    modify fun s => { s with driver := s.driver.pop full }
  | .regular => rescue (unlinkCall F .unlink full) fun errno => throw (translateRemoval path errno)
  | _ => throw (.irregular path)

/-- The entry of the new directory; a key stands in the table once. -/
def record (drv : LocalFsDriver) (full : Place) (st : Stat) : LocalFsDriver :=
  { drv with scratch := (full, st.dev, st.ino) :: (drv.pop full).scratch }

def mkdtemp (dev ino : ℕ) : Serving Place := do
  let path ← rescue (makeTemp F dev ino F.names) fun errno => throw (translate "tmpdir" errno)
  rescue (attempt F .lstat) fun errno => throw (translate "tmpdir" errno)
  let s ← get
  let full := s.machine.host.realpath path
  match s.machine.host.lstat full with
  | some (_, .directory st) =>
    set { s with driver := s.driver.record full st }
    return full
  | _ => throw (translate "tmpdir" .noent)

structure StatResult where
  type : String
  /-- Size and mode, of a regular file. -/
  file : Option Regular
deriving DecidableEq, Repr

def stat (path : String) : Serving StatResult := do
  let full ← door path
  let (p, e) ← rescue (Filesystem.stat F .stat full) fun errno => throw (translate path errno)
  let s ← get
  match e with
  | .regular => return ⟨"file", some (s.machine.disk.inode (s.machine.disk.node p))⟩
  | .directory _ => return ⟨"directory", none⟩
  | _ => return ⟨"other", none⟩

/-- The rename; whether there was nothing at the destination. -/
def rename (src dst : String) : Serving Bool := do
  let srcFull ← door src
  let dstFull ← door dst
  let _ ← require F .stat srcFull src
  let dstSt ← statRegular F .statTarget dstFull dst
  rescue (renameCall F srcFull dstFull) fun errno =>
    if errno = .xdev then throw (.crossing src dst)
    else throw (translate (src ++ " -> " ++ dst) errno)
  return dstSt.isNone

def copy (src dst : String) : Serving WriteResult := do
  let srcFull ← door src
  let dstFull ← door dst
  if srcFull = dstFull then throw (.sameFile src dst)
  let mode ← require F .stat srcFull src
  let content ← rescue (contents F srcFull) fun errno => throw (translate src errno)
  replace F dstFull dst content mode

end LocalFsDriver

end Jetty.Filesystem
