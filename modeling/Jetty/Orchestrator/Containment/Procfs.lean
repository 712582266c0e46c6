import Jetty.Core.Python.Numerals
import Jetty.Core.Python.Words
import Jetty.Orchestrator.Containment.Step

/-!
# Reading the process table

`procfs` on the files of `/proc`, and the sweep over the members of a session. Each process has a
stat file, whose second field is a name that the process chooses: any bytes.
-/

namespace Jetty.Orchestrator.Procfs

open Python

/-- What the functions raise: `UnicodeDecodeError`, `IndexError` or `ValueError`. -/
inductive Raised
  | unicode
  | index
  | value
deriving DecidableEq, Repr

/-- The names in `/proc` when it is listed, and the bytes of each stat file when it is read;
nothing where that raises `OSError`. -/
structure Files where
  names : List String
  stat : ℕ → Option (List ℕ)

def closing : CodePoint := 0x29

/-- `_stat_fields`. -/
def statFields (F : Files) (pid : ℕ) : Except Raised (Option (List Text)) :=
  match F.stat pid with
  | none => .ok none
  | some bytes =>
    match Text.readText bytes with
    | none => .error .unicode
    | some raw =>
      if closing ∈ raw then .ok (some (Text.words (Text.afterLast closing raw)))
      else .error .index

/-- `alive`. -/
def alive (F : Files) (pid : ℕ) : Except Raised Bool := do
  match ← statFields F pid with
  | none => return false
  | some fields =>
    match fields[0]? with
    | some field => return field != [Fin.ofNat _ 'Z'.toNat]
    | none => throw .index

/-- The field of that index as a number. -/
def numberAt (i : ℕ) (F : Files) (pid : ℕ) : Except Raised (Option ℤ) := do
  match ← statFields F pid with
  | none | some [] => return none
  | some fields =>
    match fields[i]? with
    | some field =>
      match intOfText field with
      | some n => return some n
      | none => throw .value
    | none => throw .index

/-- `start_ticks`. -/
def startTicks : Files → ℕ → Except Raised (Option ℤ) := numberAt 19

/-- `session_id`. -/
def sessionId : Files → ℕ → Except Raised (Option ℤ) := numberAt 3

/-- `ppid`. -/
def ppid : Files → ℕ → Except Raised (Option ℤ) := numberAt 1

/-- `all_pids`. -/
def allPids (F : Files) : Except Raised (List ℕ) :=
  (F.names.filter fun name => isDigit name.toList).mapM fun name =>
    match toInt name.toList with
    | some pid => .ok pid
    | none => .error .value

/-- The pids whose session is one of those. -/
def membersAmong (F : Files) (sids : List ℤ) : List ℕ → Except Raised (List ℕ)
  | [] => .ok []
  | pid :: pids => do
    let sid ← sessionId F pid
    let members ← membersAmong F sids pids
    return if sid.any (· ∈ sids) then pid :: members else members

/-- `session_members`. -/
def sessionMembers (F : Files) (sids : List ℤ) : Except Raised (List ℕ) :=
  if sids.isEmpty then .ok [] else do membersAmong F sids (← allPids F)

/-- A system call of a sweep. Where it raises `ProcessLookupError` or `PermissionError`, the sweep
goes on. -/
inductive Call
  | killpg (pgid : ℕ) (signal : Signal)
  | kill (pid : ℕ) (signal : Signal)
deriving DecidableEq, Repr

/-- `PgroupBackend.sweep`, on the session id that is registered for the service: its calls, and
how it ends. -/
def sweep (F : Files) (sid : Option ℕ) (signal : Signal) : List Call × Except Raised Unit :=
  match sid with
  | none | some 0 => ([], .ok ())
  | some sid =>
    match sessionMembers F [(sid : ℤ)] with
    | .ok members => (.killpg sid signal :: members.map fun pid => .kill pid signal, .ok ())
    | .error e => ([.killpg sid signal], .error e)

/-- The states of a process. -/
inductive ProcState
  | running
  | sleeping
  | diskSleep
  | stopped
  | tracing
  | dead
  | zombie
  | parked
  | idle
deriving DecidableEq, Repr

/-- The letter of a state. -/
def ProcState.letter : ProcState → Char
  | running => 'R'
  | sleeping => 'S'
  | diskSleep => 'D'
  | stopped => 'T'
  | tracing => 't'
  | dead => 'X'
  | zombie => 'Z'
  | parked => 'P'
  | idle => 'I'

/-- A process as its stat file shows it. The fifteen numbers between the session and the start
time, and those behind it, are not read here. -/
structure Entry where
  pid : Fin (2 ^ 22)
  comm : List (Fin 256)
  state : ProcState
  ppid : ℕ
  pgrp : ℕ
  session : Fin (2 ^ 22)
  counters : List ℤ
  counters_length : counters.length = 15
  starttime : Fin (2 ^ 64)
  others : List ℤ

/-- A number as the kernel prints it. -/
def signed : ℤ → Text
  | .ofNat n => numeral n
  | .negSucc n => 0x2D :: numeral (n + 1)

namespace Entry

variable (e : Entry)

/-- The fields behind the name. -/
def fields : List Text :=
  [Fin.ofNat _ e.state.letter.toNat] :: numeral e.ppid :: numeral e.pgrp :: numeral e.session ::
    (e.counters.map signed ++ numeral e.starttime :: e.others.map signed)

/-- What stands before the name. -/
def front : Text := numeral e.pid ++ [0x20, 0x28]

/-- What stands behind the closing parenthesis. -/
def tail : Text := (e.fields.flatMap fun field => 0x20 :: field) ++ [Text.newline]

def commBytes : List ℕ := e.comm.map Fin.val

/-- The bytes of `/proc/<pid>/stat`. -/
def stat : List ℕ := e.front.map Fin.val ++ e.commBytes ++ (closing :: e.tail).map Fin.val

/-- The name is UTF-8. -/
def Decodes : Prop := (Text.decode e.commBytes).isSome = true

end Entry

/-- An entry of `/proc`: a process, or a file of another name. -/
inductive Listed
  | process (e : Entry)
  | other (name : String) (h : isDigit name.toList = false)

namespace Listed

def name : Listed → String
  | process e => toString e.pid.val
  | other name _ => name

def entry : Listed → Option Entry
  | process e => some e
  | other _ _ => none

end Listed

/-- `/proc` when it is listed, each process once, and the processes that have vanished when their
stat files are read. -/
structure Listing where
  listed : List Listed
  gone : ℕ → Bool
  nodup : ((listed.filterMap Listed.entry).map fun e => e.pid.val).Nodup

namespace Listing

variable (L : Listing)

def entries : List Entry := L.listed.filterMap Listed.entry

/-- The processes whose stat files can still be read. -/
def readable : List Entry := L.entries.filter fun e => !L.gone e.pid

def files : Files where
  names := L.listed.map Listed.name
  stat pid :=
    if L.gone pid then none
    else (L.entries.find? fun e => decide (e.pid.val = pid)).map Entry.stat

end Listing

end Jetty.Orchestrator.Procfs
