import Jetty.Core.Transition
import Jetty.Orchestrator.Console.Lines
import Mathlib.Data.List.Forall2

/-!
# The output of a service

How the bytes that the processes of a service write come into its log file and onto the console:
the pump of one incarnation after the other, with the notes of the supervisor in between.
-/

namespace Jetty.Orchestrator

open Console Python Transition

/-- The pipe between the processes of an incarnation and its pump. -/
structure OutputPipe where
  /-- All that has been written to it. -/
  written : List ℕ := []
  /-- How many bytes of it the pump has taken. -/
  taken : ℕ := 0
  /-- Some process has it open for writing. -/
  held : Bool := false
deriving DecidableEq, Repr

/-- `_reader_task` of an incarnation. -/
inductive Pump
  | none
  | reading
  | finished
  | failed
  | cancelled
deriving DecidableEq, Repr

/-- What `_spawn` has announced in the log; where the spawn fails, nothing is ever written. -/
structure Incarnation where
  header : List ℕ
  pipe : OutputPipe := {}
  pump : Pump := .none
deriving DecidableEq, Repr

/-- Where `run` is, as far as it concerns the log. -/
inductive LogPhase
  /-- Between incarnations. -/
  | idle
  /-- `_spawn` has opened the log and renders. -/
  | preparing
  /-- `_spawn` has announced the command. -/
  | announced
  | live
  /-- The incarnation has been swept, and the pipe is drained. -/
  | draining
  /-- An exception has ended `run`. -/
  | dead
deriving DecidableEq, Repr

/-- The part of a `Service` that its output goes through, and its log file. -/
structure ServiceOutput where
  file : List ℕ := []
  /-- `_logf` is open. -/
  logf : Bool := false
  /-- `_tail`. -/
  tail : List ℕ := []
  buffer : LineBuffer := {}
  incarnations : List Incarnation := []
  phase : LogPhase := .idle

/-- What becomes of what is written. -/
structure Sink where
  /-- How many bytes the write to the log has taken, or that it raised `OSError`. -/
  disk : Option ℕ
  /-- Which of the lines cannot be printed any more, if one cannot. -/
  console : Option ℕ := none
deriving DecidableEq, Repr

/-- What happens to the output. -/
inductive OutputEvent
  /-- `_spawn` opens the log, or fails to. -/
  | openLog (opened : Bool)
  /-- The render raises what `_spawn` catches. -/
  | renderFails (message : List ℕ) (sink : Sink)
  /-- Something raises that `run` does not catch. -/
  | raises
  | announce (header : List ℕ) (sink : Sink)
  | spawnFails (message : List ℕ) (sink : Sink)
  | spawned
  /-- A process of an incarnation writes. -/
  | write (incarnation : ℕ) (data : List ℕ)
  /-- The last process that has the pipe of an incarnation open is gone. -/
  | hangUp (incarnation : ℕ)
  /-- `_pump` reads a chunk. -/
  | pump (size : ℕ) (sink : Sink)
  | pumpEnds
  /-- The process has exited, and the sweep is done. -/
  | sweep
  | drained
  /-- The drain takes too long. -/
  | abandon (message : List ℕ) (sink : Sink)
  /-- A note of any task. -/
  | note (message : List ℕ) (sink : Sink)
deriving DecidableEq, Repr

/-- `_TAIL_BYTES`. -/
def tailBytes : ℕ := 8192

/-- `stream.read(65536)`. -/
def chunkBytes : ℕ := 65536

namespace ServiceOutput

variable (s : ServiceOutput)

/-- What a call that writes leaves behind. -/
structure Shown where
  output : ServiceOutput
  /-- The lines that the echo has printed. -/
  lines : List Text
  raised : Bool

/-- The echo, and then the tail: a line that cannot be printed comes between the two. -/
def echo (data : List ℕ) (console : Option ℕ) : Shown :=
  let fed := s.buffer.feed data
  match console.filter (· < fed.1.length) with
  | none => ⟨{ s with tail := (s.tail ++ data).rtake tailBytes, buffer := fed.2 }, fed.1, false⟩
  | some printed => ⟨{ s with buffer := fed.2 }, fed.1.take printed, true⟩

/-- `_append_output`. -/
def appendOutput (data : List ℕ) (sink : Sink) : Shown :=
  if s.logf then
    match sink.disk with
    | some n => { s with file := s.file ++ data.take n }.echo data sink.console
    | none => ⟨s, [], true⟩
  else s.echo data sink.console

/-- `_log_note`. -/
def logNote (message : List ℕ) (sink : Sink) : Shown :=
  if s.logf then s.appendOutput message sink
  else { s with file := s.file ++ ((sink.disk.map message.take).getD []) }.echo message sink.console

/-- What is on after the log has been closed. -/
def close : ServiceOutput := { s with logf := false, phase := .idle }

/-- A change of the last incarnation. -/
def modifyLast (f : Incarnation → Incarnation) : ServiceOutput :=
  { s with incarnations := s.incarnations.dropLast ++ (s.incarnations.getLast?.map f).toList }

def last : Option Incarnation := s.incarnations.getLast?

/-- An exception on the way ends `run`, the log stays open. -/
def Shown.orDies (shown : Shown) (next : ServiceOutput → ServiceOutput) :
    ServiceOutput × List Text :=
  (if shown.raised then { shown.output with phase := .dead } else next shown.output, shown.lines)

/-- One step, and the lines that the echo prints. -/
def step : OutputEvent → Option (ServiceOutput × List Text)
  | .openLog opened =>
    if s.phase = .idle then
      some (if opened then { s with logf := true, phase := .preparing }
        else { s with phase := .dead }, [])
    else none
  | .renderFails message sink =>
    if s.phase = .preparing then some ((s.logNote message sink).orDies close) else none
  | .raises => some ({ s with phase := .dead }, [])
  | .announce header sink =>
    if s.phase = .preparing then
      some ((s.appendOutput header sink).orDies fun t =>
        { t with incarnations := t.incarnations ++ [⟨header, {}, .none⟩], phase := .announced })
    else none
  | .spawnFails message sink =>
    if s.phase = .announced then some ((s.logNote message sink).orDies close) else none
  | .spawned =>
    if s.phase = .announced then
      some ({ s with phase := .live }.modifyLast fun a =>
        { a with pipe := { a.pipe with held := true }, pump := .reading }, [])
    else none
  | .write i data =>
    if (s.incarnations[i]?).any (·.pipe.held) then
      some ({ s with incarnations := s.incarnations.modify i fun a =>
        { a with pipe := { a.pipe with written := a.pipe.written ++ data } } }, [])
    else none
  | .hangUp i =>
    if (s.incarnations[i]?).any (·.pipe.held) then
      some ({ s with incarnations := s.incarnations.modify i fun a =>
        { a with pipe := { a.pipe with held := false } } }, [])
    else none
  | .pump size sink => s.last.bind fun a =>
    if a.pump = .reading ∧ 0 < size ∧ size ≤ chunkBytes ∧
        a.pipe.taken + size ≤ a.pipe.written.length then
      let shown := s.appendOutput ((a.pipe.written.drop a.pipe.taken).take size) sink
      some (shown.output.modifyLast fun a =>
        { a with
          pipe := { a.pipe with taken := a.pipe.taken + size }
          pump := if shown.raised then .failed else a.pump }, shown.lines)
    else none
  | .pumpEnds => s.last.bind fun a =>
    if a.pump = .reading ∧ a.pipe.taken = a.pipe.written.length ∧ a.pipe.held = false then
      some (s.modifyLast fun a => { a with pump := .finished }, [])
    else none
  | .sweep => if s.phase = .live then some ({ s with phase := .draining }, []) else none
  | .drained => s.last.bind fun a =>
    if s.phase = .draining then
      if a.pump = .finished then some (s.close, [])
      else if a.pump = .failed then some ({ s with phase := .dead }, [])
      else none
    else none
  | .abandon message sink => s.last.bind fun a =>
    if s.phase = .draining ∧ a.pump = .reading then
      let s := s.modifyLast fun a => { a with pump := .cancelled }
      some ((s.logNote message sink).orDies close)
    else none
  | .note message sink => some ((s.logNote message sink).output, (s.logNote message sink).lines)

end ServiceOutput

/-! ### Lists -/

section Lists

variable {α β : Type*} {R : α → β → Prop}

private theorem forall₂_concat_left {xs : List α} {x : α} {l : List β} :
    List.Forall₂ R (xs ++ [x]) l ↔ ∃ ys y, l = ys ++ [y] ∧ List.Forall₂ R xs ys ∧ R x y := by
  rw [← List.forall₂_reverse_iff, List.reverse_append, List.reverse_singleton,
    List.singleton_append, List.forall₂_cons_left_iff]
  constructor
  · rintro ⟨y, ys, hy, hys, hl⟩
    refine ⟨ys.reverse, y, ?_, ?_, hy⟩
    · rw [← List.reverse_reverse l, hl, List.reverse_cons]
    · rwa [← List.forall₂_reverse_iff, List.reverse_reverse]
  · rintro ⟨ys, y, rfl, hys, hy⟩
    refine ⟨y, ys.reverse, hy, List.forall₂_reverse_iff.mpr hys, ?_⟩
    rw [List.reverse_append, List.reverse_singleton, List.singleton_append]

private theorem forall₂_concat_right {l : List α} {ys : List β} {y : β} :
    List.Forall₂ R l (ys ++ [y]) ↔ ∃ xs x, l = xs ++ [x] ∧ List.Forall₂ R xs ys ∧ R x y := by
  have hflip {xs : List α} {ys : List β} : List.Forall₂ R xs ys ↔ List.Forall₂ (flip R) ys xs :=
    ⟨List.Forall₂.flip, List.Forall₂.flip⟩
  rw [hflip, forall₂_concat_left]
  exact exists_congr fun xs => exists_congr fun x =>
    and_congr_right fun _ => and_congr_left fun _ => hflip.symm

private theorem forall_mem_of_forall₂ {P : α → Prop} {Q : β → Prop} {xs : List α} {ys : List β}
    (h : List.Forall₂ R xs ys) (hP : ∀ x ∈ xs, P x)
    (hstep : ∀ x y, R x y → P x → Q y) : ∀ y ∈ ys, Q y := by
  induction h with
  | nil => exact fun y hy => absurd hy List.not_mem_nil
  | cons hxy _ ih =>
      obtain ⟨hx, hxs⟩ := List.forall_mem_cons.mp hP
      exact List.forall_mem_cons.mpr ⟨hstep _ _ hxy hx, ih hxs⟩

private theorem forall₂_modify {R : α → α → Prop} {xs : List α} {i : ℕ} {f : α → α}
    (hrefl : ∀ x, R x x) (hf : ∀ x, xs[i]? = some x → R x (f x)) :
    List.Forall₂ R xs (xs.modify i f) := by
  induction xs generalizing i with
  | nil =>
      rw [List.modify_nil]
      exact .nil
  | cons x xs ih =>
      cases i with
      | zero => exact .cons (hf x rfl) (List.forall₂_same.mpr fun y _ => hrefl y)
      | succ i => exact .cons (hrefl x) (ih hf)

private theorem map_modify {f : α → α} {g : β → β} {m : α → β} (h : ∀ x, m (f x) = g (m x)) (i : ℕ)
    (xs : List α) : (xs.modify i f).map m = (xs.map m).modify i g := by
  induction xs generalizing i with
  | nil => rw [List.modify_nil, List.map_nil, List.modify_nil]
  | cons x xs ih =>
      cases i with
      | zero => exact congrArg (· :: xs.map m) (h x)
      | succ i => exact congrArg (m x :: ·) (ih i)

private theorem rtake_rtake_append (n : ℕ) (xs ys : List α) :
    (xs.rtake n ++ ys).rtake n = (xs ++ ys).rtake n := by
  simp only [List.rtake_eq_reverse_take_reverse, List.reverse_append, List.reverse_reverse,
    List.take_append, List.take_take]
  rw [Nat.min_eq_left (Nat.sub_le n _)]

end Lists

/-! ### What a log tells -/

/-- What comes into a log behind the header of an incarnation. -/
inductive LogEntry
  | output (data : List ℕ)
  | note (message : List ℕ)

namespace LogEntry

def bytes : LogEntry → List ℕ
  | output data => data
  | note message => message

def asOutput : LogEntry → Option (List ℕ)
  | output data => some data
  | note _ => none

def asNote : LogEntry → Option (List ℕ)
  | output _ => none
  | note message => some message

end LogEntry

/-- The part of a log from the header of an incarnation up to the next one. -/
structure LogSection where
  header : List ℕ
  entries : List LogEntry

namespace LogSection

def bytes (sec : LogSection) : List ℕ := sec.header ++ sec.entries.flatMap LogEntry.bytes

def output (sec : LogSection) : List ℕ := (sec.entries.filterMap LogEntry.asOutput).flatten

def notes (sec : LogSection) : List (List ℕ) := sec.entries.filterMap LogEntry.asNote

/-- The section is that of the incarnation: its output is what the pump has taken. -/
def Of (sec : LogSection) (a : Incarnation) : Prop :=
  sec.header = a.header ∧ sec.output = a.pipe.written.take a.pipe.taken

def add (sec : LogSection) (e : LogEntry) : LogSection := { sec with entries := sec.entries ++ [e] }

variable (sec : LogSection) (e : LogEntry)

private theorem bytes_add : (sec.add e).bytes = sec.bytes ++ e.bytes := by
  rw [bytes, add, List.flatMap_append, List.flatMap_singleton, ← List.append_assoc, bytes]

private theorem output_add : (sec.add e).output = sec.output ++ (e.asOutput.getD []) := by
  rw [output, add, List.filterMap_append, List.flatten_append, output]
  cases e with
  | output data => exact congrArg _ (List.append_nil data)
  | note message => rfl

private theorem notes_add : (sec.add e).notes = sec.notes ++ e.asNote.toList := by
  rw [notes, add, List.filterMap_append, notes]
  cases e <;> rfl

end LogSection

/-- A log of some incarnations: notes, and a section for each of them. -/
def Logged (file : List ℕ) (incarnations : List Incarnation) (notes : List (List ℕ)) : Prop :=
  ∃ preface sections,
    file = preface.flatten ++ sections.flatMap LogSection.bytes ∧
    List.Forall₂ LogSection.Of sections incarnations ∧
    notes = preface ++ sections.flatMap LogSection.notes

/-- The log has the same of both. -/
def Incarnation.Same (a b : Incarnation) : Prop :=
  b.header = a.header ∧ b.pipe.written.take b.pipe.taken = a.pipe.written.take a.pipe.taken

section Logs

variable {file : List ℕ} {incarnations init : List Incarnation} {notes : List (List ℕ)}
  {a b : Incarnation}

private theorem Incarnation.Same.refl (a : Incarnation) : a.Same a := ⟨rfl, rfl⟩

private theorem logged_nil : Logged [] [] [] := ⟨[], [], rfl, .nil, rfl⟩

private theorem Logged.congr {incarnations' : List Incarnation} (h : Logged file incarnations notes)
    (hsame : List.Forall₂ Incarnation.Same incarnations incarnations') :
    Logged file incarnations' notes := by
  obtain ⟨preface, sections, hfile, hof, hnotes⟩ := h
  refine ⟨preface, sections, hfile, ?_, hnotes⟩
  clear hfile hnotes
  induction hsame generalizing sections with
  | nil => exact hof
  | cons hab _ ih =>
      obtain ⟨sec, rest, ⟨hheader, houtput⟩, hrest, rfl⟩ := List.forall₂_cons_right_iff.mp hof
      exact .cons ⟨hheader.trans hab.1.symm, houtput.trans hab.2.symm⟩ (ih rest hrest)

/-- A note comes behind what is there. -/
theorem Logged.note (h : Logged file incarnations notes) (message : List ℕ) :
    Logged (file ++ message) incarnations (notes ++ [message]) := by
  obtain ⟨preface, sections, rfl, hof, rfl⟩ := h
  rcases List.eq_nil_or_concat' sections with rfl | ⟨before, sec, rfl⟩
  · refine ⟨preface ++ [message], [], ?_, hof, ?_⟩
    · rw [List.flatMap_nil, List.append_nil, List.append_nil, List.flatten_append,
        List.flatten_singleton]
    · rw [List.flatMap_nil, List.append_nil, List.append_nil]
  · obtain ⟨past, a, rfl, hpast, ha⟩ := forall₂_concat_left.mp hof
    refine ⟨preface, before ++ [sec.add (.note message)], ?_,
      forall₂_concat_left.mpr ⟨past, a, rfl, hpast, ha.1, ?_⟩, ?_⟩
    · simp only [List.flatMap_append, List.flatMap_singleton, LogSection.bytes_add,
        LogEntry.bytes, List.append_assoc]
    · rw [LogSection.output_add, LogEntry.asOutput, Option.getD_none, List.append_nil]
      exact ha.2
    · simp only [List.flatMap_append, List.flatMap_singleton, LogSection.notes_add,
        LogEntry.asNote, Option.toList, List.append_assoc]

/-- An incarnation is announced. -/
theorem Logged.announce (h : Logged file incarnations notes) (header : List ℕ) :
    Logged (file ++ header) (incarnations ++ [⟨header, {}, .none⟩]) notes := by
  obtain ⟨preface, sections, rfl, hof, rfl⟩ := h
  refine ⟨preface, sections ++ [⟨header, []⟩], ?_,
    forall₂_concat_left.mpr ⟨incarnations, _, rfl, hof, rfl, rfl⟩, ?_⟩
  · rw [List.flatMap_append, List.flatMap_singleton, LogSection.bytes, List.flatMap_nil,
      List.append_nil, List.append_assoc]
  · rw [List.flatMap_append, List.flatMap_singleton, LogSection.notes, List.filterMap_nil,
      List.append_nil]

/-- The pump takes a chunk. -/
theorem Logged.pump (h : Logged file (init ++ [a]) notes) {data : List ℕ}
    (hheader : b.header = a.header)
    (htaken : b.pipe.written.take b.pipe.taken = a.pipe.written.take a.pipe.taken ++ data) :
    Logged (file ++ data) (init ++ [b]) notes := by
  obtain ⟨preface, sections, rfl, hof, rfl⟩ := h
  obtain ⟨before, sec, rfl, hbefore, hsec⟩ := forall₂_concat_right.mp hof
  refine ⟨preface, before ++ [sec.add (.output data)], ?_,
    forall₂_concat_left.mpr ⟨init, b, rfl, hbefore, hsec.1.trans hheader.symm, ?_⟩, ?_⟩
  · simp only [List.flatMap_append, List.flatMap_singleton, LogSection.bytes_add,
      LogEntry.bytes, List.append_assoc]
  · rw [LogSection.output_add, LogEntry.asOutput, Option.getD_some, hsec.2, htaken]
  · simp only [List.flatMap_append, List.flatMap_singleton, LogSection.notes_add,
      LogEntry.asNote, Option.toList, List.append_nil]

end Logs

/-! ### The pumps -/

/-- The pump of an incarnation and its pipe. -/
structure Incarnation.Sound (a : Incarnation) : Prop where
  taken_le : a.pipe.taken ≤ a.pipe.written.length
  unspawned : a.pump = .none → a.pipe.written = [] ∧ a.pipe.held = false
  finished : a.pump = .finished → a.pipe.taken = a.pipe.written.length ∧ a.pipe.held = false

/-- The pump takes nothing any more. -/
def Incarnation.Over (a : Incarnation) : Prop :=
  a.pump = .none ∨ a.pump = .finished ∨ a.pump = .cancelled

/-- All that the incarnation has written or ever will has been taken. -/
def Incarnation.Complete (a : Incarnation) : Prop :=
  a.pipe.taken = a.pipe.written.length ∧ a.pipe.held = false

private theorem Incarnation.sound_of_reading {a : Incarnation}
    (htaken : a.pipe.taken ≤ a.pipe.written.length) (hreading : a.pump = .reading) : a.Sound where
  taken_le := htaken
  unspawned hnone := Pump.noConfusion (hreading.symm.trans hnone)
  finished hend := Pump.noConfusion (hreading.symm.trans hend)

private theorem Incarnation.Sound.complete {a : Incarnation} (h : a.Sound) (hover : a.Over)
    (hcancelled : a.pump ≠ .cancelled) : a.Complete := by
  rcases hover with hnone | hfinished | hcancel
  · obtain ⟨hwritten, hheld⟩ := h.unspawned hnone
    have htaken := h.taken_le
    rw [hwritten, List.length_nil, Nat.le_zero] at htaken
    exact ⟨by rw [htaken, hwritten, List.length_nil], hheld⟩
  · exact h.finished hfinished
  · exact absurd hcancel hcancelled

/-! ### What a step does -/

/-- The header of an incarnation, and what its processes have written. -/
def Incarnation.row (a : Incarnation) : List ℕ × List ℕ := (a.header, a.pipe.written)

namespace OutputEvent

/-- The incarnations as the step leaves them. -/
def tells : OutputEvent → List (List ℕ × List ℕ) → List (List ℕ × List ℕ)
  | announce header _, rows => rows ++ [(header, [])]
  | write i data, rows => rows.modify i fun row => (row.1, row.2 ++ data)
  | _, rows => rows

/-- The disk and the console take what the step writes. -/
def Whole : OutputEvent → Prop
  | renderFails data sink | announce data sink | spawnFails data sink | abandon data sink
  | note data sink => sink = ⟨some data.length, none⟩
  | pump size sink => sink = ⟨some size, none⟩
  | _ => True

/-- The note of a step. -/
def message : OutputEvent → Option (List ℕ)
  | renderFails message _ | spawnFails message _ | abandon message _ | note message _ =>
    some message
  | _ => none

end OutputEvent

/-! ### The echo -/

/-- The tail and the echo show a log. -/
structure Echoed (file tail : List ℕ) (buffer : LineBuffer) (printed : List Text) : Prop where
  tail_eq : tail = file.rtake tailBytes
  held_eq : buffer.held = openLine file
  printed_eq : printed = (completeLines file).map render

private theorem echoed_nil : Echoed [] [] {} [] := ⟨(List.rtake_nil _).symm, rfl, rfl⟩

private theorem Echoed.feed {file tail : List ℕ} {buffer : LineBuffer} {printed : List Text}
    (h : Echoed file tail buffer printed) (data : List ℕ) :
    Echoed (file ++ data) ((tail ++ data).rtake tailBytes) (buffer.feed data).2
      (printed ++ (buffer.feed data).1) where
  tail_eq := by rw [h.tail_eq, rtake_rtake_append]
  held_eq := by
    rw [openLine_append, ← h.held_eq]
    rfl
  printed_eq := by
    rw [completeLines_append, List.map_append, ← h.held_eq, ← h.printed_eq]
    rfl

namespace ServiceOutput

variable {s t : ServiceOutput} {lines printed : List Text} {data : List ℕ}
  {notes : List (List ℕ)} {e : OutputEvent} {init : List Incarnation} {a b : Incarnation}

/-- The bytes come into the log, into the tail and into the echo. -/
def put (s : ServiceOutput) (data : List ℕ) : ServiceOutput × List Text :=
  ({ s with
    file := s.file ++ data
    tail := (s.tail ++ data).rtake tailBytes
    buffer := (s.buffer.feed data).2 }, (s.buffer.feed data).1)

private theorem echoed_put (h : Echoed s.file s.tail s.buffer printed) (data : List ℕ) :
    Echoed (s.put data).1.file (s.put data).1.tail (s.put data).1.buffer
      (printed ++ (s.put data).2) := by
  unfold put
  dsimp only
  exact h.feed data

private theorem appendOutput_whole (h : s.logf = true) (data : List ℕ) :
    s.appendOutput data ⟨some data.length, none⟩ =
      ⟨(s.put data).1, (s.put data).2, false⟩ := by
  unfold appendOutput
  rw [if_pos h]
  dsimp only
  rw [List.take_length]
  rfl

private theorem logNote_whole (s : ServiceOutput) (message : List ℕ) :
    s.logNote message ⟨some message.length, none⟩ =
      ⟨(s.put message).1, (s.put message).2, false⟩ := by
  unfold logNote
  split_ifs with hlogf
  · exact appendOutput_whole hlogf message
  · rw [Option.map_some, List.take_length, Option.getD_some]
    rfl

private theorem orDies_of_not_raised (t : ServiceOutput) (lines : List Text)
    (next : ServiceOutput → ServiceOutput) :
    Shown.orDies ⟨t, lines, false⟩ next = (next t, lines) := rfl

/-- A step that is taken under a condition alone. -/
theorem of_guarded {p : Prop} [Decidable p] {result : ServiceOutput × List Text}
    (h : (if p then some result else none) = some (t, lines)) :
    p ∧ t = result.1 ∧ lines = result.2 := by
  obtain ⟨hp, heq⟩ := Option.ite_none_right_eq_some.mp h
  obtain rfl := Option.some.inj heq
  exact ⟨hp, rfl, rfl⟩

private theorem last_eq_some (h : s.last = some a) : ∃ init, s.incarnations = init ++ [a] :=
  List.getLast?_eq_some_iff.mp h

private theorem modifyLast_eq (h : s.incarnations = init ++ [a]) (f : Incarnation → Incarnation) :
    s.modifyLast f = { s with incarnations := init ++ [f a] } := by
  rw [modifyLast, h, List.dropLast_concat, List.getLast?_concat]
  rfl

/-- The headers so far, and what has been written behind each of them. -/
def rows (s : ServiceOutput) : List (List ℕ × List ℕ) := s.incarnations.map Incarnation.row

private theorem rows_modifyLast {f : Incarnation → Incarnation} (hf : ∀ a, (f a).row = a.row) :
    (s.modifyLast f).rows = s.rows := by
  rcases List.eq_nil_or_concat' s.incarnations with hnil | ⟨init, a, hs⟩
  · simp only [rows, modifyLast, hnil]
    rfl
  · rw [modifyLast_eq hs, rows, rows, hs, List.map_append, List.map_append, List.map_singleton,
      List.map_singleton, hf]

/-- What is kept of a service after these notes and with these lines printed. -/
structure Kept (s : ServiceOutput) (notes : List (List ℕ)) (printed : List Text) : Prop where
  logged : Logged s.file s.incarnations notes
  echoed : Echoed s.file s.tail s.buffer printed
  sound : ∀ a ∈ s.incarnations, a.Sound
  past : ∀ a ∈ s.incarnations.dropLast, a.Over
  between : s.phase = .idle ∨ s.phase = .preparing ∨ s.phase = .announced →
    ∀ a ∈ s.incarnations, a.Over
  closed : s.logf = false → ∀ a ∈ s.incarnations, a.Over
  opened : s.phase = .preparing ∨ s.phase = .announced ∨ s.phase = .live ∨ s.phase = .draining →
    s.logf = true

private theorem kept_start : Kept {} [] [] where
  logged := logged_nil
  echoed := echoed_nil
  sound _ h := absurd h List.not_mem_nil
  past _ h := absurd h List.not_mem_nil
  between _ _ h := absurd h List.not_mem_nil
  closed _ _ h := absurd h List.not_mem_nil
  opened h := by simp at h

private theorem Kept.put (h : s.Kept notes printed) (message : List ℕ) :
    (s.put message).1.Kept (notes ++ [message]) (printed ++ (s.put message).2) where
  logged := h.logged.note message
  echoed := echoed_put h.echoed message
  sound := h.sound
  past := h.past
  between := h.between
  closed := h.closed
  opened := h.opened

/-- Between incarnations the log is opened. -/
theorem Kept.openLog (h : s.Kept notes printed) (hphase : s.phase = .idle) :
    Kept { s with logf := true, phase := .preparing } notes printed where
  logged := h.logged
  echoed := h.echoed
  sound := h.sound
  past := h.past
  between _ := h.between (.inl hphase)
  closed hclosed := by simp at hclosed
  opened _ := rfl

/-- The log is closed when all pumps are over. -/
theorem Kept.close (h : s.Kept notes printed) (hover : ∀ a ∈ s.incarnations, a.Over) :
    s.close.Kept notes printed where
  logged := h.logged
  echoed := h.echoed
  sound := h.sound
  past := h.past
  between _ := hover
  closed _ := hover
  opened hphase := by simp [ServiceOutput.close] at hphase

/-- `run` ends where it is. -/
theorem Kept.dead (h : s.Kept notes printed) : Kept { s with phase := .dead } notes printed where
  logged := h.logged
  echoed := h.echoed
  sound := h.sound
  past := h.past
  between hphase := by simp at hphase
  closed := h.closed
  opened hphase := by simp at hphase

private theorem Kept.drain (h : s.Kept notes printed) (hphase : s.phase = .live) :
    Kept { s with phase := .draining } notes printed where
  logged := h.logged
  echoed := h.echoed
  sound := h.sound
  past := h.past
  between hbetween := by simp at hbetween
  closed := h.closed
  opened _ := h.opened (.inr (.inr (.inl hphase)))

/-! #### The last incarnation -/

private theorem Kept.past_init (h : s.Kept notes printed) (hs : s.incarnations = init ++ [a]) :
    ∀ c ∈ init, c.Over := by
  have hpast := h.past
  rwa [hs, List.dropLast_concat] at hpast

private theorem Kept.forall_over (h : s.Kept notes printed) (hs : s.incarnations = init ++ [a])
    (hover : a.Over) : ∀ c ∈ s.incarnations, c.Over := by
  rw [hs]
  exact List.forall_mem_append.mpr ⟨h.past_init hs, List.forall_mem_singleton.mpr hover⟩

private theorem Kept.sound_last (h : s.Kept notes printed) (hs : s.incarnations = init ++ [a]) :
    a.Sound := h.sound a (hs ▸ List.mem_concat_self)

private theorem Kept.sound_concat (h : s.Kept notes printed) (hs : s.incarnations = init ++ [a])
    (hb : b.Sound) : ∀ c ∈ init ++ [b], c.Sound := by
  have hsounds := h.sound
  rw [hs, List.forall_mem_append] at hsounds
  exact List.forall_mem_append.mpr ⟨hsounds.1, List.forall_mem_singleton.mpr hb⟩

/-- While a pump reads, `run` is not between incarnations, and the log is open. -/
theorem Kept.of_reading (h : s.Kept notes printed) (hs : s.incarnations = init ++ [a])
    (hreading : a.pump = .reading) :
    ¬(s.phase = .idle ∨ s.phase = .preparing ∨ s.phase = .announced) ∧ s.logf = true := by
  have hnot : ¬a.Over := by
    rintro (hpump | hpump | hpump) <;> rw [hreading] at hpump <;> exact Pump.noConfusion hpump
  have hmem : a ∈ s.incarnations := hs ▸ List.mem_concat_self
  refine ⟨fun hphase => hnot (h.between hphase a hmem), ?_⟩
  by_contra hlogf
  exact hnot (h.closed (Bool.not_eq_true _ ▸ hlogf) a hmem)

private theorem Kept.announce (h : s.Kept notes printed) (hphase : s.phase = .preparing)
    (header : List ℕ) :
    Kept { (s.put header).1 with
      incarnations := s.incarnations ++ [⟨header, {}, .none⟩], phase := .announced }
      notes (printed ++ (s.put header).2) := by
  have hover : ∀ c ∈ s.incarnations ++ [⟨header, {}, .none⟩], c.Over :=
    List.forall_mem_append.mpr ⟨h.between (.inr (.inl hphase)),
      List.forall_mem_singleton.mpr (.inl rfl)⟩
  constructor
  · exact h.logged.announce header
  · dsimp only
    exact echoed_put h.echoed header
  · refine List.forall_mem_append.mpr ⟨h.sound, List.forall_mem_singleton.mpr ⟨?_, ?_, ?_⟩⟩
    · exact Nat.le_refl 0
    · exact fun _ => ⟨rfl, rfl⟩
    · exact fun hpump => Pump.noConfusion hpump
  · exact fun c hc => hover c (List.dropLast_subset _ hc)
  · exact fun _ => hover
  · exact fun _ => hover
  · exact fun _ => h.opened (.inl hphase)

/-- The pump takes a chunk. -/
theorem Kept.pump (h : s.Kept notes printed) (hs : s.incarnations = init ++ [a])
    (hreading : a.pump = .reading) {size : ℕ}
    (hsize : a.pipe.taken + size ≤ a.pipe.written.length)
    (hdata : data = (a.pipe.written.drop a.pipe.taken).take size) :
    Kept { (s.put data).1 with incarnations := init ++
      [{ a with pipe := { a.pipe with taken := a.pipe.taken + size } }] }
      notes (printed ++ (s.put data).2) := by
  obtain ⟨hphase, hlogf⟩ := h.of_reading hs hreading
  have hlogged := h.logged
  rw [hs] at hlogged
  constructor
  · exact hlogged.pump rfl (by rw [hdata]; exact List.take_add)
  · dsimp only
    exact echoed_put h.echoed data
  · exact h.sound_concat hs (Incarnation.sound_of_reading hsize hreading)
  · rw [List.dropLast_concat]
    exact h.past_init hs
  · exact fun hbetween => absurd hbetween hphase
  · exact fun hclosed => Bool.noConfusion (hlogf.symm.trans hclosed)
  · exact fun _ => hlogf

/-- The processes of an incarnation run, and its pump reads. -/
theorem Kept.spawned (h : s.Kept notes printed) (hphase : s.phase = .announced) :
    (modifyLast { s with phase := .live } fun a =>
      { a with pipe := { a.pipe with held := true }, pump := .reading }).Kept notes printed := by
  have hlogf : s.logf = true := h.opened (.inr (.inl hphase))
  have hlive : Kept { s with phase := .live } notes printed :=
    ⟨h.logged, h.echoed, h.sound, h.past, fun hbetween => by simp at hbetween, h.closed,
      fun _ => hlogf⟩
  rcases List.eq_nil_or_concat' s.incarnations with hnil | ⟨init, a, hs⟩
  · have hsame : modifyLast { s with phase := .live } (fun a =>
        { a with pipe := { a.pipe with held := true }, pump := .reading }) =
        { s with phase := .live } := by
      simp only [modifyLast, hnil]
      rfl
    rw [hsame]
    exact hlive
  · rw [modifyLast_eq (s := { s with phase := .live }) hs]
    have hsame : List.Forall₂ Incarnation.Same (init ++ [a])
        (init ++ [{ a with pipe := { a.pipe with held := true }, pump := .reading }]) :=
      List.rel_append (List.forall₂_same.mpr fun c _ => .refl c) (.cons ⟨rfl, rfl⟩ .nil)
    constructor
    · exact (hs ▸ h.logged).congr hsame
    · exact h.echoed
    · exact h.sound_concat hs (Incarnation.sound_of_reading (h.sound_last hs).taken_le rfl)
    · rw [List.dropLast_concat]
      exact h.past_init hs
    · exact fun hbetween => by simp at hbetween
    · exact fun hclosed => Bool.noConfusion (hlogf.symm.trans hclosed)
    · exact fun _ => hlogf

/-! #### What leaves the log as it is -/

/-- An incarnation goes on, with nothing of it in the log. -/
structure Evolves (a b : Incarnation) : Prop where
  same : a.Same b
  sound : a.Sound → b.Sound
  keeps : a.Over → b.Over

private theorem Evolves.refl (a : Incarnation) : Evolves a a := ⟨.refl a, id, id⟩

private theorem Kept.evolve {l : List Incarnation} (h : s.Kept notes printed)
    (hl : List.Forall₂ Evolves s.incarnations l) :
    Kept { s with incarnations := l } notes printed where
  logged := h.logged.congr (hl.imp fun _ _ hab => hab.same)
  echoed := h.echoed
  sound := forall_mem_of_forall₂ hl h.sound fun _ _ hab => hab.sound
  past := by
    have hpast := h.past
    rw [List.dropLast_eq_take] at hpast ⊢
    rw [← hl.length_eq]
    exact forall_mem_of_forall₂ (List.forall₂_take _ hl) hpast fun _ _ hab => hab.keeps
  between hbetween :=
    forall_mem_of_forall₂ hl (h.between hbetween) fun _ _ hab => hab.keeps
  closed hclosed := forall_mem_of_forall₂ hl (h.closed hclosed) fun _ _ hab => hab.keeps
  opened := h.opened

private theorem Kept.evolve_last (h : s.Kept notes printed) (hs : s.incarnations = init ++ [a])
    (hab : Evolves a b) : Kept { s with incarnations := init ++ [b] } notes printed := by
  refine h.evolve ?_
  rw [hs]
  exact List.rel_append (List.forall₂_same.mpr fun c _ => .refl c) (.cons hab .nil)

/-- A process that has the pipe open writes to it. -/
theorem evolves_write (hsound : a.Sound) (hheld : a.pipe.held = true) (data : List ℕ) :
    Evolves a { a with pipe := { a.pipe with written := a.pipe.written ++ data } } where
  same := ⟨rfl, List.take_append_of_le_length hsound.taken_le⟩
  sound _ := by
    refine ⟨?_, fun hnone => ?_, fun hend => ?_⟩
    · rw [List.length_append]
      exact Nat.le_trans hsound.taken_le (Nat.le_add_right _ _)
    · exact Bool.noConfusion (hheld.symm.trans (hsound.unspawned hnone).2)
    · exact Bool.noConfusion (hheld.symm.trans (hsound.finished hend).2)
  keeps := id

private theorem evolves_hangUp (a : Incarnation) :
    Evolves a { a with pipe := { a.pipe with held := false } } where
  same := ⟨rfl, rfl⟩
  sound h := ⟨h.taken_le, fun hnone => ⟨(h.unspawned hnone).1, rfl⟩,
    fun hend => ⟨(h.finished hend).1, rfl⟩⟩
  keeps := id

private theorem evolves_finish (h : a.Complete) : Evolves a { a with pump := .finished } where
  same := ⟨rfl, rfl⟩
  sound hsound := ⟨hsound.taken_le, fun hnone => Pump.noConfusion hnone, fun _ => h⟩
  keeps _ := .inr (.inl rfl)

private theorem evolves_cancel (a : Incarnation) : Evolves a { a with pump := .cancelled } where
  same := ⟨rfl, rfl⟩
  sound h := ⟨h.taken_le, fun hnone => Pump.noConfusion hnone, fun hend => Pump.noConfusion hend⟩
  keeps _ := .inr (.inr rfl)

/-! #### Runs -/

/-- A step that logs and prints nothing. -/
theorem Kept.silent (h : s.Kept notes printed) :
    s.Kept (notes ++ (none : Option (List ℕ)).toList) (printed ++ []) := by
  rwa [Option.toList_none, List.append_nil, List.append_nil]

private theorem Kept.write {i : ℕ} {data : List ℕ} (h : s.Kept notes printed)
    (hstep : s.step (.write i data) = some (t, lines)) :
    t.Kept (notes ++ (none : Option (List ℕ)).toList) (printed ++ lines) ∧
      t.rows = (OutputEvent.write i data).tells s.rows := by
  obtain ⟨hheld, rfl, rfl⟩ := of_guarded hstep
  refine ⟨.silent (h.evolve (forall₂_modify Evolves.refl fun a ha => ?_)), ?_⟩
  · rw [ha, Option.any_some] at hheld
    exact evolves_write (h.sound a (List.mem_of_getElem? ha)) hheld data
  · unfold rows
    exact map_modify (g := fun row => (row.1, row.2 ++ data)) (fun _ => rfl) i s.incarnations

/-- The pump appends the next bytes of the pipe to the log and the tail, and prints their lines. -/
theorem Kept.pumped {size : ℕ} (h : s.Kept notes printed)
    (hstep : s.step (.pump size ⟨some size, none⟩) = some (t, lines)) :
    t.Kept (notes ++ (none : Option (List ℕ)).toList) (printed ++ lines) ∧
      t.rows = (OutputEvent.pump size ⟨some size, none⟩).tells s.rows := by
  obtain ⟨a, hlast, hstep⟩ := Option.bind_eq_some_iff.mp hstep
  obtain ⟨⟨hreading, -, -, hsize⟩, heq⟩ := Option.ite_none_right_eq_some.mp hstep
  obtain ⟨init, hs⟩ := last_eq_some hlast
  have happend := appendOutput_whole (h.of_reading hs hreading).2
    ((a.pipe.written.drop a.pipe.taken).take size)
  rw [List.length_take, List.length_drop,
    Nat.min_eq_left (Nat.le_sub_of_add_le' hsize)] at happend
  rw [happend] at heq
  dsimp only at heq
  have hrows := rows_modifyLast (s := (s.put ((a.pipe.written.drop a.pipe.taken).take size)).1)
    (f := fun a => { a with pipe := { a.pipe with taken := a.pipe.taken + size } })
    (fun _ => rfl)
  rw [modifyLast_eq (s := (s.put _).1) hs] at heq hrows
  obtain ⟨rfl, rfl⟩ := Prod.mk.inj (Option.some.inj heq)
  have hpumped := h.pump hs hreading hsize rfl
  rw [← List.append_nil notes] at hpumped
  exact ⟨hpumped, hrows⟩

/-- The log is closed behind a pump that is over. -/
theorem Kept.drained (h : s.Kept notes printed) (hstep : s.step .drained = some (t, lines)) :
    t.Kept (notes ++ (none : Option (List ℕ)).toList) (printed ++ lines) ∧
      t.rows = OutputEvent.drained.tells s.rows := by
  obtain ⟨a, hlast, hstep⟩ := Option.bind_eq_some_iff.mp hstep
  obtain ⟨-, heq⟩ := Option.ite_none_right_eq_some.mp hstep
  obtain ⟨init, hs⟩ := last_eq_some hlast
  split_ifs at heq with hfinished hfailed
  · obtain ⟨rfl, rfl⟩ := Prod.mk.inj (Option.some.inj heq)
    exact ⟨.silent (h.close (h.forall_over hs (.inr (.inl hfinished)))), rfl⟩
  · obtain ⟨rfl, rfl⟩ := Prod.mk.inj (Option.some.inj heq)
    exact ⟨h.dead.silent, rfl⟩

/-- The log is closed behind a pump that is cancelled, once a note says so. -/
theorem Kept.abandoned {message : List ℕ} (h : s.Kept notes printed)
    (hstep : s.step (.abandon message ⟨some message.length, none⟩) = some (t, lines)) :
    t.Kept (notes ++ (some message).toList) (printed ++ lines) ∧
      t.rows = (OutputEvent.abandon message ⟨some message.length, none⟩).tells s.rows := by
  obtain ⟨a, hlast, hstep⟩ := Option.bind_eq_some_iff.mp hstep
  obtain ⟨-, heq⟩ := Option.ite_none_right_eq_some.mp hstep
  obtain ⟨init, hs⟩ := last_eq_some hlast
  have hrows := rows_modifyLast (s := s) (f := fun a => { a with pump := .cancelled })
    (fun _ => rfl)
  dsimp only at heq
  rw [modifyLast_eq hs] at hrows
  rw [modifyLast_eq hs, logNote_whole, orDies_of_not_raised] at heq
  obtain ⟨rfl, rfl⟩ := Prod.mk.inj (Option.some.inj heq)
  have hcancelled := h.evolve_last hs (evolves_cancel a)
  exact ⟨(hcancelled.put message).close (hcancelled.forall_over rfl (.inr (.inr rfl))),
    hrows⟩

/-- A step keeps what the log, the tail and the echo have, and the incarnations become what it
tells. -/
theorem Kept.step (h : s.Kept notes printed) (hwhole : e.Whole)
    (hstep : s.step e = some (t, lines)) :
    t.Kept (notes ++ e.message.toList) (printed ++ lines) ∧ t.rows = e.tells s.rows := by
  cases e with
  | openLog opened =>
      obtain ⟨hphase, rfl, rfl⟩ := of_guarded hstep
      cases opened with
      | false => exact ⟨h.dead.silent, rfl⟩
      | true => exact ⟨(h.openLog hphase).silent, rfl⟩
  | renderFails message sink =>
      obtain rfl : sink = ⟨some message.length, none⟩ := hwhole
      rw [ServiceOutput.step, logNote_whole, orDies_of_not_raised] at hstep
      obtain ⟨hphase, rfl, rfl⟩ := of_guarded hstep
      exact ⟨(h.put message).close (h.between (.inr (.inl hphase))), rfl⟩
  | raises =>
      obtain ⟨rfl, rfl⟩ := Prod.mk.inj (Option.some.inj hstep)
      exact ⟨h.dead.silent, rfl⟩
  | announce header sink =>
      obtain rfl : sink = ⟨some header.length, none⟩ := hwhole
      obtain ⟨hphase, ht, rfl⟩ := of_guarded hstep
      rw [appendOutput_whole (h.opened (.inl hphase)), orDies_of_not_raised] at ht ⊢
      subst ht
      have hannounced := h.announce hphase header
      rw [← List.append_nil notes] at hannounced
      exact ⟨hannounced, List.map_append⟩
  | spawnFails message sink =>
      obtain rfl : sink = ⟨some message.length, none⟩ := hwhole
      rw [ServiceOutput.step, logNote_whole, orDies_of_not_raised] at hstep
      obtain ⟨hphase, rfl, rfl⟩ := of_guarded hstep
      exact ⟨(h.put message).close (h.between (.inr (.inr hphase))), rfl⟩
  | spawned =>
      obtain ⟨hphase, rfl, rfl⟩ := of_guarded hstep
      exact ⟨(h.spawned hphase).silent, rows_modifyLast fun _ => rfl⟩
  | write i data => exact h.write hstep
  | hangUp i =>
      obtain ⟨-, rfl, rfl⟩ := of_guarded hstep
      refine ⟨.silent (h.evolve (forall₂_modify Evolves.refl fun a _ => evolves_hangUp a)), ?_⟩
      have hrows := map_modify (m := Incarnation.row) (g := id)
        (f := fun a => { a with pipe := { a.pipe with held := false } }) (fun _ => rfl) i
        s.incarnations
      rwa [List.modify_id] at hrows
  | pump size sink =>
      obtain rfl : sink = ⟨some size, none⟩ := hwhole
      exact h.pumped hstep
  | pumpEnds =>
      obtain ⟨a, hlast, hstep⟩ := Option.bind_eq_some_iff.mp hstep
      obtain ⟨⟨-, hcomplete⟩, rfl, rfl⟩ := of_guarded hstep
      obtain ⟨init, hs⟩ := last_eq_some hlast
      refine ⟨?_, rows_modifyLast fun _ => rfl⟩
      rw [modifyLast_eq hs]
      exact (h.evolve_last hs (evolves_finish hcomplete)).silent
  | sweep =>
      obtain ⟨hphase, rfl, rfl⟩ := of_guarded hstep
      exact ⟨(h.drain hphase).silent, rfl⟩
  | drained => exact h.drained hstep
  | abandon message sink =>
      obtain rfl : sink = ⟨some message.length, none⟩ := hwhole
      exact h.abandoned hstep
  | note message sink =>
      obtain rfl : sink = ⟨some message.length, none⟩ := hwhole
      rw [ServiceOutput.step, logNote_whole] at hstep
      obtain ⟨rfl, rfl⟩ := Prod.mk.inj (Option.some.inj hstep)
      exact ⟨h.put message, rfl⟩

/-- The steps, each with the lines that it prints. -/
def Steps : Transition.Rel ServiceOutput (OutputEvent × List Text) :=
  fun s e t => s.step e.1 = some (t, e.2)

private theorem kept_of_run {es : List (OutputEvent × List Text)} (h : Run Steps {} es s)
    (hwhole : ∀ e ∈ es, e.1.Whole) :
    s.Kept (es.filterMap fun e => e.1.message) (es.flatMap Prod.snd) ∧
      s.rows = es.foldl (fun rows e => e.1.tells rows) [] := by
  refine h.history_invariant (fun es s => (∀ e ∈ es, e.1.Whole) →
    s.Kept (es.filterMap fun e => e.1.message) (es.flatMap Prod.snd) ∧
      s.rows = es.foldl (fun rows e => e.1.tells rows) []) (fun _ => ⟨kept_start, rfl⟩)
    (fun es s e t hs hstep hwhole => ?_) hwhole
  obtain ⟨hbefore, hlast⟩ := List.forall_mem_append.mp hwhole
  obtain ⟨hkept, hrows⟩ := hs hbefore
  obtain ⟨hkept', hrows'⟩ := hkept.step (hlast e List.mem_cons_self) hstep
  constructor
  · rwa [List.filterMap_append, List.flatMap_append, List.flatMap_singleton,
      List.filterMap_eq_flatMap_toList _ [e], List.flatMap_singleton]
  · rw [List.foldl_append, ← hrows, hrows', List.foldl_cons, List.foldl_nil]

/-- In every run in which the disk and the console take what is written, the log is made of the
notes, in their order, and of a section for each incarnation: behind its header comes what it has
written, in its order, and all of it once the next one begins, unless its drain has been given up.
The tail is the end of the log, and the lines that have been printed are those of the log. -/
theorem log_tells {es : List (OutputEvent × List Text)} (h : Run Steps {} es s)
    (hwhole : ∀ e ∈ es, e.1.Whole) :
    Logged s.file s.incarnations (es.filterMap fun e => e.1.message) ∧
      s.rows = es.foldl (fun rows e => e.1.tells rows) [] ∧
      (∀ a ∈ s.incarnations.dropLast, a.pump ≠ .cancelled → a.Complete) ∧
      (s.phase = .idle → ∀ a ∈ s.incarnations, a.pump ≠ .cancelled → a.Complete) ∧
      s.tail = s.file.rtake tailBytes ∧
      es.flatMap Prod.snd = (completeLines s.file).map render := by
  obtain ⟨hkept, hrows⟩ := kept_of_run h hwhole
  refine ⟨hkept.logged, hrows, fun a ha => ?_, fun hphase a ha => ?_, hkept.echoed.tail_eq,
    hkept.echoed.printed_eq⟩
  · exact (hkept.sound a (List.dropLast_subset _ ha)).complete (hkept.past a ha)
  · exact (hkept.sound a ha).complete (hkept.between (.inl hphase) a ha)

private theorem steps_of_step (h : s.step e = some (t, lines)) : Steps s (e, lines) t := h

/-- A process writes a line, of which the pump takes the first byte alone, and its exit is noted. -/
theorem log_tells_greeting : ∃ s es, Run Steps {} es s ∧
    s.file = [0x3D, lf, 0x68, 0x69, lf, 0x21, lf] ∧
    Logged s.file s.incarnations (es.filterMap fun e => e.1.message) := by
  have hrun := ((((((((((((Run.nil (R := Steps) (s := {})).snoc
    (steps_of_step (e := .openLog true) rfl)).snoc
    (steps_of_step (e := .announce [0x3D, lf] ⟨some 2, none⟩) rfl)).snoc
    (steps_of_step (e := .spawned) rfl)).snoc
    (steps_of_step (e := .write 0 [0x68, 0x69, lf]) rfl)).snoc
    (steps_of_step (e := .pump 1 ⟨some 1, none⟩) rfl)).snoc
    (steps_of_step (e := .hangUp 0) rfl)).snoc
    (steps_of_step (e := .pump 2 ⟨some 2, none⟩) rfl)).snoc
    (steps_of_step (e := .pumpEnds) rfl)).snoc
    (steps_of_step (e := .sweep) rfl)).snoc
    (steps_of_step (e := .drained) rfl)).snoc
    (steps_of_step (e := .note [0x21, lf] ⟨some 2, none⟩) rfl))
  refine ⟨_, _, hrun, rfl, (log_tells hrun ?_).1⟩
  simp [OutputEvent.Whole]

end ServiceOutput

end Jetty.Orchestrator
