import Jetty.Core.Transition
import Jetty.Orchestrator.Console.Tail

/-!
# `logs -f`

The last lines of every log, and from there on the lines that are completed. The tail is read to
the end of the log, wherever that is, and the lines that follow begin there.
-/

namespace Jetty.Orchestrator.Console

open Python Transition

/-- The logs of an instance by their stems. -/
abbrev Files := Dict Text (List ℕ)

/-- A log that is not there yet is empty. -/
def contentOf (files : Files) (name : Text) : List ℕ := (files.get? name).getD []

structure Logs where
  files : Files
  offsets : Dict Text ℕ
  buffers : Dict Text LineBuffer
  /-- What has been printed, with the log it is of. -/
  printed : List (Text × Text)

inductive Event
  /-- A service writes; the first bytes make the log. -/
  | append (name : Text) (bytes : List ℕ)
  /-- One turn of the loop over what `discover` finds; an `OSError` ends it. -/
  | look (name : Text) (fails : Bool)

namespace Logs

/-- `print_tail`. -/
def printTail (p : Prefixer) (n : ℕ) (name : Text) (data : List ℕ) : List (Text × Text) :=
  (sliceLast n (splitlines data)).map fun line => (name, p.format name (Text.decodeReplacing line))

/-- The logs that are there have been printed, as far as `-n` goes. -/
def start (p : Prefixer) (n : ℕ) (files : Files) : Logs where
  files := files
  offsets := files.mapValues List.length
  buffers := files.mapValues fun _ => {}
  printed := files.entries.flatMap fun file => printTail p n file.1 file.2

/-- A log that has been spawned since is followed from its beginning. -/
def register (s : Logs) (name : Text) : Logs :=
  if (s.offsets.get? name).isSome then s
  else { s with offsets := s.offsets.set name 0, buffers := s.buffers.set name {} }

/-- What has been appended is read and printed. -/
def poll (p : Prefixer) (s : Logs) (name : Text) (data : List ℕ) : Logs :=
  let offset := (s.offsets.get? name).getD 0
  if data.length ≤ offset then s
  else
    let chunk := data.drop offset
    let (lines, buffer) := ((s.buffers.get? name).getD {}).feed chunk
    { s with
      offsets := s.offsets.set name (offset + chunk.length)
      buffers := s.buffers.set name buffer
      printed := s.printed ++ lines.map fun line => (name, p.format name line) }

def step (p : Prefixer) (s : Logs) : Event → Option Logs
  | .append name bytes =>
    some { s with files := s.files.set name (contentOf s.files name ++ bytes) }
  | .look name fails =>
    (s.files.get? name).map fun data =>
      if fails then s.register name else (s.register name).poll p name data

/-- The lines printed for a log. -/
def printedOf (s : Logs) (name : Text) : List Text :=
  (s.printed.filter fun x => x.1 = name).map Prod.snd

/-- The bytes of a log that have been read. -/
def seen (s : Logs) (name : Text) : List ℕ :=
  (contentOf s.files name).take ((s.offsets.get? name).getD 0)

/-- What is to be printed of a log: of what was there the last lines, and all that have been
completed since. -/
def due (n : ℕ) (content seen : List ℕ) : List (List ℕ) :=
  (completeLines content).rtake n ++ (completeLines seen).drop (completeLines content).length

/-- However services write and the logs are looked at: what is printed is what is to be printed of
the bytes read so far, and a look that succeeds reads all of them. -/
def Faithful (p : Prefixer) (n : ℕ) (files : Files) (name : Text) : Prop :=
  ∀ es s, Run (ofPartial (step p)) (start p n files) es s →
    s.printedOf name = (due n (contentOf files name) (s.seen name)).map
        (fun line => p.format name (render line)) ∧
      ∀ t, step p s (.look name false) = some t → t.seen name = contentOf t.files name

/-- A log is followed: so much of what came later has been read. -/
structure Follows (p : Prefixer) (n : ℕ) (content : List ℕ) (name : Text) (s : Logs)
    (later : List ℕ) (k : ℕ) : Prop where
  file : contentOf s.files name = content ++ later
  le : k ≤ later.length
  offset : (s.offsets.get? name).getD 0 = content.length + k
  fresh : s.offsets.get? name = none → k = 0
  held : ((s.buffers.get? name).getD {}).held = openLine (later.take k)
  printed : s.printedOf name =
    (sliceLast n (splitlines content)).map
        (fun line => p.format name (Text.decodeReplacing line)) ++
      (completeLines (later.take k)).map fun line => p.format name (render line)

section Following

variable {p : Prefixer} {n k : ℕ} {files : Files} {name : Text} {content later : List ℕ}
  {s t : Logs} {e : Event}

private theorem sliceLast_nil {α : Type} : sliceLast n ([] : List α) = [] := by
  unfold sliceLast
  split
  · rfl
  · exact List.rtake_nil n

/-- What is printed for one log, among what is printed for another. -/
theorem filter_labelled {α : Type} (lines : List α) (f : α → Text) (name' : Text) :
    ((lines.map fun line => (name', f line)).filter fun x => x.1 = name).map Prod.snd =
      if name' = name then lines.map f else [] := by
  have hsame : ((fun x : Text × Text => decide (x.1 = name)) ∘ fun line => (name', f line)) =
      fun _ => decide (name' = name) := rfl
  rw [List.filter_map, List.map_map, hsame]
  by_cases hname : name' = name
  · rw [if_pos hname, decide_eq_true hname, List.filter_true]
    rfl
  · rw [if_neg hname, decide_eq_false hname, List.filter_false]
    rfl

/-- Of the tails of all logs, the one of a log. -/
theorem filter_printTail {entries : List (Text × List ℕ)}
    (hnodup : (entries.map Prod.fst).Nodup) :
    ((entries.flatMap fun file => printTail p n file.1 file.2).filter fun x => x.1 = name).map
        Prod.snd =
      (sliceLast n (splitlines (((entries.find? fun e => e.1 = name).map Prod.snd).getD []))).map
        fun line => p.format name (Text.decodeReplacing line) := by
  have hempty : (sliceLast n (splitlines [])).map (fun line =>
      p.format name (Text.decodeReplacing line)) = [] := by
    change (sliceLast n []).map _ = []
    rw [sliceLast_nil, List.map_nil]
  induction entries with
  | nil => exact hempty.symm
  | cons file entries ih =>
      obtain ⟨key, data⟩ := file
      rw [List.map_cons, List.nodup_cons] at hnodup
      rw [List.flatMap_cons, List.filter_append, List.map_append, ih hnodup.2, List.find?_cons,
        printTail, filter_labelled]
      by_cases hkey : key = name
      · have hnone : entries.find? (fun e => e.1 = name) = none := by
          refine List.find?_eq_none.mpr fun e he heq => hnodup.1 ?_
          rw [decide_eq_true_iff] at heq
          exact List.mem_map.mpr ⟨e, he, heq.trans hkey.symm⟩
        rw [hnone, decide_eq_true hkey, if_pos hkey, Option.map_none, Option.getD_none, hempty,
          List.append_nil, ← hkey]
        rfl
      · rw [if_neg hkey, decide_eq_false hkey]
        rfl

private theorem follows_start : Follows p n (contentOf files name) name (start p n files) [] 0 where
  file := (List.append_nil _).symm
  le := Nat.le_refl 0
  offset := by
    change ((files.mapValues List.length).get? name).getD 0 = (contentOf files name).length
    rw [Dict.get?_mapValues, contentOf]
    cases files.get? name <;> rfl
  fresh _ := rfl
  held := by
    change (((files.mapValues fun _ => ({} : LineBuffer)).get? name).getD {}).held = openLine []
    rw [Dict.get?_mapValues, openLine_of_not_mem List.not_mem_nil]
    cases files.get? name <;> rfl
  printed := by
    rw [List.take_nil, completeLines_of_not_mem List.not_mem_nil, List.map_nil, List.append_nil]
    exact filter_printTail files.nodup

/-- What does not touch the log leaves it followed. -/
theorem Follows.congr (h : Follows p n content name s later k)
    (hfile : contentOf t.files name = contentOf s.files name)
    (hoffset : t.offsets.get? name = s.offsets.get? name)
    (hbuffer : t.buffers.get? name = s.buffers.get? name)
    (hprinted : t.printedOf name = s.printedOf name) : Follows p n content name t later k where
  file := hfile.trans h.file
  le := h.le
  offset := by rw [hoffset, h.offset]
  fresh := by
    rw [hoffset]
    exact h.fresh
  held := by rw [hbuffer, h.held]
  printed := hprinted.trans h.printed

private theorem Follows.register (h : Follows p n content name s later k) (name' : Text) :
    Follows p n content name (s.register name') later k := by
  unfold Logs.register
  split
  · exact h
  · rename_i hnew
    rw [Bool.not_eq_true, Option.isSome_eq_false_iff, Option.isNone_iff_eq_none] at hnew
    by_cases hname : name = name'
    · subst hname
      have hk := h.fresh hnew
      have hoffset := h.offset
      rw [hnew] at hoffset
      refine ⟨h.file, h.le, ?_, fun _ => hk, ?_, h.printed⟩
      · rw [Dict.get?_set_self]
        exact hoffset
      · rw [Dict.get?_set_self, hk, List.take_zero, openLine_of_not_mem List.not_mem_nil]
        rfl
    · exact h.congr rfl (Dict.get?_set_of_ne hname) (Dict.get?_set_of_ne hname) rfl

private theorem files_register (s : Logs) (name : Text) : (s.register name).files = s.files := by
  unfold Logs.register
  split <;> rfl

/-- A poll of another log. -/
theorem Follows.poll_ne {name' : Text} (h : Follows p n content name s later k)
    (hname : name ≠ name') (data : List ℕ) :
    Follows p n content name (s.poll p name' data) later k := by
  unfold Logs.poll
  simp only
  split
  · exact h
  · refine h.congr rfl (Dict.get?_set_of_ne hname) (Dict.get?_set_of_ne hname) ?_
    simp only [printedOf]
    rw [List.filter_append, List.map_append, filter_labelled, if_neg (Ne.symm hname),
      List.append_nil]

/-- A poll of the log reads the rest of it. -/
theorem Follows.poll (h : Follows p n content name s later k) :
    Follows p n content name (s.poll p name (contentOf s.files name)) later later.length := by
  have hle := h.le
  unfold Logs.poll
  simp only
  rw [h.offset, h.file, List.length_append]
  split
  · obtain rfl : k = later.length := by omega
    exact h
  · have hdrop : (content ++ later).drop (content.length + k) = later.drop k := by
      rw [List.drop_length_add_append]
    rw [hdrop, List.length_drop]
    refine ⟨h.file, Nat.le_refl _, ?_, fun hnone => ?_, ?_, ?_⟩
    · rw [Dict.get?_set_self, Option.getD_some]
      omega
    · rw [Dict.get?_set_self] at hnone
      cases hnone
    · rw [Dict.get?_set_self, Option.getD_some, LineBuffer.feed, h.held, ← openLine_append,
        List.take_append_drop, List.take_length]
    · simp only [printedOf, LineBuffer.feed]
      rw [List.filter_append, List.map_append, filter_labelled, if_pos rfl]
      have hprinted := h.printed
      rw [printedOf] at hprinted
      rw [hprinted, List.append_assoc, h.held, List.map_map, List.take_length]
      refine congrArg (_ ++ ·) ?_
      have hlines := @completeLines_append (later.take k) (later.drop k)
      rw [List.take_append_drop] at hlines
      rw [hlines, List.map_append]
      rfl

private theorem Follows.look (h : Follows p n content name s later k)
    (hstep : step p s (.look name false) = some t) :
    Follows p n content name t later later.length := by
  obtain ⟨data, hdata, rfl⟩ := Option.map_eq_some_iff.mp hstep
  have hpolled := (h.register name).poll
  rw [files_register, contentOf, hdata] at hpolled
  exact hpolled

private theorem Follows.step (h : Follows p n content name s later k)
    (hstep : step p s e = some t) : ∃ later k, Follows p n content name t later k := by
  cases e with
  | append name' bytes =>
      obtain rfl := Option.some.inj hstep
      by_cases hname : name = name'
      · subst hname
        refine ⟨later ++ bytes, k, ?_, ?_, h.offset, h.fresh, ?_, ?_⟩
        · have hfile := h.file
          simp only [contentOf, Dict.get?_set_self, Option.getD_some] at hfile ⊢
          rw [hfile, List.append_assoc]
        · exact h.le.trans (by simp)
        · rw [List.take_append_of_le_length h.le]
          exact h.held
        · rw [List.take_append_of_le_length h.le]
          exact h.printed
      · refine ⟨later, k, h.congr ?_ rfl rfl rfl⟩
        simp only [contentOf, Dict.get?_set_of_ne hname]
  | look name' fails =>
      by_cases hlook : name = name' ∧ fails = false
      · obtain ⟨rfl, rfl⟩ := hlook
        exact ⟨later, later.length, h.look hstep⟩
      · obtain ⟨data, hdata, rfl⟩ := Option.map_eq_some_iff.mp hstep
        have hregistered := h.register name'
        refine ⟨later, k, ?_⟩
        cases fails with
        | true => exact hregistered
        | false => exact hregistered.poll_ne (fun hname => hlook ⟨hname, rfl⟩) data

private theorem Follows.seen (h : Follows p n content name s later k) :
    s.seen name = content ++ later.take k := by
  rw [Logs.seen, h.file, h.offset, List.take_length_add_append]

private theorem follows_of_run {es : List Event}
    (h : Run (ofPartial (step p)) (start p n files) es s) :
    ∃ later k, Follows p n (contentOf files name) name s later k :=
  h.invariant (fun s => ∃ later k, Follows p n (contentOf files name) name s later k)
    ⟨[], 0, follows_start⟩ fun _ _ _ ⟨_, _, hs⟩ hstep => hs.step hstep

/-- The lines to be printed of what came later, behind what has been left open. -/
theorem due_eq (n : ℕ) (content later : List ℕ) : due n content (content ++ later) =
    (completeLines content).rtake n ++ completeLines (openLine content ++ later) := by
  rw [due, completeLines_append, List.drop_left]

private theorem render_newline (line : List ℕ) :
    render (line ++ [0x61]) = Text.decodeReplacing line ++ [Fin.ofNat _ 0x61] := by
  rw [render, Text.decodeReplacing_append (by decide)]
  exact List.rdropWhile_concat_neg _ _ _ (by decide)

/-- The open line of a log that is followed faithfully is empty: a byte and a newline that are
written after it come as a line of their own. -/
theorem openLine_of_faithful (h : Faithful p n files name) :
    openLine (contentOf files name) = [] := by
  -- The state after the bytes are written, and the one after they are looked at.
  obtain ⟨s, hs⟩ : ∃ s, step p (start p n files) (.append name [0x61, lf]) = some s := ⟨_, rfl⟩
  have hfile : contentOf s.files name = contentOf files name ++ [0x61, lf] := by
    obtain rfl := Option.some.inj hs
    simp only [contentOf, Dict.get?_set_self, Option.getD_some]
    rfl
  obtain ⟨t, ht⟩ : ∃ t, step p s (.look name false) = some t := by
    obtain rfl := Option.some.inj hs
    simp only [step, Dict.get?_set_self, Option.map_some]
    exact ⟨_, rfl⟩
  obtain ⟨later, k, hfollows⟩ := (follows_start (n := n)).step hs
  obtain rfl := List.append_cancel_left (hfollows.file.symm.trans hfile)
  have hlook := hfollows.look ht
  have hrun : Run (ofPartial (step p)) (start p n files) [.append name [0x61, lf], .look name false]
      t := .snoc (.single hs) ht
  have hlate := (h _ _ hrun).1
  have hearly := (h [] _ .nil).1
  rw [follows_start.printed, follows_start.seen, List.take_nil, due_eq,
    completeLines_of_not_mem List.not_mem_nil, List.append_nil,
    completeLines_of_not_mem (not_mem_openLine _), List.append_nil] at hearly
  rw [hlook.printed, hlook.seen, List.take_length, due_eq, List.map_append, ← hearly, List.map_nil,
    List.append_nil, List.append_cancel_left_eq] at hlate
  have hopen : lf ∉ openLine (contentOf files name) ++ [0x61] := by
    rw [List.mem_append]
    exact fun h => h.elim (not_mem_openLine _) (by decide)
  have hsingle (line : List ℕ) (hlf : lf ∉ line) : completeLines (line ++ [lf]) = [line] := by
    rw [completeLines_line hlf, completeLines_of_not_mem List.not_mem_nil]
  have hlast := hsingle _ hopen
  rw [List.append_assoc] at hlast
  have hline := hlate.trans (congrArg (List.map _) hlast)
  have hfirst := (congrArg (List.map _) (hsingle [0x61] (by decide))).symm.trans hline
  have hrender := p.format_injective name (List.cons.inj hfirst).1
  rw [render_newline, ← List.nil_append [0x61], render_newline] at hrender
  exact Text.decodeReplacing_eq_nil.mp (List.append_cancel_right hrender).symm

/-- A log is followed faithfully, whatever is written to it later and whenever it is looked at,
exactly if it is legible at the start. -/
theorem faithful_iff_legible (p : Prefixer) (n : ℕ) (files : Files) (name : Text) :
    Faithful p n files name ↔ Legible n (contentOf files name) := by
  have hformat := List.map_injective_iff.mpr (p.format_injective name)
  constructor
  · intro h
    have hopen := openLine_of_faithful h
    have hearly := (h [] _ .nil).1
    rw [follows_start.printed, follows_start.seen, List.take_nil, due_eq, hopen, List.append_nil,
      completeLines_of_not_mem List.not_mem_nil, List.map_nil, List.append_nil,
      List.append_nil] at hearly
    refine (tail_iff_legible hopen).mp (hformat ?_)
    rw [List.map_map, List.map_map]
    exact hearly
  · intro h es s hrun
    have hopen : openLine (contentOf files name) = [] := by
      rcases h with hnil | ⟨-, hopen, -⟩
      · rw [hnil, openLine_of_not_mem List.not_mem_nil]
      · exact hopen
    obtain ⟨later, k, hfollows⟩ := follows_of_run hrun
    have htail := congrArg (List.map (p.format name)) ((tail_iff_legible hopen).mpr h)
    rw [List.map_map, List.map_map] at htail
    constructor
    · rw [hfollows.printed, hfollows.seen, due_eq, hopen, List.map_append]
      exact congrArg (· ++ _) htail
    · intro t ht
      have hlook := hfollows.look ht
      rw [hlook.seen, hlook.file, List.take_length]

end Following

/-- A log with a line that is still open, which is printed at once, and its rest as another line. -/
def halfway : Files := ⟨[(text "api", [0x61])], List.nodup_singleton _⟩

/-- The rest of an open line is printed as another line. -/
theorem not_faithful_halfway :
    ¬ ∀ (p : Prefixer) (n : ℕ) (files : Files) (name : Text), Faithful p n files name := by
  intro h
  have hopen := openLine_of_faithful (h ⟨.empty⟩ 1 halfway (text "api"))
  have hcontent : contentOf halfway (text "api") = [0x61] := by decide
  rw [hcontent, openLine_of_not_mem (by decide)] at hopen
  cases hopen

end Logs

end Jetty.Orchestrator.Console
