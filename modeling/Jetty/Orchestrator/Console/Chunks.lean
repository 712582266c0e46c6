import Jetty.Orchestrator.Console.Tail

/-!
# Lines out of chunks

A stream reaches a `LineBuffer` in chunks of any size. What comes out is told by the stream alone:
its lines, wherever it has been cut, and at the end what is left of it.
-/

namespace Jetty.Orchestrator.Console

open Python

/-- The lines of a stream that end in a newline, and what comes after the last newline. -/
structure Cut (stream : List ℕ) (lines : List (List ℕ)) (last : List ℕ) : Prop where
  stream : stream = lines.flatMap (fun line => line ++ [lf]) ++ last
  lines : ∀ line ∈ lines, lf ∉ line
  last : lf ∉ last

namespace LineBuffer

/-- Successive calls of `feed`, with what each of them returns. -/
def feedAll (b : LineBuffer) : List (List ℕ) → List (List Text) × LineBuffer
  | [] => ([], b)
  | chunk :: chunks =>
    let (lines, b') := b.feed chunk
    let (rest, b'') := b'.feedAll chunks
    (lines :: rest, b'')

/-- The stream has come, in whatever chunks: its lines have been emitted, the rest of it is held,
and `flush` returns that, if there is any, and nothing the next time. -/
structure Reassembles (lines : List (List ℕ)) (last : List ℕ) (emitted : List (List Text))
    (b : LineBuffer) : Prop where
  emitted : emitted.flatten = lines.map fun line => rstrip (Text.decodeReplacing line)
  held : b.held = last
  flush : b.flush = (if last = [] then none else some (Text.decodeReplacing last), {})
  again : b.flush.2.flush = (none, {})

end LineBuffer

section Cutting

variable {stream last : List ℕ} {lines : List (List ℕ)}

private theorem cut_completeLines (stream : List ℕ) :
    Cut stream (completeLines stream) (openLine stream) := by
  refine ⟨?_, fun line hline => not_mem_of_mem_completeLines hline, not_mem_openLine stream⟩
  induction stream using lines_induction with
  | ends bytes hlf =>
      rw [completeLines_of_not_mem hlf, openLine_of_not_mem hlf]
      rfl
  | line front rest hlf ih =>
      rw [completeLines_line hlf, openLine_newline, List.flatMap_cons, List.append_assoc, ← ih,
        List.append_assoc, List.singleton_append]

/-- No character reaches over a newline. -/
theorem Cut.decode (h : Cut stream lines last) : Text.decodeReplacing stream =
    (lines.flatMap fun line => Text.decodeReplacing line ++ [Fin.ofNat _ lf]) ++
      Text.decodeReplacing last := by
  obtain ⟨rfl, -, -⟩ := h
  induction lines with
  | nil => rfl
  | cons line lines ih =>
      rw [List.flatMap_cons, List.flatMap_cons, List.append_assoc, List.append_assoc,
        List.singleton_append, Text.decodeReplacing_append (by decide), ih, List.append_assoc,
        List.append_assoc, List.singleton_append]

end Cutting

namespace LineBuffer

/-- However much is held, what is fed completes it. -/
theorem feedAll_eq (chunks : List (List ℕ)) {b : LineBuffer} (hheld : lf ∉ b.held) :
    (b.feedAll chunks).1.flatten = (completeLines (b.held ++ chunks.flatten)).map render ∧
      (b.feedAll chunks).2.held = openLine (b.held ++ chunks.flatten) := by
  induction chunks generalizing b with
  | nil =>
      rw [List.flatten_nil, List.append_nil, completeLines_of_not_mem hheld,
        openLine_of_not_mem hheld]
      exact ⟨rfl, rfl⟩
  | cons chunk chunks ih =>
      obtain ⟨hlines, hopen⟩ := ih (b := (b.feed chunk).2) (not_mem_openLine _)
      rw [List.flatten_cons, ← List.append_assoc, completeLines_append, List.map_append]
      exact ⟨congrArg (List.map render (completeLines (b.held ++ chunk)) ++ ·) hlines,
        hopen.trans openLine_append.symm⟩

private theorem flush_eq {b : LineBuffer} {last : List ℕ} (h : b.held = last) :
    b.flush = (if last = [] then none else some (Text.decodeReplacing last), {}) := by
  obtain ⟨held⟩ := b
  obtain rfl : held = last := h
  unfold flush
  by_cases hheld : held = []
  · subst hheld
    rfl
  · rw [if_neg hheld, if_neg hheld]

private theorem flush_flush (b : LineBuffer) : b.flush.2.flush = (none, {}) := by
  have hempty : b.flush.2 = {} := congrArg Prod.snd (flush_eq rfl)
  rw [hempty]
  exact flush_eq rfl

end LineBuffer

/-- What is emitted of a stream does not depend on how it is cut into chunks: its lines, each one
decoded, which is as they are in the decoded stream, and the rest once, on demand. -/
theorem chunking_independent (stream : List ℕ) : ∃ lines last, Cut stream lines last ∧
    (Text.decodeReplacing stream =
      (lines.flatMap fun line => Text.decodeReplacing line ++ [Fin.ofNat _ lf]) ++
        Text.decodeReplacing last) ∧
    ∀ chunks : List (List ℕ), chunks.flatten = stream →
      LineBuffer.Reassembles lines last (({} : LineBuffer).feedAll chunks).1
        (({} : LineBuffer).feedAll chunks).2 := by
  have hcut := cut_completeLines stream
  refine ⟨completeLines stream, openLine stream, hcut, hcut.decode, ?_⟩
  rintro chunks rfl
  obtain ⟨hemitted, hheld⟩ := LineBuffer.feedAll_eq chunks (b := {}) List.not_mem_nil
  exact ⟨hemitted, hheld, LineBuffer.flush_eq hheld, LineBuffer.flush_flush _⟩

/-- A character and the end of a line, both cut in two. -/
example : (({} : LineBuffer).feedAll [[0xC3], [0xA9, 0x0D], [0x0A, 0x61]]).1 =
    [[], [], [[0xE9]]] := by decide +kernel

end Jetty.Orchestrator.Console
