import Jetty.Core.Python.Words

/-!
# Streams of events

How a client takes a stream of events apart: lines end in any of the usual ways, the data lines up
to an empty line are one event, and what is not closed by an empty line is dropped.
-/

namespace EventStream

open Python Python.Text

/-- The name of the field that carries data. -/
def dataField : Text := text "data:"

/-- The value of a data line: one blank behind the colon is not part of it. -/
def dataOf (line : Text) : Option Text :=
  if dataField.isPrefixOf line then
    if (line.drop dataField.length).head? = some 0x20 then some (line.drop (dataField.length + 1))
    else some (line.drop dataField.length)
  else none

/-- The events of some lines; `buffer` has the data lines since the last empty one. -/
def eventsOfLines (buffer : List Text) : List Text → List Text
  | [] => []
  | line :: lines =>
    if line = [] then
      if buffer = [] then eventsOfLines [] lines
      else [newline].intercalate buffer :: eventsOfLines [] lines
    else eventsOfLines (buffer ++ (dataOf line).toList) lines

/-- The data of the events of a stream. -/
def events (s : Text) : List Text := eventsOfLines [] ((universalNewlines s).splitOn newline)

/-- An event with one line of data, the lines ended by a carriage return and a newline. -/
def frame (data : Text) : Text :=
  text "data: " ++ data ++ [carriageReturn, newline, carriageReturn, newline]

/-- A text that stays on its line. -/
def OneLine (s : Text) : Prop := carriageReturn ∉ s ∧ newline ∉ s

private theorem OneLine.append {s t : Text} (hs : OneLine s) (ht : OneLine t) : OneLine (s ++ t) :=
  ⟨fun h => (List.mem_append.mp h).elim hs.1 ht.1, fun h => (List.mem_append.mp h).elim hs.2 ht.2⟩

/-- A line that ends in a carriage return and a newline. -/
theorem universalNewlines_line {line : Text} (h : OneLine line) (rest : Text) :
    universalNewlines (line ++ carriageReturn :: newline :: rest) =
      line ++ newline :: universalNewlines rest := by
  have hend : universalNewlines (carriageReturn :: newline :: rest) =
      newline :: universalNewlines rest := by
    cases rest with
    | nil => rfl
    | cons c rest =>
        have hne : newline ≠ carriageReturn := by decide
        rw [universalNewlines, if_pos rfl, if_pos rfl, universalNewlines, if_neg hne]
  induction line with
  | nil => exact hend
  | cons c line ih =>
      obtain ⟨hreturn, hnewline⟩ := h
      have hc : c ≠ carriageReturn := (List.ne_of_not_mem_cons hreturn).symm
      have hc' : c ≠ newline := (List.ne_of_not_mem_cons hnewline).symm
      have hsplit := universalNewlines_append_cons [] (line ++ carriageReturn :: newline :: rest)
        hc hc'
      have hrest := ih ⟨List.not_mem_of_not_mem_cons hreturn, List.not_mem_of_not_mem_cons hnewline⟩
      rw [List.nil_append, hrest] at hsplit
      exact hsplit

private theorem splitOn_line {line : Text} (h : newline ∉ line) (rest : Text) :
    (line ++ newline :: rest).splitOn newline = line :: rest.splitOn newline := by
  rw [List.splitOn_append_cons_self, List.splitOn_eq_singleton h, List.singleton_append]

private theorem dataOf_data (data : Text) : dataOf (text "data: " ++ data) = some data := rfl

/-- A stream of one-line events is taken apart into their data. -/
theorem events_flatMap_frame {ds : List Text} (h : ∀ d ∈ ds, OneLine d) :
    events (ds.flatMap frame) = ds := by
  have hfield : OneLine (text "data: ") := by
    constructor <;> decide
  induction ds with
  | nil => rfl
  | cons d ds ih =>
      obtain ⟨hd, hds⟩ := List.forall_mem_cons.mp h
      have hlines : (universalNewlines ((d :: ds).flatMap frame)).splitOn newline =
          (text "data: " ++ d) :: [] :: (universalNewlines (ds.flatMap frame)).splitOn newline := by
        have hshape : (d :: ds).flatMap frame = (text "data: " ++ d) ++ carriageReturn :: newline ::
            ([] ++ carriageReturn :: newline :: ds.flatMap frame) := by
          simp only [List.flatMap_cons, frame, List.append_assoc, List.cons_append, List.nil_append]
        have hempty : OneLine [] := ⟨List.not_mem_nil, List.not_mem_nil⟩
        rw [hshape, universalNewlines_line (hfield.append hd), universalNewlines_line hempty,
          splitOn_line (hfield.append hd).2, splitOn_line List.not_mem_nil]
      have hne : text "data: " ++ d ≠ [] := fun hnil => by
        have hfirst := (List.append_eq_nil_iff.mp hnil).1
        exact absurd hfirst (by decide)
      have hrest : eventsOfLines [] ((universalNewlines (ds.flatMap frame)).splitOn newline) = ds :=
        ih hds
      rw [events, hlines, eventsOfLines, if_neg hne, dataOf_data, eventsOfLines, if_pos rfl,
        Option.toList_some, List.nil_append, if_neg (List.cons_ne_nil _ _), hrest,
        List.intercalate_singleton]

end EventStream
