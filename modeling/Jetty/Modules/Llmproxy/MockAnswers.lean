import Jetty.Core.Python.Numerals
import Jetty.Modules.Llmproxy.Mock

/-!
# The answers of the mock

Whether an answer of the mock comes in one piece, as a stream of events or as an array, a client
hears the same: the deltas add up to the text, and the reason and the counters come once, at the
end.
-/

namespace Jetty.Llmproxy.Mock

open Python Python.Json

/-! ### What a client hears -/

/-- `value[key]`, of a dictionary. -/
def field (key : String) : Json → Option Json
  | .dict entries => get? entries (text key)
  | _ => none

def items : Json → List Json
  | .list xs => xs
  | _ => []

/-- The first candidate of a piece. -/
def candidate (piece : Json) : Option Json :=
  (field "candidates" piece).bind fun v => (items v).head?

/-- The text of a piece. -/
def textOf (piece : Json) : Text :=
  (((((candidate piece).bind (field "content")).bind (field "parts")).map items).getD []).flatMap
    fun part => ((field "text" part).bind asText).getD []

/-- What a client has of the pieces of an answer. -/
structure Heard where
  said : Text
  finishes : List Json
  usages : List Json
  versions : List Json

/-- The pieces put together in their order. -/
def hear (pieces : List Json) : Heard where
  said := pieces.flatMap textOf
  finishes := pieces.filterMap fun piece => (candidate piece).bind (field "finishReason")
  usages := pieces.filterMap (field "usageMetadata")
  versions := pieces.filterMap (field "modelVersion")

section Clients

variable (F : Floats)

/-- A client that asked for one piece. -/
def hearWhole (r : Response) : Option (List Json) :=
  ((Text.decode r.body).bind (loads F)).map fun v => [v]

/-- A client that asked for an array. -/
def hearArray (r : Response) : Option (List Json) := ((Text.decode r.body).bind (loads F)).map items

/-- A client that asked for events. -/
def hearEvents (r : Response) : Option (List Json) :=
  (Text.decode r.body).bind fun s => (EventStream.events s).mapM (loads F)

end Clients

/-! ### The deltas -/

private theorem join_append {ws vs : List Text} (hw : ws ≠ []) (hv : vs ≠ []) :
    join (ws ++ vs) = join ws ++ (space :: join vs) := by
  unfold join
  induction ws with
  | nil => exact absurd rfl hw
  | cons w ws ih =>
      cases ws with
      | nil =>
          rw [List.singleton_append, List.intercalate_cons_of_ne_nil hv,
            List.intercalate_singleton, List.append_assoc, List.singleton_append]
      | cons u us =>
          rw [List.cons_append, List.intercalate_cons_of_ne_nil
              (List.append_ne_nil_of_left_ne_nil (List.cons_ne_nil u us) vs),
            List.intercalate_cons_of_ne_nil (List.cons_ne_nil u us),
            ih (List.cons_ne_nil u us)]
          simp only [List.append_assoc]

/-- The deltas add up to the text. -/
theorem deltas_eq (s : Text) : (deltas s).1.flatten ++ (deltas s).2 = s := by
  have hjoin : join (s.splitOn space) = s := List.intercalate_splitOn space
  have hwords : s.splitOn space ≠ [] := List.splitOn_ne_nil space s
  have hsplit := List.take_append_drop (max 1 ((s.splitOn space).length / 2)) (s.splitOn space)
  have htake : (s.splitOn space).take (max 1 ((s.splitOn space).length / 2)) ≠ [] := by
    rw [ne_eq, List.take_eq_nil_iff, not_or]
    exact ⟨by omega, hwords⟩
  unfold deltas
  dsimp only
  split_ifs with hdrop
  · rw [hdrop, List.append_nil] at hsplit
    rw [hsplit, List.flatten_nil, List.nil_append, hjoin]
  · rw [List.flatten_singleton, ← join_append htake hdrop, hsplit, hjoin]

/-- What the pieces of an answer tell a client. -/
structure Tells (model : Text) (c : Completion) (pieces : List Json) : Prop where
  said : (hear pieces).said = c.message
  finishes : (hear pieces).finishes = [.str c.finish]
  usages : (hear pieces).usages = [c.usage]
  versions : ∀ v ∈ (hear pieces).versions, v = .str model

private theorem tells_whole (model : Text) (c : Completion) : Tells model c [whole model c] where
  said := by
    show (c.message ++ []) ++ [] = c.message
    rw [List.append_nil, List.append_nil]
  finishes := rfl
  usages := rfl
  versions v hv := List.mem_singleton.mp hv

private theorem tells_chunks (model : Text) (c : Completion) : Tells model c (chunks model c) := by
  have htext (d : Text) : textOf (chunk model d) = d := List.append_nil d
  have hlast : textOf (lastChunk model (deltas c.message).2 c) = (deltas c.message).2 :=
    List.append_nil _
  have hearly {f : Json → Option Json} (hf : ∀ d, f (chunk model d) = none) :
      ((deltas c.message).1.map (chunk model)).filterMap f = [] := by
    rw [List.filterMap_map, List.filterMap_eq_nil_iff]
    exact fun d _ => hf d
  constructor
  · have hsaid : ((deltas c.message).1.map (chunk model)).flatMap textOf =
        (deltas c.message).1.flatten := by
      rw [List.flatMap_map, List.flatten_eq_flatMap]
      exact List.flatMap_congr fun d _ => htext d
    show (chunks model c).flatMap textOf = c.message
    rw [chunks, List.flatMap_append, hsaid, List.flatMap_singleton, hlast, deltas_eq]
  · show (chunks model c).filterMap _ = _
    rw [chunks, List.filterMap_append, hearly fun _ => rfl]
    rfl
  · show (chunks model c).filterMap _ = _
    rw [chunks, List.filterMap_append, hearly fun _ => rfl]
    rfl
  · intro v hv
    obtain ⟨piece, hpiece, hversion⟩ := List.mem_filterMap.mp hv
    rcases List.mem_append.mp hpiece with hpiece | hpiece
    · obtain ⟨d, -, rfl⟩ := List.mem_map.mp hpiece
      exact (Option.some.inj hversion).symm
    · obtain rfl := List.mem_singleton.mp hpiece
      exact (Option.some.inj hversion).symm

/-! ### Reading the responses -/

/-- The texts that the pieces of every answer have. -/
def fixedTexts : List Text :=
  ["candidates", "content", "parts", "text", "role", "model", "index", "finishReason",
    "modelVersion", "usageMetadata", "promptTokenCount", "candidatesTokenCount",
    "totalTokenCount"].map text

private theorem plain_fixedTexts : ∀ s ∈ fixedTexts, Text.Plain s := by
  intro s hs
  refine Text.plain_of_ascii fun c hc => ?_
  have hall : (fixedTexts.all fun s => s.all fun c => decide (c.val < 0x80)) = true := by decide
  exact of_decide_eq_true (List.all_eq_true.mp (List.all_eq_true.mp hall s hs) c hc)

section Pieces

variable {F : Floats} {L : Layout} {model delta : Text} {c : Completion}

private theorem printable_nat {n : ℕ} (h : n < 10 ^ 4300) : Printable F L (.int n) := by
  show (numeral n).length ≤ 4300
  rw [length_numeral]
  exact length_toString_le (by decide) h

private theorem printable_zero : Printable F L (.int 0) := by
  show (numeral 0).length ≤ 4300
  decide

private theorem printable_usage (h : c.promptTokens + c.outputTokens < 10 ^ 4300) :
    Printable F L c.usage := by
  have hfields : (["promptTokenCount", "candidatesTokenCount", "totalTokenCount"].map
      text).Nodup := by
    decide
  exact ⟨hfields, ⟨fun _ => by decide, printable_nat (by omega)⟩,
    ⟨fun _ => by decide, printable_nat (by omega)⟩, ⟨fun _ => by decide, printable_nat h⟩, trivial⟩

private theorem printable_content (h : Joined delta) : Printable F L (content delta) := by
  have hfields : (["parts", "role"].map text).Nodup := by decide
  have hpart : (["text"].map text).Nodup := by decide
  exact ⟨hfields, ⟨fun _ => by decide, ⟨hpart, ⟨fun _ => by decide, fun _ => h⟩, trivial⟩, trivial⟩,
    ⟨fun _ => by decide, fun _ => by decide⟩, trivial⟩

private theorem printable_chunk (hmodel : Joined model) (h : Joined delta) :
    Printable F L (chunk model delta) := by
  have hfields : (["candidates", "modelVersion"].map text).Nodup := by decide
  have hcandidate : (["content", "index"].map text).Nodup := by decide
  exact ⟨hfields, ⟨fun _ => by decide, ⟨hcandidate, ⟨fun _ => by decide, printable_content h⟩,
    ⟨fun _ => by decide, printable_zero⟩, trivial⟩, trivial⟩,
    ⟨fun _ => by decide, fun _ => hmodel⟩, trivial⟩

private theorem printable_lastChunk (hmodel : Joined model) (h : Joined delta)
    (hfinish : Joined c.finish) (hcount : c.promptTokens + c.outputTokens < 10 ^ 4300) :
    Printable F L (lastChunk model delta c) := by
  have hfields : (["candidates", "modelVersion", "usageMetadata"].map text).Nodup := by decide
  have hcandidate : (["content", "index", "finishReason"].map text).Nodup := by decide
  exact ⟨hfields, ⟨fun _ => by decide, ⟨hcandidate, ⟨fun _ => by decide, printable_content h⟩,
    ⟨fun _ => by decide, printable_zero⟩, ⟨fun _ => by decide, fun _ => hfinish⟩,
    trivial⟩, trivial⟩, ⟨fun _ => by decide, fun _ => hmodel⟩,
    ⟨fun _ => by decide, printable_usage hcount⟩, trivial⟩

private theorem printable_whole (hmodel : Joined model) (h : Joined c.message)
    (hfinish : Joined c.finish)
    (hcount : c.promptTokens + c.outputTokens < 10 ^ 4300) : Printable F L (whole model c) := by
  have hfields : (["candidates", "usageMetadata", "modelVersion"].map text).Nodup := by decide
  have hcandidate : (["content", "finishReason", "index"].map text).Nodup := by decide
  exact ⟨hfields, ⟨fun _ => by decide, ⟨hcandidate, ⟨fun _ => by decide, printable_content h⟩,
    ⟨fun _ => by decide, fun _ => hfinish⟩, ⟨fun _ => by decide, printable_zero⟩,
    trivial⟩, trivial⟩, ⟨fun _ => by decide, printable_usage hcount⟩,
    ⟨fun _ => by decide, fun _ => hmodel⟩, trivial⟩

private theorem allTexts_usage {Q : Text → Prop} (hfixed : ∀ s ∈ fixedTexts, Q s) :
    AllTexts Q c.usage :=
  ⟨⟨hfixed _ (by decide), trivial⟩, ⟨hfixed _ (by decide), trivial⟩,
    ⟨hfixed _ (by decide), trivial⟩, trivial⟩

private theorem allTexts_content {Q : Text → Prop} (hfixed : ∀ s ∈ fixedTexts, Q s) (h : Q delta) :
    AllTexts Q (content delta) :=
  ⟨⟨hfixed _ (by decide), ⟨⟨hfixed _ (by decide), h⟩, trivial⟩, trivial⟩,
    ⟨hfixed _ (by decide), hfixed _ (by decide)⟩, trivial⟩

private theorem allTexts_chunk {Q : Text → Prop} (hfixed : ∀ s ∈ fixedTexts, Q s) (hmodel : Q model)
    (h : Q delta) : AllTexts Q (chunk model delta) :=
  ⟨⟨hfixed _ (by decide), ⟨⟨hfixed _ (by decide), allTexts_content hfixed h⟩,
    ⟨hfixed _ (by decide), trivial⟩, trivial⟩, trivial⟩, ⟨hfixed _ (by decide), hmodel⟩, trivial⟩

private theorem allTexts_lastChunk {Q : Text → Prop} (hfixed : ∀ s ∈ fixedTexts, Q s)
    (hmodel : Q model)
    (h : Q delta) (hfinish : Q c.finish) : AllTexts Q (lastChunk model delta c) :=
  ⟨⟨hfixed _ (by decide), ⟨⟨hfixed _ (by decide), allTexts_content hfixed h⟩,
    ⟨hfixed _ (by decide), trivial⟩, ⟨hfixed _ (by decide), hfinish⟩, trivial⟩, trivial⟩,
    ⟨hfixed _ (by decide), hmodel⟩, ⟨hfixed _ (by decide), allTexts_usage hfixed⟩, trivial⟩

private theorem allTexts_whole {Q : Text → Prop} (hfixed : ∀ s ∈ fixedTexts, Q s) (hmodel : Q model)
    (h : Q c.message) (hfinish : Q c.finish) : AllTexts Q (whole model c) :=
  ⟨⟨hfixed _ (by decide), ⟨⟨hfixed _ (by decide), allTexts_content hfixed h⟩,
    ⟨hfixed _ (by decide), hfinish⟩, ⟨hfixed _ (by decide), trivial⟩, trivial⟩, trivial⟩,
    ⟨hfixed _ (by decide), allTexts_usage hfixed⟩, ⟨hfixed _ (by decide), hmodel⟩, trivial⟩

end Pieces

/-- An answer that can be sent: plain texts, and counters that `int` reads. -/
structure Sendable (model : Text) (c : Completion) : Prop where
  model : Text.Plain model
  message : Text.Plain c.message
  finish : Text.Plain c.finish
  count : c.promptTokens + c.outputTokens < 10 ^ 4300

section Reading

variable {F : Floats} {model : Text} {c : Completion}

private theorem Sendable.deltas (h : Sendable model c) :
    (∀ d ∈ (deltas c.message).1, Text.Plain d) ∧ Text.Plain (deltas c.message).2 := by
  have hall : Text.Plain ((Mock.deltas c.message).1.flatten ++ (Mock.deltas c.message).2) := by
    rw [deltas_eq]
    exact h.message
  obtain ⟨hearly, hlast⟩ := Text.plain_append.mp hall
  exact ⟨fun d hd ch hch => hearly ch (List.mem_flatten.mpr ⟨d, hd, hch⟩), hlast⟩

private theorem Sendable.printable_chunks {L : Layout} (h : Sendable model c) :
    ∀ piece ∈ chunks model c, Printable F L piece := by
  obtain ⟨hearly, hlast⟩ := h.deltas
  intro piece hpiece
  rcases List.mem_append.mp hpiece with hpiece | hpiece
  · obtain ⟨d, hd, rfl⟩ := List.mem_map.mp hpiece
    exact printable_chunk h.model.joined (hearly d hd).joined
  · obtain rfl := List.mem_singleton.mp hpiece
    exact printable_lastChunk h.model.joined hlast.joined h.finish.joined h.count

private theorem Sendable.allTexts_chunks {Q : Text → Prop} (h : Sendable model c)
    (hQ : ∀ s, Text.Plain s → Q s) : ∀ piece ∈ chunks model c, AllTexts Q piece := by
  have hfixed : ∀ s ∈ fixedTexts, Q s := fun s hs => hQ s (plain_fixedTexts s hs)
  obtain ⟨hearly, hlast⟩ := h.deltas
  intro piece hpiece
  rcases List.mem_append.mp hpiece with hpiece | hpiece
  · obtain ⟨d, hd, rfl⟩ := List.mem_map.mp hpiece
    exact allTexts_chunk hfixed (hQ _ h.model) (hQ d (hearly d hd))
  · obtain rfl := List.mem_singleton.mp hpiece
    exact allTexts_lastChunk hfixed (hQ _ h.model) (hQ _ hlast) (hQ _ h.finish)

/-- A response whose strings are plain is sent, and reads as what it was. -/
theorem jsonResponse_reads (status : ℕ) {v : Json} (hprint : Printable F responseLayout v)
    (hplain : AllTexts (fun s => responseLayout.ascii = false → Text.Plain s) v) :
    ∃ r, jsonResponse F status v = .ok r ∧ r.status = status ∧
      (Text.decode r.body).bind (loads F) = some v := by
  have hfloats : AllDoubles (fun x => Text.Plain (F.text x)) v :=
    hprint.floats fun c _ hhigh => Text.isSurrogate_of_lt (by omega)
  obtain ⟨bytes, hbytes⟩ := Option.isSome_iff_exists.mp
    ((encode_response_iff hfloats).mpr (hplain.mono fun s hs => hs rfl))
  refine ⟨⟨status, text "application/json", bytes⟩, by rw [jsonResponse, hbytes], rfl, ?_⟩
  rw [Text.decode_eq_some.mpr hbytes, Option.bind_some, loads_dumps hprint]

/-- A client that asked for one piece hears the completion. -/
theorem Sendable.hears_whole (h : Sendable model c) :
    ∃ r, jsonResponse F 200 (whole model c) = .ok r ∧ r.status = 200 ∧
      ∃ pieces, hearWhole F r = some pieces ∧ Tells model c pieces := by
  have hplain : AllTexts (fun s => responseLayout.ascii = false → Text.Plain s) (whole model c) :=
    allTexts_whole (fun s hs _ => plain_fixedTexts s hs) (fun _ => h.model) (fun _ => h.message)
      (fun _ => h.finish)
  obtain ⟨r, hr, hstatus, hread⟩ := jsonResponse_reads 200
    (printable_whole h.model.joined h.message.joined h.finish.joined h.count) hplain
  refine ⟨r, hr, hstatus, [whole model c], ?_, tells_whole model c⟩
  rw [hearWhole, hread, Option.map_some]

/-- A client that asked for an array hears the completion. -/
theorem Sendable.hears_array (h : Sendable model c) :
    ∃ r, jsonResponse F 200 (.list (chunks model c)) = .ok r ∧ r.status = 200 ∧
      ∃ pieces, hearArray F r = some pieces ∧ Tells model c pieces := by
  have hplain : AllTexts (fun s => responseLayout.ascii = false → Text.Plain s)
      (.list (chunks model c)) :=
    allTextsItems_of_forall (h.allTexts_chunks fun s hs _ => hs)
  have hprint : Printable F responseLayout (.list (chunks model c)) :=
    printableItems_of_forall h.printable_chunks
  obtain ⟨r, hr, hstatus, hread⟩ := jsonResponse_reads 200 hprint hplain
  refine ⟨r, hr, hstatus, chunks model c, ?_, tells_chunks model c⟩
  rw [hearArray, hread, Option.map_some, items]

/-- A stream of pieces is sent, and reads as the pieces. -/
theorem eventResponse_reads {pieces : List Json}
    (hprint : ∀ piece ∈ pieces, Printable F eventLayout piece) :
    ∃ r, eventResponse F pieces = .ok r ∧ r.status = 200 ∧ hearEvents F r = some pieces := by
  have hchars : ∀ piece ∈ pieces, ∀ c ∈ dumps F eventLayout piece,
      0x20 ≤ c.val ∧ c.val ≤ 0x7E := fun piece hpiece =>
    forall_mem_dumpsAt_of_ascii (P := fun c : CodePoint => 0x20 ≤ c.val ∧ c.val ≤ 0x7E)
      (fun c hlow hhigh => ⟨hlow, hhigh⟩) (fun level c hc => absurd hc List.not_mem_nil) rfl
      (hprint piece hpiece) 0
  have hline : ∀ d ∈ pieces.map (dumps F eventLayout), EventStream.OneLine d := by
    intro d hd
    obtain ⟨piece, hpiece, rfl⟩ := List.mem_map.mp hd
    constructor
    · exact fun hmem => absurd (hchars piece hpiece _ hmem).1 (by decide)
    · exact fun hmem => absurd (hchars piece hpiece _ hmem).1 (by decide)
  have hpayload : (pieces.flatMap fun c => EventStream.frame (dumps F eventLayout c)) =
      (pieces.map (dumps F eventLayout)).flatMap EventStream.frame := by
    rw [List.flatMap_map]
  have hascii : ∀ c ∈ (pieces.map (dumps F eventLayout)).flatMap EventStream.frame,
      c.val < 0x80 := by
    have hframe : ((text "data: " ++ [Text.carriageReturn, Text.newline, Text.carriageReturn,
        Text.newline]).all fun c => decide (c.val < 0x80)) = true := by
      decide
    intro c hc
    obtain ⟨d, hd, hc⟩ := List.mem_flatMap.mp hc
    obtain ⟨piece, hpiece, rfl⟩ := List.mem_map.mp hd
    rcases List.mem_append.mp hc with hc | hend
    · rcases List.mem_append.mp hc with hfield | hdata
      · exact of_decide_eq_true (List.all_eq_true.mp hframe c (List.mem_append_left _ hfield))
      · exact Nat.lt_of_le_of_lt (hchars piece hpiece c hdata).2 (by decide)
    · exact of_decide_eq_true (List.all_eq_true.mp hframe c (List.mem_append_right _ hend))
  have hbytes := Text.encode_of_ascii hascii
  refine ⟨_, by rw [eventResponse, hpayload, hbytes], rfl, ?_⟩
  rw [hearEvents, Text.decode_eq_some.mpr hbytes, Option.bind_some,
    EventStream.events_flatMap_frame hline, mapM_loads_dumps hprint]

/-- A client that asked for events hears the completion. -/
theorem Sendable.hears_events (h : Sendable model c) :
    ∃ r, eventResponse F (chunks model c) = .ok r ∧ r.status = 200 ∧
      ∃ pieces, hearEvents F r = some pieces ∧ Tells model c pieces := by
  obtain ⟨r, hr, hstatus, hread⟩ := eventResponse_reads (F := F) h.printable_chunks
  exact ⟨r, hr, hstatus, chunks model c, hread, tells_chunks model c⟩

end Reading

/-! ### The completion -/

/-- What the counters of a body come to can be printed. -/
def Countable (body : List (Text × Json)) : Prop := promptTokens body + 5 < 10 ^ 4300

private theorem plain_join {ws : List Text} (h : ∀ w ∈ ws, Text.Plain w) : Text.Plain
    (join ws) := by
  have hspace : Text.Plain [space] := Text.encode_isSome_iff.mp (by decide)
  unfold join
  induction ws with
  | nil => exact fun _ hc => absurd hc List.not_mem_nil
  | cons w ws ih =>
      obtain ⟨hw, hws⟩ := List.forall_mem_cons.mp h
      cases ws with
      | nil => rwa [List.intercalate_singleton]
      | cons v vs =>
          rw [List.intercalate_cons_of_ne_nil (List.cons_ne_nil v vs)]
          exact Text.plain_append.mpr ⟨Text.plain_append.mpr ⟨hw, hspace⟩, ih hws⟩

private theorem plain_completionWords {digest : Digest} {model : Text} {body : List (Text × Json)}
    (hmodel : Text.Plain model) : ∀ w ∈ completionWords digest model body, Text.Plain w := by
  intro w hw
  rcases List.mem_cons.mp hw with rfl | hw
  · refine Text.plain_append.mpr ⟨Text.plain_append.mpr ⟨?_, hmodel⟩, ?_⟩
    · exact Text.encode_isSome_iff.mp (by decide)
    · exact Text.encode_isSome_iff.mp (by decide)
  · obtain ⟨i, -, rfl⟩ := List.mem_map.mp hw
    exact Text.plain_of_ascii fun c hc =>
      digest.hex model body c (List.mem_of_mem_drop (List.mem_of_mem_take hc))

/-- The words that are kept are some of the words, and the reason is one of two. -/
theorem limited_spec (limit : Option Json) (words : List Text) :
    (limited limit words).1 ⊆ words ∧ (limited limit words).1.length ≤ words.length ∧
      (limited limit words).2 ∈ [text "MAX_TOKENS", text "STOP"] := by
  have hall : words ⊆ words ∧ words.length ≤ words.length ∧
      text "STOP" ∈ [text "MAX_TOKENS", text "STOP"] :=
    ⟨List.Subset.refl words, Nat.le_refl _, by decide⟩
  unfold limited
  split
  · split_ifs
    · exact ⟨List.take_subset _ words, List.length_take_le' _ words, List.mem_cons_self⟩
    · exact hall
  · exact hall

private theorem sendable_completion {digest : Digest} {model : Text} {body : List (Text × Json)}
    {c : Completion} (h : completion digest model body = .ok c) (hcount : Countable body) :
    Sendable model c := by
  unfold completion at h
  split_ifs at h with hmodel
  have hplain : Text.Plain model := Text.encode_isSome_iff.mp (Option.isSome_iff_ne_none.mpr hmodel)
  cases hlimit : maxOutputTokens body with
  | error e =>
      rw [hlimit] at h
      cases h
  | ok limit =>
      rw [hlimit] at h
      obtain rfl := Except.ok.inj h
      obtain ⟨hsubset, hlength, hfinish⟩ := limited_spec limit (completionWords digest model body)
      have hfive : (completionWords digest model body).length = 5 := rfl
      have hend : Text.Plain (limited limit (completionWords digest model body)).2 := by
        rcases List.mem_pair.mp hfinish with hend | hend
        · rw [hend]
          exact Text.encode_isSome_iff.mp (by decide)
        · rw [hend]
          exact Text.encode_isSome_iff.mp (by decide)
      refine ⟨hplain, plain_join fun w hw => plain_completionWords hplain w (hsubset hw), hend, ?_⟩
      · exact Nat.lt_of_le_of_lt (Nat.add_le_add_left (hlength.trans hfive.le) _) hcount

/-! ### Three ways to ask -/

/-- A call of a model that is taken, by its action. -/
def ask (model action : Text) (alt : Option Text) (body : Option Json) : Call :=
  ⟨model ++ colon :: action, alt, body⟩

section Asking

variable {F : Floats} {digest : Digest} {repr : Text → Text} {model action : Text}
  {alt : Option Text} {body : Option Json}

private theorem modelCall_ask (hmodel : colon ∉ model)
    (haction : action ∈ [generate, streamGenerate]) :
    modelCall F digest repr (ask model action alt body) =
      respond F digest model action alt body := by
  have htaken : ¬(colon ∉ model ++ colon :: action ∨ action ∉ [generate, streamGenerate]) := by
    rintro (hmissing | hother)
    · exact hmissing (List.mem_append_right _ List.mem_cons_self)
    · exact hother haction
  unfold modelCall ask
  simp only [Text.partition_append hmodel, if_neg htaken]

/-- What is recorded of an answered call. -/
def recorded (model : Text) (c : Completion) : List (Text × Counters) :=
  [(model, ⟨1, 0, 0, 0⟩), (model, ⟨0, 0, c.promptTokens, c.outputTokens⟩)]

private theorem errorResponse_status {status : ℕ} {googleStatus message : Text} {r : Response}
    (h : errorResponse F status googleStatus message = .ok r) : r.status = status := by
  unfold errorResponse jsonResponse at h
  split at h
  · obtain rfl := Except.ok.inj h
    rfl
  · cases h

/-- Whether a call has a completion does not depend on how it asks, and where it has none neither
does the result. -/
theorem respond_cases (F : Floats) (digest : Digest) (model : Text) (body : Option Json) :
    (∃ entries c, body.bind withContents = some entries ∧ completion digest model entries = .ok c ∧
      ∀ action alt, respond F digest model action alt body =
        (recorded model c, answer F model action alt c)) ∨
    (∃ result : List (Text × Counters) × Except Raised Response,
      (∀ entries c, body.bind withContents = some entries →
        completion digest model entries ≠ .ok c) ∧
      (∀ action alt, respond F digest model action alt body = result) ∧
      ∀ r, result.2 = .ok r → r.status = 400 ∧ (model, ⟨0, 1, 0, 0⟩) ∈ result.1) := by
  have hrefused (records : List (Text × Counters)) (message : Text) (r : Response)
      (h : (records, errorResponse F 400 (text "INVALID_ARGUMENT") message).2 = .ok r) :
      r.status = 400 :=
    errorResponse_status h
  cases body with
  | none =>
      refine .inr ⟨_, fun entries c hnone => ?_, fun _ _ => rfl, fun r hr =>
        ⟨hrefused _ _ r hr, List.mem_cons_of_mem _ List.mem_cons_self⟩⟩
      cases hnone
  | some v =>
      cases hv : withContents v with
      | none =>
          refine .inr ⟨_, fun entries c hentries => ?_, fun action alt => by rw [respond, hv],
            fun r hr => ⟨hrefused _ _ r hr, List.mem_cons_of_mem _ List.mem_cons_self⟩⟩
          rw [Option.bind_some, hv] at hentries
          cases hentries
      | some entries =>
          cases hcompletion : completion digest model entries with
          | ok c =>
              refine .inl ⟨entries, c, hv, hcompletion, fun action alt => ?_⟩
              simp only [respond, hv, hcompletion, recorded]
          | error e =>
              refine .inr ⟨([(model, ⟨1, 0, 0, 0⟩)], .error e), fun entries' c hentries => ?_,
                fun action alt => ?_, fun r hr => ?_⟩
              · rw [Option.bind_some, hv] at hentries
                obtain rfl := Option.some.inj hentries
                rw [hcompletion]
                exact fun hok => by cases hok
              · simp only [respond, hv, hcompletion]
              · cases hr

private theorem eq_of_withContents {v : Json} {entries : List (Text × Json)}
    (h : withContents v = some entries) : v = .dict entries := by
  unfold withContents at h
  split at h
  · split at h
    · split_ifs at h
      rw [Option.some.inj h]
    · cases h
  · cases h

/-- What the three clients of a completion hear. -/
structure HeardAlike (F : Floats) (model : Text) (c : Completion) (one array stream : Response) :
    Prop where
  status : one.status = 200 ∧ array.status = 200 ∧ stream.status = 200
  one : ∃ pieces, hearWhole F one = some pieces ∧ Tells model c pieces
  array : ∃ pieces, hearArray F array = some pieces ∧ Tells model c pieces
  stream : ∃ pieces, hearEvents F stream = some pieces ∧ Tells model c pieces

/-- A call of a model that is asked for in one piece, as an array and as events is refused alike, or
it records the same each time and every client hears the same completion. -/
theorem answers_agree (hmodel : colon ∉ model)
    (hcount : ∀ entries, body = some (.dict entries) → Countable entries)
    (altOne : Option Text) {altArray : Option Text} (halt : altArray ≠ some (text "sse")) :
    (∃ entries c one array stream,
      body.bind withContents = some entries ∧ completion digest model entries = .ok c ∧
      modelCall F digest repr (ask model generate altOne body) = (recorded model c, .ok one) ∧
      modelCall F digest repr (ask model streamGenerate altArray body) =
        (recorded model c, .ok array) ∧
      modelCall F digest repr (ask model streamGenerate (some (text "sse")) body) =
        (recorded model c, .ok stream) ∧
      HeardAlike F model c one array stream) ∨
    (∃ result : List (Text × Counters) × Except Raised Response,
      (∀ entries c, body.bind withContents = some entries →
        completion digest model entries ≠ .ok c) ∧
      modelCall F digest repr (ask model generate altOne body) = result ∧
      modelCall F digest repr (ask model streamGenerate altArray body) = result ∧
      modelCall F digest repr (ask model streamGenerate (some (text "sse")) body) = result ∧
      ∀ r, result.2 = .ok r → r.status = 400 ∧ (model, ⟨0, 1, 0, 0⟩) ∈ result.1) := by
  have hgenerate : generate ∈ [generate, streamGenerate] := List.mem_cons_self
  have hstream : streamGenerate ∈ [generate, streamGenerate] :=
    List.mem_cons_of_mem _ List.mem_cons_self
  have hother : streamGenerate ≠ generate := by decide
  simp only [modelCall_ask hmodel hgenerate, modelCall_ask hmodel hstream]
  obtain ⟨entries, c, hentries, hcompletion, hanswered⟩ | ⟨result, hnone, hrefused, hresult⟩ :=
    respond_cases F digest model body
  · left
    obtain ⟨v, hv, hcontents⟩ := Option.bind_eq_some_iff.mp hentries
    have hbody : body = some (.dict entries) := by rw [hv, eq_of_withContents hcontents]
    have hsend : Sendable model c := sendable_completion hcompletion (hcount entries hbody)
    obtain ⟨one, hone, hstatus, hheard⟩ := hsend.hears_whole (F := F)
    obtain ⟨array, harray, hastatus, haheard⟩ := hsend.hears_array (F := F)
    obtain ⟨stream, hstream, hsstatus, hsheard⟩ := hsend.hears_events (F := F)
    refine ⟨entries, c, one, array, stream, hentries, hcompletion, ?_, ?_, ?_,
      ⟨hstatus, hastatus, hsstatus⟩, hheard, haheard, hsheard⟩
    · rw [hanswered, answer, if_pos rfl, hone]
    · rw [hanswered, answer, if_neg hother, if_neg halt, harray]
    · rw [hanswered, answer, if_neg hother, if_pos rfl, hstream]
  · exact .inr ⟨result, hnone, hrefused _ _, hrefused _ _, hrefused _ _, hresult⟩

end Asking

/-- Two words and a limit of two. -/
def greeting : List (Text × Json) :=
  [(text "contents", .list [.dict [(text "parts",
      .list [.dict [(text "text", .str (text "hello there"))]])]]),
    (text "generationConfig", .dict [(text "maxOutputTokens", .int 2)])]

def greetingDigest : Digest where
  of _ _ := text "fc48038abd83f5ddee3e54d0a5b6a78b9d20406a8a6ff7d8828ec590e1a3e63a"
  hex _ _ c hc := by
    have hall : ((text
        "fc48038abd83f5ddee3e54d0a5b6a78b9d20406a8a6ff7d8828ec590e1a3e63a").all
          fun c => decide (c.val < 0x80)) = true := by
      decide
    exact of_decide_eq_true (List.all_eq_true.mp hall c hc)

def small : Text := text "jetty-mock-small"

def greeted : Completion := ⟨text "mock(jetty-mock-small) fc48038a", text "MAX_TOKENS", 2, 2⟩

private theorem completion_greeting : completion greetingDigest small greeting = .ok greeted := by
  decide +kernel

/-- No floats are in the answers. -/
def anyFloats : Floats := ⟨fun _ => text "0.0", fun _ => .finite 0⟩

def quoted (s : Text) : Text := text "'" ++ s ++ text "'"

/-- A greeting is answered alike in all three forms. -/
theorem answers_agree_greeting :
    ∃ one array stream,
      modelCall anyFloats greetingDigest quoted
        (ask small generate none (some (.dict greeting))) = (recorded small greeted, .ok one) ∧
      modelCall anyFloats greetingDigest quoted
        (ask small streamGenerate none (some (.dict greeting))) =
          (recorded small greeted, .ok array) ∧
      modelCall anyFloats greetingDigest quoted
        (ask small streamGenerate (some (text "sse")) (some (.dict greeting))) =
          (recorded small greeted, .ok stream) ∧
      HeardAlike anyFloats small greeted one array stream := by
  have hcount : ∀ entries, some (Json.dict greeting) = some (.dict entries) →
      Countable entries := by
    intro entries heq
    obtain rfl := Json.dict.inj (Option.some.inj heq)
    have hsmall : promptTokens greeting + 5 < 10 ^ 1 := by decide
    have hgrow (n : ℕ) (hn : 1 ≤ n) : promptTokens greeting + 5 < 10 ^ n :=
      Nat.lt_of_lt_of_le hsmall (Nat.pow_le_pow_right (by decide) hn)
    exact hgrow 4300 (by decide)
  obtain ⟨entries, c, one, array, stream, hentries, hcompletion, hone, harray, hstream, hheard⟩ |
      ⟨result, hnone, -⟩ :=
    @answers_agree anyFloats greetingDigest quoted small (some (.dict greeting)) (by decide) hcount
      none none (by decide)
  · obtain rfl : greeting = entries := Option.some.inj hentries
    obtain rfl : greeted = c := Except.ok.inj (completion_greeting.symm.trans hcompletion)
    exact ⟨one, array, stream, hone, harray, hstream, hheard⟩
  · exact absurd completion_greeting (hnone greeting greeted rfl)

end Jetty.Llmproxy.Mock
