import Jetty.Core.EventStream
import Jetty.Core.Python.JsonRoundTrip
import Jetty.Core.Python.Values
import Jetty.Modules.Llmproxy.Forward

/-!
# The mock of the provider

`model_call` of the emulator: an answer that is derived from the model and the body, in one piece,
as a stream of events or as an array, and what a client makes of each.
-/

namespace Jetty.Llmproxy.Mock

open Python Python.Json

/-- `isinstance(value, str)`. -/
def asText : Json → Option Text
  | .str s => some s
  | _ => none

mutual

/-- `_texts`. -/
def texts : Json → List Text
  | .dict es => textsOfEntries es
  | .list xs => textsOfItems xs
  | _ => []

def textsOfItems : List Json → List Text
  | [] => []
  | x :: xs => texts x ++ textsOfItems xs

def textsOfEntry : Text × Json → List Text
  | (key, item) =>
    match if key = text "text" then asText item else none with
    | some s => [s]
    | none => texts item

def textsOfEntries : List (Text × Json) → List Text
  | [] => []
  | e :: es => textsOfEntry e ++ textsOfEntries es

end

/-- `hexdigest` of the model and the body. -/
structure Digest where
  of : Text → List (Text × Json) → Text
  hex : ∀ model body, ∀ c ∈ of model body, c.val < 0x80

/-- What is raised on the way. -/
inductive Raised
  | attributeError
  | unicodeEncodeError
deriving DecidableEq, Repr

/-- `(body.get("generationConfig") or {}).get("maxOutputTokens")`. -/
def maxOutputTokens (body : List (Text × Json)) : Except Raised (Option Json) :=
  match get? body (text "generationConfig") with
  | none => .ok none
  | some config =>
    if truthy config then
      match config with
      | .dict entries => .ok (get? entries (text "maxOutputTokens"))
      | _ => .error .attributeError
    else .ok none

/-- What `_completion` returns. -/
structure Completion where
  message : Text
  finish : Text
  promptTokens : ℕ
  outputTokens : ℕ
deriving DecidableEq

def space : CodePoint := 0x20

/-- `" ".join`. -/
def join (words : List Text) : Text := [space].intercalate words

/-- The words of a completion before they are limited. -/
def completionWords (digest : Digest) (model : Text) (body : List (Text × Json)) : List Text :=
  (text "mock(" ++ model ++ text ")") ::
    [0, 8, 16, 24].map fun i => ((digest.of model body).drop i).take 8

/-- The words that are kept, and why it ends. -/
def limited (limit : Option Json) (words : List Text) : List Text × Text :=
  match limit with
  | some (.int n) =>
    if 0 < n ∧ n < words.length then (words.take n.toNat, text "MAX_TOKENS")
    else (words, text "STOP")
  | _ => (words, text "STOP")

/-- The words of the texts among the contents. -/
def promptTokens (body : List (Text × Json)) : ℕ :=
  (texts ((get? body (text "contents")).getD .null)).foldl
    (fun n t => n + (Text.words t).length) 0

/-- `_completion`. -/
def completion (digest : Digest) (model : Text) (body : List (Text × Json)) :
    Except Raised Completion :=
  if Text.encode model = none then .error .unicodeEncodeError
  else
    match maxOutputTokens body with
    | .error e => .error e
    | .ok limit =>
      let (words, finish) := limited limit (completionWords digest model body)
      .ok ⟨join words, finish, promptTokens body, words.length⟩

def Completion.usage (c : Completion) : Json :=
  .dict [(text "promptTokenCount", .int c.promptTokens),
    (text "candidatesTokenCount", .int c.outputTokens),
    (text "totalTokenCount", .int ((c.promptTokens + c.outputTokens : ℕ) : ℤ))]

def content (s : Text) : Json :=
  .dict [(text "parts", .list [.dict [(text "text", .str s)]]), (text "role", .str (text "model"))]

/-- A chunk that is not the last one. -/
def chunk (model delta : Text) : Json :=
  .dict [(text "candidates",
      .list [.dict [(text "content", content delta), (text "index", .int 0)]]),
    (text "modelVersion", .str model)]

/-- The last chunk. -/
def lastChunk (model delta : Text) (c : Completion) : Json :=
  .dict [(text "candidates", .list [.dict [(text "content", content delta), (text "index", .int 0),
      (text "finishReason", .str c.finish)]]),
    (text "modelVersion", .str model), (text "usageMetadata", c.usage)]

/-- The deltas of `_chunks`, the last one apart. -/
def deltas (s : Text) : List Text × Text :=
  let words := s.splitOn space
  let half := max 1 (words.length / 2)
  if words.drop half = [] then ([], join (words.take half))
  else ([join (words.take half)], space :: join (words.drop half))

/-- `_chunks`. -/
def chunks (model : Text) (c : Completion) : List Json :=
  (deltas c.message).1.map (chunk model) ++ [lastChunk model (deltas c.message).2 c]

/-- The answer in one piece. -/
def whole (model : Text) (c : Completion) : Json :=
  .dict [(text "candidates", .list [.dict [(text "content", content c.message),
      (text "finishReason", .str c.finish), (text "index", .int 0)]]),
    (text "usageMetadata", c.usage), (text "modelVersion", .str model)]

/-- A response, by its bytes. -/
structure Response where
  status : ℕ
  mediaType : Text
  body : List ℕ
deriving DecidableEq

/-- A call of a model: its last segment, the query parameter `alt`, and what `json.loads` makes of
the body, if it is JSON. -/
structure Call where
  modelCall : Text
  alt : Option Text
  body : Option Json

section Serving

variable (F : Floats)

/-- `separators=(',', ':')`, as in a `JSONResponse`, but with `ensure_ascii`. -/
def eventLayout : Layout := { responseLayout with ascii := true }

/-- `JSONResponse`. -/
def jsonResponse (status : ℕ) (v : Json) : Except Raised Response :=
  match Text.encode (dumps F responseLayout v) with
  | some bytes => .ok ⟨status, text "application/json", bytes⟩
  | none => .error .unicodeEncodeError

/-- The response of a stream of events. -/
def eventResponse (pieces : List Json) : Except Raised Response :=
  match Text.encode (pieces.flatMap fun c => EventStream.frame (dumps F eventLayout c)) with
  | some bytes => .ok ⟨200, text "text/event-stream; charset=utf-8", bytes⟩
  | none => .error .unicodeEncodeError

/-- `_error`. -/
def errorResponse (status : ℕ) (googleStatus message : Text) : Except Raised Response :=
  jsonResponse F status (.dict [(text "error", .dict [(text "code", .int status),
    (text "message", .str message), (text "status", .str googleStatus)])])

def colon : CodePoint := 0x3A

/-- The actions of a model. -/
def generate : Text := text "generateContent"

def streamGenerate : Text := text "streamGenerateContent"

/-- The response to a call that has an answer. -/
def answer (model action : Text) (alt : Option Text) (c : Completion) : Except Raised Response :=
  if action = generate then jsonResponse F 200 (whole model c)
  else if alt = some (text "sse") then eventResponse F (chunks model c)
  else jsonResponse F 200 (.list (chunks model c))

/-- `body` is a dictionary whose contents are not empty. -/
def withContents : Json → Option (List (Text × Json))
  | .dict entries =>
    match get? entries (text "contents") with
    | some contents => if truthy contents then some entries else none
    | none => none
  | _ => none

/-- `model_call` from where its method is known: what it records, call by call, and returns. -/
def respond (digest : Digest) (model action : Text) (alt : Option Text) (body : Option Json) :
    List (Text × Counters) × Except Raised Response :=
  match body with
  | none =>
    ([(model, ⟨1, 0, 0, 0⟩), (model, ⟨0, 1, 0, 0⟩)], errorResponse F 400
      (text "INVALID_ARGUMENT") (text "request body is not valid JSON"))
  | some body =>
    match withContents body with
    | none =>
      ([(model, ⟨1, 0, 0, 0⟩), (model, ⟨0, 1, 0, 0⟩)], errorResponse F 400
        (text "INVALID_ARGUMENT") (text "contents is required"))
    | some entries =>
      match completion digest model entries with
      | .error e => ([(model, ⟨1, 0, 0, 0⟩)], .error e)
      | .ok c =>
        ([(model, ⟨1, 0, 0, 0⟩), (model, ⟨0, 0, c.promptTokens, c.outputTokens⟩)],
          answer F model action alt c)

/-- `model_call`. -/
def modelCall (digest : Digest) (repr : Text → Text) (call : Call) :
    List (Text × Counters) × Except Raised Response :=
  let (model, action) := Text.partition colon call.modelCall
  if colon ∉ call.modelCall ∨ action ∉ [generate, streamGenerate] then
    ([], errorResponse F 404 (text "NOT_FOUND")
      (text "unknown method for " ++ repr call.modelCall))
  else respond F digest model action call.alt call.body

end Serving

end Jetty.Llmproxy.Mock
