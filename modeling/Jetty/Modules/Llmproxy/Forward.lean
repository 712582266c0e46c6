import Jetty.Core.Python.Integer
import Mathlib.Data.List.Infix
import Mathlib.Data.List.Perm.Basic

/-!
# The forwarder

`Forwarder.handle`: the request that is built for the upstream, and what becomes of its
response. The web framework and the HTTP client are parameters with their documented behaviour.
-/

namespace Jetty.Llmproxy

open Python

/-- `CREDENTIAL_HEADERS`. -/
def credentialHeaders : List Text := ["authorization", "x-api-key", "x-goog-api-key"].map text

/-- `CREDENTIAL_PARAMS`. -/
def credentialParams : List Text := [text "key"]

/-- `HOP_HEADERS`. -/
def hopHeaders : List Text :=
  ["connection", "keep-alive", "proxy-authenticate", "proxy-authorization", "te", "trailer",
    "transfer-encoding", "upgrade", "host", "content-length", "accept-encoding", "expect"].map text

/-- `AUTH_HEADER`. -/
def authHeader : Text := text "x-goog-api-key"

/-- A header with its value as text. -/
abbrev Header := Text × Text

/-- A request as the framework hands it over: the raw query still in one piece. -/
structure Request where
  method : Text
  /-- What stands after the prefix of the surface in the raw target, up to the query. -/
  rawPath : Text
  rawQuery : Text
  headers : List Header
  body : List ℕ

/-- A request as it is sent. -/
structure Sent where
  method : Text
  rawPath : Text
  rawQuery : Text
  headers : List Header
  body : List ℕ
deriving DecidableEq

/-- A response as it is received. -/
structure Upstream where
  status : ℕ
  /-- The names in lower case, and the bytes of the values. -/
  headers : List (Text × List ℕ)
  body : List ℕ
  bytes : ∀ h ∈ headers, ∀ b ∈ h.2, b < 0x100

/-- The value of a header, several of them joined by commas. -/
def fieldValue (headers : List (Text × List ℕ)) (name : Text) : List ℕ :=
  [0x2C, 0x20].intercalate ((headers.filter fun h => h.1 = name).map Prod.snd)

/-- The values are all UTF-8. -/
def AllUtf8 (headers : List (Text × List ℕ)) : Prop :=
  ∀ h ∈ headers, ∃ t, Text.encode t = some h.2

def ampersand : CodePoint := 0x26
def equalsSign : CodePoint := 0x3D

/-- A content type that the framework adds a charset to. -/
def lacksCharset (mediaType : Text) : Bool :=
  (text "text/").isPrefixOf mediaType && !decide (text "charset=" <:+: Text.lower mediaType)

/-- What the framework and the HTTP client do. -/
structure Library where
  /-- The path that is handed over for a raw one. -/
  decodePath : Text → Text
  /-- The raw path that is sent for a path, unless it is refused. -/
  encodePath : Text → Option Text
  /-- The text that a piece of a query stands for. -/
  unquote : Text → Text
  /-- The way in which a text is written in a query. -/
  quote : Text → Text
  unquote_quote : ∀ t, unquote (quote t) = t
  quote_plain : ∀ t, ampersand ∉ quote t ∧ equalsSign ∉ quote t
  /-- The order in which the parameters are written. -/
  arrange : List (Text × Text) → List (Text × Text)
  arrange_perm : ∀ params, (arrange params).Perm params
  /-- The raw value that is sent for a header's value, unless it is refused. -/
  encodeValue : Text → Option Text
  /-- The headers of the client itself, other than those of the transport. -/
  defaults : List Header
  /-- `headers.get` of a response, with the empty default. -/
  get : List (Text × List ℕ) → Text → Text
  get_utf8 : ∀ headers name t, AllUtf8 headers → Text.encode t = some (fieldValue headers name) →
    get headers name = t
  get_latin1 : ∀ headers name, ¬ AllUtf8 headers → (∀ h ∈ headers, ∀ b ∈ h.2, b < 0x100) →
    get headers name = (fieldValue headers name).map (Fin.ofNat _)
  /-- `aread`: the body with its content encoding undone, or an `HTTPError`. -/
  decodeBody : List (Text × List ℕ) → List ℕ → Option (List ℕ)
  decodeBody_identity : ∀ headers body, (∀ h ∈ headers, h.1 ≠ text "content-encoding") →
    decodeBody headers body = some body
  /-- The content type of a `Response`, or an exception. -/
  contentType : Text → Option (List ℕ)
  contentType_text : ∀ mediaType, lacksCharset mediaType = true →
    contentType mediaType = Text.latin1 (mediaType ++ text "; charset=utf-8")
  contentType_other : ∀ mediaType, lacksCharset mediaType = false →
    contentType mediaType = Text.latin1 mediaType
  /-- `json.loads`, or an exception. -/
  loads : List ℕ → Option Json

/-- A row of the usage counters. -/
structure Counters where
  requests : ℤ
  errors : ℤ
  inputTokens : ℤ
  outputTokens : ℤ
deriving DecidableEq, Repr

abbrev Usage := List (Text × Counters)

/-- `_record`. -/
def record (usage : Usage) (model : Text) (by_ : Counters) : Usage :=
  let row := (usage.lookup model).getD ⟨0, 0, 0, 0⟩
  (model, ⟨row.requests + by_.requests, row.errors + by_.errors,
    row.inputTokens + by_.inputTokens, row.outputTokens + by_.outputTokens⟩) ::
    usage.filter fun entry => entry.1 ≠ model

/-- What `handle` lets through. -/
inductive Exc
  /-- The HTTP client refuses the target or a header. -/
  | invalidRequest
  /-- `int` of a counter. -/
  | conversion
  /-- The content type of the response. -/
  | encoding
deriving DecidableEq, Repr

/-- What `handle` returns. -/
inductive Reply
  | response (status : ℕ) (contentType : Option (List ℕ)) (body : List ℕ)
  | stream (status : ℕ) (mediaType cacheControl : Text)
  /-- An answer of its own, with status 502. -/
  | synthesized (reason message : String)
deriving DecidableEq, Repr

/-- What becomes of the request that is sent. -/
inductive Exchange
  | unreachable
  /-- The status line arrived, but not all of the body. -/
  | lost (response : Upstream)
  | received (response : Upstream)

section Model

/-- The search of `_MODEL_RE`. -/
def searchModel : Text → Option Text
  | [] => none
  | c :: cs =>
    let name := ((c :: cs).drop 8).takeWhile fun d => !(text ":/?").contains d
    if (text "/models/").isPrefixOf (c :: cs) && !name.isEmpty then some name else searchModel cs

/-- `_model`. -/
def modelOf (path : Text) : Text := (searchModel (text "/" ++ path)).getD (text "-")

end Model

section Build

variable (lib : Library) (apiKey : Text)

/-- The name belongs to the transport, or is that of a credential. -/
def withheld (name : Text) : Bool :=
  hopHeaders.contains (Text.lower name) || credentialHeaders.contains (Text.lower name)

/-- Assignment to a key of a dictionary. -/
def assign (dict : List Header) (name value : Text) : List Header :=
  if name ∈ dict.map Prod.fst then dict.map fun h => if h.1 = name then (name, value) else h
  else dict ++ [(name, value)]

/-- The dictionary of the relayed headers. -/
def relayedHeaders (headers : List Header) : List Header :=
  (headers.filter fun h => !withheld h.1).foldl (fun dict h => assign dict h.1 h.2) []

/-- The headers that the client is given. -/
def givenHeaders (headers : List Header) : List Header :=
  assign (assign (relayedHeaders headers) authHeader apiKey) (text "accept-encoding")
    (text "identity")

/-- The pieces of a raw query. -/
def segments (rawQuery : Text) : List Text :=
  if rawQuery = [] then [] else rawQuery.splitOn ampersand

/-- The name and the value that a piece of a query stands for. -/
def Library.param (segment : Text) : Text × Text :=
  let (name, value) := Text.partition equalsSign segment
  (lib.unquote name, lib.unquote value)

/-- `query_params.multi_items()`: empty pieces are skipped. -/
def Library.multiItems (rawQuery : Text) : List (Text × Text) :=
  ((segments rawQuery).filter (· ≠ [])).map lib.param

/-- The parameters that are relayed. -/
def Library.relayedParams (rawQuery : Text) : List (Text × Text) :=
  (lib.multiItems rawQuery).filter fun p => !credentialParams.contains (Text.lower p.1)

/-- The way in which a parameter is written. -/
def Library.writeParam (p : Text × Text) : Text := lib.quote p.1 ++ equalsSign :: lib.quote p.2

/-- The raw query that is sent for some parameters. -/
def Library.writeQuery (params : List (Text × Text)) : Text :=
  [ampersand].intercalate ((lib.arrange params).map lib.writeParam)

/-- The headers of the client that are not given. -/
def Library.missingDefaults (given : List Header) : List Header :=
  lib.defaults.filter fun h => !(given.map fun g => Text.lower g.1).contains (Text.lower h.1)

/-- The headers that are sent, unless a value is refused. -/
def Library.writeHeaders (given : List Header) : Option (List Header) :=
  (given.mapM fun h => (lib.encodeValue h.2).map (h.1, ·)).map (· ++ lib.missingDefaults given)

/-- The upstream request of `handle`. -/
def Library.buildRequest (req : Request) : Except Exc Sent :=
  match lib.encodePath (text "/" ++ lib.decodePath req.rawPath),
      lib.writeHeaders (givenHeaders apiKey req.headers) with
  | some rawPath, some headers =>
    .ok { method := req.method
          rawPath
          rawQuery := lib.writeQuery (lib.relayedParams req.rawQuery)
          headers
          body := req.body }
  | _, _ => .error .invalidRequest

end Build

section Relay

variable (lib : Library)

/-- A counter of the metadata. -/
def tokenCount (metadata : List (Text × Json)) (name : String) : Except Exc ℤ :=
  match Json.get? metadata (text name) with
  | none => .ok 0
  | some value =>
    match value.toInt with
    | some n => .ok n
    | none => .error .conversion

/-- `_usage`: what is recorded. -/
def Library.usageOf (contentType : Text) (raw : List ℕ) : Except Exc (Option Counters) :=
  if (text "application/json").isPrefixOf contentType then
    match lib.loads raw with
    | some (.dict entries) =>
      match Json.get? entries (text "usageMetadata") with
      | some (.dict metadata) =>
        match tokenCount metadata "promptTokenCount",
            tokenCount metadata "candidatesTokenCount" with
        | .ok inputTokens, .ok outputTokens => .ok (some ⟨0, 0, inputTokens, outputTokens⟩)
        | .error e, _ => .error e
        | .ok _, .error e => .error e
      | _ => .ok none
    | _ => .ok none
  else .ok none

/-- The end of `handle`: the `Response`. -/
def Library.respond (status : ℕ) (contentType : Text) (raw : List ℕ) : Except Exc Reply :=
  if contentType = [] then .ok (.response status none raw)
  else
    match lib.contentType contentType with
    | some value => .ok (.response status (some value) raw)
    | none => .error .encoding

/-- What `handle` makes of a body that was read. -/
def Library.account (usage : Usage) (model : Text) (status : ℕ) (contentType : Text)
    (raw : List ℕ) : Usage × Except Exc Reply :=
  if 400 ≤ status then
    (record usage model ⟨0, 1, 0, 0⟩, lib.respond status contentType raw)
  else
    match lib.usageOf contentType raw with
    | .error e => (usage, .error e)
    | .ok none => (usage, lib.respond status contentType raw)
    | .ok (some counters) => (record usage model counters, lib.respond status contentType raw)

/-- The body did not arrive. -/
def lostReply (usage : Usage) (model : Text) : Usage × Except Exc Reply :=
  (record usage model ⟨0, 1, 0, 0⟩,
    .ok (.synthesized "upstream_lost" "upstream connection lost mid-response"))

/-- What `handle` makes of a response; `complete`: its body arrives. -/
def Library.relay (usage : Usage) (model : Text) (r : Upstream) (complete : Bool) :
    Usage × Except Exc Reply :=
  let contentType := lib.get r.headers (text "content-type")
  if (text "text/event-stream").isPrefixOf contentType then
    let cacheControl :=
      if (r.headers.map Prod.fst).contains (text "cache-control") then
        lib.get r.headers (text "cache-control")
      else text "no-store"
    (usage, .ok (.stream r.status contentType cacheControl))
  else if complete then
    match lib.decodeBody r.headers r.body with
    | some raw => lib.account usage model r.status contentType raw
    | none => lostReply usage model
  else lostReply usage model

end Relay

/-- `Forwarder.handle`. -/
def Library.handle (lib : Library) (apiKey : Text) (usage : Usage) (req : Request)
    (exchange : Exchange) : Usage × Except Exc Reply :=
  let model := modelOf (lib.decodePath req.rawPath)
  let usage := record usage model ⟨1, 0, 0, 0⟩
  match lib.buildRequest apiKey req with
  | .error e => (usage, .error e)
  | .ok _ =>
    match exchange with
    | .unreachable =>
      (record usage model ⟨0, 1, 0, 0⟩,
        .ok (.synthesized "upstream_unreachable" "upstream unreachable"))
    | .lost r => lib.relay usage model r false
    | .received r => lib.relay usage model r true

end Jetty.Llmproxy
