import Jetty.Modules.Chat.Driver

/-!
# The routes of messages

What the surface makes of a request: it parses the query and the body, drives the mock and renders
the result. Whatever a route raises but an error of the emulated shape becomes `INTERNAL`; so does a
result that cannot be written. What comes with the URL has been decoded from UTF-8 with
replacements, so it can be encoded again; a body is whatever `json.loads` returns.
-/

namespace Jetty.Chat

open Python

/-! ### What the routes use -/

/-- A text from a URL. -/
structure UrlText where
  text : Text
  encodes : (Text.encode text).isSome

/-- Why a time is not read. -/
inductive TimeError
  | value
  /-- `OverflowError` or `OSError`. -/
  | other
deriving DecidableEq

/-- What the routes call outside. -/
structure Library where
  repr : Repr
  /-- `str.lower`. -/
  lower : Text → Text
  /-- `str.upper`. -/
  upper : Text → Text
  /-- The `\w` of a pattern. -/
  isWord : CodePoint → Bool
  /-- `datetime.fromisoformat(value).timestamp()`. -/
  timestamp : Text → Except TimeError ℚ
  /-- `_rfc3339`; nothing where it raises. -/
  rfc3339 : ℚ → Option Text
  rfc3339_encodes : ∀ t s, rfc3339 t = some s → (Text.encode s).isSome
  /-- The integer that a query parameter is read as; nothing where the request is not valid. -/
  queryInt : Text → Option ℤ

/-- The statuses of the emulated API. -/
inductive Status
  | invalidArgument
  | notFound
  | unavailable
  | internal
deriving DecidableEq

/-- What a route raises. -/
inductive Raised
  /-- `ChatApiError`. -/
  | api (status : Status) (message : Text)
  /-- Any other exception. -/
  | other

abbrev Outcome (α : Type) := Except Raised α

/-- A `ChatApiError` with the status `INVALID_ARGUMENT`. -/
def invalid {α : Type} (message : Text) : Outcome α := .error (.api .invalidArgument message)

/-- A `ChatApiError` with the status `NOT_FOUND`. -/
def notFound {α : Type} (message : Text) : Outcome α := .error (.api .notFound message)

/-! ### Parsing -/

section Parsing

variable (lib : Library)

/-- `_json_body`, once the body has been read; nothing where that fails. -/
def jsonBody (allowed : List Text) (body : Option Json) : Outcome (List (Text × Json)) :=
  match body with
  | none => invalid (text "request body is not JSON")
  | some (.dict entries) =>
    let unknown := (entries.map Prod.fst).filter (· ∉ allowed)
    match (unknown.mergeSort fun a b => decide (a ≤ b)).head? with
    | some key => invalid (text "unknown field " ++ lib.repr (.str key) ++ text " in request body")
    | none => .ok entries
  | some _ => invalid (text "request body must be an object")

/-- `_page`. -/
def parsePage (pageSize : Option ℤ) (pageToken : Json) : Outcome Page :=
  let size := pageSize.getD 0
  if size < 0 then invalid (text "pageSize must not be negative")
  else
    let size := if min size 1000 = 0 then 25 else min size 1000
    .ok ⟨size, if pageToken.truthy then pageToken else .str []⟩

/-- `value.replace("Z", "+00:00")`. -/
def replaceZulu (value : Text) : Text :=
  value.flatMap fun c => if c.val = 0x5A then text "+00:00" else [c]

/-- `_parse_time`. -/
def parseTime (value : Json) (fieldName : Text) : Outcome ℚ :=
  match value with
  | .str s =>
    match lib.timestamp (replaceZulu s) with
    | .ok t => .ok t
    | .error .value => invalid (fieldName ++ text ": invalid timestamp " ++ lib.repr value)
    | .error .other => .error .other
  | _ => .error .other

/-- `str.strip`. -/
def strip (s : Text) : Text :=
  ((s.dropWhile Text.isSpace).reverse.dropWhile Text.isSpace).reverse

/-- What follows `\s+AND\s+` in whatever case at the front of a text. -/
def afterAnd (s : Text) : Option Text :=
  let word := s.dropWhile Text.isSpace
  let rest := word.drop 3
  if word.length < s.length ∧ Text.lower (word.take 3) = text "and" ∧
      (rest.head?.any Text.isSpace) then
    some (rest.dropWhile Text.isSpace)
  else none

/-- What stands before and after the first `\s+AND\s+`. -/
def findAnd : Text → Option (Text × Text)
  | [] => none
  | c :: cs =>
    match afterAnd (c :: cs) with
    | some rest => some ([], rest)
    | none => (findAnd cs).map fun (front, rest) => (c :: front, rest)

/-- `re.split(r"\s+AND\s+", s, flags=re.IGNORECASE)`; a text has fewer parts than characters. -/
def splitAnd : ℕ → Text → List Text
  | 0, s => [s]
  | fuel + 1, s =>
    match findAnd s with
    | some (front, rest) => front :: splitAnd fuel rest
    | none => [s]

/-- The groups of `_FILTER_TERM` in a term that it matches. -/
def matchTerm (term : Text) : Option (Text × CodePoint × Text) :=
  let s := term.dropWhile Text.isSpace
  let inField (c : CodePoint) := lib.isWord c || c = 0x2E
  let field := s.takeWhile inField
  match (s.dropWhile inField).dropWhile Text.isSpace with
  | [] => none
  | op :: rest =>
    if field = [] ∨ op.val ∉ [0x3E, 0x3C, 0x3D] then none
    else
      let rest := rest.dropWhile Text.isSpace
      let rest := if rest.head? = some 0x22 then rest.tail else rest
      let (front, back) := Text.partition 0x22 rest
      if 0x22 ∉ rest then some (field, op, (rest.reverse.dropWhile Text.isSpace).reverse)
      else if back.all Text.isSpace then some (field, op, front)
      else none

/-- The bounds and the thread that have been read so far. -/
structure ListFilter where
  after : ℚ := 0
  before : ℚ := 0
  thread : Text := []
deriving DecidableEq

/-- One round of the loop in `_parse_list_filter`. -/
def parseTerm (found : ListFilter) (term : Text) : Outcome ListFilter :=
  if term = [] then .ok found
  else
    match matchTerm lib term with
    | none => invalid (text "filter: cannot parse " ++ lib.repr (.str term))
    | some (field, op, value) =>
      if field = text "createTime" ∧ op.val = 0x3E then
        (parseTime lib (.str value) (text "filter createTime")).map fun t =>
          { found with after := t }
      else if field = text "createTime" ∧ op.val = 0x3C then
        (parseTime lib (.str value) (text "filter createTime")).map fun t =>
          { found with before := t }
      else if field = text "thread.name" ∧ op.val = 0x3D then
        if found.thread ≠ [] then invalid (text "filter: only one thread.name per query")
        else .ok { found with thread := value }
      else invalid (text "filter: unsupported field or operator in " ++ lib.repr (.str term))

/-- The terms of a filter. -/
def filterTerms (filter : Text) : List Text :=
  let filter := strip filter
  splitAnd filter.length filter

/-- `_parse_list_filter`. -/
def parseListFilter (filter : Text) : Outcome ListFilter :=
  (filterTerms filter).foldlM (parseTerm lib) {}

/-- `str.split()`. -/
def splitSpaces : Text → List Text
  | [] => []
  | c :: cs =>
    if Text.isSpace c then splitSpaces cs
    else
      match cs, splitSpaces cs with
      | [], _ => [[c]]
      | d :: _, words =>
        if Text.isSpace d then [c] :: words
        else
          match words with
          | word :: words => (c :: word) :: words
          | [] => [[c]]

/-- `_parse_order_by`. -/
def parseOrderBy (orderBy : Json) : Outcome Bool :=
  if orderBy.truthy then
    let unsupported : Outcome Bool := invalid (text "orderBy: unsupported " ++ lib.repr orderBy)
    match orderBy with
    | .str s =>
      match splitSpaces s with
      | [] => .error .other
      | field :: rest =>
        if 1 < rest.length ∨ field ≠ text "createTime" then unsupported
        else
          let direction := (rest.head?.map lib.upper).getD (text "ASC")
          if direction = text "ASC" ∨ direction = text "DESC" then
            .ok (direction = text "DESC")
          else unsupported
    | _ => .error .other
  else .ok false

/-- `_REPLY_OPTIONS`. -/
def replyOptions : List (Option Text × Reply) :=
  [(none, .new), (some (text "MESSAGE_REPLY_OPTION_UNSPECIFIED"), .new),
    (some (text "REPLY_MESSAGE_FALLBACK_TO_NEW_THREAD"), .fallback),
    (some (text "REPLY_MESSAGE_OR_FAIL"), .orFail)]

/-- `value.get(key, default)` of a value that need not be an object. -/
def getField (value : Json) (key : Text) (default : Json) : Outcome Json :=
  match value with
  | .dict entries => .ok ((Json.get? entries key).getD default)
  | _ => .error .other

/-- `value or {}`. -/
def orEmpty (value : Json) : Json := if value.truthy then value else .dict []

/-- The quote of a request. -/
def parseQuote (body : List (Text × Json)) : Outcome (Option QuoteRequest) :=
  match (Json.get? body (text "quotedMessageMetadata")).getD .null with
  | .null => .ok none
  | .dict quoted =>
    let name := (Json.get? quoted (text "name")).getD .null
    let lastUpdateTime := (Json.get? quoted (text "lastUpdateTime")).getD .null
    if ¬ name.truthy then invalid (text "quotedMessageMetadata.name is required")
    else if ¬ lastUpdateTime.truthy then
      invalid (text "quotedMessageMetadata.lastUpdateTime is required")
    else
      (parseTime lib lastUpdateTime (text "quotedMessageMetadata.lastUpdateTime")).map fun t =>
        some ⟨name, t⟩
  | _ => invalid (text "quotedMessageMetadata.name is required")

/-- The rows that a loop over a value runs through. -/
def iterate : Json → Outcome (List Json)
  | .list rows => .ok rows
  | .dict entries => .ok (entries.map fun e => .str e.1)
  | .str s => .ok (s.map fun c => .str [c])
  | _ => .error .other

/-- The reference of an attachment. -/
def parseAttachment (row : Json) : Outcome Json := do
  let ref ← getField (orEmpty row) (text "attachmentDataRef") (.dict [])
  let name ← getField ref (text "resourceName") (.str [])
  if name.truthy then .ok name
  else invalid (text "attachment.attachmentDataRef.resourceName is required")

/-- The references of all attachments. -/
def parseAttachments (body : List (Text × Json)) : Outcome (List Json) := do
  let value := (Json.get? body (text "attachment")).getD .null
  let rows ← if value.truthy then iterate value else .ok []
  rows.mapM parseAttachment

/-- `_parse_create`. -/
def parseCreate (body : List (Text × Json)) (replyOption : Option Text) :
    Outcome MessageCreate :=
  match (Json.get? body (text "text")).getD (.str []) with
  | .str (c :: cs) =>
    match replyOptions.lookup replyOption with
    | none =>
      invalid (text "messageReplyOption: unsupported " ++
        lib.repr ((replyOption.map Json.str).getD .null))
    | some reply =>
      match orEmpty ((Json.get? body (text "thread")).getD .null) with
      | .dict thread => do
        let quote ← parseQuote lib body
        let attachments ← parseAttachments body
        return {
          text := c :: cs
          thread := (Json.get? thread (text "name")).getD (.str [])
          threadKey := (Json.get? thread (text "threadKey")).getD (.str [])
          reply, quote, attachments }
      | _ => invalid (text "thread must be an object")
  | _ => invalid (text "text is required")

end Parsing

/-! ### Rendering -/

section Rendering

mutual

/-- Every text in the value has an encoding. -/
def encodes : Json → Bool
  | .str s => (Text.encode s).isSome
  | .list xs => encodesAll xs
  | .dict entries => encodesEntries entries
  | _ => true

def encodesAll : List Json → Bool
  | [] => true
  | x :: xs => encodes x && encodesAll xs

def encodesEntries : List (Text × Json) → Bool
  | [] => true
  | (key, value) :: entries => (Text.encode key).isSome && encodes value && encodesEntries entries

end

variable (lib : Library)

/-- `_rfc3339` of an instant, as a value. -/
def timeJson (t : ℚ) : Outcome Json :=
  match lib.rfc3339 t with
  | some s => .ok (.str s)
  | none => .error .other

def attachmentJson (a : Attachment) : Json :=
  .dict [(text "contentName", .str a.contentName), (text "contentType", .str a.contentType)]

/-- The time of the last edit, if there was one. -/
def updateFields (message : Message) : Outcome (List (Text × Json)) :=
  if message.updateTime = 0 then .ok []
  else (timeJson lib message.updateTime).map fun t => [(text "lastUpdateTime", t)]

def attachmentFields (message : Message) : List (Text × Json) :=
  if message.attachments = [] then []
  else [(text "attachment", .list (message.attachments.map attachmentJson))]

def quoteFields (message : Message) : Outcome (List (Text × Json)) :=
  match message.quoted with
  | none => .ok []
  | some quoted => (timeJson lib quoted.lastUpdateTime).map fun t =>
    [(text "quotedMessageMetadata", .dict [(text "name", .str quoted.name),
      (text "lastUpdateTime", t),
      (text "quotedMessageSnapshot", .dict [(text "text", .str quoted.text)])])]

/-- `_message_json`. -/
def messageJson (message : Message) : Outcome Json := do
  let createTime ← timeJson lib message.createTime
  let updated ← updateFields lib message
  let quoted ← quoteFields lib message
  return .dict ([(text "name", .str message.name),
    (text "sender", .dict [(text "name", .str message.sender),
      (text "type", .str message.senderType)]),
    (text "thread", .dict [(text "name", .str message.thread)]),
    (text "text", .str message.text), (text "createTime", createTime)] ++
    updated ++ attachmentFields message ++ quoted)

/-- `_reaction_json`. -/
def reactionJson (reaction : Reaction) : Json :=
  .dict [(text "name", .str reaction.name),
    (text "user", .dict [(text "name", .str reaction.user)]),
    (text "emoji", .dict [(text "unicode", .str reaction.emoji)])]

/-- A page of rows under a key, and the token of the next one. -/
def pageJson (key : Text) (rows : List Json) (nextToken : Text) : Json :=
  .dict ((key, .list rows) ::
    if nextToken = [] then [] else [(text "nextPageToken", .str nextToken)])

end Rendering

/-! ### The routes -/

section Routes

variable (lib : Library) (S : MockChatDriver)

/-- `_drive`. -/
def drive {α : Type} (result : Except DriverError α) : Outcome α :=
  match result with
  | .ok a => .ok a
  | .error (.rejects message) => invalid message
  | .error (.threadNotFound message) => notFound (text "thread not found: " ++ message)
  | .error .other => .error (.api .unavailable (text "chat upstream unavailable"))

/-- The name of a message in a URL. -/
def urlMessage (spaceId messageId : UrlText) : Text :=
  text "spaces/" ++ spaceId.text ++ text "/messages/" ++ messageId.text

/-- `_require_space`. -/
def requireSpace (spaceId : UrlText) : Outcome Space :=
  match S.getSpace (text "spaces/" ++ spaceId.text) with
  | some space => .ok space
  | none => notFound (text "space not found: spaces/" ++ spaceId.text)

/-- `_require_message`. -/
def requireMessage (name : Text) : Outcome Message :=
  match S.getMessage name with
  | some message => .ok message
  | none => notFound (text "message not found: " ++ name)

/-- A query parameter that is an integer. -/
def queryPageSize (pageSize : Option UrlText) : Outcome (Option ℤ) :=
  match pageSize with
  | none => .ok none
  | some value =>
    match lib.queryInt value.text with
    | some n => .ok (some n)
    | none => invalid (text "invalid request: ('query', 'pageSize')")

/-- A query parameter that need not be there. -/
def queryText (value : Option UrlText) : Text := (value.map UrlText.text).getD []

def createMessageRoute (spaceId : UrlText) (body : Option Json) (replyOption : Option UrlText)
    (now : ℚ) : Outcome Json := do
  let space ← requireSpace S spaceId
  let body ← jsonBody lib [text "text", text "thread", text "quotedMessageMetadata",
    text "attachment"] body
  let req ← parseCreate lib body (replyOption.map UrlText.text)
  let message ← drive (S.createMessage lib.repr space.name req now).2
  messageJson lib message

/-- `[p.strip() for p in updateMask.split(",") if p.strip()]`. -/
def maskPaths (updateMask : Text) : List Text :=
  ((updateMask.splitOn 0x2C).map strip).filter (· ≠ [])

def patchMessageRoute (spaceId messageId : UrlText) (body : Option Json) (updateMask : UrlText)
    (now : ℚ) : Outcome Json := do
  let paths := maskPaths updateMask.text
  if paths = [] then invalid (text "updateMask is required")
  else
    match paths.find? (· ≠ text "text") with
    | some path =>
      invalid (text "updateMask path " ++ lib.repr (.str path) ++ text " is not supported")
    | none => do
      let body ← jsonBody lib [text "text"] body
      match (Json.get? body (text "text")).getD (.str []) with
      | .str s =>
        let name := urlMessage spaceId messageId
        match (S.patchMessage name (some s) now).2 with
        | none => notFound (text "message not found: " ++ name)
        | some message => messageJson lib message
      | _ => invalid (text "text must be a string")

/-- The messages of a page, as they are written. -/
def messagesJson (page : List Message × Text) : Outcome Json := do
  let rows ← page.1.mapM (messageJson lib)
  return pageJson (text "messages") rows page.2

def listMessagesRoute (spaceId : UrlText) (pageSize pageToken filter orderBy : Option UrlText) :
    Outcome Json := do
  let pageSize ← queryPageSize lib pageSize
  let space ← requireSpace S spaceId
  let found ← parseListFilter lib (queryText filter)
  let page ← parsePage pageSize (.str (queryText pageToken))
  let descending ← parseOrderBy lib (.str (queryText orderBy))
  let result ← drive (S.listMessages lib.repr space.name
    { page, after := found.after, before := found.before, thread := found.thread, descending })
  messagesJson lib result

/-- `isinstance(value, int)` of a page size in a body. -/
def bodyPageSize (value : Json) : Outcome (Option ℤ) :=
  match value with
  | .null => .ok none
  | .int n => .ok (some n)
  | .bool b => .ok (some (if b then 1 else 0))
  | _ => invalid (text "pageSize must be an integer")

def searchMessagesRoute (spaceId : UrlText) (body : Option Json) : Outcome Json := do
  if spaceId.text ≠ text "-" then invalid (text "search parent must be spaces/-")
  else
    let body ← jsonBody lib [text "filter", text "pageSize", text "pageToken", text "orderBy"] body
    match (Json.get? body (text "filter")).getD (.str []) with
    | .str (c :: cs) => do
      let pageSize ← bodyPageSize ((Json.get? body (text "pageSize")).getD .null)
      let page ← parsePage pageSize ((Json.get? body (text "pageToken")).getD .null)
      let descending ← parseOrderBy lib ((Json.get? body (text "orderBy")).getD .null)
      let result ← drive (S.searchMessages lib.repr lib.lower
        { filter := c :: cs, page, descending })
      messagesJson lib result
    | _ => invalid (text "filter is required")

/-- `((body.get("emoji") or {}).get("unicode") or "").strip()`. -/
def parseEmoji (body : List (Text × Json)) : Outcome Text := do
  let emoji := orEmpty ((Json.get? body (text "emoji")).getD .null)
  let unicode ← getField emoji (text "unicode") .null
  if unicode.truthy then
    match unicode with
    | .str s => .ok (strip s)
    | _ => .error .other
  else .ok []

def createReactionRoute (spaceId messageId : UrlText) (body : Option Json) : Outcome Json := do
  let body ← jsonBody lib [text "emoji"] body
  let unicode ← parseEmoji body
  if unicode = [] then invalid (text "emoji.unicode is required")
  else
    let name := urlMessage spaceId messageId
    let _ ← requireMessage S name
    return reactionJson (S.createReaction name unicode).2

def listReactionsRoute (spaceId messageId : UrlText) (pageSize pageToken : Option UrlText) :
    Outcome Json := do
  let pageSize ← queryPageSize lib pageSize
  let name := urlMessage spaceId messageId
  let _ ← requireMessage S name
  let page ← parsePage pageSize (.str (queryText pageToken))
  let result ← drive (S.listReactions lib.repr name page)
  return pageJson (text "reactions") (result.1.map reactionJson) result.2

def deleteReactionRoute (spaceId messageId reactionId : UrlText) : Outcome Json :=
  let name := urlMessage spaceId messageId ++ text "/reactions/" ++ reactionId.text
  if (S.deleteReaction name).2 then .ok (.dict [])
  else notFound (text "reaction not found: " ++ name)

/-- A request to one of the routes of messages. -/
inductive MessageRequest
  | create (spaceId : UrlText) (body : Option Json) (messageReplyOption : Option UrlText)
  | patch (spaceId messageId : UrlText) (body : Option Json) (updateMask : UrlText)
  | list (spaceId : UrlText) (pageSize pageToken filter orderBy : Option UrlText)
  | search (spaceId : UrlText) (body : Option Json)
  | createReaction (spaceId messageId : UrlText) (body : Option Json)
  | listReactions (spaceId messageId : UrlText) (pageSize pageToken : Option UrlText)
  | deleteReaction (spaceId messageId reactionId : UrlText)

/-- What the route returns or raises. -/
def route (now : ℚ) : MessageRequest → Outcome Json
  | .create spaceId body replyOption => createMessageRoute lib S spaceId body replyOption now
  | .patch spaceId messageId body updateMask =>
    patchMessageRoute lib S spaceId messageId body updateMask now
  | .list spaceId pageSize pageToken filter orderBy =>
    listMessagesRoute lib S spaceId pageSize pageToken filter orderBy
  | .search spaceId body => searchMessagesRoute lib S spaceId body
  | .createReaction spaceId messageId body => createReactionRoute lib S spaceId messageId body
  | .listReactions spaceId messageId pageSize pageToken =>
    listReactionsRoute lib S spaceId messageId pageSize pageToken
  | .deleteReaction spaceId messageId reactionId =>
    deleteReactionRoute S spaceId messageId reactionId

/-- What the client gets. -/
inductive Answer
  | ok (body : Json)
  | error (status : Status) (message : Text)
  /-- The error itself cannot be written; the application answers for the route. -/
  | unanswered

/-- `_ChatRoute`. -/
def answer (now : ℚ) (req : MessageRequest) : Answer :=
  match route lib S now req with
  | .ok body => if encodes body then .ok body else .error .internal (text "internal error")
  | .error (.api status message) =>
    if (Text.encode message).isSome then .error status message else .unanswered
  | .error .other => .error .internal (text "internal error")

/-- Success, `NOT_FOUND` or `INVALID_ARGUMENT`. -/
def Answer.acceptable : Answer → Bool
  | .ok _ | .error .invalidArgument _ | .error .notFound _ => true
  | _ => false

end Routes

end Jetty.Chat
