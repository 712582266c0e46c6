import Jetty.Core.Python.Json

/-!
# The message of a send request

The validation of `POST /mail/v1/send`: a JSON body becomes a message, or the request is refused
with the field that is to blame.
-/

namespace Jetty.Mail

open Python

/-- One validated message. -/
structure MailSend where
  idempotencyKey : Text
  fromAddr : Text
  to_ : List Text
  subject : Text
  text : Text
  cc : List Text := []
  bcc : List Text := []
  replyTo : List Text := []
  html : Text := []
  threadKey : Text := []
  tags : List Text := []
  dryRun : Bool := false
deriving DecidableEq, Repr

/-- `MailApiError`: the status, the slug, and what else the body carries. -/
structure ApiError where
  status : ℕ
  slug : String
  extra : List (String × Json) := []

/-- `_bad`. -/
def bad (detail : Text) : ApiError := ⟨400, "bad_request", [("detail", .str detail)]⟩

/-- What `_MailRoute` makes of an exception that nobody anticipated. -/
def internalError : ApiError := ⟨500, "internal_error", []⟩

def maxRecipients : ℕ := 100
def maxKeyBytes : ℕ := 128
def maxSubjectChars : ℕ := 512
def maxTextBytes : ℕ := 256 * 1024
def maxHtmlBytes : ℕ := 512 * 1024
def maxThreadKeyBytes : ℕ := 256
def maxTags : ℕ := 10
def maxTagBytes : ℕ := 64
def maxAddressBytes : ℕ := 320
def maxReplyTo : ℕ := 5

/-- `_FIELDS`. -/
def fields : List Text :=
  ["idempotencyKey", "from", "replyTo", "to", "cc", "bcc", "subject", "text", "html", "threadKey",
    "tags", "dryRun"].map Python.text

def at_ : CodePoint := 0x40
def dot : CodePoint := 0x2E
def lineFeed : CodePoint := 0xA
def carriageReturn : CodePoint := 0xD

/-- `[^\s@]`. -/
def addressChar (c : CodePoint) : Bool := !Text.isSpace c && c != at_

/-- `[^\s@]+@[^\s@]+\.[^\s@]+` from the first character to the last. -/
def isAddress (s : Text) : Bool :=
  let (local_, domain) := Text.partition at_ s
  !local_.isEmpty && local_.all addressChar && domain.all addressChar &&
    domain.tail.dropLast.contains dot

/-- `_ADDRESS.match`: the pattern ends in `$`, which stands before a final newline too. -/
def matchesAddress (s : Text) : Bool :=
  isAddress s || (s.getLast? == some lineFeed && isAddress s.dropLast)

/-- `len(value.encode("utf-8"))`; the route answers a text without an encoding with a 500. -/
def byteLength (s : Text) : Except ApiError ℕ :=
  match Text.encode s with
  | some bytes => .ok bytes.length
  | none => .error internalError

/-- The loop of `_addresses`. -/
def checkAddresses (fieldName : String) : List Text → Except ApiError Unit
  | [] => .ok ()
  | address :: addresses => do
    unless matchesAddress address do
      throw (bad (text (fieldName ++ ": not a plain local@domain address")))
    if maxAddressBytes < (← byteLength address) then
      throw (bad (text (fieldName ++ ": not a plain local@domain address")))
    checkAddresses fieldName addresses

/-- `_addresses`. -/
def addresses (value : Option Json) (fieldName : String) (maximum : Option ℕ) :
    Except ApiError (List Text) :=
  match value with
  | none | some .null => .ok []
  | some (.list xs) =>
    match Json.strings? xs with
    | none => .error (bad (text (fieldName ++ " must be an array of addresses")))
    | some ss => do
      checkAddresses fieldName ss
      match maximum with
      | some m =>
        if m < ss.length then
          throw (bad (text s!"{fieldName} carries more than {m} addresses"))
        else return ss
      | none => return ss
  | some _ => .error (bad (text (fieldName ++ " must be an array of addresses")))

/-- `_bounded_str`. -/
def boundedStr (value : Option Json) (fieldName : String) (maxBytes : ℕ) (required : Bool) :
    Except ApiError Text :=
  match value with
  | none | some .null =>
    if required then .error (bad (text (fieldName ++ " is required"))) else .ok []
  | some (.str s) => do
    if required && s.isEmpty then
      throw (bad (text (fieldName ++ " must be a non-empty string")))
    if maxBytes < (← byteLength s) then
      throw (bad (text s!"{fieldName} exceeds {maxBytes} bytes"))
    return s
  | some _ => .error (bad (text (fieldName ++ " must be a non-empty string")))

/-- The sender. -/
def parseFrom : Option Json → Except ApiError Text
  | some (.str s) =>
    if matchesAddress s then .ok s
    else .error (bad (text "from must be a plain local@domain address"))
  | _ => .error (bad (text "from must be a plain local@domain address"))

/-- The subject. -/
def parseSubject : Option Json → Except ApiError Text
  | some (.str s) =>
    if s.isEmpty || decide (maxSubjectChars < s.length) then
      .error (bad (text s!"subject is required, one line, at most {maxSubjectChars} chars"))
    else if s.contains carriageReturn || s.contains lineFeed then
      .error (bad (text "subject must not contain CR or LF"))
    else .ok s
  | _ => .error (bad (text s!"subject is required, one line, at most {maxSubjectChars} chars"))

/-- `any(len(t.encode("utf-8")) > MAX_TAG_BYTES for t in tags)`. -/
def anyLongTag : List Text → Except ApiError Bool
  | [] => .ok false
  | tag :: tags => do
    if maxTagBytes < (← byteLength tag) then return true
    anyLongTag tags

/-- The tags. -/
def parseTags (value : Option Json) : Except ApiError (List Text) := do
  let tags ←
    match value with
    | none | some .null => pure []
    | some (.list xs) =>
      match Json.strings? xs with
      | some tags => pure tags
      | none => throw (bad (text "tags must be an array of strings"))
    | some _ => throw (bad (text "tags must be an array of strings"))
  if maxTags < tags.length then
    throw (bad (text s!"tags carries more than {maxTags} entries"))
  if ← anyLongTag tags then
    throw (bad (text s!"tags entries are at most {maxTagBytes} bytes"))
  return tags

/-- `dryRun`. -/
def parseDryRun : Option Json → Except ApiError Bool
  | none => .ok false
  | some (.bool b) => .ok b
  | some _ => .error (bad (text "dryRun must be a boolean"))

/-- The keys that no field has, in the order of `sorted`. -/
def unknownFields (entries : List (Text × Json)) : List Text :=
  ((entries.map Prod.fst).filter fun key => !fields.contains key).mergeSort
    fun key key' => decide (key ≤ key')

/-- `_parse_send`. -/
def parseSend (repr : Text → Text) : Json → Except ApiError MailSend
  | .dict body => do
    if let key :: _ := unknownFields body then
      throw (bad (text "unknown field " ++ repr key ++ text " in request body"))
    let get (name : String) := Json.get? body (text name)
    let key ← boundedStr (get "idempotencyKey") "idempotencyKey" maxKeyBytes true
    let fromAddr ← parseFrom (get "from")
    let to_ ← addresses (get "to") "to" none
    if to_.isEmpty then
      throw (bad (text "to requires at least one recipient"))
    let cc ← addresses (get "cc") "cc" none
    let bcc ← addresses (get "bcc") "bcc" none
    let replyTo ← addresses (get "replyTo") "replyTo" (some maxReplyTo)
    if maxRecipients < to_.length + cc.length + bcc.length then
      throw (bad (text s!"to+cc+bcc exceeds {maxRecipients} addresses"))
    let subject ← parseSubject (get "subject")
    let body_ ← boundedStr (get "text") "text" maxTextBytes true
    let html ← boundedStr (get "html") "html" maxHtmlBytes false
    let threadKey ← boundedStr (get "threadKey") "threadKey" maxThreadKeyBytes false
    let tags ← parseTags (get "tags")
    let dryRun ← parseDryRun (get "dryRun")
    return { idempotencyKey := key, fromAddr, to_, cc, bcc, replyTo, subject, text := body_, html,
             threadKey, tags, dryRun }
  | _ => .error (bad (text "request body must be an object"))

end Jetty.Mail
