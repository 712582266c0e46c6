import Jetty.Modules.Mail.Message

/-!
# The spool driver

Delivery is a JSON file in a directory, named by a hash of the idempotency key. The keys that
were seen are kept in memory and rebuilt from the files when the process starts.
-/

namespace Jetty.Mail

open Python

/-- The settings that may change between two starts over one spool directory. -/
structure Settings where
  token : Text := []
  sender : Text := []
  domain : Text := []
  fail : Text := []

/-- What a file of the spool directory holds. -/
inductive Content
  | json (value : Json)
  /-- No text in UTF-8, or no JSON. -/
  | garbage
  /-- JSON that is nested too deeply for the parser. -/
  | nested
  /-- It cannot be opened. -/
  | unreadable

/-- A directory: its entries in the order in which `os.listdir` yields them. -/
abbrev Spool := List (Text × Content)

/-- `_seen`, the latest assignment first. -/
abbrev Seen := List (Json × Json)

/-- What the constructor of the driver lets through. -/
inductive BootError
  /-- `TypeError`: a row that is no dictionary. -/
  | subscript
  /-- `TypeError`: a key that is a list or a dictionary. -/
  | unhashable
  /-- `RecursionError`. -/
  | recursion
deriving DecidableEq, Repr

/-- The process of the module, and its spool directory. -/
structure World where
  settings : Settings
  seen : Seen
  files : Spool

section Boot

def hashable : Json → Bool
  | .list _ | .dict _ => false
  | _ => true

/-- `name.endswith(".json")`. -/
def isRowName (name : Text) : Bool := (text ".json").isSuffixOf name

/-- One file of the loop of `__init__`. -/
def recoverFile (seen : Seen) (name : Text) (content : Content) : Except BootError Seen :=
  if isRowName name then
    match content with
    | .unreadable | .garbage => .ok seen
    | .nested => .error .recursion
    | .json (.dict row) =>
      match Json.get? row (text "messageId"), Json.get? row (text "idempotencyKey") with
      | some messageId, some key =>
        if hashable key then .ok ((key, messageId) :: seen) else .error .unhashable
      | _, _ => .ok seen
    | .json _ => .error .subscript
  else .ok seen

/-- The loop of `__init__`. -/
def recoverFrom (seen : Seen) : Spool → Except BootError Seen
  | [] => .ok seen
  | (name, content) :: files =>
    match recoverFile seen name content with
    | .ok seen => recoverFrom seen files
    | .error e => .error e

/-- `_seen` after `__init__`. -/
def recover (files : Spool) : Except BootError Seen := recoverFrom [] files

end Boot

section Send

/-- What the driver raises. -/
inductive SendError
  | senderNotPermitted (detail : Text)
  | unroutable (recipients : List Text)
  | rateLimited (retryAfter : ℕ)
  /-- Any other exception. -/
  | failure

structure SendResult where
  messageId : Json
  deduped : Bool

/-- What happens to a file that is written. -/
inductive Disk
  | whole
  /-- It cannot be opened. -/
  | refused
  /-- Writing ends early. -/
  | torn
  /-- All of it is written, and closing the file raises. -/
  | late
deriving DecidableEq, Repr

def plus : CodePoint := 0x2B

/-- `_strip_plus`. -/
def stripPlus (address : Text) : Text :=
  let (local_, domain) := Text.partition at_ address
  (Text.partition plus local_).1 ++ at_ :: domain

/-- The sender may be used. -/
def Settings.Permits (settings : Settings) (msg : MailSend) : Prop :=
  settings.sender ≠ [] → stripPlus msg.fromAddr = stripPlus settings.sender

instance (settings : Settings) (msg : MailSend) : Decidable (settings.Permits msg) :=
  inferInstanceAs (Decidable (_ → _))

def MailSend.recipients (msg : MailSend) : List Text := msg.to_ ++ msg.cc ++ msg.bcc

/-- The recipients that cannot be delivered to. -/
def Settings.unroutable (settings : Settings) (msg : MailSend) : List Text :=
  if settings.domain = [] then []
  else msg.recipients.filter fun a => Text.afterLast at_ a ≠ settings.domain

/-- `_seen.get`. -/
def Seen.get (seen : Seen) (key : Text) : Option Json :=
  (seen.find? fun entry => match entry.1 with
    | .str key' => decide (key' = key)
    | _ => false).map Prod.snd

/-- An entry of a row that is left out when it is empty. -/
def optional (name : String) (empty : Bool) (value : Json) : List (Text × Json) :=
  if empty then [] else [(text name, value)]

/-- The row of a message. -/
def spoolRow (msg : MailSend) (messageId acceptedAt : Text) : Json :=
  let list (addresses : List Text) := Json.list (addresses.map .str)
  .dict <|
    [(text "idempotencyKey", .str msg.idempotencyKey), (text "from", .str msg.fromAddr),
      (text "to", list msg.to_)] ++
    optional "cc" msg.cc.isEmpty (list msg.cc) ++
    optional "bcc" msg.bcc.isEmpty (list msg.bcc) ++
    optional "replyTo" msg.replyTo.isEmpty (list msg.replyTo) ++
    [(text "subject", .str msg.subject), (text "text", .str msg.text)] ++
    optional "html" msg.html.isEmpty (.str msg.html) ++
    optional "threadKey" msg.threadKey.isEmpty (.str msg.threadKey) ++
    optional "tags" msg.tags.isEmpty (list msg.tags) ++
    [(text "messageId", .str messageId), (text "acceptedAt", .str acceptedAt)]

/-- The file is replaced, or a new one. -/
def Spool.write (files : Spool) (name : Text) (content : Content) : Spool :=
  (name, content) :: files.filter fun file => file.1 ≠ name

def rowName (digest : Text) : Text := digest ++ text ".json"

def messageIdOf (digest : Text) : Text := text "<" ++ digest ++ text "@jetty-mail>"

variable (digest : List ℕ → Text)

/-- The end of `send`: the message is spooled. -/
def spool (w : World) (msg : MailSend) (disk : Disk) (now : Text) :
    World × Except SendError SendResult :=
  match Text.encode msg.idempotencyKey with
  | none => (w, .error .failure)
  | some bytes =>
    let name := rowName (digest bytes)
    let messageId := messageIdOf (digest bytes)
    match disk with
    | .refused => (w, .error .failure)
    | .torn => ({ w with files := w.files.write name .garbage }, .error .failure)
    | .late =>
      ({ w with files := w.files.write name (.json (spoolRow msg messageId now)) },
        .error .failure)
    | .whole =>
      ({ w with
          seen := (.str msg.idempotencyKey, .str messageId) :: w.seen
          files := w.files.write name (.json (spoolRow msg messageId now)) },
        .ok ⟨.str messageId, false⟩)

/-- `SpoolMailDriver.send`. -/
def send (w : World) (msg : MailSend) (disk : Disk) (now : Text) :
    World × Except SendError SendResult :=
  if w.settings.fail = text "503" then (w, .error .failure)
  else if w.settings.fail = text "429" then (w, .error (.rateLimited 60))
  else if ¬ w.settings.Permits msg then
    (w, .error (.senderNotPermitted (text "only " ++ w.settings.sender ++ text " may send")))
  else
    let unroutable := w.settings.unroutable msg
    if w.settings.fail = text "422" ∨ unroutable ≠ [] then
      (w, .error (.unroutable (if unroutable = [] then msg.recipients.take 1 else unroutable)))
    else if msg.dryRun then (w, .ok ⟨.str (text "<dry-run@jetty-mail>"), false⟩)
    else
      match w.seen.get msg.idempotencyKey with
      | some .null | none => spool digest w msg disk now
      | some existing => (w, .ok ⟨existing, true⟩)

end Send

section Route

/-- A request to `/mail/v1/send`. -/
structure Request where
  authorization : Option Text
  /-- The length of the body. -/
  length : ℕ
  /-- The value of the body, if it is JSON. -/
  body : Option Json

inductive Answer
  | accepted (messageId : Json) (deduped : Bool)
  | error (e : ApiError)

/-- The HTTP status. -/
def Answer.status : Answer → ℕ
  | .accepted _ _ => 202
  | .error e => e.status

def maxBodyBytes : ℕ := 2 * 1024 * 1024

/-- `_require_token`. -/
def Settings.authorizes (settings : Settings) (authorization : Option Text) : Bool :=
  settings.token.isEmpty || authorization == some (text "Bearer " ++ settings.token)

/-- The error that the route makes of one of the driver. -/
def SendError.surface : SendError → ApiError
  | .senderNotPermitted detail => ⟨403, "sender_not_permitted", [("detail", .str detail)]⟩
  | .unroutable recipients =>
    ⟨422, "unroutable_recipients", [("recipients", .list (recipients.map .str))]⟩
  | .rateLimited retryAfter =>
    ⟨429, "rate_limited", [("retryAfterSeconds", .int retryAfter)]⟩
  | .failure => ⟨503, "upstream_unavailable", []⟩

variable (digest : List ℕ → Text) (repr : Text → Text)

/-- The message of a request that reaches the driver. -/
def Request.parse (settings : Settings) (req : Request) : Except ApiError MailSend :=
  if settings.authorizes req.authorization then
    if maxBodyBytes < req.length then .error (bad (text "request body too large"))
    else
      match req.body with
      | none => .error (bad (text "unparseable body"))
      | some body => parseSend repr body
  else .error ⟨401, "missing_or_bad_bearer_token", []⟩

/-- The route of `POST /mail/v1/send`. -/
def handle (w : World) (req : Request) (disk : Disk) (now : Text) : World × Answer :=
  match req.parse repr w.settings with
  | .error e => (w, .error e)
  | .ok msg =>
    match send digest w msg disk now with
    | (w, .ok result) => (w, .accepted result.messageId result.deduped)
    | (w, .error e) => (w, .error e.surface)

end Route

end Jetty.Mail
