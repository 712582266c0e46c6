import Jetty.Core.Python.Dict
import Jetty.Core.Python.Segments
import Jetty.Core.Python.Values
import Mathlib.Algebra.Order.Ring.Rat
import Mathlib.Data.List.Infix

/-!
# The mock chat driver

The whole state lives in one object. Requests come from a surface that does not check every type,
so a thread, a key, a quoted name and an upload's reference are any value of JSON. Instants are
seconds since the epoch, to the microsecond.
-/

namespace Jetty.Chat

open Python

/-! ### Requests and resources -/

/-- Pagination as the emulated API sees it. -/
structure Page where
  size : ℤ := 25
  token : Json := .str []

/-- The constraints of a listing. -/
structure MessageQuery where
  page : Page := {}
  after : ℚ := 0
  before : ℚ := 0
  thread : Text := []
  descending : Bool := false

structure MessageSearch where
  filter : Text
  page : Page := {}
  descending : Bool := false

structure Space where
  name : Text
  displayName : Json := .str []
  spaceType : Json := .str (text "SPACE")

structure SpaceCreate where
  displayName : Json := .str []
  spaceType : Json := .str (text "SPACE")

structure Member where
  name : Text
  user : Text
  userType : Text := text "HUMAN"
deriving DecidableEq

structure Attachment where
  contentName : Text := []
  contentType : Text := []
deriving DecidableEq

/-- A quoted message, as carried on a message. -/
structure Quote where
  name : Text
  lastUpdateTime : ℚ := 0
  text : Text := []
deriving DecidableEq

/-- A quote as requested. -/
structure QuoteRequest where
  name : Json
  lastUpdateTime : ℚ

structure Message where
  name : Text
  sender : Text
  senderType : Text
  thread : Text
  text : Text
  createTime : ℚ
  /-- 0 for a message that was never edited. -/
  updateTime : ℚ := 0
  attachments : List Attachment := []
  quoted : Option Quote := none
deriving DecidableEq

/-- How a requested thread is honoured: `REPLY_NEW`, `REPLY_FALLBACK`, `REPLY_OR_FAIL`. -/
inductive Reply
  | new
  | fallback
  | orFail
deriving DecidableEq, Repr

structure MessageCreate where
  text : Text
  thread : Json := .str []
  threadKey : Json := .str []
  reply : Reply := .new
  quote : Option QuoteRequest := none
  attachments : List Json := []

structure Reaction where
  name : Text
  user : Text
  emoji : Text
deriving DecidableEq

structure Upload where
  filename : Text
  contentType : Text
  size : ℕ
  content : List ℕ
deriving DecidableEq

/-- What a driver raises. -/
inductive DriverError
  /-- `DriverRejects`. -/
  | rejects (message : Text)
  /-- `ThreadNotFound`. -/
  | threadNotFound (message : Text)
  /-- Any other exception. -/
  | other
deriving DecidableEq

/-- The driver's typed errors. -/
def DriverError.typed : DriverError → Bool
  | .rejects _ | .threadNotFound _ => true
  | .other => false

/-- `repr` of a value: what is not printable is escaped, so the result has an encoding. -/
structure Repr where
  toText : Json → Text
  encodes : ∀ v, (Text.encode (toText v)).isSome

instance : CoeFun Repr fun _ => Json → Text := ⟨Repr.toText⟩

/-- `str` of a value. -/
def Repr.str (repr : Repr) : Json → Text
  | .str s => s
  | v => repr v

section Pages

variable {α : Type*} (repr : Repr)

/-- The offset that a token stands for. -/
def pageOffset (token : Json) : Except DriverError ℕ :=
  let invalid := DriverError.rejects (text "invalid pageToken " ++ repr token)
  if token.truthy then
    match token.asInt with
    | .ok n => if n < 0 then .error invalid else .ok n.toNat
    | .error .value => .error invalid
    | .error .other => .error .other
  else .ok 0

/-- `_paginate`. -/
def paginate (rows : List α) (page : Page) : Except DriverError (List α × Text) :=
  (pageOffset repr page.token).map fun offset =>
    let size := if 0 < page.size then page.size.toNat else 25
    ((rows.drop offset).take size,
      if offset + size < rows.length then numeral (offset + size) else [])

end Pages

/-! ### The state -/

/-- `MockChatDriver`. -/
structure MockChatDriver where
  identity : Text
  /-- The next value of the counter that names everything. -/
  counter : ℕ
  spaces : Dict Text Space
  members : Dict Text (List Member)
  messages : Dict Text Message
  /-- Space to names of messages. -/
  order : Dict Text (List Text)
  threads : List Text
  /-- Space, key and thread of each binding. -/
  threadKeys : List (Text × Json × Text)
  /-- Thread to the name of its first message. -/
  threadRoots : Dict Text Text
  /-- Message to reactions. -/
  reactions : Dict Text (List Reaction)
  uploads : Dict Text Upload

def threadName (space : Text) (n : ℕ) : Text := space ++ text "/threads/t" ++ numeral n
def messageName (space : Text) (n : ℕ) : Text := space ++ text "/messages/m" ++ numeral n
def reactionName (message : Text) (n : ℕ) : Text := message ++ text "/reactions/r" ++ numeral n
def uploadName (space : Text) (n : ℕ) : Text := space ++ text "/attachments/up" ++ numeral n
def memberName (space : Text) (n : ℕ) : Text := space ++ text "/members/" ++ numeral n

/-- `_space_of`: the first two segments. -/
def spaceOf (resource : Text) : Text :=
  let (kind, rest) := Text.partition Text.slash resource
  if Text.slash ∈ resource then kind ++ Text.slash :: (Text.partition Text.slash rest).1 else kind

namespace MockChatDriver

/-- Nothing is there yet. -/
def blank (identity : Text) : MockChatDriver where
  identity := identity
  counter := 1
  spaces := .empty
  members := .empty
  messages := .empty
  order := .empty
  threads := []
  threadKeys := []
  threadRoots := .empty
  reactions := .empty
  uploads := .empty

variable (S : MockChatDriver)

/-- `_new_thread`. -/
def newThread (space : Text) : MockChatDriver × Text :=
  let thread := threadName space S.counter
  ({ S with counter := S.counter + 1, threads := thread :: S.threads }, thread)

/-- `_insert`; `now` is the clock, rounded to the microsecond. -/
def insert (space sender body thread : Text) (now : ℚ) (attachments : List Attachment := [])
    (quoted : Option Quote := none) : MockChatDriver × Message :=
  let (S, thread) := if thread = [] then S.newThread space else (S, thread)
  let message : Message :=
    { name := messageName space S.counter, sender, senderType := text "HUMAN", thread, text := body
      createTime := now, attachments, quoted }
  ({ S with
      counter := S.counter + 1
      messages := S.messages.set message.name message
      order := S.order.set space ((S.order.get? space).getD [] ++ [message.name])
      threadRoots := S.threadRoots.setdefault thread message.name },
    message)

/-! ### Seeds -/

/-- A row of `seed.spaces`. -/
structure SeedSpace where
  id : Text
  displayName : Text := []
  spaceType : Text := text "SPACE"
  members : List Text := []

/-- A row of `seed.messages`, and the clock when it is inserted. -/
structure SeedMessage where
  space : Text
  text : Text
  sender : Text := Python.text "users/seed"
  now : ℚ

/-- `spaces/{id}`. -/
def spaceName (id : Text) : Text := text "spaces/" ++ id

def seedSpace (row : SeedSpace) : MockChatDriver :=
  let name := spaceName row.id
  { S with
    spaces := S.spaces.set name ⟨name, .str row.displayName, .str row.spaceType⟩
    members := S.members.set name
      (row.members.mapIdx fun i user => { name := memberName name (i + 1), user }) }

/-- Nothing where `__init__` raises. -/
def seedMessage (row : SeedMessage) : Option MockChatDriver :=
  if spaceName row.space ∈ S.spaces.keys then
    some (S.insert (spaceName row.space) row.sender row.text [] row.now).1
  else none

/-! ### Spaces -/

def listSpaces (repr : Repr) (page : Page) : Except DriverError (List Space × Text) :=
  let names := S.spaces.keys.mergeSort fun a b => decide (a ≤ b)
  paginate repr (names.filterMap S.spaces.get?) page

def getSpace (space : Text) : Option Space := S.spaces.get? space

def createSpace (req : SpaceCreate) : MockChatDriver × Space :=
  let name := text "spaces/mock" ++ numeral S.counter
  let created : Space := ⟨name, req.displayName, req.spaceType⟩
  ({ S with
      counter := S.counter + 1
      spaces := S.spaces.set name created
      members := S.members.set name [{ name := memberName name 1, user := S.identity }] },
    created)

/-! ### Messages -/

/-- The rows of a listing before they are cut into pages; nothing where the order names a message
that is not there. -/
def listRows (space : Text) (query : MessageQuery) : Option (List Message) := do
  let rows ← ((S.order.get? space).getD []).mapM S.messages.get?
  let rows := if query.thread = [] then rows else rows.filter fun m => m.thread = query.thread
  let rows := if query.after = 0 then rows else rows.filter fun m => query.after < m.createTime
  let rows := if query.before = 0 then rows else rows.filter fun m => m.createTime < query.before
  return rows.mergeSort fun m m' =>
    if query.descending then m'.createTime ≤ m.createTime else m.createTime ≤ m'.createTime

def listMessages (repr : Repr) (space : Text) (query : MessageQuery) :
    Except DriverError (List Message × Text) :=
  match S.listRows space query with
  | none => .error .other
  | some rows => paginate repr rows query.page

def getMessage (name : Text) : Option Message := S.messages.get? name

/-- The thread that is bound to a key of the space. -/
def boundThread (space : Text) (key : Json) : Option Text :=
  (S.threadKeys.find? fun e => e.1 = space && e.2.1.same key).map fun e => e.2.2

/-- The requested thread, if it is known. -/
def knownThread : Json → Option Text
  | .str s => if s ∈ S.threads then some s else none
  | _ => none

/-- `_resolve_thread`. -/
def resolveThread (repr : Repr) (space : Text) (req : MessageCreate) :
    MockChatDriver × Except DriverError Text :=
  if req.reply = .new ∨ ¬ (req.thread.truthy ∨ req.threadKey.truthy) then (S, .ok [])
  else if req.thread.truthy then
    if req.thread.hashable then
      match S.knownThread req.thread with
      | some thread => (S, .ok thread)
      | none =>
        if req.reply = .orFail then (S, .error (.threadNotFound (repr.str req.thread)))
        else (S, .ok [])
    else (S, .error .other)
  else if req.threadKey.hashable then
    match S.boundThread space req.threadKey with
    | some thread => (S, .ok thread)
    | none =>
      if req.reply = .orFail then
        (S, .error (.threadNotFound (text "threadKey " ++ repr req.threadKey)))
      else
        let (S, thread) := S.newThread space
        ({ S with threadKeys := S.threadKeys ++ [(space, req.threadKey, thread)] }, .ok thread)
  else (S, .error .other)

/-- The value of a mapping whose keys are texts, for a key of any type. -/
def fetch {ν : Type*} (d : Dict Text ν) : Json → Except DriverError (Option ν)
  | .str s => .ok (d.get? s)
  | v => if v.hashable then .ok none else .error .other

/-- `_resolve_quote`. -/
def resolveQuote (repr : Repr) (req : QuoteRequest) (thread : Text) :
    Except DriverError Quote := do
  match ← fetch S.messages req.name with
  | none =>
    throw (.rejects (text "quotedMessageMetadata.name: no such message " ++ repr req.name))
  | some quoted =>
    let current := if quoted.updateTime = 0 then quoted.createTime else quoted.updateTime
    if 1 / 1000000 < |current - req.lastUpdateTime| then
      throw (.rejects (text ("quotedMessageMetadata.lastUpdateTime does not match the " ++
        "latest version of the quoted message")))
    let isRoot := S.threadRoots.get? quoted.thread = some quoted.name
    if quoted.thread ≠ thread ∧ ¬ isRoot then
      throw (.rejects (text ("quotedMessageMetadata.name: a message may only quote a " ++
        "message in the same thread or a root message")))
    return ⟨quoted.name, current, quoted.text⟩

/-- `_resolve_attachment`. -/
def resolveAttachment (repr : Repr) (ref : Json) : Except DriverError Attachment := do
  match ← fetch S.uploads ref with
  | none => throw (.rejects (text "attachmentDataRef: no such upload " ++ repr ref))
  | some upload => return ⟨upload.filename, upload.contentType⟩

/-- What a message to create refers to. -/
def resolveRefs (repr : Repr) (req : MessageCreate) (thread : Text) :
    Except DriverError (Option Quote × List Attachment) := do
  let quoted ← req.quote.mapM fun quote => S.resolveQuote repr quote thread
  let attachments ← req.attachments.mapM (S.resolveAttachment repr)
  return (quoted, attachments)

def createMessage (repr : Repr) (space : Text) (req : MessageCreate) (now : ℚ) :
    MockChatDriver × Except DriverError Message :=
  match S.resolveThread repr space req with
  | (S, .error e) => (S, .error e)
  | (S, .ok thread) =>
    match S.resolveRefs repr req thread with
    | .error e => (S, .error e)
    | .ok (quoted, attachments) =>
      let (S, message) := S.insert space S.identity req.text thread now attachments quoted
      (S, .ok message)

def patchMessage (name : Text) (body : Option Text) (now : ℚ) :
    MockChatDriver × Option Message :=
  match S.messages.get? name with
  | none => (S, none)
  | some message =>
    match body with
    | none => (S, some message)
    | some body =>
      let message := { message with text := body, updateTime := now }
      ({ S with messages := S.messages.set name message }, some message)

/-- The message is gone also where its space's order has no place for it. -/
def deleteMessage (name : Text) : MockChatDriver × Except DriverError Bool :=
  match S.messages.get? name with
  | none => (S, .ok false)
  | some _ =>
    let S := { S with messages := S.messages.erase name }
    match S.order.get? (spaceOf name) with
    | none => (S, .error .other)
    | some names =>
      if name ∈ names then
        ({ S with
            order := S.order.set (spaceOf name) (names.erase name)
            reactions := S.reactions.erase name },
          .ok true)
      else (S, .error .other)

/-- The rows of a search before they are cut into pages; `lower` is `str.lower`. -/
def searchRows (lower : Text → Text) (req : MessageSearch) : List Message :=
  (S.messages.values.filter fun m => decide (lower req.filter <:+: lower m.text)).mergeSort
    fun m m' => if req.descending then m'.createTime ≤ m.createTime
      else m.createTime ≤ m'.createTime

def searchMessages (repr : Repr) (lower : Text → Text) (req : MessageSearch) :
    Except DriverError (List Message × Text) :=
  paginate repr (S.searchRows lower req) req.page

/-! ### Reactions -/

def createReaction (message emoji : Text) : MockChatDriver × Reaction :=
  let reaction : Reaction := ⟨reactionName message S.counter, S.identity, emoji⟩
  ({ S with
      counter := S.counter + 1
      reactions := S.reactions.set message ((S.reactions.get? message).getD [] ++ [reaction]) },
    reaction)

def listReactions (repr : Repr) (message : Text) (page : Page) :
    Except DriverError (List Reaction × Text) :=
  paginate repr ((S.reactions.get? message).getD []) page

/-- `name.rsplit("/reactions/", 1)[0]`. -/
def reactedMessage (name : Text) : Text :=
  (name.inits.reverse.find? fun front => (front ++ text "/reactions/") <+: name).getD name

def deleteReaction (name : Text) : MockChatDriver × Bool :=
  let message := reactedMessage name
  let rows := (S.reactions.get? message).getD []
  if rows.any fun r => r.name = name then
    ({ S with reactions := S.reactions.set message (rows.eraseP fun r => r.name = name) }, true)
  else (S, false)

/-! ### Media -/

def uploadAttachment (repr : Repr) (space : Text) (upload : Upload) :
    MockChatDriver × Except DriverError Text :=
  if space ∈ S.spaces.keys then
    let ref := uploadName space S.counter
    ({ S with counter := S.counter + 1, uploads := S.uploads.set ref upload }, .ok ref)
  else (S, .error (.rejects (text "no such space " ++ repr (.str space))))

end MockChatDriver

end Jetty.Chat
