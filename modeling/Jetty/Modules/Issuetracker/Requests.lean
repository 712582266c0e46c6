import Jetty.Core.Python.JsonText
import Jetty.Modules.Issuetracker.Routes
import Jetty.Modules.Issuetracker.Stamps

/-!
# The routes that change the store

What the surface makes of every request that can change an issue: it reads the path, the query and
the body, drives the mock and renders what the driver returns. The driver is built from seeds that
the module has looked through before.
-/

namespace Jetty.Issuetracker

open Python Failure

/-! ### Reading a request -/

/-- `RELATIONSHIP_TYPES`. -/
def relationshipTypes : List Text := [text "CHILD", text "DEPENDENCY", text "LINKED"]

/-- A request that can change the store. What FastAPI refuses by itself is left out: a body is
JSON or not, and `commentNumber` is an integer. -/
inductive TrackerRequest
  | createIssue (body : Option Json) (now : ℚ)
  | modifyIssue (issueId : Text) (body : Option Json) (commented now : ℚ)
  | createRelationship (issueId : Text) (relationshipType : Option Text) (body : Option Json)
    (now : ℚ)
  | createComment (issueId : Text) (body : Option Json) (now : ℚ)
  | updateComment (issueId : Text) (commentNumber : ℤ) (body : Option Json) (now : ℚ)
  | createHotlistEntry (hotlistId : Text) (body : Option Json) (now : ℚ)
  | deleteHotlistEntry (hotlistId issueId : Text) (now : ℚ)

section Parsing

variable (repr : Text → Text)

/-- `_json_body`. -/
def readBody (allowed : List Text) (body : Option Json) : Outcome (List (Text × Json)) :=
  match body with
  | some value => jsonBody repr allowed value
  | none => invalid (text "request body is not JSON")

/-- The text of a comment. -/
def parseComment (body : List (Text × Json)) : Outcome Text :=
  match Json.get? body (text "comment") with
  | some (.str (c :: cs)) => .ok (c :: cs)
  | _ => invalid (text "comment must be a non-empty string")

/-- The position of an entry of a hotlist. -/
def parsePosition (body : List (Text × Json)) : Outcome ℕ :=
  let refused : Outcome ℕ :=
    invalid (text "hotlistEntry.position must be a non-negative integer")
  match Json.get? body (text "position") with
  | none => .ok 0
  | some (.int n) => if n < 0 then refused else .ok n.toNat
  | some _ => refused

/-- `_parse_id64` of an entry that need not be there. -/
def parseIdEntry (body : List (Text × Json)) (name fieldName : Text) : Outcome ℤ :=
  parseId64 ((Json.get? body name).getD .null) fieldName

/-- The driver call that a request comes to. -/
def TrackerRequest.call : TrackerRequest → Outcome TrackerEvent
  | .createIssue body now => do
    let body ← readBody repr [text "issue", text "templateOptions"] body
    let req ← parseCreate body
    return .createIssue req now
  | .modifyIssue issueId body commented now => do
    let iid ← parseId64 (.str issueId) (text "issueId")
    let body ← readBody repr [text "add", text "addMask", text "remove", text "removeMask",
      text "issueComment"] body
    let req ← parseModify repr body
    return .modifyIssue iid req commented now
  | .createRelationship issueId relationshipType body now => do
    let iid ← parseId64 (.str issueId) (text "issueId")
    let type ← parseEnum (relationshipType.elim .null .str) relationshipTypes
      (text "relationshipType")
    let body ← readBody repr [text "targetIssueId"] body
    let targetIssueId ← parseIdEntry body (text "targetIssueId") (text "targetIssueId")
    return .createRelationship iid ⟨targetIssueId, type⟩ now
  | .createComment issueId body now => do
    let iid ← parseId64 (.str issueId) (text "issueId")
    let body ← readBody repr [text "comment"] body
    let comment ← parseComment body
    return .createComment iid comment now
  | .updateComment issueId commentNumber body now => do
    let iid ← parseId64 (.str issueId) (text "issueId")
    let body ← readBody repr [text "comment"] body
    let comment ← parseComment body
    return .updateComment iid commentNumber comment now
  | .createHotlistEntry hotlistId body now => do
    let hid ← parseId64 (.str hotlistId) (text "hotlistId")
    let body ← readBody repr [text "issueId", text "position"] body
    let iid ← parseIdEntry body (text "issueId") (text "hotlistEntry.issueId")
    let position ← parsePosition body
    return .createHotlistEntry ⟨hid, iid, position⟩ now
  | .deleteHotlistEntry hotlistId issueId now => do
    let hid ← parseId64 (.str hotlistId) (text "hotlistId")
    let iid ← parseId64 (.str issueId) (text "issueId")
    return .deleteHotlistEntry hid iid now

end Parsing

/-! ### Answering it -/

/-- `_relationship_json`. -/
def relationshipJson (rel : Relationship) : List (Text × Json) :=
  [(text "targetIssueId", .str (text (toString rel.targetIssueId)))]

/-- `_hotlist_entry_json`. -/
def hotlistEntryJson (entry : HotlistEntry) : List (Text × Json) :=
  (text "issueId", .str (text (toString entry.issueId))) ::
    entryIf (entry.position ≠ 0) "position" (.int entry.position)

/-- `_require`. -/
def requireSome {α : Type} (what : Text) : Option α → Outcome α
  | some a => .ok a
  | none => .error (.api .notFound (what ++ text " not found"))

/-- An issue in a message. -/
def issueName (iid : ℤ) : Text := text "issue " ++ text (toString iid)

namespace MockIssueTrackerDriver

variable (isoformat : ℤ → Text) (repr : Text → Text) (S : MockIssueTrackerDriver)

/-- What the surface makes of a driver call, and the body of its answer. A seed is not a request. -/
def perform : TrackerEvent → MockIssueTrackerDriver × Outcome (List (Text × Json))
  | .seedComponent _ | .seedIssue _ _ _ => (S, .error .other)
  | .createIssue req now =>
    let (S, result) := S.createIssue req now
    (S, (drive result).map fun issue => issueJson isoformat issue .full)
  | .modifyIssue iid req commented now =>
    let (S, result) := S.modifyIssue repr iid req commented now
    (S, do return issueJson isoformat (← requireSome (issueName iid) (← drive result)) .full)
  | .createRelationship iid rel now =>
    let (S, result) := S.createRelationship iid rel now
    (S, do return relationshipJson (← requireSome (issueName iid) (← drive result)))
  | .createComment iid body now =>
    let (S, result) := S.createComment iid body now
    (S, do return commentJson (← requireSome (issueName iid) (← drive result)))
  | .updateComment iid number body now =>
    let (S, result) := S.updateComment iid number body now
    let what := text "comment " ++ text (toString number) ++ text " on " ++ issueName iid
    (S, (requireSome what result).map commentJson)
  | .createHotlistEntry entry now =>
    let (S, result) := S.createHotlistEntry entry now
    (S, (drive result).map hotlistEntryJson)
  | .deleteHotlistEntry hid iid now =>
    let (S, deleted) := S.deleteHotlistEntry hid iid now
    let missing := issueName iid ++ text " is not on hotlist " ++ text (toString hid)
    (S, if deleted then .ok [] else .error (.api .notFound missing))

/-- A request, from its text to the body of the answer. -/
def answer (request : TrackerRequest) : MockIssueTrackerDriver × Outcome (List (Text × Json)) :=
  match request.call repr with
  | .error e => (S, .error e)
  | .ok e => S.perform isoformat repr e

end MockIssueTrackerDriver

/-! ### The response -/

/-- What leaves the route. -/
inductive Reply
  | sent (http : ℕ) (body : List ℕ)
  /-- The exception of an error that cannot be rendered: it leaves the route. -/
  | escaped
deriving DecidableEq

/-- `_STATUS_HTTP`. -/
def Status.http : Status → ℕ
  | .invalidArgument => 400
  | .notFound => 404
  | .unavailable => 503

/-- The name of a status. -/
def Status.name : Status → Text
  | .invalidArgument => text "INVALID_ARGUMENT"
  | .notFound => text "NOT_FOUND"
  | .unavailable => text "UNAVAILABLE"

section Rendering

variable (F : Json.Floats)

/-- `JSONResponse.render`; nothing where it raises. No body holds a floating-point number, so that
`allow_nan=False` makes no difference. -/
def render (body : List (Text × Json)) : Option (List ℕ) :=
  Text.encode (Json.dumps F Json.responseLayout (.dict body))

/-- The content of `TrackerApiError.response`. -/
def errorJson (http : ℕ) (message status : Text) : List (Text × Json) :=
  [(text "error", .dict [(text "code", .int http), (text "message", .str message),
    (text "status", .str status)])]

/-- `TrackerApiError.response`. -/
def errorReply (http : ℕ) (message status : Text) : Reply :=
  match render F (errorJson http message status) with
  | some bytes => .sent http bytes
  | none => .escaped

/-- What `_TrackerRoute` makes of an exception. -/
def Raised.reply : Raised → Reply
  | .api status message => errorReply F status.http message status.name
  | .other => errorReply F 500 (text "internal error") (text "INTERNAL")

/-- What `_TrackerRoute` makes of the body that a handler returns: it is rendered inside of the
wrapped handler, and what cannot be rendered is an unexpected exception. -/
def reply : Outcome (List (Text × Json)) → Reply
  | .ok body =>
    match render F body with
    | some bytes => .sent 200 bytes
    | none => Raised.other.reply F
  | .error e => e.reply F

end Rendering

/-- How the standard library writes instants, strings in messages and floating-point numbers. No
surrogate is among what it writes. -/
structure Formats where
  /-- The text of an instant that is given in microseconds. -/
  isoformat : ℤ → Text
  repr : Text → Text
  floats : Json.Floats
  plain_isoformat : ∀ t, (isoformat t).Plain
  plain_repr : ∀ s, (repr s).Plain
  plain_floats : ∀ x, (floats.text x).Plain

/-- A request, from its text to the response. -/
def MockIssueTrackerDriver.respond (lib : Formats) (S : MockIssueTrackerDriver)
    (request : TrackerRequest) : MockIssueTrackerDriver × Reply :=
  let (S, outcome) := S.answer lib.isoformat lib.repr request
  (S, reply lib.floats outcome)

/-! ### Boot -/

/-- A `SeedIssue`, with the reading of the clock at which it is inserted. -/
structure SeedIssue where
  componentId : ℤ
  title : Text
  status : Text := text "NEW"
  type : Text := text "BUG"
  priority : Text := text "P2"
  severity : Text := text "S2"
  reporter : Text := []
  assignee : Text := []
  description : Text := []
  now : ℚ := 0

/-- `TrackerSeed`. -/
structure TrackerSeed where
  components : List ℤ := []
  issues : List SeedIssue := []

namespace SeedIssue

variable (seed : SeedIssue)

/-- The values that `IssueTrackerModule` checks, in its order. -/
def vocabulary : List (Text × List Text × Text) :=
  [(seed.status, statuses, text "status"), (seed.type, types, text "type"),
    (seed.priority, priorities, text "priority"), (seed.severity, severities, text "severity")]

/-- One round of the module's loop over the seeds. -/
def check (repr : Text → Text) : Except Text Unit :=
  seed.vocabulary.forM fun (value, allowed, key) =>
    if value ∈ allowed then .ok ()
    else .error (text "issuetracker.seed issue " ++ repr seed.title ++ text ": invalid " ++ key ++
      text " " ++ repr value)

/-- What the driver makes of a seed. -/
def create : IssueCreate :=
  ⟨seed.componentId, seed.title, seed.status, seed.type, seed.priority, seed.severity,
    seed.description, seed.assignee⟩

/-- The driver call for a seed. -/
def event : TrackerEvent := .seedIssue seed.create seed.reporter seed.now

/-- One round of the driver's loop over the seeds. -/
def plant (repr : Text → Text) (S : MockIssueTrackerDriver) : Except Text MockIssueTrackerDriver :=
  if seed.componentId ∈ S.components then .ok (S.serve repr seed.event)
  else
    .error (text "issuetracker.seed issue names unknown component " ++
      text (toString seed.componentId))

end SeedIssue

/-- `IssueTrackerModule.__init__`, from the settings on. -/
def TrackerSeed.boot (repr : Text → Text) (identity : Text) (seed : TrackerSeed) :
    Except Text MockIssueTrackerDriver := do
  seed.issues.forM fun issue => issue.check repr
  let S := (MockIssueTrackerDriver.blank identity).serveAll repr
    (seed.components.map TrackerEvent.seedComponent)
  seed.issues.foldlM (fun S issue => issue.plant repr S) S

end Jetty.Issuetracker
