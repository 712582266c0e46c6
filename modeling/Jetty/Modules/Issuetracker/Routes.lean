import Jetty.Core.Python.Rounding
import Jetty.Modules.Issuetracker.Modify
import Jetty.Modules.Issuetracker.Ordering

/-!
# The routes of issues

What the surface reads from a request about issues, and the bodies it renders. The driver never
writes `blocking`, so it is left out.
-/

namespace Jetty.Issuetracker

open Python

/-! ### Bodies -/

/-- The values of the parameter `view`. -/
inductive View
  | basic
  | full
deriving DecidableEq

section Rendering

variable (isoformat : ℤ → Text)

/-- `_rfc3339`; `isoformat` is the text of an instant that is given in microseconds. -/
def rfc3339 (t : ℚ) : Text := isoformat (microseconds t)

def FieldValue.json : FieldValue → Json
  | .str s => .str s
  | .int n => .int n

/-- `str(value)`. -/
def FieldValue.shown : FieldValue → Text
  | .str s => s
  | .int n => text (toString n)

/-- The value counts as true. -/
def FieldValue.truthy : FieldValue → Bool
  | .str s => s ≠ []
  | .int n => n ≠ 0

/-- `_user_json`. -/
def userJson (email : Json) : Json := .dict [(text "emailAddress", email)]

/-- An entry that is there under a condition. -/
def entryIf (present : Bool) (name : String) (value : Json) : List (Text × Json) :=
  if present then [(text name, value)] else []

/-- `_comment_json`. -/
def commentJson (comment : Comment) : List (Text × Json) :=
  [(text "issueId", .str (text (toString comment.issueId))),
    (text "commentNumber", .int comment.number),
    (text "comment", .str comment.text)] ++
    entryIf (comment.author ≠ []) "author" (userJson (.str comment.author))

/-- The `issueState` of `_issue_json`. -/
def stateJson (issue : Issue) : List (Text × Json) :=
  [(text "componentId", .str (text (toString issue.componentId))),
    (text "type", issue.type.json),
    (text "status", issue.status.json),
    (text "priority", issue.priority.json),
    (text "severity", issue.severity.json),
    (text "title", issue.title.json),
    (text "reporter", userJson (.str issue.reporter))] ++
    entryIf issue.assignee.truthy "assignee" (userJson issue.assignee.json) ++
    entryIf issue.verifier.truthy "verifier" (userJson issue.verifier.json) ++
    entryIf (issue.ccs ≠ []) "ccs" (.list (issue.ccs.map fun u => userJson u.json)) ++
    entryIf (issue.hotlistIds ≠ []) "hotlistIds"
      (.list (issue.hotlistIds.map fun h => .str h.shown)) ++
    entryIf (issue.blockedBy ≠ []) "blockedByIssueIds"
      (.list (issue.blockedBy.map fun i => .str i.shown))

/-- `_issue_json`. -/
def issueJson (issue : Issue) (view : View) : List (Text × Json) :=
  [(text "issueId", .str (text (toString issue.issueId))),
    (text "issueState", .dict (stateJson issue)),
    (text "createdTime", .str (rfc3339 isoformat issue.created)),
    (text "modifiedTime", .str (rfc3339 isoformat issue.modified))] ++
    entryIf (view = .full) "description"
      (.dict (commentJson ⟨issue.issueId, 1, issue.description, []⟩))

end Rendering

/-! ### Requests -/

section Parsing

variable (repr : Text → Text)

/-- `_parse_view`. -/
def parseView (view : Option Text) : Outcome View :=
  match view with
  | none => .ok .basic
  | some s =>
    if s ∈ [[], text "ISSUE_VIEW_UNSPECIFIED", text "BASIC"] then .ok .basic
    else if s = text "FULL" then .ok .full
    else invalid (text "view: unsupported " ++ repr s)

/-- `_json_body` of a body that is JSON. -/
def jsonBody (allowed : List Text) (body : Json) : Outcome (List (Text × Json)) :=
  match body with
  | .dict entries =>
    let unknown := (entries.map Prod.fst).filter (· ∉ allowed)
    match unknown.mergeSort fun a b => decide (a ≤ b) with
    | [] => .ok entries
    | name :: _ => invalid (text "unknown field " ++ repr name ++ text " in request body")
  | _ => invalid (text "request body must be an object")

/-- An entry of a body that must be an object. -/
def entriesOf (body : List (Text × Json)) (name : String) (message : String) :
    Outcome (List (Text × Json)) :=
  match Json.get? body (text name) with
  | some (.dict entries) => .ok entries
  | _ => invalid (text message)

/-- The fields of `issueState` that an issue must come with. -/
def requiredFields : List Text :=
  [text "componentId", text "title", text "status", text "type", text "priority", text "severity"]

/-- An entry that is known to be there. -/
def field (state : List (Text × Json)) (name : String) : Outcome Json :=
  match Json.get? state (text name) with
  | some value => .ok value
  | none => .error .other

/-- The text of the description. -/
def parseDescription (issue : List (Text × Json)) : Outcome Text :=
  let refused : Outcome Text := invalid (text "issue.description must carry a comment string")
  match Json.get? issue (text "description") with
  | none => .ok []
  | some (.dict entries) =>
    match Json.get? entries (text "comment") with
    | some (.str s) => .ok s
    | _ => refused
  | some _ => refused

/-- `_parse_create`. -/
def parseCreate (body : List (Text × Json)) : Outcome IssueCreate := do
  if (Json.get? body (text "templateOptions")).isSome then
    invalid (text "templateOptions is not supported")
  let issue ← entriesOf body "issue" "issue is required"
  let state ← entriesOf issue "issueState" "issue.issueState is required"
  match requiredFields.find? fun name => (Json.get? state name).isNone with
  | some name => invalid (text "issue.issueState." ++ name ++ text " is required")
  | none => pure ()
  let title ← match Json.get? state (text "title") with
    | some (.str (c :: cs)) => pure (c :: cs)
    | _ => invalid (text "issue.issueState.title must be a non-empty string")
  let description ← parseDescription issue
  let assignee ← match Json.get? state (text "assignee") with
    | none => pure []
    | some value => parseUser value (text "issue.issueState.assignee")
  let componentId ← parseId64 (← field state "componentId") (text "issue.issueState.componentId")
  let status ← parseEnum (← field state "status") statuses (text "issue.issueState.status")
  let type ← parseEnum (← field state "type") types (text "issue.issueState.type")
  let priority ← parseEnum (← field state "priority") priorities (text "issue.issueState.priority")
  let severity ← parseEnum (← field state "severity") severities (text "issue.issueState.severity")
  return { componentId, title, status, type, priority, severity, description, assignee }

end Parsing

/-! ### Routes -/

/-- The requests that are answered with issues. -/
inductive IssueRequest
  | list (query orderBy : Option Text) (pageSize : Option ℤ) (pageToken view : Option Text)
  | batchGet (issueIds : List Text) (view : Option Text)
  | get (issueId : Text) (view : Option Text)
  | create (body : Json) (now : ℚ)
  | modify (issueId : Text) (body : Json) (commented now : ℚ)

/-- `_require` of an issue. -/
def require (iid : ℤ) (result : Option Issue) : Outcome Issue :=
  match result with
  | some issue => .ok issue
  | none => .error (.api .notFound (text "issue " ++ text (toString iid) ++ text " not found"))

namespace MockIssueTrackerDriver

variable (lib : Library) (S : MockIssueTrackerDriver)

/-- `batch_get_issues`. -/
def batchGetIssues (issueIds : List ℤ) : List Issue := issueIds.filterMap S.issues.get?

/-- `list_comments` before it is cut into pages. -/
def listComments (issueId : ℤ) : Option (List Comment) :=
  if issueId ∈ S.issues.keys then some ((S.comments.get? issueId).getD []) else none

/-- `list_issues` of the surface. -/
def listRoute (query orderBy : Option Text) (pageSize : Option ℤ) (pageToken view : Option Text) :
    Outcome (List Issue × View) :=
  if query.getD [] = [] then invalid (text "query is required")
  else do
    let view ← parseView lib.repr view
    let keys ← parseOrderBy lib orderBy
    let page ← parsePage pageSize pageToken
    match S.listIssues lib ⟨query.getD [], keys, page⟩ with
    | .ok (rows, _, _) => return (rows, view)
    | .error (.rejects message) => invalid message
    | .error .other => .error (.api .unavailable (text "issue tracker upstream unavailable"))

/-- The issues that a route renders, and the view it renders them in. -/
def route (request : IssueRequest) : MockIssueTrackerDriver × Outcome (List Issue × View) :=
  match request with
  | .list query orderBy pageSize pageToken view =>
    (S, S.listRoute lib query orderBy pageSize pageToken view)
  | .batchGet issueIds view => (S, do
      let view ← parseView lib.repr view
      let ids ← issueIds.mapM fun i => parseId64 (.str i) (text "issueIds")
      return (S.batchGetIssues ids, view))
  | .get issueId view => (S, do
      let view ← parseView lib.repr view
      let iid ← parseId64 (.str issueId) (text "issueId")
      let issue ← require iid (S.issues.get? iid)
      return ([issue], view))
  | .create body now =>
    match jsonBody lib.repr [text "issue", text "templateOptions"] body >>= parseCreate with
    | .error e => (S, .error e)
    | .ok req =>
      let (S, result) := S.createIssue req now
      (S, (drive result).map fun issue => ([issue], .full))
  | .modify issueId body commented now =>
    match parseId64 (.str issueId) (text "issueId"), jsonBody lib.repr [text "add", text "addMask",
      text "remove", text "removeMask", text "issueComment"] body with
    | .error e, _ => (S, .error e)
    | .ok _, .error e => (S, .error e)
    | .ok iid, .ok entries =>
      let (S, result) := modify lib.repr S iid entries commented now
      (S, do
        let issue ← require iid (← result)
        return ([issue], .full))

end MockIssueTrackerDriver

end Jetty.Issuetracker
