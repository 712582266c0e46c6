import Jetty.Core.Journal
import Jetty.Core.Python.Dict
import Jetty.Core.Python.Text
import Jetty.Core.Transition
import Mathlib.Algebra.Order.Ring.Rat

/-!
# The mock issue tracker

The whole state lives in one object. What a request names has its type by then; that a masked
field is one that can be set or edited is left to the driver. Instants are seconds since the epoch,
to the microsecond.
-/

namespace Jetty.Issuetracker

open Python Journal Transition

/-! ### Resources and requests -/

/-- What a field of an issue holds. -/
inductive FieldValue
  | str (s : Text)
  | int (n : ℤ)
deriving DecidableEq

structure Issue where
  issueId : ℤ
  componentId : ℤ
  title : FieldValue
  type : FieldValue := .str (text "BUG")
  status : FieldValue := .str (text "NEW")
  priority : FieldValue := .str (text "P2")
  severity : FieldValue := .str (text "S2")
  reporter : Text := []
  assignee : FieldValue := .str []
  verifier : FieldValue := .str []
  ccs : List FieldValue := []
  hotlistIds : List FieldValue := []
  blockedBy : List FieldValue := []
  created : ℚ := 0
  modified : ℚ := 0
  /-- The text of comment 1. -/
  description : Text := []
deriving DecidableEq

structure IssueCreate where
  componentId : ℤ
  title : Text
  status : Text
  type : Text
  priority : Text
  severity : Text
  description : Text := []
  assignee : Text := []

/-- The masked read-modify-write, already resolved. -/
structure IssueModify where
  sets : Dict Text FieldValue := .empty
  add : Dict Text (List FieldValue) := .empty
  remove : Dict Text (List FieldValue) := .empty
  comment : Option Text := none

structure Comment where
  issueId : ℤ
  /-- 1-based; 1 is the description. -/
  number : ℕ
  text : Text
  author : Text := []
deriving DecidableEq

structure FieldChange where
  field : Text
  old : Option FieldValue
  new : Option FieldValue
deriving DecidableEq

/-- An entry of the change history. -/
structure IssueUpdate where
  author : Text
  timestamp : ℚ
  changes : List FieldChange := []
  /-- 0 where no comment was recorded with the change. -/
  commentNumber : ℕ := 0
deriving DecidableEq

structure Relationship where
  targetIssueId : ℤ
  type : Text
deriving DecidableEq

structure HotlistEntry where
  hotlistId : ℤ
  issueId : ℤ
  position : ℕ := 0

/-- What the driver raises. -/
inductive DriverError
  /-- `DriverRejects`. -/
  | rejects (message : Text)
  /-- `KeyError`. -/
  | missing
deriving DecidableEq

/-! ### The fields that a modification may name -/

/-- The attributes behind `_SCALAR_FIELDS`. -/
inductive Scalar
  | status
  | priority
  | severity
  | title
  | type
  | assignee
  | verifier
deriving DecidableEq

/-- The attributes behind `_COLLECTION_FIELDS`. -/
inductive Collection
  | ccs
  | hotlistIds
  | blockedBy
deriving DecidableEq

/-- `_SCALAR_FIELDS`. -/
def scalarFields : List (Text × Scalar) :=
  [(text "status", .status), (text "priority", .priority), (text "severity", .severity),
    (text "title", .title), (text "type", .type), (text "assignee", .assignee),
    (text "verifier", .verifier)]

/-- `_COLLECTION_FIELDS`. -/
def collectionFields : List (Text × Collection) :=
  [(text "ccs", .ccs), (text "hotlistIds", .hotlistIds), (text "blockedByIssueIds", .blockedBy)]

namespace Issue

variable (issue : Issue)

/-- `getattr(issue, attr)`. -/
def scalar : Scalar → FieldValue
  | .status => issue.status
  | .priority => issue.priority
  | .severity => issue.severity
  | .title => issue.title
  | .type => issue.type
  | .assignee => issue.assignee
  | .verifier => issue.verifier

/-- `setattr(issue, attr, value)`. -/
def setScalar (attr : Scalar) (value : FieldValue) : Issue :=
  match attr with
  | .status => { issue with status := value }
  | .priority => { issue with priority := value }
  | .severity => { issue with severity := value }
  | .title => { issue with title := value }
  | .type => { issue with type := value }
  | .assignee => { issue with assignee := value }
  | .verifier => { issue with verifier := value }

def collection : Collection → List FieldValue
  | .ccs => issue.ccs
  | .hotlistIds => issue.hotlistIds
  | .blockedBy => issue.blockedBy

def setCollection (attr : Collection) (values : List FieldValue) : Issue :=
  match attr with
  | .ccs => { issue with ccs := values }
  | .hotlistIds => { issue with hotlistIds := values }
  | .blockedBy => { issue with blockedBy := values }

/-- `_touch`. -/
def touch (now : ℚ) : Issue := { issue with modified := max now (issue.modified + 1 / 1000000) }

end Issue

section Edits

variable (repr : Text → Text)

/-- One round of the loop over `req.sets`. -/
def editScalar (issue : Issue) (entry : Text × FieldValue) :
    Except DriverError (Edited Issue FieldChange) :=
  match scalarFields.lookup entry.1 with
  | none => .error (.rejects (text "addMask: cannot set field " ++ repr entry.1))
  | some attr =>
    let old := issue.scalar attr
    .ok (if old = entry.2 then (issue, [])
      else (issue.setScalar attr entry.2, [⟨entry.1, some old, some entry.2⟩]))

/-- One value that is added to a collection or removed from it. -/
def editValue (removing : Bool) (field : Text) (attr : Collection) (issue : Issue)
    (value : FieldValue) : Except DriverError (Edited Issue FieldChange) :=
  let current := issue.collection attr
  .ok (if removing ∧ value ∈ current then
      (issue.setCollection attr (current.erase value), [⟨field, some value, none⟩])
    else if ¬ removing ∧ value ∉ current then
      (issue.setCollection attr (current ++ [value]), [⟨field, none, some value⟩])
    else (issue, []))

/-- One round of the loop over `req.add` or `req.remove`. -/
def editCollection (removing : Bool) (issue : Issue) (entry : Text × List FieldValue) :
    Except DriverError (Edited Issue FieldChange) :=
  match collectionFields.lookup entry.1 with
  | none =>
    let mask := if removing then text "removeMask" else text "addMask"
    .error (.rejects (mask ++ text ": cannot edit collection " ++ repr entry.1))
  | some attr => .ok (editAll (editValue removing entry.1 attr) issue entry.2).1

/-- The three loops of `modify_issue`; the error ends them. -/
def editIssue (issue : Issue) (req : IssueModify) : Edited Issue FieldChange × Option DriverError :=
  match editAll (editScalar repr) issue req.sets.entries with
  | (done, some e) => (done, some e)
  | ((issue, set), none) =>
    match editAll (editCollection repr false) issue req.add.entries with
    | ((issue, added), some e) => ((issue, set ++ added), some e)
    | ((issue, added), none) =>
      let ((issue, removed), refusal) :=
        editAll (editCollection repr true) issue req.remove.entries
      ((issue, set ++ added ++ removed), refusal)

end Edits

/-! ### The state -/

/-- `MockIssueTrackerDriver`. -/
structure MockIssueTrackerDriver where
  identity : Text
  /-- The next identifier. -/
  counter : ℕ
  components : List ℤ
  issues : Dict ℤ Issue
  comments : Dict ℤ (List Comment)
  /-- Issue to history, oldest first. -/
  updates : Dict ℤ (List IssueUpdate)
  relationships : Dict ℤ (List Relationship)

namespace MockIssueTrackerDriver

/-- Nothing is there yet; identifiers start above `_ID_BASE`. -/
def blank (identity : Text) : MockIssueTrackerDriver where
  identity := identity
  counter := 1000 + 1
  components := []
  issues := .empty
  comments := .empty
  updates := .empty
  relationships := .empty

variable (S : MockIssueTrackerDriver)

/-- `_insert`. -/
def insert (req : IssueCreate) (reporter : Text) (now : ℚ) : MockIssueTrackerDriver × Issue :=
  let issueId : ℤ := S.counter
  let issue : Issue :=
    { issueId, componentId := req.componentId, title := .str req.title, type := .str req.type
      status := .str req.status, priority := .str req.priority, severity := .str req.severity
      reporter, assignee := .str req.assignee, created := now, modified := now
      description := req.description }
  ({ S with
      counter := S.counter + 1
      issues := S.issues.set issueId issue
      comments := S.comments.set issueId [⟨issueId, 1, req.description, reporter⟩]
      updates := S.updates.set issueId [] },
    issue)

def createIssue (req : IssueCreate) (now : ℚ) :
    MockIssueTrackerDriver × Except DriverError Issue :=
  if req.componentId ∈ S.components then
    let (S, issue) := S.insert req S.identity now
    (S, .ok issue)
  else
    (S, .error (.rejects (text "issueState.componentId: no such component " ++
      text (toString req.componentId))))

/-- Nothing is said about an issue that is not there. -/
def createComment (issueId : ℤ) (body : Text) (now : ℚ) :
    MockIssueTrackerDriver × Except DriverError (Option Comment) :=
  match S.issues.get? issueId with
  | none => (S, .ok none)
  | some issue =>
    match S.comments.get? issueId with
    | none => (S, .error .missing)
    | some rows =>
      let comment : Comment := ⟨issueId, rows.length + 1, body, S.identity⟩
      ({ S with
          comments := S.comments.set issueId (rows ++ [comment])
          issues := S.issues.set issueId (issue.touch now) },
        .ok (some comment))

/-- The end of `modify_issue`: `changes` have been made, and a comment may have been recorded. -/
def record (issueId : ℤ) (changes : List FieldChange) (commentNumber : ℕ) (now : ℚ) :
    MockIssueTrackerDriver × Except DriverError (Option Issue) :=
  match S.issues.get? issueId with
  | none => (S, .ok none)
  | some issue =>
    if changes ≠ [] ∨ commentNumber ≠ 0 then
      let issue := issue.touch now
      let S := { S with issues := S.issues.set issueId issue }
      match S.updates.get? issueId with
      | none => (S, .error .missing)
      | some history =>
        let update : IssueUpdate := ⟨S.identity, issue.modified, changes, commentNumber⟩
        ({ S with updates := S.updates.set issueId (history ++ [update]) }, .ok (some issue))
    else (S, .ok (some issue))

/-- The clock is read for the comment, at `commented`, and for the change, at `now`. -/
def modifyIssue (repr : Text → Text) (issueId : ℤ) (req : IssueModify) (commented now : ℚ) :
    MockIssueTrackerDriver × Except DriverError (Option Issue) :=
  match S.issues.get? issueId with
  | none => (S, .ok none)
  | some issue =>
    let ((issue, changes), refusal) := editIssue repr issue req
    let S := { S with issues := S.issues.set issueId issue }
    match refusal with
    | some e => (S, .error e)
    | none =>
      match req.comment with
      | none => S.record issueId changes 0 now
      | some body =>
        match S.createComment issueId body commented with
        | (S, .error e) => (S, .error e)
        | (S, .ok comment) => S.record issueId changes (comment.elim 0 Comment.number) now

def createRelationship (issueId : ℤ) (rel : Relationship) (now : ℚ) :
    MockIssueTrackerDriver × Except DriverError (Option Relationship) :=
  match S.issues.get? issueId with
  | none => (S, .ok none)
  | some issue =>
    if rel.targetIssueId ∉ S.issues.keys then
      (S, .error (.rejects (text "issueRelationship.targetIssueId: no such issue " ++
        text (toString rel.targetIssueId))))
    else
      let rows := (S.relationships.get? issueId).getD []
      if rel ∈ rows then
        (S, .error (.rejects (text "issueRelationship already exists")))
      else
        ({ S with
            relationships := S.relationships.set issueId (rows ++ [rel])
            issues := S.issues.set issueId (issue.touch now) },
          .ok (some rel))

def updateComment (issueId : ℤ) (number : ℤ) (body : Text) (now : ℚ) :
    MockIssueTrackerDriver × Option Comment :=
  match S.issues.get? issueId with
  | none => (S, none)
  | some issue =>
    let rows := (S.comments.get? issueId).getD []
    if 1 ≤ number ∧ number ≤ rows.length then
      let rows := rows.modify (number.toNat - 1) fun c => { c with text := body }
      let issue := if number = 1 then { issue with description := body } else issue
      ({ S with
          comments := S.comments.set issueId rows
          issues := S.issues.set issueId (issue.touch now) },
        rows[number.toNat - 1]?)
    else (S, none)

def createHotlistEntry (entry : HotlistEntry) (now : ℚ) :
    MockIssueTrackerDriver × Except DriverError HotlistEntry :=
  match S.issues.get? entry.issueId with
  | none =>
    (S, .error (.rejects (text "hotlistEntry.issueId: no such issue " ++
      text (toString entry.issueId))))
  | some issue =>
    if .int entry.hotlistId ∈ issue.hotlistIds then (S, .ok entry)
    else
      let issue := { issue with hotlistIds := issue.hotlistIds ++ [FieldValue.int entry.hotlistId] }
      ({ S with issues := S.issues.set entry.issueId (issue.touch now) }, .ok entry)

def deleteHotlistEntry (hotlistId issueId : ℤ) (now : ℚ) : MockIssueTrackerDriver × Bool :=
  match S.issues.get? issueId with
  | none => (S, false)
  | some issue =>
    if .int hotlistId ∈ issue.hotlistIds then
      let issue := { issue with hotlistIds := issue.hotlistIds.erase (FieldValue.int hotlistId) }
      ({ S with issues := S.issues.set issueId (issue.touch now) }, true)
    else (S, false)

/-- `list_issue_updates` before it is cut into pages: newest first. -/
def listIssueUpdates (issueId : ℤ) : Option (List IssueUpdate) :=
  if issueId ∈ S.issues.keys then some ((S.updates.get? issueId).getD []).reverse else none

end MockIssueTrackerDriver

/-! ### Runs

The driver is built from the seeds of the configuration and then serves requests one after the
other: none of its methods waits for anything. The loops of `__init__` are steps of the run. -/

/-- What the driver is asked to do; `now` is the clock. -/
inductive TrackerEvent
  | seedComponent (componentId : ℤ)
  | seedIssue (req : IssueCreate) (reporter : Text) (now : ℚ)
  | createIssue (req : IssueCreate) (now : ℚ)
  | modifyIssue (issueId : ℤ) (req : IssueModify) (commented now : ℚ)
  | createRelationship (issueId : ℤ) (rel : Relationship) (now : ℚ)
  | createComment (issueId : ℤ) (body : Text) (now : ℚ)
  | updateComment (issueId number : ℤ) (body : Text) (now : ℚ)
  | createHotlistEntry (entry : HotlistEntry) (now : ℚ)
  | deleteHotlistEntry (hotlistId issueId : ℤ) (now : ℚ)

namespace MockIssueTrackerDriver

variable (repr : Text → Text)

/-- The driver after a request, whether it is refused or not. -/
def serve (S : MockIssueTrackerDriver) : TrackerEvent → MockIssueTrackerDriver
  | .seedComponent componentId => { S with components := componentId :: S.components }
  | .seedIssue req reporter now =>
    if req.componentId ∈ S.components then (S.insert req reporter now).1 else S
  | .createIssue req now => (S.createIssue req now).1
  | .modifyIssue issueId req commented now => (S.modifyIssue repr issueId req commented now).1
  | .createRelationship issueId rel now => (S.createRelationship issueId rel now).1
  | .createComment issueId body now => (S.createComment issueId body now).1
  | .updateComment issueId number body now => (S.updateComment issueId number body now).1
  | .createHotlistEntry entry now => (S.createHotlistEntry entry now).1
  | .deleteHotlistEntry hotlistId issueId now => (S.deleteHotlistEntry hotlistId issueId now).1

/-- The steps of a driver. -/
def Serves : Transition.Rel MockIssueTrackerDriver TrackerEvent := fun S e T => T = S.serve repr e

/-- The driver after the given requests. -/
def serveAll (S : MockIssueTrackerDriver) (es : List TrackerEvent) : MockIssueTrackerDriver :=
  es.foldl (serve repr) S

/-- Serving events one after the other is a run. -/
theorem run_serveAll (S : MockIssueTrackerDriver) (es : List TrackerEvent) :
    Run (Serves repr) S es (S.serveAll repr es) := by
  induction es generalizing S with
  | nil => exact .nil
  | cons e es ih => exact .cons rfl (ih (S.serve repr e))

end MockIssueTrackerDriver

end Jetty.Issuetracker
