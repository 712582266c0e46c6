import Jetty.Modules.Issuetracker.Description
import Jetty.Modules.Issuetracker.Requests
import Mathlib.Data.List.Pairwise

/-!
# Vetted requests

What the surface lets through to the driver is of the vocabulary, whatever the bodies are, and so is
what an issue holds. Whatever is done to an issue, its history stays in order.
-/

namespace Jetty.Issuetracker

open Python Failure Journal Transition

/-! ### Vocabulary -/

/-- A value that the wire brings in for a scalar. -/
def Scalar.Allows : Scalar → FieldValue → Prop
  | .status, .str s => s ∈ statuses
  | .priority, .str s => s ∈ priorities
  | .severity, .str s => s ∈ severities
  | .type, .str s => s ∈ types
  | .title, .str _ | .assignee, .str _ | .verifier, .str _ => True
  | _, .int _ => False

/-- A value that the wire brings in for a collection. -/
def Collection.Allows : Collection → FieldValue → Prop
  | .ccs, .str _ => True
  | .hotlistIds, .int n | .blockedBy, .int n => 0 < n
  | _, _ => False

/-- Every field holds a value of its vocabulary. -/
structure Issue.Vetted (issue : Issue) : Prop where
  scalars : ∀ attr, Scalar.Allows attr (issue.scalar attr)
  collections : ∀ attr, ∀ v ∈ issue.collection attr, Collection.Allows attr v

/-- What the masks can name has the property of its field. -/
structure Issue.Holds (P : Scalar → FieldValue → Prop) (C : Collection → FieldValue → Prop)
    (issue : Issue) : Prop where
  scalars : ∀ attr, P attr (issue.scalar attr)
  collections : ∀ attr, ∀ v ∈ issue.collection attr, C attr v

private theorem Issue.vetted_iff {issue : Issue} :
    issue.Vetted ↔ issue.Holds Scalar.Allows Collection.Allows :=
  ⟨fun h => ⟨h.scalars, h.collections⟩, fun h => ⟨h.scalars, h.collections⟩⟩

/-- An issue can be created with this. -/
structure IssueCreate.Vetted (req : IssueCreate) : Prop where
  status : req.status ∈ statuses
  type : req.type ∈ types
  priority : req.priority ∈ priorities
  severity : req.severity ∈ severities

/-- What is set and what is added is of the vocabulary. What is removed need not be. -/
structure IssueModify.Vetted (req : IssueModify) : Prop where
  known : KnownMasks req
  sets : ∀ name v, req.sets.get? name = some v →
    ∃ attr, scalarFields.lookup name = some attr ∧ Scalar.Allows attr v
  add : ∀ name vs, req.add.get? name = some vs →
    ∃ attr, collectionFields.lookup name = some attr ∧ ∀ v ∈ vs, Collection.Allows attr v

/-- What the surface and the boot let through to the driver. -/
def TrackerEvent.Vetted : TrackerEvent → Prop
  | .seedIssue req _ _ | .createIssue req _ => req.Vetted
  | .modifyIssue _ req _ _ => req.Vetted
  | .createRelationship _ rel _ => rel.type ∈ relationshipTypes
  | .createHotlistEntry entry _ => 0 < entry.hotlistId
  | _ => True

/-- The call comes from a request, not from a seed. -/
def TrackerEvent.requested : TrackerEvent → Bool
  | .seedComponent _ | .seedIssue _ _ _ => false
  | _ => true

/-! ### What is read is of the vocabulary -/

private theorem mem_of_parseEnum {value : Json} {allowed : List Text} {fieldName s : Text}
    (h : parseEnum value allowed fieldName = .ok s) : s ∈ allowed := by
  unfold parseEnum at h
  cases value with
  | str t =>
      dsimp only at h
      split at h
      · rename_i ht
        obtain rfl := Except.ok.inj h
        exact ht
      · cases h
  | _ => cases h

private theorem pos_of_parseId64 {value : Json} {fieldName : Text} {n : ℤ}
    (h : parseId64 value fieldName = .ok n) : 0 < n := by
  rcases parseId64_cases value fieldName with ⟨message, hbad⟩ | ⟨m, hgood, hpos⟩
  · rw [h] at hbad
    cases hbad
  · obtain rfl := Except.ok.inj (h.symm.trans hgood)
    omega

private theorem modifyScalars_allows {name : Text} {parse : Json → Outcome Text}
    (h : modifyScalars.lookup name = some parse) :
    ∃ attr, scalarFields.lookup name = some attr ∧
      ∀ value s, parse value = .ok s → Scalar.Allows attr (.str s) := by
  obtain ⟨front, back, hlist, -⟩ := List.lookup_eq_some_iff.mp h
  have hmem : (name, parse) ∈ modifyScalars := hlist ▸ by simp
  simp only [modifyScalars, List.mem_cons, Prod.mk.injEq, List.not_mem_nil, or_false] at hmem
  rcases hmem with ⟨rfl, rfl⟩ | ⟨rfl, rfl⟩ | ⟨rfl, rfl⟩ | ⟨rfl, rfl⟩ | ⟨rfl, rfl⟩ | ⟨rfl, rfl⟩ |
    ⟨rfl, rfl⟩
  · exact ⟨.status, by decide +kernel, fun v s => mem_of_parseEnum⟩
  · exact ⟨.priority, by decide +kernel, fun v s => mem_of_parseEnum⟩
  · exact ⟨.severity, by decide +kernel, fun v s => mem_of_parseEnum⟩
  · exact ⟨.type, by decide +kernel, fun v s => mem_of_parseEnum⟩
  · exact ⟨.title, by decide +kernel, fun v s _ => trivial⟩
  · exact ⟨.assignee, by decide +kernel, fun v s _ => trivial⟩
  · exact ⟨.verifier, by decide +kernel, fun v s _ => trivial⟩

private theorem modifyCollections_allows {name : Text} {parse : Json → Text → Outcome FieldValue}
    (h : modifyCollections.lookup name = some parse) :
    ∃ attr, collectionFields.lookup name = some attr ∧
      ∀ value context v, parse value context = .ok v → Collection.Allows attr v := by
  obtain ⟨front, back, hlist, -⟩ := List.lookup_eq_some_iff.mp h
  have hmem : (name, parse) ∈ modifyCollections := hlist ▸ by simp
  have hid (value : Json) (context : Text) (v : FieldValue)
      (hv : (parseId64 value context).map FieldValue.int = .ok v) : ∃ n, v = .int n ∧ 0 < n := by
    obtain ⟨n, hn, rfl⟩ := map_eq_ok.mp hv
    exact ⟨n, rfl, pos_of_parseId64 hn⟩
  simp only [modifyCollections, List.mem_cons, Prod.mk.injEq, List.not_mem_nil, or_false] at hmem
  rcases hmem with ⟨rfl, rfl⟩ | ⟨rfl, rfl⟩ | ⟨rfl, rfl⟩
  · refine ⟨.ccs, by decide +kernel, fun value context v hv => ?_⟩
    obtain ⟨s, -, rfl⟩ := map_eq_ok.mp hv
    trivial
  · refine ⟨.hotlistIds, by decide +kernel, fun value context v hv => ?_⟩
    obtain ⟨n, rfl, hpos⟩ := hid value context v hv
    exact hpos
  · refine ⟨.blockedBy, by decide +kernel, fun value context v hv => ?_⟩
    obtain ⟨n, rfl, hpos⟩ := hid value context v hv
    exact hpos

/-- The deltas are of the vocabulary. -/
structure Deltas.Vetted (found : Deltas) : Prop where
  sets : ∀ name v, found.sets.get? name = some v →
    ∃ attr, scalarFields.lookup name = some attr ∧ Scalar.Allows attr v
  collections : ∀ name vs, found.collections.get? name = some vs →
    ∃ attr, collectionFields.lookup name = some attr ∧ ∀ v ∈ vs, Collection.Allows attr v

private theorem Deltas.Vetted.next {repr : Text → Text} {entries : List (Text × Json)}
    {found found' : Deltas} {maskName stateName fieldName : Text} {scalarsAllowed : Bool}
    (h : found.Vetted)
    (hstep : maskedDelta repr entries maskName stateName scalarsAllowed found fieldName =
      .ok found') : found'.Vetted := by
  unfold maskedDelta at hstep
  cases hscalar : modifyScalars.lookup fieldName with
  | some parse =>
      obtain ⟨attr, hattr, hparse⟩ := modifyScalars_allows hscalar
      rw [hscalar] at hstep
      dsimp only at hstep
      split at hstep
      · cases hstep
      · split at hstep
        · cases hstep
        · rename_i value hvalue
          obtain ⟨s, hs, rfl⟩ := map_eq_ok.mp hstep
          refine ⟨fun name v hv => ?_, h.collections⟩
          by_cases heq : name = fieldName
          · subst heq
            rw [Dict.get?_set_self] at hv
            obtain rfl := Option.some.inj hv
            exact ⟨attr, hattr, hparse value s hs⟩
          · rw [Dict.get?_set_of_ne heq] at hv
            exact h.sets name v hv
  | none =>
      rw [hscalar] at hstep
      dsimp only at hstep
      cases hcollection : modifyCollections.lookup fieldName with
      | none =>
          rw [hcollection] at hstep
          cases hstep
      | some parse =>
          obtain ⟨attr, hattr, hparse⟩ := modifyCollections_allows hcollection
          rw [hcollection] at hstep
          dsimp only at hstep
          split at hstep
          · obtain ⟨rows, hrows, rfl⟩ := map_eq_ok.mp hstep
            refine ⟨h.sets, fun name vs hvs => ?_⟩
            by_cases heq : name = fieldName
            · subst heq
              rw [Dict.get?_set_self] at hvs
              obtain rfl := Option.some.inj hvs
              refine ⟨attr, hattr, fun v hv => ?_⟩
              obtain ⟨value, -, hvalue⟩ := (mem_of_mapM hrows).2 v hv
              exact hparse value _ v hvalue
            · rw [Dict.get?_set_of_ne heq] at hvs
              exact h.collections name vs hvs
          · cases hstep

private theorem vetted_of_maskedDeltas {repr : Text → Text} {state : Option Json} {mask : List Text}
    {maskName stateName : Text} {scalarsAllowed : Bool} {found : Deltas}
    (h : maskedDeltas repr state mask maskName stateName scalarsAllowed = .ok found) :
    found.Vetted := by
  obtain ⟨entries, -, h⟩ := bind_eq_ok.mp h
  have hnone : Deltas.Vetted {} := by
    constructor
    · intro name v hv
      cases hv
    · intro name vs hvs
      cases hvs
  exact @foldlM_invariant _ _ _ _ (fun _ found => found.Vetted) _ _ _ hnone
    (fun _ _ _ _ hdone hstep => hdone.next hstep) h

private theorem vetted_of_parseModify {repr : Text → Text} {body : List (Text × Json)}
    {req : IssueModify} (h : parseModify repr body = .ok req) : req.Vetted := by
  have hknown := knownMasks_of_parseModify h
  unfold parseModify at h
  obtain ⟨addMask, -, h⟩ := bind_eq_ok.mp h
  obtain ⟨removeMask, -, h⟩ := bind_eq_ok.mp h
  obtain ⟨added, hadded, h⟩ := bind_eq_ok.mp h
  obtain ⟨removed, -, h⟩ := bind_eq_ok.mp h
  obtain ⟨hsets, hadd⟩ := vetted_of_maskedDeltas hadded
  split at h
  · cases h
  · obtain ⟨comment, -, h⟩ := bind_eq_ok.mp h
    split at h
    · cases h
    · obtain rfl := Except.ok.inj h
      exact ⟨hknown, hsets, hadd⟩

/-- The end of `_parse_create`: the component and the enumerations. -/
def createFields (state : List (Text × Json)) (title description assignee : Text) :
    Outcome IssueCreate := do
  let componentId ← parseId64 (← field state "componentId") (text "issue.issueState.componentId")
  let status ← parseEnum (← field state "status") statuses (text "issue.issueState.status")
  let type ← parseEnum (← field state "type") types (text "issue.issueState.type")
  let priority ← parseEnum (← field state "priority") priorities (text "issue.issueState.priority")
  let severity ← parseEnum (← field state "severity") severities (text "issue.issueState.severity")
  return { componentId, title, status, type, priority, severity, description, assignee }

private theorem vetted_of_createFields {state : List (Text × Json)}
    {title description assignee : Text}
    {req : IssueCreate} (h : createFields state title description assignee = .ok req) :
    req.Vetted := by
  obtain ⟨_, _, h⟩ := bind_eq_ok.mp h
  obtain ⟨componentId, _, h⟩ := bind_eq_ok.mp h
  obtain ⟨_, _, h⟩ := bind_eq_ok.mp h
  obtain ⟨status, hstatus, h⟩ := bind_eq_ok.mp h
  obtain ⟨_, _, h⟩ := bind_eq_ok.mp h
  obtain ⟨type, htype, h⟩ := bind_eq_ok.mp h
  obtain ⟨_, _, h⟩ := bind_eq_ok.mp h
  obtain ⟨priority, hpriority, h⟩ := bind_eq_ok.mp h
  obtain ⟨_, _, h⟩ := bind_eq_ok.mp h
  obtain ⟨severity, hseverity, h⟩ := bind_eq_ok.mp h
  obtain rfl := Except.ok.inj h
  exact ⟨mem_of_parseEnum hstatus, mem_of_parseEnum htype, mem_of_parseEnum hpriority,
    mem_of_parseEnum hseverity⟩

private theorem vetted_of_parseCreate {body : List (Text × Json)} {req : IssueCreate}
    (h : parseCreate body = .ok req) : req.Vetted := by
  unfold parseCreate at h
  dsimp only at h
  split at h
  · obtain ⟨_, hrefused, _⟩ := bind_eq_ok.mp h
    cases hrefused
  · obtain ⟨issue, _, h⟩ := bind_eq_ok.mp h
    obtain ⟨state, _, h⟩ := bind_eq_ok.mp h
    split at h
    · obtain ⟨_, hrefused, _⟩ := bind_eq_ok.mp h
      cases hrefused
    · split at h
      · obtain ⟨title, _, h⟩ := bind_eq_ok.mp h
        obtain ⟨description, _, h⟩ := bind_eq_ok.mp h
        split at h
        · obtain ⟨assignee, _, h⟩ := bind_eq_ok.mp h
          exact vetted_of_createFields h
        · obtain ⟨assignee, _, h⟩ := bind_eq_ok.mp h
          exact vetted_of_createFields h
      · obtain ⟨_, hrefused, _⟩ := bind_eq_ok.mp h
        cases hrefused

/-- A request that is not refused has come to a call that is vetted. -/
theorem vetted_of_call {repr : Text → Text} {request : TrackerRequest} {e : TrackerEvent}
    (h : request.call repr = .ok e) : e.requested = true ∧ e.Vetted := by
  cases request with
  | createIssue body now =>
      obtain ⟨entries, _, h⟩ := bind_eq_ok.mp h
      obtain ⟨req, hreq, h⟩ := bind_eq_ok.mp h
      obtain rfl := Except.ok.inj h
      exact ⟨rfl, vetted_of_parseCreate hreq⟩
  | modifyIssue issueId body commented now =>
      obtain ⟨iid, _, h⟩ := bind_eq_ok.mp h
      obtain ⟨entries, _, h⟩ := bind_eq_ok.mp h
      obtain ⟨req, hreq, h⟩ := bind_eq_ok.mp h
      obtain rfl := Except.ok.inj h
      exact ⟨rfl, vetted_of_parseModify hreq⟩
  | createRelationship issueId relationshipType body now =>
      obtain ⟨iid, _, h⟩ := bind_eq_ok.mp h
      obtain ⟨type, htype, h⟩ := bind_eq_ok.mp h
      obtain ⟨entries, _, h⟩ := bind_eq_ok.mp h
      obtain ⟨target, _, h⟩ := bind_eq_ok.mp h
      obtain rfl := Except.ok.inj h
      exact ⟨rfl, mem_of_parseEnum htype⟩
  | createComment issueId body now | updateComment issueId number body now =>
      obtain ⟨iid, _, h⟩ := bind_eq_ok.mp h
      obtain ⟨entries, _, h⟩ := bind_eq_ok.mp h
      obtain ⟨comment, _, h⟩ := bind_eq_ok.mp h
      obtain rfl := Except.ok.inj h
      exact ⟨rfl, trivial⟩
  | createHotlistEntry hotlistId body now =>
      obtain ⟨hid, hhid, h⟩ := bind_eq_ok.mp h
      obtain ⟨entries, _, h⟩ := bind_eq_ok.mp h
      obtain ⟨iid, _, h⟩ := bind_eq_ok.mp h
      obtain ⟨position, _, h⟩ := bind_eq_ok.mp h
      obtain rfl := Except.ok.inj h
      exact ⟨rfl, pos_of_parseId64 hhid⟩
  | deleteHotlistEntry hotlistId issueId now =>
      obtain ⟨hid, _, h⟩ := bind_eq_ok.mp h
      obtain ⟨iid, _, h⟩ := bind_eq_ok.mp h
      obtain rfl := Except.ok.inj h
      exact ⟨rfl, trivial⟩

/-! ### What is raised -/

section Raising

variable {repr : Text → Text} {Q : Text → Prop} (hQ : Spoken repr Q)
include hQ

private theorem readBody_spares (allowed : List Text) (body : Option Json) :
    Spares (Raised.escapes Q) (readBody repr allowed body) := by
  unfold readBody jsonBody
  split
  · split
    · dsimp only
      split
      · exact spares_ok _
      · apply invalid_spares
        apply_rules [hQ.append, hQ.literal, hQ.quoted]
    · exact invalid_spares (hQ.literal _)
  · exact invalid_spares (hQ.literal _)

private theorem entriesOf_spares (body : List (Text × Json)) (name message : String) :
    Spares (Raised.escapes Q) (entriesOf body name message) := by
  unfold entriesOf
  split
  · exact spares_ok _
  · exact invalid_spares (hQ.literal _)

private theorem parseDescription_spares (issue : List (Text × Json)) :
    Spares (Raised.escapes Q) (parseDescription issue) := by
  unfold parseDescription
  dsimp only
  split
  · exact spares_ok _
  · split
    · exact spares_ok _
    · exact invalid_spares (hQ.literal _)
  · exact invalid_spares (hQ.literal _)

private theorem parseComment_spares (body : List (Text × Json)) :
    Spares (Raised.escapes Q) (parseComment body) := by
  unfold parseComment
  split
  · exact spares_ok _
  · exact invalid_spares (hQ.literal _)

private theorem parsePosition_spares (body : List (Text × Json)) :
    Spares (Raised.escapes Q) (parsePosition body) := by
  unfold parsePosition
  dsimp only
  split
  · exact spares_ok _
  · split
    · exact invalid_spares (hQ.literal _)
    · exact spares_ok _
  · exact invalid_spares (hQ.literal _)

omit hQ in
/-- The required fields have been looked for before. -/
theorem field_spares {state : List (Text × Json)}
    (h : requiredFields.find? (fun name => (Json.get? state name).isNone) = none) {name : String}
    (hname : text name ∈ requiredFields) : Spares (Raised.escapes Q) (field state name) := by
  have hthere := List.find?_eq_none.mp h _ hname
  unfold field
  cases hvalue : Json.get? state (text name) with
  | none =>
      rw [hvalue] at hthere
      exact absurd rfl hthere
  | some value => exact spares_ok _

private theorem createFields_spares {state : List (Text × Json)}
    (h : requiredFields.find? (fun name => (Json.get? state name).isNone) = none)
    (title description assignee : Text) :
    Spares (Raised.escapes Q) (createFields state title description assignee) := by
  unfold createFields
  refine (field_spares h (by decide +kernel)).bind fun v =>
    (parseId64_spares hQ v (hQ.literal _)).bind fun _ => ?_
  refine (field_spares h (by decide +kernel)).bind fun v =>
    (parseEnum_spares hQ v hQ.statuses (hQ.literal _)).bind fun _ => ?_
  refine (field_spares h (by decide +kernel)).bind fun v =>
    (parseEnum_spares hQ v hQ.types (hQ.literal _)).bind fun _ => ?_
  refine (field_spares h (by decide +kernel)).bind fun v =>
    (parseEnum_spares hQ v hQ.priorities (hQ.literal _)).bind fun _ => ?_
  refine (field_spares h (by decide +kernel)).bind fun v =>
    (parseEnum_spares hQ v hQ.severities (hQ.literal _)).bind fun _ => ?_
  exact spares_ok _

private theorem Spoken.requiredFields : ∀ name ∈ requiredFields, Q name := by
  simp only [Issuetracker.requiredFields, List.forall_mem_cons, List.not_mem_nil, false_imp_iff,
    implies_true, hQ.literal, and_self]

private theorem Spoken.relationshipTypes : ∀ name ∈ relationshipTypes, Q name := by
  simp only [Issuetracker.relationshipTypes, List.forall_mem_cons, List.not_mem_nil, false_imp_iff,
    implies_true, hQ.literal, and_self]

/-- Only `INVALID_ARGUMENT` is raised. -/
theorem parseCreate_spares (body : List (Text × Json)) :
    Spares (Raised.escapes Q) (parseCreate body) := by
  unfold parseCreate
  dsimp only
  split
  · exact spares_bind_iff.mpr ⟨invalid_spares (hQ.literal _), fun _ h => by cases h⟩
  · refine (entriesOf_spares hQ _ _ _).bind fun issue =>
      (entriesOf_spares hQ _ _ _).bind fun state => ?_
    split
    · rename_i name hmissing
      have hname : Q name :=
        hQ.requiredFields name (List.mem_of_find?_eq_some hmissing)
      refine spares_bind_iff.mpr ⟨?_, fun _ h => by cases h⟩
      apply invalid_spares
      apply_rules [hQ.append, hQ.literal]
    · rename_i hthere
      split
      · refine Spares.bind (spares_ok _) fun title =>
          (parseDescription_spares hQ _).bind fun description => ?_
        split
        · exact Spares.bind (spares_ok _) fun assignee => createFields_spares hQ hthere _ _ _
        · rename_i value _
          exact (parseUser_spares hQ value (hQ.literal _)).bind fun assignee =>
            createFields_spares hQ hthere _ _ _
      · exact spares_bind_iff.mpr ⟨invalid_spares (hQ.literal _), fun _ h => by cases h⟩

private theorem parseIdEntry_spares (body : List (Text × Json)) (name : Text) {fieldName : Text}
    (h : Q fieldName) : Spares (Raised.escapes Q) (parseIdEntry body name fieldName) :=
  parseId64_spares hQ _ h

/-- Whatever is wrong with a request that comes to no call is an invalid argument, with a message
that is put together from literals and from what `repr` writes. -/
theorem call_spares (request : TrackerRequest) :
    Spares (Raised.escapes Q) (request.call repr) := by
  have hid (issueId : Text) (name : String) :
      Spares (Raised.escapes Q) (parseId64 (.str issueId) (text name)) :=
    parseId64_spares hQ _ (hQ.literal name)
  have hentry (body : List (Text × Json)) (name : Text) (fieldName : String) :
      Spares (Raised.escapes Q) (parseIdEntry body name (text fieldName)) :=
    parseIdEntry_spares hQ body name (hQ.literal fieldName)
  cases request with
  | createIssue body now =>
      exact (readBody_spares hQ _ _).bind fun _ =>
        (parseCreate_spares hQ _).bind fun _ => spares_ok _
  | modifyIssue issueId body commented now =>
      exact (hid _ _).bind fun _ => (readBody_spares hQ _ _).bind fun _ =>
        (parseModify_spares hQ _).bind fun _ => spares_ok _
  | createRelationship issueId relationshipType body now =>
      exact (hid _ _).bind fun _ =>
        (parseEnum_spares hQ _ hQ.relationshipTypes (hQ.literal _)).bind fun _ =>
          (readBody_spares hQ _ _).bind fun _ => (hentry _ _ _).bind fun _ => spares_ok _
  | createComment issueId body now | updateComment issueId number body now =>
      exact (hid _ _).bind fun _ => (readBody_spares hQ _ _).bind fun _ =>
        (parseComment_spares hQ _).bind fun _ => spares_ok _
  | createHotlistEntry hotlistId body now =>
      exact (hid _ _).bind fun _ => (readBody_spares hQ _ _).bind fun _ =>
        (hentry _ _ _).bind fun _ => (parsePosition_spares hQ _).bind fun _ => spares_ok _
  | deleteHotlistEntry hotlistId issueId now =>
      exact (hid _ _).bind fun _ => (hid _ _).bind fun _ => spares_ok _

end Raising

/-! ### What a request keeps about its issue -/

section Steps

variable {repr : Text → Text} {identity : Text} {i : ℤ} {e : TrackerEvent} {f f' : Folder}

/-- The history of an issue is in order, says why each of its entries is there, and refers to
comments that are there. -/
structure Chronicle (f : Folder) : Prop where
  created : f.issue.created ≤ f.issue.modified
  increasing : (f.updates.map IssueUpdate.timestamp).Pairwise (· < ·)
  recorded : ∀ u ∈ f.updates, u.timestamp ≤ f.issue.modified
  reasons : ∀ u ∈ f.updates, u.changes ≠ [] ∨ u.commentNumber ≠ 0
  references : ((f.updates.map IssueUpdate.commentNumber).filter (· ≠ 0)).Pairwise (· < ·)
  present : ∀ u ∈ f.updates, u.commentNumber ≠ 1 ∧ u.commentNumber ≤ f.comments.length
  described : 0 < f.comments.length

/-- A new issue has no history yet. -/
theorem chronicle_born (i : ℤ) (req : IssueCreate) (reporter : Text) (now : ℚ) :
    Chronicle (.born i req reporter now) where
  created := le_rfl
  increasing := .nil
  recorded _ hu := absurd hu List.not_mem_nil
  reasons _ hu := absurd hu List.not_mem_nil
  references := .nil
  present _ hu := absurd hu List.not_mem_nil
  described := Nat.one_pos

/-- Nothing is recorded. -/
theorem Chronicle.later (h : Chronicle f) (hupdates : f'.updates = f.updates)
    (hcreated : f'.issue.created = f.issue.created)
    (hmodified : f.issue.modified ≤ f'.issue.modified)
    (hcomments : f.comments.length ≤ f'.comments.length) : Chronicle f' where
  created := hcreated ▸ h.created.trans hmodified
  increasing := hupdates ▸ h.increasing
  recorded u hu := (h.recorded u (hupdates ▸ hu)).trans hmodified
  reasons := hupdates ▸ h.reasons
  references := hupdates ▸ h.references
  present u hu := (h.present u (hupdates ▸ hu)).imp_right fun hle => hle.trans hcomments
  described := h.described.trans_le hcomments

/-- One more entry, with the time of the modification. -/
theorem Chronicle.record (h : Chronicle f) (author : Text) (changes : List FieldChange) {n : ℕ}
    (now : ℚ) (hreason : changes ≠ [] ∨ n ≠ 0) (hone : n ≠ 1) (hle : n ≤ f.comments.length)
    (hnew : n ≠ 0 → ∀ u ∈ f.updates, u.commentNumber < n) :
    Chronicle (f.record author changes n now) where
  created := h.created.trans (lt_touch _ _).le
  increasing := by
    rw [Folder.record, List.map_append, List.pairwise_append]
    refine ⟨h.increasing, List.pairwise_singleton _ _, fun s hs t ht => ?_⟩
    obtain ⟨u, hu, rfl⟩ := List.mem_map.mp hs
    rw [List.mem_singleton.mp ht]
    exact (h.recorded u hu).trans_lt (lt_touch _ _)
  recorded := by
    rw [Folder.record, List.forall_mem_append]
    exact ⟨fun u hu => (h.recorded u hu).trans (lt_touch _ _).le,
      List.forall_mem_singleton.mpr le_rfl⟩
  reasons := List.forall_mem_append.mpr ⟨h.reasons, List.forall_mem_singleton.mpr hreason⟩
  references := by
    rw [Folder.record, List.map_append, List.filter_append, List.pairwise_append]
    refine ⟨h.references, (List.pairwise_singleton _ _).filter _, fun m hm k hk => ?_⟩
    obtain ⟨u, hu, rfl⟩ := List.mem_map.mp (List.mem_filter.mp hm).1
    obtain ⟨hk, hne⟩ := List.mem_filter.mp hk
    obtain rfl := List.mem_singleton.mp hk
    exact hnew (of_decide_eq_true hne) u hu
  present := List.forall_mem_append.mpr ⟨h.present, List.forall_mem_singleton.mpr ⟨hone, hle⟩⟩
  described := h.described

private theorem Chronicle.edit (h : Chronicle f) {req : IssueModify} {issue : Issue}
    {changes : List FieldChange} {refusal : Option DriverError}
    (hedit : editIssue repr f.issue req = ((issue, changes), refusal)) :
    Chronicle { f with issue } := by
  have hrest := sameRest_editIssue repr f.issue req
  rw [hedit] at hrest
  exact h.later rfl hrest.created hrest.modified.ge le_rfl

/-- Every act on a folder continues its chronicle. -/
theorem Chronicle.act (h : Chronicle f) (hact : Act repr identity i e f f') : Chronicle f' := by
  obtain ⟨hle, hcreated⟩ := act_times hact
  cases hact with
  | idle => exact h
  | @modified req commented now _ _ hmodified =>
      cases hmodified with
      | refused hedit | quiet hedit _ => exact h.edit hedit
      | recorded hedit _ hchanges =>
          exact (h.edit hedit).record _ _ _ (.inl hchanges) Nat.zero_ne_one (Nat.zero_le _)
            fun hne => absurd rfl hne
      | @explained issue changes body hedit _ =>
          have hpos := h.described
          have hcommented : Chronicle (Folder.comment { f with issue } i body identity commented) :=
            (h.edit hedit).later rfl rfl (lt_touch _ _).le (by
              rw [Folder.comment, List.length_append]
              exact Nat.le_add_right _ _)
          refine hcommented.record identity changes _ (.inr (Nat.succ_ne_zero _)) (by omega) ?_
            fun _ u hu => Nat.lt_succ_of_le (h.present u hu).2
          rw [Folder.comment, List.length_append, List.length_singleton]
  | related => exact h.later rfl hcreated hle le_rfl
  | commented =>
      refine h.later rfl hcreated hle ?_
      rw [Folder.comment, List.length_append]
      exact Nat.le_add_right _ _
  | rewritten _ _ =>
      refine h.later rfl hcreated hle ?_
      rw [Folder.rewrite, List.length_modify]
  | listed _ _ | unlisted _ => exact h.later rfl hcreated hle le_rfl

/-- A new issue is vetted if its request is. -/
theorem vetted_born {req : IssueCreate} (h : req.Vetted) (i : ℤ) (reporter : Text) (now : ℚ) :
    (Folder.born i req reporter now).issue.Vetted where
  scalars attr := by
    cases attr with
    | status => exact h.status
    | priority => exact h.priority
    | severity => exact h.severity
    | type => exact h.type
    | title | assignee | verifier => trivial
  collections attr v hv := by
    cases attr <;> exact absurd hv List.not_mem_nil

section Holds

variable {P : Scalar → FieldValue → Prop} {C : Collection → FieldValue → Prop} {issue : Issue}

private theorem Issue.Holds.setScalar (h : issue.Holds P C) {attr : Scalar} {value : FieldValue}
    (hvalue : P attr value) : (issue.setScalar attr value).Holds P C where
  scalars a := by
    rw [scalar_setScalar]
    split
    · rename_i heq
      subst heq
      exact hvalue
    · exact h.scalars a
  collections c := by
    rw [collection_setScalar]
    exact h.collections c

private theorem Issue.Holds.setCollection (h : issue.Holds P C) (attr : Collection)
    {values : List FieldValue} (hvalues : ∀ v ∈ values, C attr v) :
    (issue.setCollection attr values).Holds P C where
  scalars a := by
    rw [scalar_setCollection]
    exact h.scalars a
  collections c := by
    rw [collection_setCollection]
    split
    · rename_i heq
      subst heq
      exact hvalues
    · exact h.collections c

/-- A touch changes no attribute. -/
theorem Issue.Holds.touch (h : issue.Holds P C) (now : ℚ) : (issue.touch now).Holds P C where
  scalars attr := by
    have hattr := h.scalars attr
    cases attr <;> exact hattr
  collections attr := by
    have hattr := h.collections attr
    cases attr <;> exact hattr

/-- A new description changes no other attribute. -/
theorem Issue.Holds.describe (h : issue.Holds P C) (description : Text) :
    Issue.Holds P C { issue with description } where
  scalars attr := by
    have hattr := h.scalars attr
    cases attr <;> exact hattr
  collections attr := by
    have hattr := h.collections attr
    cases attr <;> exact hattr

private theorem Issue.Holds.assign (h : issue.Holds P C) {entry : Text × FieldValue}
    (hentry : ∃ attr, scalarFields.lookup entry.1 = some attr ∧ P attr entry.2) :
    (issue.assign entry).Holds P C := by
  obtain ⟨attr, hattr, hallows⟩ := hentry
  rw [Issue.assign, hattr]
  exact h.setScalar hallows

/-- Where something is added it has the property. -/
theorem Issue.Holds.adjust (h : issue.Holds P C) (removing : Bool)
    {entry : Text × List FieldValue}
    (hentry : ∀ attr, collectionFields.lookup entry.1 = some attr →
      removing = true ∨ ∀ v ∈ entry.2, C attr v) :
    (issue.adjust removing entry).Holds P C := by
  unfold Issue.adjust
  split
  · rename_i attr hattr
    refine h.setCollection _ ?_
    have hvalues := hentry attr hattr
    generalize entry.2 = values at hvalues
    have hcurrent := h.collections attr
    generalize issue.collection attr = current at hcurrent
    induction values generalizing current with
    | nil => exact hcurrent
    | cons value values ih =>
        rw [List.foldl_cons]
        refine ih (hvalues.imp_right fun h v hv => h v (List.mem_cons_of_mem _ hv)) _ ?_
        intro v hv
        unfold Issuetracker.adjust at hv
        split at hv
        · exact hcurrent v (List.mem_of_mem_erase hv)
        · split at hv
          · exact hcurrent v hv
          · rename_i hremoving hold
            rcases List.mem_append.mp hv with hv | hv
            · exact hcurrent v hv
            · rw [List.mem_singleton.mp hv]
              exact (hvalues.resolve_left hremoving) value List.mem_cons_self
  · exact h

/-- What is set and what is added has the property of its field. -/
theorem Issue.Holds.edit (repr : Text → Text) (h : issue.Holds P C) {req : IssueModify} (hknown : KnownMasks req)
    (hsets : ∀ name v, req.sets.get? name = some v →
      ∃ attr, scalarFields.lookup name = some attr ∧ P attr v)
    (hadd : ∀ name vs, req.add.get? name = some vs →
      ∃ attr, collectionFields.lookup name = some attr ∧ ∀ v ∈ vs, C attr v) :
    (editIssue repr issue req).1.1.Holds P C := by
  rw [editIssue_eq repr hknown]
  have hset : (req.sets.entries.foldl Issue.assign issue).Holds P C := by
    refine List.foldlRecOn _ _ h fun issue hissue entry hentry => hissue.assign ?_
    exact hsets entry.1 entry.2 (Dict.get?_eq_some.mpr hentry)
  have hadded := List.foldlRecOn req.add.entries (Issue.adjust false) hset
    fun issue hissue entry hentry => hissue.adjust false fun attr hattr => by
      obtain ⟨attr', hattr', hvalues⟩ := hadd entry.1 entry.2 (Dict.get?_eq_some.mpr hentry)
      obtain rfl := Option.some.inj (hattr.symm.trans hattr')
      exact .inr hvalues
  exact List.foldlRecOn req.remove.entries (Issue.adjust true) hadded
    fun issue hissue entry _ => hissue.adjust true fun _ _ => .inl rfl

/-- An issue is put on other hotlists. -/
theorem Issue.Holds.listed (h : issue.Holds P C) {hotlistIds : List FieldValue}
    (hids : ∀ v ∈ hotlistIds, C .hotlistIds v) : Issue.Holds P C { issue with hotlistIds } :=
  h.setCollection .hotlistIds hids

end Holds

/-- Every act with a vetted event leaves the issue vetted. -/
theorem vetted_act (hact : Act repr identity i e f f') (he : e.Vetted) (h : f.issue.Vetted) :
    f'.issue.Vetted := by
  rw [Issue.vetted_iff] at h ⊢
  cases hact with
  | idle => exact h
  | modified hmodified =>
      have hreq : IssueModify.Vetted _ := he
      have hedited := h.edit repr hreq.known hreq.sets hreq.add
      cases hmodified with
      | refused hedit | quiet hedit _ =>
          rw [hedit] at hedited
          exact hedited
      | recorded hedit _ _ =>
          rw [hedit] at hedited
          exact hedited.touch _
      | explained hedit _ =>
          rw [hedit] at hedited
          exact (hedited.touch _).touch _
  | related | commented => exact h.touch _
  | rewritten _ _ =>
      unfold Folder.rewrite
      split
      · exact (h.describe _).touch _
      · exact h.touch _
  | listed _ _ =>
      refine (h.listed fun v hv => ?_).touch _
      rcases List.mem_append.mp hv with hv | hv
      · exact h.collections .hotlistIds v hv
      · rw [List.mem_singleton.mp hv]
        exact he
  | unlisted _ =>
      refine (h.listed fun v hv => ?_).touch _
      exact h.collections .hotlistIds v (List.mem_of_mem_erase hv)

/-- The component of an issue is for good. -/
theorem component_act (hact : Act repr identity i e f f') :
    f'.issue.componentId = f.issue.componentId := by
  cases hact with
  | @modified req commented now _ _ hmodified =>
      have hrest := sameRest_editIssue repr f.issue req
      cases hmodified with
      | refused hedit | quiet hedit _ | recorded hedit _ _ | explained hedit _ =>
          rw [hedit] at hrest
          exact hrest.componentId
  | rewritten _ _ =>
      unfold Folder.rewrite
      split <;> rfl
  | _ => rfl

end Steps

end Jetty.Issuetracker
