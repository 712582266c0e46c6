import Jetty.Core.Python.JsonRoundTrip
import Jetty.Modules.Issuetracker.Vetting

/-!
# The texts of the store

The tracker makes up no text of its own. What holds of every text of the seeds and of the bodies,
and of the identity of the driver, holds of every text that is kept about an issue, and then of
every text of an answer.
-/

namespace Jetty.Issuetracker

open Python Failure Transition

/-! ### Where texts are -/

section Texts

variable (Q : Text → Prop)

def FieldValue.AllTexts : FieldValue → Prop
  | .str s => Q s
  | .int _ => True

/-- All texts of a comment have the property. -/
structure Comment.AllTexts (comment : Comment) : Prop where
  text : Q comment.text
  author : Q comment.author

/-- All texts of an issue have the property. -/
structure Issue.AllTexts (issue : Issue) : Prop where
  named : issue.Holds (fun _ => FieldValue.AllTexts Q) (fun _ => FieldValue.AllTexts Q)
  reporter : Q issue.reporter
  description : Q issue.description

/-- All texts of a folder that a request is answered with have the property. -/
structure Folder.AllTexts (f : Folder) : Prop where
  issue : f.issue.AllTexts Q
  comments : ∀ c ∈ f.comments, c.AllTexts Q

structure IssueCreate.AllTexts (req : IssueCreate) : Prop where
  title : Q req.title
  status : Q req.status
  type : Q req.type
  priority : Q req.priority
  severity : Q req.severity
  description : Q req.description
  assignee : Q req.assignee

/-- All texts that are set, added or said have the property. What is removed is compared only. -/
structure IssueModify.AllTexts (req : IssueModify) : Prop where
  sets : ∀ name v, req.sets.get? name = some v → v.AllTexts Q
  add : ∀ name vs, req.add.get? name = some vs → ∀ v ∈ vs, v.AllTexts Q
  comment : ∀ body ∈ req.comment, Q body

def TrackerEvent.AllTexts : TrackerEvent → Prop
  | .seedIssue req reporter _ => req.AllTexts Q ∧ Q reporter
  | .createIssue req _ => req.AllTexts Q
  | .modifyIssue _ req _ _ => req.AllTexts Q
  | .createComment _ body _ | .updateComment _ _ body _ => Q body
  | _ => True

/-- The body that a request comes with. -/
def TrackerRequest.body? : TrackerRequest → Option Json
  | .createIssue body _ | .modifyIssue _ body _ _ | .createRelationship _ _ body _
  | .createComment _ body _ | .updateComment _ _ body _ | .createHotlistEntry _ body _ => body
  | .deleteHotlistEntry _ _ _ => none

/-- All texts of the body have the property. -/
def TrackerRequest.AllTexts (request : TrackerRequest) : Prop :=
  ∀ v ∈ request.body?, Json.AllTexts Q v

/-- All texts of the seed have the property. -/
structure SeedIssue.AllTexts (seed : SeedIssue) : Prop where
  create : seed.create.AllTexts Q
  reporter : Q seed.reporter

end Texts

section Reading

variable {Q : Text → Prop}

/-- What all texts have the texts of a request have. -/
theorem TrackerRequest.allTexts_of_forall (h : ∀ s, Q s) (request : TrackerRequest) :
    request.AllTexts Q :=
  fun v _ => Json.allTexts_of_forall h v

/-- What all texts have the texts of a seeded issue have. -/
theorem SeedIssue.allTexts_of_forall (h : ∀ s, Q s) (seed : SeedIssue) : seed.AllTexts Q :=
  ⟨⟨h _, h _, h _, h _, h _, h _, h _⟩, h _⟩

/-! ### What is read -/

private theorem allTexts_get? {entries : List (Text × Json)} {key : Text} {v : Json}
    (h : Json.AllTextsEntries Q entries) (hv : Json.get? entries key = some v) :
    Json.AllTexts Q v := by
  obtain ⟨front, back, rfl, -⟩ := List.lookup_eq_some_iff.mp hv
  exact (h.forall_mem (key, v) (List.mem_append_right _ List.mem_cons_self)).2

private theorem allTexts_read {wire : Wire} {value : Json} {v : FieldValue}
    (h : wire.read value = some v) (hvalue : Json.AllTexts Q value) : v.AllTexts Q := by
  unfold Wire.read at h
  split at h
  · obtain rfl := Option.some.inj h
    exact hvalue
  · split at h
    · rename_i s hs
      obtain rfl := Option.some.inj h
      have hentry : Json.AllTexts Q (.str s) := allTexts_get? hvalue hs
      exact hentry
    · cases h
  · obtain rfl := Option.some.inj h
    trivial
  · obtain ⟨n, -, rfl⟩ := Option.map_eq_some_iff.mp h
    trivial
  · cases h

private theorem allTexts_mapM_read {wire : Wire} {values : List Json} {vs : List FieldValue}
    (h : values.mapM wire.read = some vs) (hvalues : Json.AllTextsItems Q values) :
    ∀ v ∈ vs, v.AllTexts Q := by
  induction values generalizing vs with
  | nil =>
      obtain rfl := Option.some.inj h
      exact fun _ hv => absurd hv List.not_mem_nil
  | cons value values ih =>
      rw [List.mapM_cons] at h
      obtain ⟨v, hv, h⟩ := Option.bind_eq_some_iff.mp h
      obtain ⟨rest, hrest, h⟩ := Option.bind_eq_some_iff.mp h
      obtain rfl := Option.some.inj h
      exact List.forall_mem_cons.mpr ⟨allTexts_read hv hvalues.1, ih hrest hvalues.2⟩

private theorem allTexts_carried {body : List (Text × Json)} {stateName name : Text} {v : Json}
    (h : Json.AllTextsEntries Q body) (hv : carried body stateName name = some v) :
    Json.AllTexts Q v := by
  unfold carried at hv
  split at hv
  · rename_i entries hentries
    have hstate : Json.AllTexts Q (.dict entries) := allTexts_get? h hentries
    exact allTexts_get? hstate hv
  · cases hv

private theorem allTexts_of_parseModify {repr : Text → Text} {body : List (Text × Json)}
    {req : IssueModify} (h : parseModify repr body = .ok req)
    (hbody : Json.AllTextsEntries Q body) : req.AllTexts Q := by
  obtain ⟨⟨entries, hentries, hresolved⟩, -, hcomment⟩ := parseModify_resolved h
  refine ⟨fun name v hv => ?_, fun name vs hvs => ?_, fun said hsaid => ?_⟩
  · obtain ⟨-, attr, value, -, hvalue, hread⟩ := hresolved.sets name v hv
    exact allTexts_read hread (allTexts_carried hbody ((hentries name).symm.trans hvalue))
  · obtain ⟨-, attr, values, -, hvalues, hread⟩ := hresolved.collections name vs hvs
    have hlist : Json.AllTexts Q (.list values) :=
      allTexts_carried hbody ((hentries name).symm.trans hvalues)
    exact allTexts_mapM_read hread hlist
  · unfold parseIssueComment at hcomment
    dsimp only at hcomment
    rw [Option.mem_def.mp hsaid] at hcomment
    split at hcomment
    · cases hcomment
    · rename_i state hstate
      have hdict : Json.AllTexts Q (.dict state) := allTexts_get? hbody hstate
      split at hcomment
      · rename_i s hs
        obtain rfl := Option.some.inj (Except.ok.inj hcomment)
        have htext : Json.AllTexts Q (.str s) := allTexts_get? hdict hs
        exact htext
      · cases hcomment
    · cases hcomment

private theorem text_of_parseEnum {value : Json} {allowed : List Text} {fieldName s : Text}
    (h : parseEnum value allowed fieldName = .ok s) (hvalue : Json.AllTexts Q value) : Q s := by
  have hread : FieldValue.AllTexts Q (.str s) := allTexts_read (parseEnum_read h) hvalue
  exact hread

private theorem text_of_parseUser {value : Json} {fieldName s : Text}
    (h : parseUser value fieldName = .ok s) (hvalue : Json.AllTexts Q value) : Q s := by
  have hread : FieldValue.AllTexts Q (.str s) := allTexts_read (parseUser_read h) hvalue
  exact hread

private theorem allTexts_field {state : List (Text × Json)} {name : String} {value : Json}
    (h : field state name = .ok value) (hstate : Json.AllTextsEntries Q state) :
    Json.AllTexts Q value := by
  unfold field at h
  split at h
  · rename_i v hv
    obtain rfl := Except.ok.inj h
    exact allTexts_get? hstate hv
  · cases h

private theorem allTexts_of_createFields {state : List (Text × Json)}
    {title description assignee : Text}
    {req : IssueCreate} (h : createFields state title description assignee = .ok req)
    (hstate : Json.AllTextsEntries Q state) (htitle : Q title) (hdescription : Q description)
    (hassignee : Q assignee) : req.AllTexts Q := by
  obtain ⟨_, _, h⟩ := bind_eq_ok.mp h
  obtain ⟨componentId, _, h⟩ := bind_eq_ok.mp h
  obtain ⟨_, hfield, h⟩ := bind_eq_ok.mp h
  obtain ⟨status, hstatus, h⟩ := bind_eq_ok.mp h
  have hstatus := text_of_parseEnum hstatus (allTexts_field hfield hstate)
  obtain ⟨_, hfield, h⟩ := bind_eq_ok.mp h
  obtain ⟨type, htype, h⟩ := bind_eq_ok.mp h
  have htype := text_of_parseEnum htype (allTexts_field hfield hstate)
  obtain ⟨_, hfield, h⟩ := bind_eq_ok.mp h
  obtain ⟨priority, hpriority, h⟩ := bind_eq_ok.mp h
  have hpriority := text_of_parseEnum hpriority (allTexts_field hfield hstate)
  obtain ⟨_, hfield, h⟩ := bind_eq_ok.mp h
  obtain ⟨severity, hseverity, h⟩ := bind_eq_ok.mp h
  have hseverity := text_of_parseEnum hseverity (allTexts_field hfield hstate)
  obtain rfl := Except.ok.inj h
  exact ⟨htitle, hstatus, htype, hpriority, hseverity, hdescription, hassignee⟩

private theorem allTexts_of_entriesOf {body entries : List (Text × Json)} {name message : String}
    (h : entriesOf body name message = .ok entries) (hbody : Json.AllTextsEntries Q body) :
    Json.AllTextsEntries Q entries := by
  unfold entriesOf at h
  split at h
  · rename_i found hfound
    obtain rfl := Except.ok.inj h
    have hdict : Json.AllTexts Q (.dict found) := allTexts_get? hbody hfound
    exact hdict
  · cases h

private theorem text_of_parseDescription {issue : List (Text × Json)} {description : Text}
    (h : parseDescription issue = .ok description) (hissue : Json.AllTextsEntries Q issue)
    (hempty : Q []) : Q description := by
  unfold parseDescription at h
  dsimp only at h
  split at h
  · obtain rfl := Except.ok.inj h
    exact hempty
  · rename_i entries hentries
    have hdict : Json.AllTexts Q (.dict entries) := allTexts_get? hissue hentries
    split at h
    · rename_i s hs
      obtain rfl := Except.ok.inj h
      have htext : Json.AllTexts Q (.str s) := allTexts_get? hdict hs
      exact htext
    · cases h
  · cases h

private theorem allTexts_of_parseCreate {body : List (Text × Json)} {req : IssueCreate}
    (h : parseCreate body = .ok req) (hbody : Json.AllTextsEntries Q body) (hempty : Q []) :
    req.AllTexts Q := by
  unfold parseCreate at h
  dsimp only at h
  split at h
  · obtain ⟨_, hrefused, _⟩ := bind_eq_ok.mp h
    cases hrefused
  · obtain ⟨issue, hissue, h⟩ := bind_eq_ok.mp h
    have hissue := allTexts_of_entriesOf hissue hbody
    obtain ⟨state, hstate, h⟩ := bind_eq_ok.mp h
    have hstate := allTexts_of_entriesOf hstate hissue
    split at h
    · obtain ⟨_, hrefused, _⟩ := bind_eq_ok.mp h
      cases hrefused
    · split at h
      · rename_i c cs htitle
        obtain ⟨title, heq, h⟩ := bind_eq_ok.mp h
        obtain rfl := Except.ok.inj heq
        have htitle : Json.AllTexts Q (.str (c :: cs)) := allTexts_get? hstate htitle
        obtain ⟨description, hdescription, h⟩ := bind_eq_ok.mp h
        have hdescription := text_of_parseDescription hdescription hissue hempty
        split at h
        · obtain ⟨assignee, heq, h⟩ := bind_eq_ok.mp h
          obtain rfl := Except.ok.inj heq
          exact allTexts_of_createFields h hstate htitle hdescription hempty
        · rename_i value hvalue
          obtain ⟨assignee, hassignee, h⟩ := bind_eq_ok.mp h
          exact allTexts_of_createFields h hstate htitle hdescription
            (text_of_parseUser hassignee (allTexts_get? hstate hvalue))
      · obtain ⟨_, hrefused, _⟩ := bind_eq_ok.mp h
        cases hrefused

private theorem allTexts_of_readBody {repr : Text → Text} {allowed : List Text} {body : Option Json}
    {entries : List (Text × Json)} (h : readBody repr allowed body = .ok entries)
    (hbody : ∀ v ∈ body, Json.AllTexts Q v) : Json.AllTextsEntries Q entries := by
  unfold readBody jsonBody at h
  split at h
  · split at h
    · dsimp only at h
      split at h
      · obtain rfl := Except.ok.inj h
        have hdict := hbody _ rfl
        exact hdict
      · cases h
    · cases h
  · cases h

private theorem text_of_parseComment {body : List (Text × Json)} {s : Text}
    (h : parseComment body = .ok s) (hbody : Json.AllTextsEntries Q body) : Q s := by
  unfold parseComment at h
  split at h
  · rename_i c cs hs
    obtain rfl := Except.ok.inj h
    have htext : Json.AllTexts Q (.str (c :: cs)) := allTexts_get? hbody hs
    exact htext
  · cases h

/-- The texts of a call come from the body of its request. -/
theorem allTexts_of_call {repr : Text → Text} {request : TrackerRequest} {e : TrackerEvent}
    (h : request.call repr = .ok e) (hrequest : request.AllTexts Q) (hempty : Q []) :
    e.AllTexts Q := by
  cases request with
  | createIssue body now =>
      obtain ⟨entries, hentries, h⟩ := bind_eq_ok.mp h
      obtain ⟨req, hreq, h⟩ := bind_eq_ok.mp h
      obtain rfl := Except.ok.inj h
      exact allTexts_of_parseCreate hreq (allTexts_of_readBody hentries hrequest) hempty
  | modifyIssue issueId body commented now =>
      obtain ⟨iid, _, h⟩ := bind_eq_ok.mp h
      obtain ⟨entries, hentries, h⟩ := bind_eq_ok.mp h
      obtain ⟨req, hreq, h⟩ := bind_eq_ok.mp h
      obtain rfl := Except.ok.inj h
      exact allTexts_of_parseModify hreq (allTexts_of_readBody hentries hrequest)
  | createRelationship issueId relationshipType body now =>
      obtain ⟨iid, _, h⟩ := bind_eq_ok.mp h
      obtain ⟨type, _, h⟩ := bind_eq_ok.mp h
      obtain ⟨entries, _, h⟩ := bind_eq_ok.mp h
      obtain ⟨target, _, h⟩ := bind_eq_ok.mp h
      obtain rfl := Except.ok.inj h
      trivial
  | createComment issueId body now | updateComment issueId number body now =>
      obtain ⟨iid, _, h⟩ := bind_eq_ok.mp h
      obtain ⟨entries, hentries, h⟩ := bind_eq_ok.mp h
      obtain ⟨comment, hcomment, h⟩ := bind_eq_ok.mp h
      obtain rfl := Except.ok.inj h
      exact text_of_parseComment hcomment (allTexts_of_readBody hentries hrequest)
  | createHotlistEntry hotlistId body now =>
      obtain ⟨hid, _, h⟩ := bind_eq_ok.mp h
      obtain ⟨entries, _, h⟩ := bind_eq_ok.mp h
      obtain ⟨iid, _, h⟩ := bind_eq_ok.mp h
      obtain ⟨position, _, h⟩ := bind_eq_ok.mp h
      obtain rfl := Except.ok.inj h
      trivial
  | deleteHotlistEntry hotlistId issueId now =>
      obtain ⟨hid, _, h⟩ := bind_eq_ok.mp h
      obtain ⟨iid, _, h⟩ := bind_eq_ok.mp h
      obtain rfl := Except.ok.inj h
      trivial

/-! ### What is kept -/

variable {repr : Text → Text} {identity : Text} {i : ℤ} {e : TrackerEvent} {f f' : Folder}

private theorem allTexts_born {req : IssueCreate} {reporter : Text} (h : req.AllTexts Q)
    (hreporter : Q reporter) (hempty : Q []) (i : ℤ) (now : ℚ) :
    (Folder.born i req reporter now).AllTexts Q where
  issue :=
    { named :=
        { scalars := fun attr => by
            cases attr with
            | title => exact h.title
            | status => exact h.status
            | type => exact h.type
            | priority => exact h.priority
            | severity => exact h.severity
            | assignee => exact h.assignee
            | verifier => exact hempty
          collections := fun attr v hv => by
            cases attr <;> exact absurd hv List.not_mem_nil }
      reporter := hreporter
      description := h.description }
  comments := List.forall_mem_singleton.mpr ⟨h.description, hreporter⟩

private theorem Issue.AllTexts.touch {issue : Issue} (h : issue.AllTexts Q) (now : ℚ) :
    (issue.touch now).AllTexts Q :=
  ⟨h.named.touch now, h.reporter, h.description⟩

private theorem Issue.AllTexts.edit (repr : Text → Text) {issue : Issue} (h : issue.AllTexts Q)
    {req : IssueModify} (hvetted : req.Vetted) (hreq : req.AllTexts Q) :
    (editIssue repr issue req).1.1.AllTexts Q := by
  have hrest := sameRest_editIssue repr issue req
  refine ⟨h.named.edit repr hvetted.known (fun name v hv => ?_) fun name vs hvs => ?_, ?_, ?_⟩
  · obtain ⟨attr, hattr, -⟩ := hvetted.sets name v hv
    exact ⟨attr, hattr, hreq.sets name v hv⟩
  · obtain ⟨attr, hattr, -⟩ := hvetted.add name vs hvs
    exact ⟨attr, hattr, hreq.add name vs hvs⟩
  · rw [hrest.reporter]
    exact h.reporter
  · rw [hrest.description]
    exact h.description

private theorem Folder.AllTexts.comment (h : f.AllTexts Q) {body author : Text} (hbody : Q body)
    (hauthor : Q author) (i : ℤ) (now : ℚ) : (f.comment i body author now).AllTexts Q where
  issue := h.issue.touch now
  comments :=
    List.forall_mem_append.mpr ⟨h.comments, List.forall_mem_singleton.mpr ⟨hbody, hauthor⟩⟩

private theorem Folder.AllTexts.rewrite (h : f.AllTexts Q) {body : Text} (hbody : Q body)
    (number : ℕ) (now : ℚ) : (f.rewrite number body now).AllTexts Q where
  issue := by
    unfold Folder.rewrite
    split
    · exact Issue.AllTexts.touch ⟨h.issue.named.describe body, h.issue.reporter, hbody⟩ now
    · exact h.issue.touch now
  comments c hc := by
    obtain ⟨j, hj⟩ := List.mem_iff_getElem?.mp hc
    rw [Folder.rewrite, List.getElem?_modify] at hj
    obtain ⟨d, hd, rfl⟩ := Option.map_eq_some_iff.mp hj
    have hold := h.comments d (List.mem_of_getElem? hd)
    split
    · exact ⟨hbody, hold.author⟩
    · exact hold

private theorem Folder.AllTexts.listed (h : f.AllTexts Q) {hotlistIds : List FieldValue}
    (hids : ∀ v ∈ hotlistIds, v.AllTexts Q) (now : ℚ) : (f.listed hotlistIds now).AllTexts Q where
  issue :=
    Issue.AllTexts.touch ⟨h.issue.named.listed hids, h.issue.reporter, h.issue.description⟩ now
  comments := h.comments

/-- Whatever is done to an issue brings in no other texts. -/
theorem allTexts_act (hact : Act repr identity i e f f') (hvetted : e.Vetted)
    (he : e.AllTexts Q) (hidentity : Q identity) (h : f.AllTexts Q) : f'.AllTexts Q := by
  cases hact with
  | idle => exact h
  | @modified req commented now _ _ hmodified =>
      have hreq : req.AllTexts Q := he
      have hedited := h.issue.edit repr hvetted hreq
      cases hmodified with
      | refused hedit | quiet hedit _ =>
          rw [hedit] at hedited
          exact ⟨hedited, h.comments⟩
      | recorded hedit _ _ =>
          rw [hedit] at hedited
          exact ⟨hedited.touch _, h.comments⟩
      | @explained issue changes body hedit hcomment =>
          rw [hedit] at hedited
          have hfolder : Folder.AllTexts Q { f with issue } := ⟨hedited, h.comments⟩
          have hcommented := hfolder.comment (hreq.comment body hcomment) hidentity i commented
          exact ⟨hcommented.issue.touch _, hcommented.comments⟩
  | related => exact ⟨h.issue.touch _, h.comments⟩
  | commented => exact h.comment he hidentity _ _
  | rewritten _ _ => exact h.rewrite he _ _
  | listed _ _ =>
      refine h.listed (fun v hv => ?_) _
      rcases List.mem_append.mp hv with hv | hv
      · exact h.issue.named.collections .hotlistIds v hv
      · rw [List.mem_singleton.mp hv]
        trivial
  | unlisted _ =>
      refine h.listed (fun v hv => ?_) _
      exact h.issue.named.collections .hotlistIds v (List.mem_of_mem_erase hv)

/-! ### What is answered -/

/-- What is put together from literals and representations can be written. -/
theorem Formats.spoken (lib : Formats) : Spoken lib.repr Text.Plain where
  literal s := Text.encode_isSome_iff.mp (Text.encode_text s)
  quoted := lib.plain_repr
  append _ _ hs ht := Text.plain_append.mpr ⟨hs, ht⟩

section Answers

variable {isoformat : ℤ → Text} (hQ : Spoken repr Q) (hinstant : ∀ t, Q (isoformat t))

private theorem FieldValue.AllTexts.json {v : FieldValue} (h : v.AllTexts Q) :
    Json.AllTexts Q v.json := by
  cases v with
  | str s => exact h
  | int n => trivial

include hQ

/-- So can the name of an issue. -/
theorem Spoken.issueName (i : ℤ) : Q (issueName i) :=
  hQ.append _ _ (hQ.literal _) (hQ.literal _)

private theorem FieldValue.AllTexts.shown {v : FieldValue} (h : v.AllTexts Q) : Q v.shown := by
  cases v with
  | str s => exact h
  | int n => exact hQ.literal _

private theorem allTexts_userJson {email : Json} (h : Json.AllTexts Q email) :
    Json.AllTexts Q (userJson email) :=
  ⟨⟨hQ.literal _, h⟩, trivial⟩

private theorem allTexts_entryIf {present : Bool} {name : String} {value : Json}
    (h : Json.AllTexts Q value) :
    ∀ entry ∈ entryIf present name value, Q entry.1 ∧ Json.AllTexts Q entry.2 := by
  unfold entryIf
  split
  · exact List.forall_mem_singleton.mpr ⟨hQ.literal _, h⟩
  · exact fun _ hentry => absurd hentry List.not_mem_nil

private theorem allTexts_commentJson {comment : Comment} (h : comment.AllTexts Q) :
    Json.AllTextsEntries Q (commentJson comment) := by
  refine Json.allTextsEntries_of_forall (List.forall_mem_append.mpr ⟨?_,
    allTexts_entryIf hQ (allTexts_userJson hQ h.author)⟩)
  simp only [List.forall_mem_cons]
  exact ⟨⟨hQ.literal _, hQ.literal _⟩, ⟨hQ.literal _, trivial⟩, ⟨hQ.literal _, h.text⟩,
    fun _ hentry => absurd hentry List.not_mem_nil⟩

omit hQ in
/-- A collection of the state of an issue. -/
theorem allTexts_collection (render : FieldValue → Json) {values : List FieldValue}
    (h : ∀ v ∈ values, v.AllTexts Q)
    (hrender : ∀ v : FieldValue, v.AllTexts Q → Json.AllTexts Q (render v)) :
    Json.AllTexts Q (.list (values.map render)) := by
  refine Json.allTextsItems_of_forall fun x hx => ?_
  obtain ⟨v, hv, rfl⟩ := List.mem_map.mp hx
  exact hrender v (h v hv)

private theorem allTexts_stateJson {issue : Issue} (h : issue.AllTexts Q) :
    Json.AllTextsEntries Q (stateJson issue) := by
  have hscalar (attr : Scalar) : Json.AllTexts Q (issue.scalar attr).json :=
    (h.named.scalars attr).json
  have hccs := allTexts_collection (fun v => userJson v.json) (h.named.collections .ccs) fun v hv =>
    allTexts_userJson hQ hv.json
  have hids (attr : Collection) := allTexts_collection (fun v => .str v.shown)
    (h.named.collections attr) fun v hv => hv.shown hQ
  refine Json.allTextsEntries_of_forall ?_
  simp only [stateJson, List.forall_mem_append]
  refine ⟨⟨⟨⟨⟨?_, allTexts_entryIf hQ (allTexts_userJson hQ (hscalar .assignee))⟩,
    allTexts_entryIf hQ (allTexts_userJson hQ (hscalar .verifier))⟩, allTexts_entryIf hQ hccs⟩,
    allTexts_entryIf hQ (hids .hotlistIds)⟩, allTexts_entryIf hQ (hids .blockedBy)⟩
  simp only [List.forall_mem_cons]
  exact ⟨⟨hQ.literal _, hQ.literal _⟩, ⟨hQ.literal _, hscalar .type⟩,
    ⟨hQ.literal _, hscalar .status⟩, ⟨hQ.literal _, hscalar .priority⟩,
    ⟨hQ.literal _, hscalar .severity⟩, ⟨hQ.literal _, hscalar .title⟩,
    ⟨hQ.literal _, allTexts_userJson hQ h.reporter⟩,
    fun _ hentry => absurd hentry List.not_mem_nil⟩

include hinstant in
private theorem allTexts_issueJson {issue : Issue} (h : issue.AllTexts Q) (view : View) :
    Json.AllTextsEntries Q (issueJson isoformat issue view) := by
  have hcomment : Json.AllTexts Q
      (.dict (commentJson ⟨issue.issueId, 1, issue.description, []⟩)) :=
    allTexts_commentJson hQ ⟨h.description, hQ.literal ""⟩
  refine Json.allTextsEntries_of_forall (List.forall_mem_append.mpr ⟨?_,
    allTexts_entryIf hQ hcomment⟩)
  simp only [List.forall_mem_cons]
  exact ⟨⟨hQ.literal _, hQ.literal _⟩, ⟨hQ.literal _, allTexts_stateJson hQ h⟩,
    ⟨hQ.literal _, hinstant _⟩, ⟨hQ.literal _, hinstant _⟩,
    fun _ hentry => absurd hentry List.not_mem_nil⟩

private theorem allTexts_relationshipJson (rel : Relationship) :
    Json.AllTextsEntries Q (relationshipJson rel) :=
  ⟨⟨hQ.literal _, hQ.literal _⟩, trivial⟩

private theorem allTexts_hotlistEntryJson (entry : HotlistEntry) :
    Json.AllTextsEntries Q (hotlistEntryJson entry) := by
  have hposition : Json.AllTexts Q (.int entry.position) := trivial
  exact Json.allTextsEntries_of_forall (List.forall_mem_cons.mpr
    ⟨⟨hQ.literal _, hQ.literal _⟩, allTexts_entryIf hQ hposition⟩)

end Answers

end Reading

namespace MockIssueTrackerDriver

variable {Q : Text → Prop} {S : MockIssueTrackerDriver} {repr : Text → Text}
  {isoformat : ℤ → Text} {identity : Text} {e : TrackerEvent} {es : List TrackerEvent}

/-- All texts of the store have the property. -/
structure AllTexts (Q : Text → Prop) (S : MockIssueTrackerDriver) : Prop where
  identity : Q S.identity
  folders : ∀ i f, S.folder i = some f → f.AllTexts Q

private theorem allTexts_of_creates {req : IssueCreate} {reporter : Text}
    (h : e.creates identity = some (req, reporter)) (he : e.AllTexts Q) (hidentity : Q identity) :
    req.AllTexts Q ∧ Q reporter := by
  cases e with
  | seedIssue req' reporter' now =>
      obtain ⟨rfl, rfl⟩ := Prod.mk.inj (Option.some.inj h)
      exact he
  | createIssue req' now =>
      obtain ⟨rfl, rfl⟩ := Prod.mk.inj (Option.some.inj h)
      exact ⟨he, hidentity⟩
  | _ => cases h

private theorem AllTexts.serve (h : S.AllTexts Q) (hfiled : S.Filed) (hvetted : e.Vetted)
    (he : e.AllTexts Q) (hempty : Q []) : (S.serve repr e).AllTexts Q where
  identity := by
    rw [identity_serve hfiled e]
    exact h.identity
  folders i f' hf' := by
    rcases folder_serve hfiled hf' with ⟨req, reporter, hcreates, now, -, rfl⟩ | ⟨f, hf, hact⟩
    · obtain ⟨hreq, hreporter⟩ := allTexts_of_creates hcreates he h.identity
      exact allTexts_born hreq hreporter hempty i now
    · exact allTexts_act hact hvetted he h.identity (h.folders i f hf)

/-- In every run the texts of the store come from the calls. -/
theorem allTexts_of_run (hidentity : Q identity) (hempty : Q [])
    (hrun : Run ((Serves repr).within fun _ e => e.Vetted ∧ e.AllTexts Q) (blank identity) es S) :
    S.AllTexts Q := by
  have hall : S.Filed ∧ S.AllTexts Q := by
    refine hrun.invariant (fun S => S.Filed ∧ S.AllTexts Q)
      ⟨filed_blank identity, hidentity, fun _ _ h => by cases h⟩ ?_
    rintro S e T ⟨hfiled, htexts⟩ ⟨⟨hvetted, he⟩, rfl⟩
    exact ⟨filed_serve hfiled e, htexts.serve hfiled hvetted he hempty⟩
  exact hall.2

private theorem allTexts_modified (hQ : Spoken repr Q) (hinstant : ∀ t, Q (isoformat t))
    (hfiled : S.Filed) (h : S.AllTexts Q) {issueId : ℤ} {req : IssueModify} {commented now : ℚ}
    (hvetted : req.Vetted) (hreq : req.AllTexts Q) {body : List (Text × Json)}
    (hbody : (S.perform isoformat repr (.modifyIssue issueId req commented now)).2 = .ok body) :
    Json.AllTextsEntries Q body := by
  cases hissue : S.issues.get? issueId with
  | none =>
      simp only [perform, modifyIssue, hissue] at hbody
      cases hbody
  | some issue =>
      obtain ⟨f, hf, -⟩ := hfiled.folder hissue
      obtain ⟨f', -, hmodified, -, hanswer⟩ := folder_modifyIssue repr hf req commented now
      simp only [perform, hanswer (editIssue_known repr hvetted.known f.issue)] at hbody
      obtain rfl := Except.ok.inj hbody
      have hkept := allTexts_act (.modified hmodified) hvetted hreq h.identity (h.folders _ f hf)
      exact allTexts_issueJson hQ hinstant hkept.issue .full

private theorem allTexts_commented (hQ : Spoken repr Q) (hfiled : S.Filed) (h : S.AllTexts Q)
    {issueId : ℤ} {said : Text} {now : ℚ} (hsaid : Q said) {body : List (Text × Json)}
    (hbody : (S.perform isoformat repr (.createComment issueId said now)).2 = .ok body) :
    Json.AllTextsEntries Q body := by
  cases hissue : S.issues.get? issueId with
  | none =>
      simp only [perform, createComment, hissue] at hbody
      cases hbody
  | some issue =>
      obtain ⟨f, hf, -⟩ := hfiled.folder hissue
      obtain ⟨-, -, hanswer⟩ := folder_createComment hf said now
      simp only [perform, hanswer] at hbody
      obtain rfl := Except.ok.inj hbody
      exact allTexts_commentJson hQ ⟨hsaid, h.identity⟩

private theorem allTexts_rewritten (hQ : Spoken repr Q) (hfiled : S.Filed) (h : S.AllTexts Q)
    {issueId number : ℤ} {said : Text} {now : ℚ} (hsaid : Q said) {body : List (Text × Json)}
    (hbody : (S.perform isoformat repr (.updateComment issueId number said now)).2 = .ok body) :
    Json.AllTextsEntries Q body := by
  simp only [perform, updateComment] at hbody
  cases hissue : S.issues.get? issueId with
  | none =>
      simp only [hissue] at hbody
      cases hbody
  | some issue =>
      obtain ⟨f, hf, -⟩ := hfiled.folder hissue
      obtain ⟨-, hcomments, -, -⟩ := folder_eq_some.mp hf
      have hkept := (h.folders issueId f hf).rewrite hsaid number.toNat now
      simp only [hissue, hcomments, Option.getD_some] at hbody
      split at hbody
      · obtain ⟨c, hc, rfl⟩ := map_eq_ok.mp hbody
        unfold requireSome at hc
        split at hc
        · rename_i found hfound
          obtain rfl := Except.ok.inj hc
          exact allTexts_commentJson hQ (hkept.comments found (List.mem_of_getElem? hfound))
        · cases hc
      · cases hbody

/-- The texts of an answer come from the store. -/
theorem allTexts_perform (hQ : Spoken repr Q) (hinstant : ∀ t, Q (isoformat t)) (hfiled : S.Filed)
    (h : S.AllTexts Q) (hvetted : e.Vetted) (he : e.AllTexts Q) {body : List (Text × Json)}
    (hbody : (S.perform isoformat repr e).2 = .ok body) : Json.AllTextsEntries Q body := by
  have hempty : Q [] := hQ.literal ""
  cases e with
  | seedComponent _ | seedIssue _ _ _ => cases hbody
  | createIssue req now =>
      simp only [perform, createIssue] at hbody
      split at hbody
      · obtain rfl := Except.ok.inj hbody
        have hborn := allTexts_born he h.identity hempty S.counter now
        exact allTexts_issueJson hQ hinstant hborn.issue .full
      · cases hbody
  | modifyIssue issueId req commented now =>
      exact allTexts_modified hQ hinstant hfiled h hvetted he hbody
  | createRelationship issueId rel now =>
      simp only [perform, createRelationship] at hbody
      cases hissue : S.issues.get? issueId with
      | none =>
          simp only [hissue] at hbody
          cases hbody
      | some issue =>
          simp only [hissue] at hbody
          split_ifs at hbody
          · cases hbody
          · obtain rfl := Except.ok.inj hbody
            exact allTexts_relationshipJson hQ rel
          · cases hbody
  | createComment issueId said now => exact allTexts_commented hQ hfiled h he hbody
  | updateComment issueId number said now => exact allTexts_rewritten hQ hfiled h he hbody
  | createHotlistEntry entry now =>
      simp only [perform, createHotlistEntry] at hbody
      cases hissue : S.issues.get? entry.issueId with
      | none =>
          simp only [hissue] at hbody
          cases hbody
      | some issue =>
          simp only [hissue] at hbody
          split at hbody
          all_goals
            obtain rfl := Except.ok.inj hbody
            exact allTexts_hotlistEntryJson hQ entry
  | deleteHotlistEntry hotlistId issueId now =>
      simp only [perform] at hbody
      split at hbody
      · obtain rfl := Except.ok.inj hbody
        trivial
      · cases hbody

end MockIssueTrackerDriver

end Jetty.Issuetracker
