import Jetty.Modules.Issuetracker.Driver

/-!
# What is kept about an issue

An operation concerns one issue. What it does to the issue, its comments, its history and its
relationships is said once, and what holds of every issue in every run follows from that.
-/

namespace Jetty.Issuetracker

open Python Journal Transition

/-- Everything that is kept about an issue. -/
structure Folder where
  issue : Issue
  comments : List Comment
  updates : List IssueUpdate
  relationships : List Relationship
deriving DecidableEq

namespace Folder

variable (f : Folder)

/-- What `_insert` files. -/
def born (issueId : ℤ) (req : IssueCreate) (reporter : Text) (now : ℚ) : Folder where
  issue :=
    { issueId, componentId := req.componentId, title := .str req.title, type := .str req.type
      status := .str req.status, priority := .str req.priority, severity := .str req.severity
      reporter, assignee := .str req.assignee, created := now, modified := now
      description := req.description }
  comments := [⟨issueId, 1, req.description, reporter⟩]
  updates := []
  relationships := []

/-- A comment is added. -/
def comment (issueId : ℤ) (body author : Text) (now : ℚ) : Folder :=
  { f with
    comments := f.comments ++ [⟨issueId, f.comments.length + 1, body, author⟩]
    issue := f.issue.touch now }

/-- Changes are recorded, and the number of a comment if it is not 0. -/
def record (author : Text) (changes : List FieldChange) (commentNumber : ℕ) (now : ℚ) : Folder :=
  { f with
    issue := f.issue.touch now
    updates := f.updates ++ [⟨author, (f.issue.touch now).modified, changes, commentNumber⟩] }

/-- The text of a comment is replaced. -/
def rewrite (number : ℕ) (body : Text) (now : ℚ) : Folder :=
  let issue := if number = 1 then { f.issue with description := body } else f.issue
  { f with
    comments := f.comments.modify (number - 1) fun c => { c with text := body }
    issue := issue.touch now }

/-- The issue is put on hotlists. -/
def listed (hotlistIds : List FieldValue) (now : ℚ) : Folder :=
  { f with issue := Issue.touch { f.issue with hotlistIds := hotlistIds } now }

end Folder

/-- What a modification can do to its issue. -/
inductive Modifies (repr : Text → Text) (identity : Text) (i : ℤ) (req : IssueModify)
    (commented now : ℚ) (f : Folder) : Folder → Prop
  /-- The driver gives up at an unknown name. -/
  | refused {issue : Issue} {changes : List FieldChange} {e : DriverError}
      (hedit : editIssue repr f.issue req = ((issue, changes), some e)) :
      Modifies repr identity i req commented now f { f with issue }
  /-- There is no comment, and nothing changes. -/
  | quiet {issue : Issue} (hedit : editIssue repr f.issue req = ((issue, []), none))
      (hcomment : req.comment = none) :
      Modifies repr identity i req commented now f { f with issue }
  | recorded {issue : Issue} {changes : List FieldChange}
      (hedit : editIssue repr f.issue req = ((issue, changes), none))
      (hcomment : req.comment = none) (hchanges : changes ≠ []) :
      Modifies repr identity i req commented now f
        (Folder.record { f with issue } identity changes 0 now)
  | explained {issue : Issue} {changes : List FieldChange} {body : Text}
      (hedit : editIssue repr f.issue req = ((issue, changes), none))
      (hcomment : req.comment = some body) :
      Modifies repr identity i req commented now f
        ((Folder.comment { f with issue } i body identity commented).record identity changes
          (f.comments.length + 1) now)

/-- What the clock reads while a request is served. -/
def TrackerEvent.times : TrackerEvent → List ℚ
  | .seedComponent _ => []
  | .seedIssue _ _ now | .createIssue _ now | .createRelationship _ _ now | .createComment _ _ now
  | .updateComment _ _ _ now | .createHotlistEntry _ now | .deleteHotlistEntry _ _ now => [now]
  | .modifyIssue _ _ commented now => [commented, now]

/-- What a request asks to be created, and by whom. -/
def TrackerEvent.creates (identity : Text) : TrackerEvent → Option (IssueCreate × Text)
  | .seedIssue req reporter _ => some (req, reporter)
  | .createIssue req _ => some (req, identity)
  | _ => none

/-- What a request can do to an issue. -/
inductive Act (repr : Text → Text) (identity : Text) (i : ℤ) : TrackerEvent → Folder → Folder → Prop
  /-- The request is about another issue, or it is refused or finds nothing to do. -/
  | idle {e : TrackerEvent} {f : Folder} : Act repr identity i e f f
  | modified {req : IssueModify} {commented now : ℚ} {f f' : Folder}
      (h : Modifies repr identity i req commented now f f') :
      Act repr identity i (.modifyIssue i req commented now) f f'
  | related {rel : Relationship} {now : ℚ} {f : Folder} :
      Act repr identity i (.createRelationship i rel now) f
        { f with issue := f.issue.touch now, relationships := f.relationships ++ [rel] }
  | commented {body : Text} {now : ℚ} {f : Folder} :
      Act repr identity i (.createComment i body now) f (f.comment i body identity now)
  | rewritten {number : ℕ} {body : Text} {now : ℚ} {f : Folder} (hlow : 1 ≤ number)
      (hhigh : number ≤ f.comments.length) :
      Act repr identity i (.updateComment i number body now) f (f.rewrite number body now)
  | listed {now : ℚ} {f : Folder} {entry : HotlistEntry}
      (hentry : entry.issueId = i) (hnew : .int entry.hotlistId ∉ f.issue.hotlistIds) :
      Act repr identity i (.createHotlistEntry entry now) f
        (f.listed (f.issue.hotlistIds ++ [.int entry.hotlistId]) now)
  | unlisted {hotlistId : ℤ} {now : ℚ} {f : Folder} (hold : .int hotlistId ∈ f.issue.hotlistIds) :
      Act repr identity i (.deleteHotlistEntry hotlistId i now) f
        (f.listed (f.issue.hotlistIds.erase (.int hotlistId)) now)

namespace MockIssueTrackerDriver

variable {S T : MockIssueTrackerDriver} {repr : Text → Text} {i j : ℤ} {f : Folder}

/-- The folder of an issue. -/
def folder (S : MockIssueTrackerDriver) (i : ℤ) : Option Folder :=
  match S.issues.get? i, S.comments.get? i, S.updates.get? i with
  | some issue, some comments, some updates =>
    some ⟨issue, comments, updates, (S.relationships.get? i).getD []⟩
  | _, _, _ => none

/-- Every issue has a folder, and an identifier that will not be given again. -/
structure Filed (S : MockIssueTrackerDriver) : Prop where
  filed : ∀ i ∈ S.issues.keys, i < S.counter ∧ (S.folder i).isSome
  related : ∀ i ∈ S.relationships.keys, i ∈ S.issues.keys

/-- Nothing is touched but the folder of the issue. -/
structure Frame (i : ℤ) (S T : MockIssueTrackerDriver) : Prop where
  identity : T.identity = S.identity
  counter : T.counter = S.counter
  components : T.components = S.components
  keys : T.issues.keys = S.issues.keys
  others : ∀ j ≠ i, T.folder j = S.folder j
  related : ∀ j ∈ T.relationships.keys, j ∈ S.relationships.keys ∨ j = i

/-- A folder is what the four tables have of an issue. -/
theorem folder_eq_some : S.folder i = some f ↔ S.issues.get? i = some f.issue ∧
    S.comments.get? i = some f.comments ∧ S.updates.get? i = some f.updates ∧
      (S.relationships.get? i).getD [] = f.relationships := by
  unfold folder
  constructor
  · intro h
    split at h
    · rename_i issue comments updates hissue hcomments hupdates
      obtain rfl := Option.some.inj h
      exact ⟨hissue, hcomments, hupdates, rfl⟩
    · cases h
  · rintro ⟨hissue, hcomments, hupdates, hrelationships⟩
    rw [hissue, hcomments, hupdates, hrelationships]

/-- What is filed under another identifier is not looked at. -/
theorem folder_congr (hissues : T.issues.get? i = S.issues.get? i)
    (hcomments : T.comments.get? i = S.comments.get? i)
    (hupdates : T.updates.get? i = S.updates.get? i)
    (hrelationships : T.relationships.get? i = S.relationships.get? i) :
    T.folder i = S.folder i := by
  unfold folder
  rw [hissues, hcomments, hupdates, hrelationships]

private theorem Frame.refl : Frame i S S := ⟨rfl, rfl, rfl, rfl, fun _ _ => rfl, fun _ h => .inl h⟩

private theorem Frame.trans {U : MockIssueTrackerDriver} (h : Frame i S T) (h' : Frame i T U) :
    Frame i S U where
  identity := h'.identity.trans h.identity
  counter := h'.counter.trans h.counter
  components := h'.components.trans h.components
  keys := h'.keys.trans h.keys
  others j hj := (h'.others j hj).trans (h.others j hj)
  related j hj := (h'.related j hj).elim (h.related j) .inr

/-- The issue is replaced, and what is filed under its identifier. -/
theorem frame_of_set {issue : Issue} (hi : i ∈ S.issues.keys) (hidentity : T.identity = S.identity)
    (hcounter : T.counter = S.counter) (hcomponents : T.components = S.components)
    (hissues : T.issues = S.issues.set i issue)
    (hcomments : ∀ j ≠ i, T.comments.get? j = S.comments.get? j)
    (hupdates : ∀ j ≠ i, T.updates.get? j = S.updates.get? j)
    (hrelationships : ∀ j ≠ i, T.relationships.get? j = S.relationships.get? j) :
    Frame i S T where
  identity := hidentity
  counter := hcounter
  components := hcomponents
  keys := by rw [hissues, Dict.keys_set, if_pos hi]
  others j hj := folder_congr (by rw [hissues, Dict.get?_set_of_ne hj]) (hcomments j hj)
    (hupdates j hj) (hrelationships j hj)
  related j hj := by
    by_cases heq : j = i
    · exact .inr heq
    · obtain ⟨rows, hrows⟩ := Dict.mem_keys.mp hj
      exact .inl (Dict.mem_keys.mpr ⟨rows, (hrelationships j heq).symm.trans hrows⟩)

/-- Only an issue has a folder. -/
theorem mem_keys_of_folder (h : S.folder i = some f) : i ∈ S.issues.keys :=
  Dict.mem_keys.mpr ⟨f.issue, (folder_eq_some.mp h).1⟩

/-! ### The operations -/

/-- The issue alone is replaced. -/
theorem folder_setIssue (h : S.folder i = some f) (issue : Issue) :
    MockIssueTrackerDriver.folder { S with issues := S.issues.set i issue } i =
        some { f with issue } ∧
      Frame i S { S with issues := S.issues.set i issue } := by
  obtain ⟨hissue, hcomments, hupdates, hrelationships⟩ := folder_eq_some.mp h
  exact ⟨folder_eq_some.mpr ⟨Dict.get?_set_self, hcomments, hupdates, hrelationships⟩,
    frame_of_set (mem_keys_of_folder h) rfl rfl rfl rfl (fun _ _ => rfl) (fun _ _ => rfl)
      fun _ _ => rfl⟩

/-- A comment is put into the folder of its issue, and nowhere else. -/
theorem folder_createComment (h : S.folder i = some f) (body : Text) (now : ℚ) :
    (S.createComment i body now).1.folder i = some (f.comment i body S.identity now) ∧
      Frame i S (S.createComment i body now).1 ∧
      (S.createComment i body now).2 =
        .ok (some ⟨i, f.comments.length + 1, body, S.identity⟩) := by
  obtain ⟨hissue, hcomments, hupdates, hrelationships⟩ := folder_eq_some.mp h
  simp only [createComment, hissue, hcomments]
  refine ⟨folder_eq_some.mpr ⟨Dict.get?_set_self, Dict.get?_set_self, hupdates, hrelationships⟩,
    frame_of_set (mem_keys_of_folder h) rfl rfl rfl rfl (fun j hj => Dict.get?_set_of_ne hj)
      (fun _ _ => rfl) fun _ _ => rfl, trivial⟩

/-- What the loops have changed is recorded at the end, if it is anything. -/
theorem folder_record (h : S.folder i = some f) (changes : List FieldChange) (n : ℕ) (now : ℚ) :
    ∃ f', (S.record i changes n now).1.folder i = some f' ∧
      (f' = if changes ≠ [] ∨ n ≠ 0 then f.record S.identity changes n now else f) ∧
      Frame i S (S.record i changes n now).1 ∧
      (S.record i changes n now).2 = .ok (some f'.issue) := by
  obtain ⟨hissue, hcomments, hupdates, hrelationships⟩ := folder_eq_some.mp h
  simp only [record, hissue]
  split
  · simp only [hupdates]
    refine ⟨f.record S.identity changes n now, folder_eq_some.mpr ⟨Dict.get?_set_self, hcomments,
      Dict.get?_set_self, hrelationships⟩, rfl, ?_, rfl⟩
    exact frame_of_set (mem_keys_of_folder h) rfl rfl rfl rfl (fun _ _ => rfl)
      (fun j hj => Dict.get?_set_of_ne hj) fun _ _ => rfl
  · exact ⟨f, h, rfl, .refl, rfl⟩

variable (repr) in
/-- What a modification does, and what the driver answers. -/
theorem folder_modifyIssue (h : S.folder i = some f) (req : IssueModify) (commented now : ℚ) :
    ∃ f', (S.modifyIssue repr i req commented now).1.folder i = some f' ∧
      Modifies repr S.identity i req commented now f f' ∧
      Frame i S (S.modifyIssue repr i req commented now).1 ∧
      ((editIssue repr f.issue req).2 = none →
        (S.modifyIssue repr i req commented now).2 = .ok (some f'.issue)) := by
  have hissue := (folder_eq_some.mp h).1
  simp only [modifyIssue, hissue]
  cases hedit : editIssue repr f.issue req with
  | mk done refusal =>
      obtain ⟨issue, changes⟩ := done
      obtain ⟨hset, hframe⟩ := folder_setIssue h issue
      cases refusal with
      | some e => exact ⟨_, hset, .refused hedit, hframe, fun hnone => by cases hnone⟩
      | none =>
          dsimp only
          cases hcomment : req.comment with
          | none =>
              obtain ⟨f', hf', heq, hrecord, hanswer⟩ := folder_record hset changes 0 now
              refine ⟨f', hf', ?_, hframe.trans hrecord, fun _ => hanswer⟩
              by_cases hchanges : changes = []
              · subst hchanges
                rw [if_neg (by simp)] at heq
                subst heq
                exact .quiet hedit hcomment
              · rw [if_pos (.inl hchanges)] at heq
                subst heq
                exact .recorded hedit hcomment hchanges
          | some body =>
              obtain ⟨hadded, hwritten, hnumber⟩ := folder_createComment hset body commented
              dsimp only
              generalize createComment _ i body commented = result at hadded hwritten hnumber ⊢
              obtain ⟨T, answer⟩ := result
              dsimp only at hadded hwritten hnumber
              subst hnumber
              obtain ⟨f', hf', heq, hrecord, hanswer⟩ :=
                folder_record hadded changes (f.comments.length + 1) now
              rw [if_pos (.inr (Nat.succ_ne_zero _)), hwritten.identity] at heq
              subst heq
              exact ⟨_, hf', .explained hedit hcomment, hframe.trans (hwritten.trans hrecord),
                fun _ => hanswer⟩

/-- The request acts on an issue that is there. -/
def Acts (repr : Text → Text) (e : TrackerEvent) (S T : MockIssueTrackerDriver) : Prop :=
  ∃ i f f', S.folder i = some f ∧ T.folder i = some f' ∧ Frame i S T ∧
    Act repr S.identity i e f f'

/-- Where all is filed every issue has a folder. -/
theorem Filed.folder (h : S.Filed) {issue : Issue} (hissue : S.issues.get? i = some issue) :
    ∃ f, S.folder i = some f ∧ f.issue = issue := by
  obtain ⟨f, hf⟩ := Option.isSome_iff_exists.mp (h.filed i (Dict.mem_keys.mpr ⟨issue, hissue⟩)).2
  exact ⟨f, hf, Option.some.inj ((folder_eq_some.mp hf).1.symm.trans hissue)⟩

/-- A new relationship does nothing, or acts on the folder of its issue. -/
theorem createRelationship_acts (h : S.Filed) (rel : Relationship) (now : ℚ) :
    (S.createRelationship i rel now).1 = S ∨
      Acts repr (.createRelationship i rel now) S (S.createRelationship i rel now).1 := by
  unfold createRelationship
  cases hissue : S.issues.get? i with
  | none => exact .inl rfl
  | some issue =>
      obtain ⟨f, hf, rfl⟩ := h.folder hissue
      obtain ⟨-, hcomments, hupdates, hrelationships⟩ := folder_eq_some.mp hf
      dsimp only
      split_ifs
      · exact .inl rfl
      · rw [hrelationships]
        refine .inr ⟨i, f, { f with issue := f.issue.touch now, relationships := f.relationships ++
          [rel] }, hf, folder_eq_some.mpr ⟨Dict.get?_set_self, hcomments, hupdates, ?_⟩, ?_,
          .related⟩
        · rw [Dict.get?_set_self]
          rfl
        · exact frame_of_set (mem_keys_of_folder hf) rfl rfl rfl rfl (fun _ _ => rfl)
            (fun _ _ => rfl) fun j hj => Dict.get?_set_of_ne hj
      · exact .inl rfl

/-- The update of a comment does nothing, or acts on the folder of its issue. -/
theorem updateComment_acts (h : S.Filed) (number : ℤ) (body : Text) (now : ℚ) :
    (S.updateComment i number body now).1 = S ∨
      Acts repr (.updateComment i number body now) S (S.updateComment i number body now).1 := by
  unfold updateComment
  cases hissue : S.issues.get? i with
  | none => exact .inl rfl
  | some issue =>
      obtain ⟨f, hf, rfl⟩ := h.folder hissue
      obtain ⟨-, hcomments, hupdates, hrelationships⟩ := folder_eq_some.mp hf
      dsimp only
      rw [hcomments, Option.getD_some]
      split
      · rename_i hbounds
        obtain ⟨n, rfl⟩ := Int.eq_ofNat_of_zero_le (Int.le_trans (by decide) hbounds.1)
        have hlow : 1 ≤ n := by omega
        have hone : ((n : ℤ) = 1) = (n = 1) := by
          rw [eq_iff_iff]
          omega
        refine .inr ⟨i, f, f.rewrite n body now, hf, folder_eq_some.mpr ⟨?_, ?_, hupdates,
          hrelationships⟩, ?_, .rewritten hlow (by omega)⟩
        · rw [Dict.get?_set_self]
          simp only [Folder.rewrite, hone]
        · exact Dict.get?_set_self
        · exact frame_of_set (mem_keys_of_folder hf) rfl rfl rfl rfl
            (fun j hj => Dict.get?_set_of_ne hj) (fun _ _ => rfl) fun _ _ => rfl
      · exact .inl rfl

/-- A new hotlist entry does nothing, or acts on the folder of its issue. -/
theorem createHotlistEntry_acts (h : S.Filed) (entry : HotlistEntry) (now : ℚ) :
    (S.createHotlistEntry entry now).1 = S ∨
      Acts repr (.createHotlistEntry entry now) S (S.createHotlistEntry entry now).1 := by
  unfold createHotlistEntry
  cases hissue : S.issues.get? entry.issueId with
  | none => exact .inl rfl
  | some issue =>
      obtain ⟨f, hf, rfl⟩ := h.folder hissue
      dsimp only
      split
      · exact .inl rfl
      · rename_i hnew
        obtain ⟨hset, hframe⟩ := folder_setIssue hf (Issue.touch
          { f.issue with hotlistIds := f.issue.hotlistIds ++ [.int entry.hotlistId] } now)
        exact .inr ⟨_, f, _, hf, hset, hframe, .listed rfl hnew⟩

/-- The removal of a hotlist entry does nothing, or acts on the folder of its issue. -/
theorem deleteHotlistEntry_acts (h : S.Filed) (hotlistId : ℤ) (now : ℚ) :
    (S.deleteHotlistEntry hotlistId i now).1 = S ∨
      Acts repr (.deleteHotlistEntry hotlistId i now) S
        (S.deleteHotlistEntry hotlistId i now).1 := by
  unfold deleteHotlistEntry
  cases hissue : S.issues.get? i with
  | none => exact .inl rfl
  | some issue =>
      obtain ⟨f, hf, rfl⟩ := h.folder hissue
      dsimp only
      split
      · rename_i hold
        obtain ⟨hset, hframe⟩ := folder_setIssue hf (Issue.touch
          { f.issue with hotlistIds := f.issue.hotlistIds.erase (.int hotlistId) } now)
        exact .inr ⟨_, f, _, hf, hset, hframe, .unlisted hold⟩
      · exact .inl rfl

variable (repr) in
/-- A request inserts an issue, acts on one, or leaves all issues alone. -/
theorem serve_acts (h : S.Filed) (e : TrackerEvent) :
    (∃ req reporter, e.creates S.identity = some (req, reporter) ∧
      ∃ now ∈ e.times, S.serve repr e = (S.insert req reporter now).1) ∨
      (∃ components, S.serve repr e = { S with components }) ∨ Acts repr e S (S.serve repr e) := by
  cases e with
  | seedComponent componentId => exact .inr (.inl ⟨_, rfl⟩)
  | seedIssue req reporter now =>
      rw [serve]
      split
      · exact .inl ⟨req, reporter, rfl, now, List.mem_singleton_self now, rfl⟩
      · exact .inr (.inl ⟨S.components, rfl⟩)
  | createIssue req now =>
      rw [serve, createIssue]
      split
      · exact .inl ⟨req, _, rfl, now, List.mem_singleton_self now, rfl⟩
      · exact .inr (.inl ⟨S.components, rfl⟩)
  | modifyIssue issueId req commented now =>
      cases hissue : S.issues.get? issueId with
      | none =>
          rw [serve, modifyIssue, hissue]
          exact .inr (.inl ⟨S.components, rfl⟩)
      | some issue =>
          obtain ⟨f, hf, -⟩ := h.folder hissue
          obtain ⟨f', hf', hact, hframe, -⟩ :=
            folder_modifyIssue repr hf req commented now
          exact .inr (.inr ⟨issueId, f, f', hf, hf', hframe, .modified hact⟩)
  | createRelationship issueId rel now =>
      exact .inr ((createRelationship_acts h rel now).imp_left fun heq => ⟨S.components, heq⟩)
  | createComment issueId body now =>
      cases hissue : S.issues.get? issueId with
      | none =>
          rw [serve, createComment, hissue]
          exact .inr (.inl ⟨S.components, rfl⟩)
      | some issue =>
          obtain ⟨f, hf, -⟩ := h.folder hissue
          obtain ⟨hf', hframe, -⟩ := folder_createComment hf body now
          exact .inr (.inr ⟨issueId, f, _, hf, hf', hframe, .commented⟩)
  | updateComment issueId number body now =>
      exact .inr ((updateComment_acts h number body now).imp_left fun heq => ⟨S.components, heq⟩)
  | createHotlistEntry entry now =>
      exact .inr ((createHotlistEntry_acts h entry now).imp_left fun heq => ⟨S.components, heq⟩)
  | deleteHotlistEntry hotlistId issueId now =>
      exact .inr ((deleteHotlistEntry_acts h hotlistId now).imp_left fun heq => ⟨S.components, heq⟩)

/-- A new issue gets a folder of its own. -/
theorem folder_insert (h : S.Filed) (req : IssueCreate) (reporter : Text) (now : ℚ) :
    (S.insert req reporter now).1.folder S.counter = some (.born S.counter req reporter now) ∧
      ∀ j ≠ (S.counter : ℤ), (S.insert req reporter now).1.folder j = S.folder j := by
  have hnone : S.relationships.get? S.counter = none := by
    rw [Dict.get?_eq_none]
    intro hmem
    exact absurd (h.filed _ (h.related _ hmem)).1 (Int.lt_irrefl _)
  refine ⟨folder_eq_some.mpr ⟨Dict.get?_set_self, Dict.get?_set_self, Dict.get?_set_self, ?_⟩,
    fun j hj => folder_congr (Dict.get?_set_of_ne hj) (Dict.get?_set_of_ne hj)
      (Dict.get?_set_of_ne hj) rfl⟩
  change (S.relationships.get? S.counter).getD [] = []
  rw [hnone]
  rfl

/-- Every event leaves all filed. -/
theorem filed_serve (h : S.Filed) (e : TrackerEvent) : (S.serve repr e).Filed := by
  rcases serve_acts repr h e with ⟨req, reporter, -, now, -, heq⟩ | ⟨components, heq⟩ | hacts
  · rw [heq]
    obtain ⟨hborn, hothers⟩ := folder_insert h req reporter now
    refine ⟨fun i hi => ?_, fun i hi => Dict.mem_keys_set.mpr (.inl (h.related i hi))⟩
    by_cases hnew : i = S.counter
    · subst hnew
      rw [hborn]
      exact ⟨Int.lt_succ _, rfl⟩
    · obtain ⟨hlt, hfolder⟩ := h.filed i ((Dict.mem_keys_set.mp hi).resolve_right hnew)
      rw [hothers i hnew]
      exact ⟨Int.lt_trans hlt (Int.lt_succ _), hfolder⟩
  · rw [heq]
    exact ⟨h.filed, h.related⟩
  · obtain ⟨i, f, f', hf, hf', hframe, -⟩ := hacts
    refine ⟨fun j hj => ?_, fun j hj => ?_⟩
    · rw [hframe.keys] at hj
      rw [hframe.counter]
      by_cases heq : j = i
      · subst heq
        exact ⟨(h.filed j hj).1, by rw [hf']; rfl⟩
      · rw [hframe.others j heq]
        exact h.filed j hj
    · rw [hframe.keys]
      rcases hframe.related j hj with hold | rfl
      · exact h.related j hold
      · exact mem_keys_of_folder hf

/-- A folder after a request is new or comes of one before it. -/
theorem folder_serve (h : S.Filed) {e : TrackerEvent} {f' : Folder}
    (hf' : (S.serve repr e).folder i = some f') :
    (∃ req reporter, e.creates S.identity = some (req, reporter) ∧
      ∃ now ∈ e.times, f' = .born i req reporter now) ∨
      ∃ f, S.folder i = some f ∧ Act repr S.identity i e f f' := by
  rcases serve_acts repr h e with ⟨req, reporter, hcreates, now, hnow, heq⟩ | ⟨components, heq⟩ |
    hacts
  · rw [heq] at hf'
    obtain ⟨hborn, hothers⟩ := folder_insert h req reporter now
    by_cases hnew : i = S.counter
    · subst hnew
      exact .inl ⟨req, reporter, hcreates, now, hnow, Option.some.inj (hf'.symm.trans hborn)⟩
    · exact .inr ⟨f', (hothers i hnew).symm.trans hf', .idle⟩
  · rw [heq] at hf'
    exact .inr ⟨f', hf', .idle⟩
  · obtain ⟨j, g, g', hg, hg', hframe, hact⟩ := hacts
    by_cases heq : i = j
    · subst heq
      obtain rfl := Option.some.inj (hf'.symm.trans hg')
      exact .inr ⟨g, hg, hact⟩
    · exact .inr ⟨f', (hframe.others i heq).symm.trans hf', .idle⟩

variable (repr) in
/-- A folder stays, and a request acts on it. -/
theorem act_of_serve (h : S.Filed) (hf : S.folder i = some f) (e : TrackerEvent) :
    ∃ f', (S.serve repr e).folder i = some f' ∧ Act repr S.identity i e f f' := by
  rcases serve_acts repr h e with ⟨req, reporter, -, now, -, heq⟩ | ⟨components, heq⟩ | hacts
  · obtain ⟨-, hothers⟩ := folder_insert h req reporter now
    have hlt := (h.filed i (mem_keys_of_folder hf)).1
    exact ⟨f, by rw [heq, hothers i (Int.ne_of_lt hlt), hf], .idle⟩
  · rw [heq]
    exact ⟨f, hf, .idle⟩
  · obtain ⟨j, g, g', hg, hg', hframe, hact⟩ := hacts
    by_cases heq : i = j
    · subst heq
      obtain rfl := Option.some.inj (hf.symm.trans hg)
      exact ⟨g', hg', hact⟩
    · exact ⟨f, (hframe.others i heq).trans hf, .idle⟩

/-- No event changes who the driver acts for. -/
theorem identity_serve (h : S.Filed) (e : TrackerEvent) :
    (S.serve repr e).identity = S.identity := by
  rcases serve_acts repr h e with ⟨req, reporter, -, now, -, heq⟩ | ⟨components, heq⟩ |
    ⟨_, _, _, _, _, hframe, _⟩
  · rw [heq]
    rfl
  · rw [heq]
  · exact hframe.identity

/-- An empty store is filed. -/
theorem filed_blank (identity : Text) : (blank identity).Filed :=
  ⟨fun _ hi => absurd hi List.not_mem_nil, fun _ hi => absurd hi List.not_mem_nil⟩

/-- In every reachable state all is filed. -/
theorem filed_of_run {identity : Text} {es : List TrackerEvent}
    (h : Run (Serves repr) (blank identity) es S) : S.Filed ∧ S.identity = identity := by
  refine h.invariant (fun S => S.Filed ∧ S.identity = identity) ⟨filed_blank identity, rfl⟩ ?_
  rintro S e T ⟨hfiled, hidentity⟩ rfl
  exact ⟨filed_serve hfiled e, (identity_serve hfiled e).trans hidentity⟩

/-- What holds of new folders, and is kept by whatever is done to one, holds of all. -/
theorem folder_invariant {identity : Text} {es : List TrackerEvent} (P : ℤ → Folder → Prop)
    (hborn : ∀ i req reporter now, P i (.born i req reporter now))
    (hact : ∀ i e f f', Act repr identity i e f f' → P i f → P i f')
    (hrun : Run (Serves repr) (blank identity) es S) (hf : S.folder i = some f) : P i f := by
  have hall : (S.Filed ∧ S.identity = identity) ∧ ∀ i f, S.folder i = some f → P i f := by
    refine hrun.invariant (fun S => (S.Filed ∧ S.identity = identity) ∧ ∀ i f,
      S.folder i = some f → P i f) ⟨⟨filed_blank identity, rfl⟩, fun _ _ h => by cases h⟩ ?_
    rintro S e T ⟨⟨hfiled, hidentity⟩, hP⟩ rfl
    refine ⟨⟨filed_serve hfiled e, (identity_serve hfiled e).trans hidentity⟩, fun i f' hf' => ?_⟩
    rcases folder_serve hfiled hf' with ⟨req, reporter, -, now, -, rfl⟩ | ⟨f, hf, hstep⟩
    · exact hborn i req reporter now
    · exact hact i e f f' (hidentity ▸ hstep) (hP i f hf)
  exact hall.2 i f hf

end MockIssueTrackerDriver

end Jetty.Issuetracker
