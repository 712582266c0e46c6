import Jetty.Modules.Issuetracker.Changes

/-!
# The history of an issue

A modification that is carried out is recorded as the changes it makes. Replayed over the issue as
it was created, they give the issue as it is, unless something else changed a field: entries of
hotlists do, and so does a modification that is refused half way.
-/

namespace Jetty.Issuetracker

open Python Journal Transition

namespace MockIssueTrackerDriver

variable {S T U : MockIssueTrackerDriver} {i j : ℤ}

/-! ### What an operation does to an issue -/

/-- The fields of the issue and its history are left alone. -/
def Keeps (i : ℤ) (S T : MockIssueTrackerDriver) : Prop :=
  T.updates.get? i = S.updates.get? i ∧
    (T.issues.get? i).map Issue.fields = (S.issues.get? i).map Issue.fields

/-- Whatever changes about the fields of the issue is added to its history. -/
def Accounts (i : ℤ) (S T : MockIssueTrackerDriver) : Prop :=
  ∀ issue history, S.issues.get? i = some issue → S.updates.get? i = some history →
    ∃ issue' recorded, T.issues.get? i = some issue' ∧
      T.updates.get? i = some (history ++ recorded) ∧
      Explains Fields.apply issue.fields (recorded.flatMap IssueUpdate.changes) issue'.fields

private theorem Keeps.refl : Keeps i S S := ⟨rfl, rfl⟩

private theorem Keeps.trans (h : Keeps i S T) (h' : Keeps i T U) : Keeps i S U :=
  ⟨h'.1.trans h.1, h'.2.trans h.2⟩

private theorem Keeps.accounts (h : Keeps i S T) : Accounts i S T := by
  intro issue history hissue hhistory
  have hfields := h.2
  rw [hissue, Option.map_some] at hfields
  obtain ⟨issue', hissue', hsame⟩ := Option.map_eq_some_iff.mp hfields
  refine ⟨issue', [], hissue', ?_, ?_⟩
  · rw [h.1, hhistory, List.append_nil]
  · rw [hsame]
    exact .refl

/-- An issue is replaced by one with the same fields, or another one is. -/
theorem keeps_of_set {issue issue' : Issue} (hissue : S.issues.get? j = some issue)
    (hissues : T.issues = S.issues.set j issue') (hupdates : T.updates = S.updates)
    (hfields : j = i → issue'.fields = issue.fields) : Keeps i S T := by
  refine ⟨by rw [hupdates], ?_⟩
  rw [hissues]
  by_cases hij : i = j
  · subst hij
    rw [Dict.get?_set_self, hissue, Option.map_some, Option.map_some, hfields rfl]
  · rw [Dict.get?_set_of_ne hij]

private theorem createComment_keeps (issueId : ℤ) (body : Text) (now : ℚ) :
    Keeps i S (S.createComment issueId body now).1 := by
  unfold createComment
  cases hissue : S.issues.get? issueId with
  | none => exact .refl
  | some issue =>
      dsimp only
      cases hrows : S.comments.get? issueId with
      | none => exact .refl
      | some rows => exact keeps_of_set hissue rfl rfl fun _ => fields_touch issue now

private theorem createComment_ok {issueId : ℤ} (h : issueId ∈ S.comments.keys) (body : Text)
    (now : ℚ) : ∃ comment, (S.createComment issueId body now).2 = .ok comment := by
  obtain ⟨rows, hrows⟩ := Dict.mem_keys.mp h
  unfold createComment
  cases S.issues.get? issueId with
  | none => exact ⟨none, rfl⟩
  | some issue =>
      dsimp only
      rw [hrows]
      exact ⟨_, rfl⟩

private theorem createRelationship_keeps (issueId : ℤ) (rel : Relationship) (now : ℚ) :
    Keeps i S (S.createRelationship issueId rel now).1 := by
  unfold createRelationship
  cases hissue : S.issues.get? issueId with
  | none => exact .refl
  | some issue =>
      dsimp only
      split_ifs
      · exact .refl
      · exact keeps_of_set hissue rfl rfl fun _ => fields_touch issue now
      · exact .refl

private theorem updateComment_keeps (issueId number : ℤ) (body : Text) (now : ℚ) :
    Keeps i S (S.updateComment issueId number body now).1 := by
  unfold updateComment
  cases hissue : S.issues.get? issueId with
  | none => exact .refl
  | some issue =>
      dsimp only
      split_ifs
      · exact keeps_of_set hissue rfl rfl fun _ => rfl
      · exact keeps_of_set hissue rfl rfl fun _ => rfl
      · exact .refl

/-! ### Every operation accounts for what it changes -/

/-- The operation records what it changes about the issue: it is not a refused modification that has
already changed something, and it puts the issue on no hotlist and takes it off none. -/
def Recorded (i : ℤ) (S : MockIssueTrackerDriver) : TrackerEvent → Prop
  | .modifyIssue issueId req _ _ => issueId = i → ∀ issue, S.issues.get? i = some issue →
    KnownMasks req ∨ QuietMasks issue req
  | .createHotlistEntry entry _ => entry.issueId = i → ∀ issue, S.issues.get? i = some issue →
    .int entry.hotlistId ∈ issue.hotlistIds
  | .deleteHotlistEntry hotlistId issueId _ => issueId = i → ∀ issue,
    S.issues.get? i = some issue → .int hotlistId ∉ issue.hotlistIds
  | _ => True

/-- What the loops have changed is recorded at the end. -/
theorem record_accounts {issue issue' : Issue} {history : List IssueUpdate}
    {changes : List FieldChange} (hissue : S.issues.get? i = some issue')
    (hhistory : S.updates.get? i = some history)
    (hchanges : Explains Fields.apply issue.fields changes issue'.fields) (n : ℕ) (now : ℚ) :
    ∃ issue'' recorded, (S.record i changes n now).1.issues.get? i = some issue'' ∧
      (S.record i changes n now).1.updates.get? i = some (history ++ recorded) ∧
      Explains Fields.apply issue.fields (recorded.flatMap IssueUpdate.changes)
        issue''.fields := by
  unfold record
  simp only [hissue]
  split
  · simp only [hhistory]
    refine ⟨_, _, Dict.get?_set_self, Dict.get?_set_self, ?_⟩
    rw [List.flatMap_singleton]
    exact hchanges
  · rename_i hnone
    obtain rfl : changes = [] := by
      by_contra hne
      exact hnone (.inl hne)
    exact ⟨issue', [], hissue, by rw [List.append_nil, hhistory], hchanges⟩

private theorem record_keeps (hij : j ≠ i) (changes : List FieldChange) (n : ℕ) (now : ℚ) :
    Keeps i S (S.record j changes n now).1 := by
  unfold record
  cases hissue : S.issues.get? j with
  | none => exact .refl
  | some issue =>
      dsimp only
      split
      · cases hhistory : S.updates.get? j with
        | none => exact keeps_of_set hissue rfl rfl fun h => absurd h hij
        | some history =>
            refine ⟨Dict.get?_set_of_ne hij.symm, ?_⟩
            exact congrArg (Option.map Issue.fields) (Dict.get?_set_of_ne hij.symm)
      · exact .refl

private theorem modifyIssue_accounts {repr : Text → Text} {issueId : ℤ} {req : IssueModify}
    {commented now : ℚ} (hcomments : i ∈ S.comments.keys)
    (h : Recorded i S (.modifyIssue issueId req commented now)) :
    Accounts i S (S.modifyIssue repr issueId req commented now).1 := by
  unfold modifyIssue
  cases hfound : S.issues.get? issueId with
  | none => exact Keeps.refl.accounts
  | some before =>
      dsimp only
      by_cases hid : issueId = i
      · subst hid
        intro issue history hissue hhistory
        obtain rfl : before = issue := Option.some.inj (hfound.symm.trans hissue)
        have hexplains := editIssue_explains repr before req
        have hrefused : (editIssue repr before req).2 ≠ none →
            (editIssue repr before req).1 = (before, []) := by
          rcases h rfl before hissue with hknown | hquiet
          · exact fun hne => absurd (editIssue_known repr hknown before) hne
          · exact fun _ => editIssue_quiet repr hquiet
        generalize editIssue repr before req = edited at hexplains hrefused ⊢
        obtain ⟨⟨after, changes⟩, _ | e⟩ := edited
        · dsimp only at hexplains ⊢
          obtain ⟨S', hS'⟩ : ∃ S', S' = { S with issues := S.issues.set issueId after } := ⟨_, rfl⟩
          have hset : S'.issues.get? issueId = some after := by
            rw [hS']
            exact Dict.get?_set_self
          have hsame : S'.updates = S.updates ∧ S'.comments = S.comments := by
            rw [hS']
            exact ⟨rfl, rfl⟩
          rw [← hS']
          rw [← hsame.1] at hhistory
          rw [← hsame.2] at hcomments
          cases req.comment with
          | none => exact record_accounts hset hhistory hexplains 0 now
          | some body =>
              obtain ⟨comment, hcomment⟩ := createComment_ok (S := S') hcomments body commented
              obtain ⟨hupdates, hfields⟩ :=
                createComment_keeps (i := issueId) (S := S') issueId body commented
              rw [hset, Option.map_some] at hfields
              obtain ⟨issue', hissue', hsame⟩ := Option.map_eq_some_iff.mp hfields
              dsimp only
              generalize createComment S' issueId body commented = result
                at hcomment hupdates hissue' ⊢
              obtain ⟨T, e | comment⟩ := result
              · cases hcomment
              · refine record_accounts hissue' (hupdates.trans hhistory) ?_ _ now
                rwa [hsame]
        · obtain ⟨rfl, rfl⟩ := Prod.mk.inj (hrefused nofun)
          exact ⟨after, [], Dict.get?_set_self, by rw [List.append_nil, hhistory], .refl⟩
      · refine Keeps.accounts ?_
        have hset (after : Issue) : Keeps i S { S with issues := S.issues.set issueId after } :=
          keeps_of_set hfound rfl rfl fun heq => absurd heq hid
        obtain ⟨⟨after, changes⟩, _ | e⟩ := editIssue repr before req
        · dsimp only
          cases req.comment with
          | none => exact (hset after).trans (record_keeps hid changes 0 now)
          | some body =>
              have hcomment := (hset after).trans (createComment_keeps issueId body commented)
              dsimp only
              generalize createComment _ issueId body commented = result at hcomment ⊢
              obtain ⟨T, e | comment⟩ := result
              · exact hcomment
              · exact hcomment.trans (record_keeps hid changes _ now)
        · exact hset after

private theorem createHotlistEntry_keeps {entry : HotlistEntry} {now : ℚ}
    (h : Recorded i S (.createHotlistEntry entry now)) :
    Keeps i S (S.createHotlistEntry entry now).1 := by
  unfold createHotlistEntry
  cases hissue : S.issues.get? entry.issueId with
  | none => exact .refl
  | some issue =>
      dsimp only
      split
      · exact .refl
      · rename_i hnot
        refine keeps_of_set hissue rfl rfl fun heq => ?_
        exact absurd (h heq issue (heq ▸ hissue)) hnot

private theorem deleteHotlistEntry_keeps {hotlistId issueId : ℤ} {now : ℚ}
    (h : Recorded i S (.deleteHotlistEntry hotlistId issueId now)) :
    Keeps i S (S.deleteHotlistEntry hotlistId issueId now).1 := by
  unfold deleteHotlistEntry
  cases hissue : S.issues.get? issueId with
  | none => exact .refl
  | some issue =>
      dsimp only
      split
      · rename_i hmem
        refine keeps_of_set hissue rfl rfl fun heq => ?_
        exact absurd hmem (h heq issue (heq ▸ hissue))
      · exact .refl

private theorem insert_keeps (hi : i ≠ S.counter) (req : IssueCreate) (reporter : Text) (now : ℚ) :
    Keeps i S (S.insert req reporter now).1 :=
  ⟨Dict.get?_set_of_ne hi, congrArg (Option.map Issue.fields) (Dict.get?_set_of_ne hi)⟩

/-- One step. -/
theorem serve_accounts {repr : Text → Text} {e : TrackerEvent} (hfresh : i ≠ S.counter)
    (hcomments : i ∈ S.comments.keys) (h : Recorded i S e) : Accounts i S (S.serve repr e) := by
  cases e with
  | seedComponent componentId => exact Keeps.accounts ⟨rfl, rfl⟩
  | seedIssue req reporter now =>
      rw [serve]
      split
      · exact (insert_keeps hfresh req reporter now).accounts
      · exact Keeps.refl.accounts
  | createIssue req now =>
      rw [serve, createIssue]
      split
      · exact (insert_keeps hfresh req _ now).accounts
      · exact Keeps.refl.accounts
  | modifyIssue issueId req commented now => exact modifyIssue_accounts hcomments h
  | createRelationship issueId rel now => exact (createRelationship_keeps _ _ _).accounts
  | createComment issueId body now => exact (createComment_keeps _ _ _).accounts
  | updateComment issueId number body now => exact (updateComment_keeps _ _ _ _).accounts
  | createHotlistEntry entry now => exact (createHotlistEntry_keeps h).accounts
  | deleteHotlistEntry hotlistId issueId now => exact (deleteHotlistEntry_keeps h).accounts

/-! ### Identifiers -/

/-- Every issue has comments, and an identifier that will not be given again. -/
def Sound (S : MockIssueTrackerDriver) : Prop :=
  ∀ i ∈ S.issues.keys, i < S.counter ∧ i ∈ S.comments.keys

/-- The operation gives no identifier away. -/
def SameIssues (S T : MockIssueTrackerDriver) : Prop :=
  T.counter = S.counter ∧ T.issues.keys = S.issues.keys ∧
    ∀ i ∈ S.comments.keys, i ∈ T.comments.keys

private theorem SameIssues.refl : SameIssues S S := ⟨rfl, rfl, fun _ h => h⟩

private theorem SameIssues.trans (h : SameIssues S T) (h' : SameIssues T U) : SameIssues S U :=
  ⟨h'.1.trans h.1, h'.2.1.trans h.2.1, fun i hi => h'.2.2 i (h.2.2 i hi)⟩

private theorem sameIssues_of_set {issue issue' : Issue} (hissue : S.issues.get? j = some issue)
    (hcounter : T.counter = S.counter) (hissues : T.issues = S.issues.set j issue')
    (hcomments : ∀ i ∈ S.comments.keys, i ∈ T.comments.keys) : SameIssues S T := by
  refine ⟨hcounter, ?_, hcomments⟩
  rw [hissues, Dict.keys_set, if_pos (Dict.mem_keys.mpr ⟨issue, hissue⟩)]

private theorem createComment_same (issueId : ℤ) (body : Text) (now : ℚ) :
    SameIssues S (S.createComment issueId body now).1 := by
  unfold createComment
  cases hissue : S.issues.get? issueId with
  | none => exact .refl
  | some issue =>
      dsimp only
      cases hrows : S.comments.get? issueId with
      | none => exact .refl
      | some rows =>
          exact sameIssues_of_set hissue rfl rfl fun i hi => Dict.mem_keys_set.mpr (.inl hi)

private theorem record_same (issueId : ℤ) (changes : List FieldChange) (n : ℕ) (now : ℚ) :
    SameIssues S (S.record issueId changes n now).1 := by
  unfold record
  cases hissue : S.issues.get? issueId with
  | none => exact .refl
  | some issue =>
      dsimp only
      split
      · cases S.updates.get? issueId <;> exact sameIssues_of_set hissue rfl rfl fun i hi => hi
      · exact .refl

private theorem modifyIssue_same (repr : Text → Text) (issueId : ℤ) (req : IssueModify)
    (commented now : ℚ) : SameIssues S (S.modifyIssue repr issueId req commented now).1 := by
  unfold modifyIssue
  cases hissue : S.issues.get? issueId with
  | none => exact .refl
  | some issue =>
      dsimp only
      obtain ⟨⟨after, changes⟩, _ | e⟩ := editIssue repr issue req
      · have hset : SameIssues S { S with issues := S.issues.set issueId after } :=
          sameIssues_of_set hissue rfl rfl fun i hi => hi
        dsimp only
        cases req.comment with
        | none => exact hset.trans (record_same _ _ _ _)
        | some body =>
            have hcomment := hset.trans (createComment_same issueId body commented)
            dsimp only
            generalize createComment _ issueId body commented = result at hcomment ⊢
            obtain ⟨T, e | comment⟩ := result
            · exact hcomment
            · exact hcomment.trans (record_same _ _ _ _)
      · exact sameIssues_of_set hissue rfl rfl fun i hi => hi

/-- An operation inserts an issue, or gives no identifier away. -/
theorem serve_cases (repr : Text → Text) (e : TrackerEvent) :
    (∃ req reporter now, S.serve repr e = (S.insert req reporter now).1) ∨
      SameIssues S (S.serve repr e) := by
  cases e with
  | seedComponent componentId => exact .inr ⟨rfl, rfl, fun _ h => h⟩
  | seedIssue req reporter now =>
      rw [serve]
      split
      · exact .inl ⟨req, reporter, now, rfl⟩
      · exact .inr .refl
  | createIssue req now =>
      rw [serve, createIssue]
      split
      · exact .inl ⟨req, _, now, rfl⟩
      · exact .inr .refl
  | modifyIssue issueId req commented now => exact .inr (modifyIssue_same repr _ _ _ _)
  | createComment issueId body now => exact .inr (createComment_same _ _ _)
  | createRelationship issueId rel now =>
      refine .inr ?_
      rw [serve, createRelationship]
      cases hissue : S.issues.get? issueId with
      | none => exact .refl
      | some issue =>
          dsimp only
          split_ifs
          · exact .refl
          · exact sameIssues_of_set hissue rfl rfl fun i hi => hi
          · exact .refl
  | updateComment issueId number body now =>
      refine .inr ?_
      rw [serve, updateComment]
      cases hissue : S.issues.get? issueId with
      | none => exact .refl
      | some issue =>
          dsimp only
          split
          · exact sameIssues_of_set hissue rfl rfl fun i hi => Dict.mem_keys_set.mpr (.inl hi)
          · exact .refl
  | createHotlistEntry entry now =>
      refine .inr ?_
      rw [serve, createHotlistEntry]
      cases hissue : S.issues.get? entry.issueId with
      | none => exact .refl
      | some issue =>
          dsimp only
          split
          · exact .refl
          · exact sameIssues_of_set hissue rfl rfl fun i hi => hi
  | deleteHotlistEntry hotlistId issueId now =>
      refine .inr ?_
      rw [serve, deleteHotlistEntry]
      cases hissue : S.issues.get? issueId with
      | none => exact .refl
      | some issue =>
          dsimp only
          split
          · exact sameIssues_of_set hissue rfl rfl fun i hi => hi
          · exact .refl

private theorem sound_serve {repr : Text → Text} {e : TrackerEvent} (h : S.Sound) :
    (S.serve repr e).Sound := by
  intro i hi
  rcases S.serve_cases repr e with ⟨req, reporter, now, heq⟩ | hsame
  · rw [heq] at hi ⊢
    rcases Dict.mem_keys_set.mp hi with hold | rfl
    · obtain ⟨hlt, hcomments⟩ := h i hold
      exact ⟨Int.lt_trans hlt (Int.lt_succ _), Dict.mem_keys_set.mpr (.inl hcomments)⟩
    · exact ⟨Int.lt_succ _, Dict.mem_keys_set.mpr (.inr rfl)⟩
  · obtain ⟨hcounter, hkeys, hcomments⟩ := hsame
    rw [hkeys] at hi
    obtain ⟨hlt, hi⟩ := h i hi
    exact ⟨by rwa [hcounter], hcomments i hi⟩

private theorem sound_of_run {repr : Text → Text} {identity : Text} {es : List TrackerEvent}
    (h : Run (Serves repr) (blank identity) es S) : S.Sound := by
  refine h.invariant Sound (fun i hi => absurd hi List.not_mem_nil) fun S e T hS hstep => ?_
  rw [hstep]
  exact sound_serve hS

/-! ### Histories are complete -/

/-- The history of the issue, replayed over the fields it had at first, gives those it has. -/
def Complete (i : ℤ) (born : Issue) (S : MockIssueTrackerDriver) : Prop :=
  ∃ issue history, S.issues.get? i = some issue ∧ S.updates.get? i = some history ∧
    born.fields.replay history = issue.fields

/-- The same of the history as it is listed, newest first. -/
def Replays (i : ℤ) (born : Issue) (S : MockIssueTrackerDriver) : Prop :=
  ∃ issue rows, S.issues.get? i = some issue ∧ S.listIssueUpdates i = some rows ∧
    born.fields.replay rows.reverse = issue.fields

private theorem Complete.replays {born : Issue} (h : Complete i born S) : Replays i born S := by
  obtain ⟨issue, history, hissue, hhistory, hreplay⟩ := h
  refine ⟨issue, history.reverse, hissue, ?_, by rwa [List.reverse_reverse]⟩
  rw [listIssueUpdates, if_pos (Dict.mem_keys.mpr ⟨issue, hissue⟩), hhistory]
  rfl

private theorem Complete.of_accounts {born : Issue} (h : Complete i born S) (h' : Accounts i S T) :
    Complete i born T := by
  obtain ⟨issue, history, hissue, hhistory, hreplay⟩ := h
  obtain ⟨issue', recorded, hissue', hhistory', hexplains⟩ := h' issue history hissue hhistory
  refine ⟨issue', history ++ recorded, hissue', hhistory', ?_⟩
  rw [Fields.replay, List.flatMap_append]
  exact Explains.trans hreplay hexplains

/-- An issue that has just been created has an empty history. -/
theorem complete_of_created {repr : Text → Text} {e : TrackerEvent} {born : Issue}
    (hnew : S.issues.get? i = none) (hborn : (S.serve repr e).issues.get? i = some born) :
    Complete i born (S.serve repr e) := by
  rcases S.serve_cases repr e with ⟨req, reporter, now, heq⟩ | ⟨-, hkeys, -⟩
  · rw [heq] at hborn ⊢
    obtain rfl : i = S.counter := by
      by_contra hne
      have hold := (Dict.get?_set_of_ne hne).symm.trans hborn
      rw [hnew] at hold
      cases hold
    exact ⟨born, [], hborn, Dict.get?_set_self, rfl⟩
  · refine absurd ?_ (Dict.get?_eq_none.mp hnew)
    rw [← hkeys]
    exact Dict.mem_keys.mpr ⟨born, hborn⟩

/-- From the step that creates an issue on, its history is complete in every state that is reached
by operations which record what they change about it. -/
theorem replays_of_recorded {repr : Text → Text} {identity : Text} {es es' : List TrackerEvent}
    {e : TrackerEvent} {born : Issue} (hbefore : Run (Serves repr) (blank identity) es S)
    (hnew : S.issues.get? i = none) (hcreate : Serves repr S e T)
    (hborn : T.issues.get? i = some born)
    (hafter : Run ((Serves repr).within (Recorded i)) T es' U) : Replays i born U := by
  have hsound := sound_of_run (hbefore.snoc hcreate)
  obtain rfl : T = S.serve repr e := hcreate
  refine (hafter.invariant (fun U => U.Sound ∧ Complete i born U)
    ⟨hsound, complete_of_created hnew hborn⟩ ?_).2.replays
  rintro U f V ⟨hU, hcomplete⟩ ⟨hrecorded, rfl⟩
  obtain ⟨issue, hissue⟩ : ∃ issue, U.issues.get? i = some issue :=
    hcomplete.imp fun issue h => h.choose_spec.1
  obtain ⟨hlt, hcomments⟩ := hU i (Dict.mem_keys.mpr ⟨issue, hissue⟩)
  exact ⟨sound_serve hU, hcomplete.of_accounts (serve_accounts hlt.ne hcomments hrecorded)⟩

section Seeded

/-- One component, for an issue of it. -/
private def component : MockIssueTrackerDriver :=
  (blank (text "me")).serveAll id [.seedComponent 1]

private def seedRow : TrackerEvent :=
  .seedIssue ⟨1, text "a", text "NEW", text "BUG", text "P2", text "S2", [], []⟩ (text "r") 0

private def seededIssue : Issue :=
  { issueId := 1001, componentId := 1, title := .str (text "a"), reporter := text "r" }

/-- The issue is assigned, with a comment. -/
private def assign : TrackerEvent :=
  .modifyIssue 1001
    { sets := Dict.empty.set (text "status") (.str (text "ASSIGNED")), comment := some (text "c") }
    1 2

/-- The issue is replayed from the update that assigns it. -/
theorem replays_assigned :
    Replays 1001 seededIssue (((component.serve id seedRow).serve id assign)) := by
  have hbefore : Run (Serves id) (blank (text "me")) _ component := run_serveAll id _ _
  have hrecorded : Recorded 1001 (component.serve id seedRow) assign := by
    refine fun _ issue _ => .inl ⟨?_, List.forall_mem_nil _, List.forall_mem_nil _⟩
    decide +kernel
  exact replays_of_recorded hbefore (by decide +kernel) rfl (by decide +kernel)
    (.single ⟨hrecorded, rfl⟩)

/-- An issue is put on a hotlist, and its history says nothing about it. -/
theorem hotlist_unrecorded : ¬ ∀ (repr : Text → Text) identity es S i e T born es' U,
    Run (Serves repr) (blank identity) es S → S.issues.get? i = none → Serves repr S e T →
      T.issues.get? i = some born → Run (Serves repr) T es' U → Replays i born U := by
  intro h
  have hbefore : Run (Serves id) (blank (text "me")) _ component := run_serveAll id _ _
  obtain ⟨issue, rows, hissue, hrows, hreplay⟩ := h id _ _ component 1001 seedRow _ seededIssue
    [.createHotlistEntry { hotlistId := 7, issueId := 1001 } 1] _ hbefore (by decide +kernel) rfl
    (by decide +kernel) (.single rfl)
  have hlists : issue.hotlistIds = [.int 7] := by
    have heq := congrArg (Option.map Issue.hotlistIds) hissue
    exact (Option.some.inj (heq.symm.trans (by decide +kernel)))
  have hempty : rows = [] := Option.some.inj (hrows.symm.trans (by decide +kernel))
  have hreplayed := congrArg (fun F => F.collection .hotlistIds) hreplay
  rw [hempty] at hreplayed
  exact absurd (hreplayed.trans hlists) (by decide)

end Seeded

end MockIssueTrackerDriver

end Jetty.Issuetracker
