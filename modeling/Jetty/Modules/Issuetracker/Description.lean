import Jetty.Core.Failure
import Jetty.Modules.Issuetracker.Routes

/-!
# The description

The description of an issue is kept twice: with the issue, and as comment 1. The two agree at any
time, but the full view of an issue renders the description without its author.
-/

namespace Jetty.Issuetracker

open Python Failure Transition

/-- Who wrote which comment. -/
def Comment.stamp (c : Comment) : ℤ × ℕ × Text := (c.issueId, c.number, c.author)

/-- The comments are numbered in the order in which they were made, and the first is the
description. -/
structure Commented (i : ℤ) (f : Folder) : Prop where
  issueId : f.issue.issueId = i
  numbers : f.comments.map Comment.number = List.range' 1 f.comments.length
  first : f.comments.head? = some ⟨i, 1, f.issue.description, f.issue.reporter⟩

/-- What was written stays in its place. -/
def Continues (f f' : Folder) : Prop :=
  f.comments.map Comment.stamp <+: f'.comments.map Comment.stamp

section Steps

variable {i : ℤ} {f f' : Folder} {repr : Text → Text} {identity : Text} {e : TrackerEvent}

private theorem commented_born (i : ℤ) (req : IssueCreate) (reporter : Text) (now : ℚ) :
    Commented i (.born i req reporter now) := ⟨rfl, rfl, rfl⟩

/-- Of an issue only its identifier, its reporter and its description matter. -/
theorem Commented.congr (h : Commented i f) (hcomments : f'.comments = f.comments)
    (hissueId : f'.issue.issueId = f.issue.issueId)
    (hreporter : f'.issue.reporter = f.issue.reporter)
    (hdescription : f'.issue.description = f.issue.description) : Commented i f' where
  issueId := hissueId.trans h.issueId
  numbers := by rw [hcomments, h.numbers]
  first := by rw [hcomments, h.first, hreporter, hdescription]

private theorem Commented.edit (h : Commented i f) {req : IssueModify} {issue : Issue}
    {changes : List FieldChange} {refusal : Option DriverError}
    (hedit : editIssue repr f.issue req = ((issue, changes), refusal)) :
    Commented i { f with issue } := by
  have hrest := sameRest_editIssue repr f.issue req
  rw [hedit] at hrest
  exact h.congr rfl hrest.issueId hrest.reporter hrest.description

private theorem Commented.comment (h : Commented i f) (body author : Text) (now : ℚ) :
    Commented i (f.comment i body author now) where
  issueId := h.issueId
  numbers := by
    rw [Folder.comment, List.map_append, h.numbers, List.length_append, List.length_singleton,
      List.range'_concat, Nat.one_mul, Nat.add_comm 1]
    rfl
  first := by
    rw [Folder.comment, List.head?_append, h.first]
    rfl

/-- A change that a function does not see. -/
theorem map_modify_of_comp {α β : Type} {g : α → β} {change : α → α} (h : ∀ a, g (change a) = g a)
    (l : List α) (n : ℕ) : (l.modify n change).map g = l.map g := by
  induction l generalizing n with
  | nil => rw [List.modify_nil]
  | cons a l ih =>
      cases n with
      | zero => rw [List.modify_zero_cons, List.map_cons, List.map_cons, h]
      | succ n => rw [List.modify_succ_cons, List.map_cons, List.map_cons, ih]

private theorem map_rewrite {β : Type} {g : Comment → β}
    (hg : ∀ c body, g { c with text := body } = g c)
    (f : Folder) (number : ℕ) (body : Text) (now : ℚ) :
    (f.rewrite number body now).comments.map g = f.comments.map g :=
  map_modify_of_comp (fun c => hg c body) f.comments _

private theorem Commented.rewrite (h : Commented i f) {number : ℕ} (hlow : 1 ≤ number) (body : Text)
    (now : ℚ) : Commented i (f.rewrite number body now) where
  issueId := by
    unfold Folder.rewrite
    split <;> exact h.issueId
  numbers := by
    rw [map_rewrite fun _ _ => rfl, h.numbers, Folder.rewrite, List.length_modify]
  first := by
    have hfirst := h.first
    obtain ⟨rest, hcomments⟩ := List.head?_eq_some_iff.mp hfirst
    unfold Folder.rewrite
    by_cases hone : number = 1
    · subst hone
      rw [hcomments]
      rfl
    · obtain ⟨n, rfl⟩ : ∃ n, number = n + 2 := ⟨number - 2, by omega⟩
      rw [hcomments, if_neg hone]
      rfl

/-- Whatever is done to an issue, comment 1 stays the description. -/
theorem commented_act (hact : Act repr identity i e f f') (h : Commented i f) : Commented i f' := by
  cases hact with
  | idle => exact h
  | modified hmodified =>
      rename_i commented now
      cases hmodified with
      | refused hedit => exact h.edit hedit
      | quiet hedit _ => exact h.edit hedit
      | recorded hedit _ _ => exact (h.edit hedit).congr rfl rfl rfl rfl
      | explained hedit _ =>
          exact ((h.edit hedit).comment _ identity commented).congr rfl rfl rfl rfl
  | related => exact h.congr rfl rfl rfl rfl
  | commented => exact h.comment _ identity _
  | rewritten hlow _ => exact h.rewrite hlow _ _
  | listed _ _ => exact h.congr rfl rfl rfl rfl
  | unlisted _ => exact h.congr rfl rfl rfl rfl

private theorem continues_of_append {c : Comment} (h : f'.comments = f.comments ++ [c]) :
    Continues f f' := by
  rw [Continues, h, List.map_append]
  exact List.prefix_append _ _

private theorem continues_act (hact : Act repr identity i e f f') : Continues f f' := by
  cases hact with
  | modified hmodified =>
      cases hmodified with
      | explained _ _ => exact continues_of_append rfl
      | _ => exact List.prefix_rfl
  | commented => exact continues_of_append rfl
  | rewritten _ _ =>
      unfold Continues
      simp only [map_rewrite (g := Comment.stamp) fun _ _ => rfl, List.prefix_rfl]
  | _ => exact List.prefix_rfl

/-- No other comment has the number of the first. -/
theorem first_of_number (h : Commented i f) {row : Comment} (hrow : row ∈ f.comments)
    (hnumber : row.number = 1) : row = ⟨i, 1, f.issue.description, f.issue.reporter⟩ := by
  obtain ⟨rest, hcomments⟩ := List.head?_eq_some_iff.mp h.first
  have hnodup : (f.comments.map Comment.number).Nodup := by
    rw [h.numbers]
    exact List.nodup_range'
  have hfirst : ⟨i, 1, f.issue.description, f.issue.reporter⟩ ∈ f.comments := by
    rw [hcomments]
    exact List.mem_cons_self
  exact List.inj_on_of_nodup_map hnodup hrow hfirst hnumber

end Steps

namespace MockIssueTrackerDriver

variable {S T : MockIssueTrackerDriver} {repr : Text → Text} {identity : Text}
  {es : List TrackerEvent} {i : ℤ} {f : Folder}

/-- In every reachable state the comments of an issue are numbered and begin with its description.
-/
theorem commented_of_run (hrun : Run (Serves repr) (blank identity) es S)
    (hf : S.folder i = some f) : Commented i f :=
  folder_invariant Commented commented_born (fun _ _ _ _ => commented_act) hrun hf

/-- The comments of an issue are continued in every run. -/
theorem continues_of_run (hfiled : S.Filed) (hf : S.folder i = some f)
    (hrun : Run (Serves repr) S es T) : ∃ f', T.folder i = some f' ∧ Continues f f' := by
  have hlater : T.Filed ∧ ∃ f', T.folder i = some f' ∧ Continues f f' := by
    refine hrun.invariant (fun T => T.Filed ∧ ∃ f', T.folder i = some f' ∧ Continues f f')
      ⟨hfiled, f, hf, List.prefix_rfl⟩ ?_
    rintro T e U ⟨hfiled, f', hf', hcontinues⟩ rfl
    obtain ⟨f'', hf'', hact⟩ := act_of_serve repr hfiled hf' e
    exact ⟨filed_serve hfiled e, f'', hf'', hcontinues.trans (continues_act hact)⟩
  exact hlater.2

private theorem listComments_eq (hf : S.folder i = some f) :
    S.listComments i = some f.comments := by
  rw [listComments, if_pos (mem_keys_of_folder hf), (folder_eq_some.mp hf).2.1]
  rfl

/-! ### What the routes answer with -/

section Routes

variable {lib : Library}

private theorem mem_of_selectIssues {terms : List Text} {issues rows : List Issue}
    (h : selectIssues lib terms issues = .ok rows) {issue : Issue} (hissue : issue ∈ rows) :
    issue ∈ issues := by
  induction issues generalizing rows with
  | nil =>
      obtain rfl := Except.ok.inj h
      exact hissue
  | cons first issues ih =>
      rw [selectIssues] at h
      cases hmatch : matchTerms lib first terms with
      | error e =>
          rw [hmatch] at h
          cases h
      | ok found =>
          rw [hmatch] at h
          cases hrest : selectIssues lib terms issues with
          | error e =>
              rw [hrest] at h
              cases h
          | ok rest =>
              rw [hrest] at h
              obtain rfl := Except.ok.inj h
              dsimp only at hissue
              split at hissue
              · rcases List.mem_cons.mp hissue with rfl | hissue
                · exact List.mem_cons_self
                · exact List.mem_cons_of_mem _ (ih hrest hissue)
              · exact List.mem_cons_of_mem _ (ih hrest hissue)

private theorem mem_of_listRows {query : Text} {keys : List (SortField × Bool)} {rows : List Issue}
    (h : S.listRows lib query keys = .ok rows) {issue : Issue} (hissue : issue ∈ rows) :
    issue ∈ S.issues.values := by
  obtain ⟨selected, hselect, hsort⟩ := bind_eq_ok.mp h
  have hsame : ∀ issue ∈ rows, issue ∈ selected := by
    refine @foldlM_invariant _ _ _ sortBy (fun _ rows => ∀ issue ∈ rows, issue ∈ selected) _ _ _
      ?_ ?_ hsort
    · exact fun issue hissue => List.mem_mergeSort.mp hissue
    · intro _ key rows rows' hrows hnext issue hissue
      unfold sortBy at hnext
      split at hnext
      · obtain rfl := Except.ok.inj hnext
        exact hrows issue (List.mem_mergeSort.mp hissue)
      · cases hnext
  exact mem_of_selectIssues hselect (hsame issue hissue)

private theorem mem_of_listIssues {query : IssueQuery} {rows : List Issue} {token : Text} {n : ℕ}
    (h : S.listIssues lib query = .ok (rows, token, n)) {issue : Issue} (hissue : issue ∈ rows) :
    issue ∈ S.issues.values := by
  unfold listIssues at h
  obtain ⟨all, hall, hpage⟩ := bind_eq_ok.mp h
  split at hpage
  · rename_i window token' hwindow
    obtain ⟨rfl, -⟩ := Prod.mk.inj (Except.ok.inj hpage)
    unfold paginate at hwindow
    obtain ⟨offset, -, hcut⟩ := map_eq_ok.mp hwindow
    obtain ⟨rfl, -⟩ := Prod.mk.inj hcut
    exact mem_of_listRows hall (List.mem_of_mem_drop (List.mem_of_mem_take hissue))
  · cases hpage
  · cases hpage

private theorem of_require {iid : ℤ} {result : Option Issue} {issue : Issue}
    (h : require iid result = .ok issue) : result = some issue := by
  unfold require at h
  split at h
  · rw [Except.ok.inj h]
  · cases h

private theorem mem_of_listRoute {query orderBy : Option Text} {pageSize : Option ℤ}
    {pageToken view : Option Text} {issues : List Issue} {v : View}
    (h : S.listRoute lib query orderBy pageSize pageToken view = .ok (issues, v)) {issue : Issue}
    (hissue : issue ∈ issues) : issue ∈ S.issues.values := by
  unfold listRoute at h
  split at h
  · cases h
  · obtain ⟨v', -, h⟩ := bind_eq_ok.mp h
    obtain ⟨keys, -, h⟩ := bind_eq_ok.mp h
    obtain ⟨page, -, h⟩ := bind_eq_ok.mp h
    split at h
    · rename_i rows token n hrows
      obtain ⟨rfl, -⟩ := Prod.mk.inj (Except.ok.inj h)
      exact mem_of_listIssues hrows hissue
    · cases h
    · cases h

private theorem of_drive {α : Type} {result : Except DriverError α} {a : α}
    (h : drive result = .ok a) : result = .ok a := by
  unfold drive at h
  split at h
  · rw [Except.ok.inj h]
  · cases h
  · cases h

private theorem stored_of_createIssue {req : IssueCreate} {now : ℚ} {issue : Issue}
    (h : drive (S.createIssue req now).2 = .ok issue) :
    issue ∈ (S.createIssue req now).1.issues.values := by
  unfold createIssue at h ⊢
  split at h
  · rename_i hcomponent
    obtain rfl := Except.ok.inj h
    rw [if_pos hcomponent]
    exact Dict.mem_values.mpr ⟨_, Dict.get?_set_self⟩
  · cases h

private theorem stored_of_modifyIssue (hf : S.folder i = some f) {req : IssueModify}
    {commented now : ℚ}
    {issue : Issue} (h : (S.modifyIssue repr i req commented now).2 = .ok (some issue)) :
    (S.modifyIssue repr i req commented now).1.issues.get? i = some issue := by
  obtain ⟨f', hf', -, -, hanswer⟩ := folder_modifyIssue repr hf req commented now
  cases hrefusal : (editIssue repr f.issue req).2 with
  | none =>
      obtain rfl := Option.some.inj (Except.ok.inj (h.symm.trans (hanswer hrefusal)))
      exact (folder_eq_some.mp hf').1
  | some e =>
      simp only [modifyIssue, (folder_eq_some.mp hf).1, hrefusal] at h
      cases h

private theorem stored_of_modify (hfiled : S.Filed) {iid : ℤ} {body : List (Text × Json)}
    {commented now : ℚ} {issue : Issue}
    (h : (modify repr S iid body commented now).2 = .ok (some issue)) :
    ∃ req, (modify repr S iid body commented now).1 =
        S.serve repr (.modifyIssue iid req commented now) ∧
      issue ∈ (modify repr S iid body commented now).1.issues.values := by
  unfold modify at h ⊢
  cases hparse : parseModify repr body with
  | error e =>
      rw [hparse] at h
      cases h
  | ok req =>
      rw [hparse] at h
      have hanswer := of_drive h
      refine ⟨req, rfl, ?_⟩
      cases hissue : S.issues.get? iid with
      | none =>
          rw [modifyIssue, hissue] at hanswer
          cases hanswer
      | some before =>
          obtain ⟨f, hf, -⟩ := hfiled.folder hissue
          exact Dict.mem_values.mpr ⟨iid, stored_of_modifyIssue hf hanswer⟩

/-- A route leaves the issues it answers with in the store. -/
theorem stored_of_route (hrun : Run (Serves lib.repr) (blank identity) es S)
    {request : IssueRequest} {issues : List Issue} {v : View}
    (h : S.route lib request = (T, .ok (issues, v))) :
    (∃ es', Run (Serves lib.repr) S es' T) ∧ ∀ issue ∈ issues, issue ∈ T.issues.values := by
  cases request with
  | list query orderBy pageSize pageToken view =>
      obtain ⟨rfl, hlist⟩ := Prod.mk.inj h
      exact ⟨⟨[], .nil⟩, fun issue hissue => mem_of_listRoute hlist hissue⟩
  | batchGet issueIds view =>
      obtain ⟨rfl, hanswer⟩ := Prod.mk.inj h
      obtain ⟨v', -, hanswer⟩ := bind_eq_ok.mp hanswer
      obtain ⟨ids, -, hanswer⟩ := bind_eq_ok.mp hanswer
      obtain ⟨rfl, -⟩ := Prod.mk.inj (Except.ok.inj hanswer)
      refine ⟨⟨[], .nil⟩, fun issue hissue => ?_⟩
      obtain ⟨i, -, hi⟩ := List.mem_filterMap.mp hissue
      exact Dict.mem_values.mpr ⟨i, hi⟩
  | get issueId view =>
      obtain ⟨rfl, hanswer⟩ := Prod.mk.inj h
      obtain ⟨v', -, hanswer⟩ := bind_eq_ok.mp hanswer
      obtain ⟨iid, -, hanswer⟩ := bind_eq_ok.mp hanswer
      obtain ⟨issue, hrequire, hanswer⟩ := bind_eq_ok.mp hanswer
      obtain ⟨rfl, -⟩ := Prod.mk.inj (Except.ok.inj hanswer)
      refine ⟨⟨[], .nil⟩, fun issue' hissue => ?_⟩
      obtain rfl := List.mem_singleton.mp hissue
      exact Dict.mem_values.mpr ⟨iid, of_require hrequire⟩
  | create body now =>
      rw [route] at h
      split at h
      · cases h
      · rename_i req hreq
        obtain ⟨rfl, hanswer⟩ := Prod.mk.inj h
        obtain ⟨issue, hdrive, hanswer⟩ := map_eq_ok.mp hanswer
        obtain ⟨rfl, -⟩ := Prod.mk.inj hanswer
        refine ⟨⟨[.createIssue req now], .single rfl⟩, fun issue' hissue => ?_⟩
        obtain rfl := List.mem_singleton.mp hissue
        exact stored_of_createIssue hdrive
  | modify issueId body commented now =>
      rw [route] at h
      split at h
      · cases h
      · cases h
      · rename_i iid entries _ _
        obtain ⟨rfl, hanswer⟩ := Prod.mk.inj h
        obtain ⟨result, hresult, hanswer⟩ := bind_eq_ok.mp hanswer
        obtain ⟨issue, hrequire, hanswer⟩ := bind_eq_ok.mp hanswer
        obtain ⟨rfl, -⟩ := Prod.mk.inj (Except.ok.inj hanswer)
        rw [of_require hrequire] at hresult
        obtain ⟨req, hmodify, hstored⟩ := stored_of_modify (filed_of_run hrun).1 hresult
        refine ⟨⟨[.modifyIssue iid req commented now], .single hmodify⟩, fun issue' hissue => ?_⟩
        obtain rfl := List.mem_singleton.mp hissue
        exact hstored

/-! ### The description and comment 1 -/

/-- A route answers with the issue in its full view, or it is stored. -/
inductive Shown (lib : Library) (S T : MockIssueTrackerDriver) (issue : Issue) : Prop
  | stored (hsame : T = S) (hissue : issue ∈ S.issues.values)
  | answered {request : IssueRequest} {issues : List Issue}
      (hroute : S.route lib request = (T, .ok (issues, .full))) (hissue : issue ∈ issues)

/-- The comments are numbered from 1 on, they keep their numbers whatever happens, and the
description in the full view is the comment with the number 1. -/
structure CommentOne (isoformat : ℤ → Text) (repr : Text → Text) (T : MockIssueTrackerDriver)
    (issue : Issue) (rows : List Comment) : Prop where
  listed : T.listComments issue.issueId = some rows
  numbers : rows.map Comment.number = List.range' 1 rows.length
  kept : ∀ es U, Run (Serves repr) T es U → ∃ rows', U.listComments issue.issueId = some rows' ∧
    rows.map Comment.stamp <+: rows'.map Comment.stamp
  description : ∃ row ∈ rows, row.number = 1 ∧
    Json.get? (issueJson isoformat issue .full) (text "description") =
      some (.dict (commentJson row))

private theorem description_issueJson (isoformat : ℤ → Text) (issue : Issue) :
    Json.get? (issueJson isoformat issue .full) (text "description") =
      some (.dict (commentJson ⟨issue.issueId, 1, issue.description, []⟩)) := rfl

/-- Rendered comments that agree but for the author agree if nobody is named. -/
theorem commentJson_eq_iff (i : ℤ) (n : ℕ) (body author : Text) :
    commentJson ⟨i, n, body, []⟩ = commentJson ⟨i, n, body, author⟩ ↔ author = [] := by
  unfold commentJson
  rw [List.append_cancel_left_eq]
  cases author with
  | nil => exact iff_of_true rfl rfl
  | cons c cs => exact iff_of_false nofun nofun

/-- Whatever is shown is filed, in a state that is reached. -/
theorem folder_of_shown (hrun : Run (Serves lib.repr) (blank identity) es S) {issue : Issue}
    (h : Shown lib S T issue) : T.Filed ∧ ∃ f, T.folder issue.issueId = some f ∧
      f.issue = issue ∧ Commented issue.issueId f := by
  have hreached : (∃ es', Run (Serves lib.repr) S es' T) ∧ issue ∈ T.issues.values := by
    cases h with
    | stored hsame hissue =>
        subst hsame
        exact ⟨⟨[], .nil⟩, hissue⟩
    | answered hroute hissue =>
        obtain ⟨hrun', hstored⟩ := stored_of_route hrun hroute
        exact ⟨hrun', hstored issue hissue⟩
  obtain ⟨⟨es', hrun'⟩, hstored⟩ := hreached
  have hlate := hrun.append hrun'
  have hfiled := (filed_of_run hlate).1
  obtain ⟨i, hi⟩ := Dict.mem_values.mp hstored
  obtain ⟨f, hf, rfl⟩ := hfiled.folder hi
  have hcommented := commented_of_run hlate hf
  rw [hcommented.issueId]
  exact ⟨hfiled, f, hf, rfl, hcommented⟩

private theorem reporter_of_commentOne {isoformat : ℤ → Text}
    (hrun : Run (Serves lib.repr) (blank identity) es S) {issue : Issue}
    (hshown : Shown lib S T issue) {rows : List Comment}
    (hone : CommentOne isoformat lib.repr T issue rows) : issue.reporter = [] := by
  obtain ⟨-, f, hf, rfl, hcommented⟩ := folder_of_shown hrun hshown
  obtain rfl := Option.some.inj ((listComments_eq hf).symm.trans hone.listed)
  obtain ⟨row, hrow, hnumber, hdescription⟩ := hone.description
  obtain rfl := first_of_number hcommented hrow hnumber
  rw [description_issueJson] at hdescription
  exact (commentJson_eq_iff _ _ _ _).mp (Json.dict.inj (Option.some.inj hdescription))

/-- In every run, the description in the full view of an issue is comment 1 exactly if no reporter
is recorded. -/
theorem description_iff {isoformat : ℤ → Text} (hrun : Run (Serves lib.repr) (blank identity) es S)
    {issue : Issue} (hshown : Shown lib S T issue) :
    (∃ rows, CommentOne isoformat lib.repr T issue rows) ↔ issue.reporter = [] := by
  constructor
  · rintro ⟨rows, hone⟩
    exact reporter_of_commentOne hrun hshown hone
  · intro hreporter
    obtain ⟨hfiled, f, hf, rfl, hcommented⟩ := folder_of_shown hrun hshown
    obtain ⟨rest, hcomments⟩ := List.head?_eq_some_iff.mp hcommented.first
    refine ⟨f.comments, listComments_eq hf, hcommented.numbers, fun es' U hlate => ?_, ?_⟩
    · obtain ⟨f', hf', hcontinues⟩ := continues_of_run hfiled hf hlate
      exact ⟨f'.comments, listComments_eq hf', hcontinues⟩
    · refine ⟨_, by rw [hcomments]; exact List.mem_cons_self, rfl, ?_⟩
      rw [description_issueJson, (commentJson_eq_iff _ _ _ _).mpr hreporter]

end Routes

/-- An issue that is seeded without a reporter. -/
private def anonymous : List TrackerEvent :=
  [.seedComponent 1, .seedIssue ⟨1, text "crash", text "NEW", text "BUG", text "P2", text "S2",
    text "it crashes", []⟩ [] 0]

/-- An issue that is created through the surface. -/
private def attributed : List TrackerEvent :=
  [.seedComponent 1, .createIssue ⟨1, text "crash", text "NEW", text "BUG", text "P2", text "S2",
    text "it crashes", []⟩ 0]

private def plainLibrary : Library := ⟨id, id, id⟩

/-- An issue that nobody has reported shows its comment 1 in full. -/
theorem description_iff_anonymous : ∃ S issue, Shown plainLibrary S S issue ∧
    ((∃ rows, CommentOne (fun _ => []) plainLibrary.repr S issue rows) ↔ issue.reporter = []) := by
  have hrun := run_serveAll plainLibrary.repr (blank (text "jetty")) anonymous
  obtain ⟨issue, hissue⟩ : ∃ issue,
      (serveAll plainLibrary.repr (blank (text "jetty")) anonymous).issues.get? 1001 = some issue :=
    Option.isSome_iff_exists.mp (by decide +kernel)
  have hshown : Shown plainLibrary _ _ issue := .stored rfl (Dict.mem_values.mpr ⟨_, hissue⟩)
  exact ⟨_, issue, hshown, description_iff hrun hshown⟩

/-- The identity of the service is recorded as the author of comment 1, and the description does not
show it. -/
theorem not_description_attributed : ¬ ∀ (lib : Library) (isoformat : ℤ → Text) (identity : Text)
    (es : List TrackerEvent) (S T : MockIssueTrackerDriver) (issue : Issue),
      Run (Serves lib.repr) (blank identity) es S → Shown lib S T issue →
        ∃ rows, CommentOne isoformat lib.repr T issue rows := by
  intro h
  have hrun := run_serveAll plainLibrary.repr (blank (text "jetty")) attributed
  have hreporter : ((serveAll plainLibrary.repr (blank (text "jetty")) attributed).issues.get?
      1001).map Issue.reporter = some (text "jetty") := by decide +kernel
  obtain ⟨issue, hissue, hreporter⟩ := Option.map_eq_some_iff.mp hreporter
  have hshown : Shown plainLibrary _ _ issue := .stored rfl (Dict.mem_values.mpr ⟨_, hissue⟩)
  obtain ⟨rows, hone⟩ := h plainLibrary (fun _ => []) _ _ _ _ issue hrun hshown
  have hnone := reporter_of_commentOne hrun hshown hone
  rw [hreporter] at hnone
  cases hnone

end MockIssueTrackerDriver

end Jetty.Issuetracker
