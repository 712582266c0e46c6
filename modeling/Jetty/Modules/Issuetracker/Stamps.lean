import Jetty.Core.Python.Rounding
import Jetty.Modules.Issuetracker.Modify

/-!
# The time of the last modification

Clients compare `modifiedTime` to find out whether an issue has changed. Whatever the clock says, a
change makes it later, unless the driver gives up half way through a modification.
-/

namespace Jetty.Issuetracker

open Python Transition

/-- The request with the clock as the driver reads it. -/
def TrackerEvent.clocked : TrackerEvent → TrackerEvent
  | .seedComponent componentId => .seedComponent componentId
  | .seedIssue req reporter now => .seedIssue req reporter (round6 now)
  | .createIssue req now => .createIssue req (round6 now)
  | .modifyIssue issueId req commented now =>
    .modifyIssue issueId req (round6 commented) (round6 now)
  | .createRelationship issueId rel now => .createRelationship issueId rel (round6 now)
  | .createComment issueId body now => .createComment issueId body (round6 now)
  | .updateComment issueId number body now => .updateComment issueId number body (round6 now)
  | .createHotlistEntry entry now => .createHotlistEntry entry (round6 now)
  | .deleteHotlistEntry hotlistId issueId now => .deleteHotlistEntry hotlistId issueId (round6 now)

/-- The driver reads whole microseconds. -/
def TrackerEvent.Ticks (e : TrackerEvent) : Prop := ∀ t ∈ e.times, Ticked t

private theorem ticks_clocked (e : TrackerEvent) : e.clocked.Ticks := by
  have htimes : e.clocked.times = e.times.map round6 := by
    cases e <;> rfl
  rw [TrackerEvent.Ticks, htimes, List.forall_mem_map]
  exact fun t _ => ticked_round6 t

/-- The issue that a request is about, if it is there already. -/
def TrackerEvent.target : TrackerEvent → Option ℤ
  | .modifyIssue issueId _ _ _ | .createRelationship issueId _ _ | .createComment issueId _ _
  | .updateComment issueId _ _ _ | .deleteHotlistEntry _ issueId _ => some issueId
  | .createHotlistEntry entry _ => some entry.issueId
  | .seedComponent _ | .seedIssue _ _ _ | .createIssue _ _ => none

/-- Everything about an issue but its history and the time of its modification. -/
def Folder.content (f : Folder) : Issue × List Comment × List Relationship :=
  ({ f.issue with modified := 0 }, f.comments, f.relationships)

/-- The times that are kept about an issue. -/
structure Dated (f : Folder) : Prop where
  created : f.issue.created ≤ f.issue.modified
  increasing : (f.updates.map IssueUpdate.timestamp).Pairwise Later
  recorded : ∀ u ∈ f.updates, u.timestamp ≤ f.issue.modified
  ticked : Ticked f.issue.modified ∧ ∀ u ∈ f.updates, Ticked u.timestamp

/-- What the time of the modification tells about a request. -/
structure Detects (i : ℤ) (e : TrackerEvent) (f f' : Folder) : Prop where
  changed : f'.content ≠ f.content → Later f.issue.modified f'.issue.modified
  others : e.target ≠ some i → f'.issue.modified = f.issue.modified
  quiet : ∀ req commented now, e = .modifyIssue i req commented now → QuietMasks f.issue req →
    req.comment = none → f'.issue.modified = f.issue.modified ∧ f'.updates = f.updates
  recorded : f'.updates = f.updates ∨
    ∃ u, f'.updates = f.updates ++ [u] ∧ u.timestamp = f'.issue.modified

/-- The driver knows all names of a modification, or what stands before the first one that it does
not know changes nothing. -/
def Completes (S : MockIssueTrackerDriver) : TrackerEvent → Prop
  | .modifyIssue issueId req _ _ => ∀ issue, S.issues.get? issueId = some issue →
    KnownMasks req ∨ QuietMasks issue req
  | _ => True

section Steps

variable {repr : Text → Text} {identity : Text} {i : ℤ} {e : TrackerEvent} {f f' : Folder}

/-- A touch moves the modification time on, whatever the clock says. -/
theorem lt_touch (issue : Issue) (now : ℚ) : issue.modified < (issue.touch now).modified := by
  have hnext : issue.modified + 1 / 1000000 ≤ (issue.touch now).modified := le_max_right _ _
  linarith

private theorem ticked_touch {issue : Issue} (h : Ticked issue.modified) {now : ℚ}
    (hnow : Ticked now) : Ticked (issue.touch now).modified := hnow.max h.next

private theorem lt_of_editIssue {issue issue' : Issue} {req : IssueModify}
    {changes : List FieldChange} {refusal : Option DriverError} {t : ℚ}
    (h : editIssue repr issue req = ((issue', changes), refusal)) (ht : issue'.modified < t) :
    issue.modified < t := by
  have hrest := sameRest_editIssue repr issue req
  rw [h] at hrest
  rwa [← hrest.modified]

/-- An issue is its fields and what no mask can name. -/
theorem issue_ext {issue issue' : Issue} (hrest : SameRest issue issue')
    (hfields : issue'.fields = issue.fields) : issue' = issue := by
  have hscalar (attr : Scalar) := congrFun (congrArg Fields.scalar hfields) attr
  have hcollection (attr : Collection) := congrFun (congrArg Fields.collection hfields) attr
  obtain ⟨hissueId, hcomponentId, hreporter, hcreated, hmodified, hdescription⟩ := hrest
  cases issue
  cases issue'
  simp only [Issue.mk.injEq]
  exact ⟨hissueId, hcomponentId, hscalar .title, hscalar .type, hscalar .status, hscalar .priority,
    hscalar .severity, hreporter, hscalar .assignee, hscalar .verifier, hcollection .ccs,
    hcollection .hotlistIds, hcollection .blockedBy, hcreated, hmodified, hdescription⟩

/-- A modification that is quiet does nothing. -/
theorem Modifies.eq_of_quiet {req : IssueModify} {commented now : ℚ}
    (h : Modifies repr identity i req commented now f f') (hquiet : QuietMasks f.issue req)
    (hcomment : req.comment = none) : f' = f := by
  have hedits := editIssue_quiet repr hquiet
  cases h with
  | refused hedit =>
      rw [hedit] at hedits
      obtain ⟨rfl, -⟩ := Prod.mk.inj hedits
      rfl
  | quiet hedit _ =>
      rw [hedit] at hedits
      obtain ⟨rfl, -⟩ := Prod.mk.inj hedits
      rfl
  | recorded hedit _ hchanges =>
      rw [hedit] at hedits
      exact absurd (Prod.mk.inj hedits).2 hchanges
  | explained _ hbody =>
      rw [hbody] at hcomment
      cases hcomment

/-- The loops that change nothing leave the issue. -/
theorem eq_of_editIssue_nil {issue issue' : Issue} {req : IssueModify}
    {refusal : Option DriverError} (h : editIssue repr issue req = ((issue', []), refusal)) :
    issue' = issue := by
  have hexplains := editIssue_explains repr issue req
  have hrest := sameRest_editIssue repr issue req
  rw [h] at hexplains hrest
  have hsame : issue.fields = issue'.fields := hexplains
  exact issue_ext hrest hsame.symm

/-- A request that is carried out leaves the folder, or the issue is touched. -/
theorem act_touches (hact : Act repr identity i e f f')
    (h : ∀ req commented now, e = .modifyIssue i req commented now →
      KnownMasks req ∨ QuietMasks f.issue req) :
    f' = f ∨ f.issue.modified < f'.issue.modified := by
  cases hact with
  | idle => exact .inl rfl
  | @modified req commented now _ _ hmodified =>
      have hcondition := h req commented now rfl
      cases hmodified with
      | refused hedit =>
          rcases hcondition with hknown | hquiet
          · have hnone := editIssue_known repr hknown f.issue
            rw [hedit] at hnone
            cases hnone
          · have hedits := editIssue_quiet repr hquiet
            rw [hedit] at hedits
            obtain ⟨rfl, -⟩ := Prod.mk.inj hedits
            exact .inl rfl
      | quiet hedit _ =>
          rw [eq_of_editIssue_nil hedit]
          exact .inl rfl
      | recorded hedit _ _ => exact .inr (lt_of_editIssue hedit (lt_touch _ _))
      | explained hedit _ =>
          exact .inr (lt_of_editIssue hedit ((lt_touch _ _).trans (lt_touch _ _)))
  | related => exact .inr (lt_touch _ _)
  | commented => exact .inr (lt_touch _ _)
  | rewritten _ _ =>
      right
      unfold Folder.rewrite
      split <;> exact lt_touch _ _
  | listed _ _ => exact .inr (lt_touch _ _)
  | unlisted _ => exact .inr (lt_touch _ _)

private theorem ticked_editIssue {issue issue' : Issue} {req : IssueModify}
    {changes : List FieldChange}
    {refusal : Option DriverError} (h : editIssue repr issue req = ((issue', changes), refusal))
    (hissue : Ticked issue.modified) : Ticked issue'.modified := by
  have hrest := sameRest_editIssue repr issue req
  rw [h] at hrest
  rwa [hrest.modified]

private theorem act_ticked (hact : Act repr identity i e f f') (he : e.Ticks)
    (h : Ticked f.issue.modified) : Ticked f'.issue.modified := by
  cases hact with
  | idle => exact h
  | modified hmodified =>
      obtain ⟨hcommented, hrest⟩ := List.forall_mem_cons.mp he
      have hnow := List.forall_mem_singleton.mp hrest
      cases hmodified with
      | refused hedit => exact ticked_editIssue hedit h
      | quiet hedit _ => exact ticked_editIssue hedit h
      | recorded hedit _ _ => exact ticked_touch (ticked_editIssue hedit h) hnow
      | explained hedit _ =>
          exact ticked_touch (ticked_touch (ticked_editIssue hedit h) hcommented) hnow
  | related => exact ticked_touch h (List.forall_mem_singleton.mp he)
  | commented => exact ticked_touch h (List.forall_mem_singleton.mp he)
  | rewritten _ _ =>
      unfold Folder.rewrite
      split
      · exact ticked_touch h (List.forall_mem_singleton.mp he)
      · exact ticked_touch h (List.forall_mem_singleton.mp he)
  | listed _ _ => exact ticked_touch h (List.forall_mem_singleton.mp he)
  | unlisted _ => exact ticked_touch h (List.forall_mem_singleton.mp he)

/-- The time of the modification never goes back, and the time of the creation stays. -/
theorem act_times (hact : Act repr identity i e f f') :
    f.issue.modified ≤ f'.issue.modified ∧ f'.issue.created = f.issue.created := by
  cases hact with
  | idle => exact ⟨le_rfl, rfl⟩
  | @modified req commented now _ _ hmodified =>
      have hrest := sameRest_editIssue repr f.issue req
      cases hmodified with
      | refused hedit =>
          rw [hedit] at hrest
          exact ⟨hrest.modified.ge, hrest.created⟩
      | quiet hedit _ =>
          rw [hedit] at hrest
          exact ⟨hrest.modified.ge, hrest.created⟩
      | recorded hedit _ _ =>
          rw [hedit] at hrest
          exact ⟨(lt_of_editIssue hedit (lt_touch _ _)).le, hrest.created⟩
      | explained hedit _ =>
          rw [hedit] at hrest
          exact ⟨(lt_of_editIssue hedit ((lt_touch _ _).trans (lt_touch _ _))).le, hrest.created⟩
  | related => exact ⟨(lt_touch _ _).le, rfl⟩
  | commented => exact ⟨(lt_touch _ _).le, rfl⟩
  | rewritten _ _ =>
      unfold Folder.rewrite
      split
      · exact ⟨(lt_touch _ _).le, rfl⟩
      · exact ⟨(lt_touch _ _).le, rfl⟩
  | listed _ _ => exact ⟨(lt_touch _ _).le, rfl⟩
  | unlisted _ => exact ⟨(lt_touch _ _).le, rfl⟩

/-- What is recorded bears the time of the modification, which has become later. -/
theorem act_updates (hact : Act repr identity i e f f') : f'.updates = f.updates ∨
    f.issue.modified < f'.issue.modified ∧
      ∃ u, f'.updates = f.updates ++ [u] ∧ u.timestamp = f'.issue.modified := by
  cases hact with
  | modified hmodified =>
      cases hmodified with
      | recorded hedit _ _ => exact .inr ⟨lt_of_editIssue hedit (lt_touch _ _), _, rfl, rfl⟩
      | explained hedit _ =>
          exact .inr ⟨lt_of_editIssue hedit ((lt_touch _ _).trans (lt_touch _ _)), _, rfl, rfl⟩
      | _ => exact .inl rfl
  | _ => exact .inl rfl

private theorem dated_born (i : ℤ) (req : IssueCreate) (reporter : Text) {now : ℚ}
    (hnow : Ticked now) : Dated (.born i req reporter now) where
  created := le_rfl
  increasing := .nil
  recorded _ hu := absurd hu List.not_mem_nil
  ticked := ⟨hnow, fun _ hu => absurd hu List.not_mem_nil⟩

private theorem Dated.act (h : Dated f) (hact : Act repr identity i e f f') (he : e.Ticks) :
    Dated f' := by
  obtain ⟨hle, hcreated⟩ := act_times hact
  have hticked := act_ticked hact he h.ticked.1
  have hold : ∀ u ∈ f.updates, u.timestamp ≤ f'.issue.modified := fun u hu =>
    (h.recorded u hu).trans hle
  refine ⟨by rw [hcreated]; exact h.created.trans hle, ?_, ?_, hticked, ?_⟩
  all_goals rcases act_updates hact with hsame | ⟨hlt, u, happend, htime⟩
  · rw [hsame]
    exact h.increasing
  · rw [happend, List.map_append, List.pairwise_append]
    refine ⟨h.increasing, List.pairwise_singleton _ _, fun s hs t ht => ?_⟩
    obtain ⟨v, hv, rfl⟩ := List.mem_map.mp hs
    obtain rfl := List.mem_singleton.mp ht
    rw [htime]
    exact later_of_lt (h.ticked.2 v hv) hticked ((h.recorded v hv).trans_lt hlt)
  · rw [hsame]
    exact hold
  · rw [happend, List.forall_mem_append]
    exact ⟨hold, List.forall_mem_singleton.mpr htime.le⟩
  · rw [hsame]
    exact h.ticked.2
  · rw [happend, List.forall_mem_append]
    exact ⟨h.ticked.2, List.forall_mem_singleton.mpr (by rwa [htime])⟩

private theorem eq_of_target_ne (hact : Act repr identity i e f f') (he : e.target ≠ some i) :
    f' = f := by
  cases hact with
  | idle => rfl
  | listed hentry _ => exact absurd (congrArg some hentry) he
  | _ => exact absurd rfl he

private theorem Dated.detects (h : Dated f) (hact : Act repr identity i e f f') (he : e.Ticks)
    (hcompletes : ∀ req commented now, e = .modifyIssue i req commented now →
      KnownMasks req ∨ QuietMasks f.issue req) : Detects i e f f' where
  changed hne := by
    rcases act_touches hact hcompletes with rfl | hlt
    · exact absurd rfl hne
    · exact later_of_lt h.ticked.1 (act_ticked hact he h.ticked.1) hlt
  others hother := by rw [eq_of_target_ne hact hother]
  quiet req commented now heq hquiet hcomment := by
    subst heq
    cases hact with
    | idle => exact ⟨rfl, rfl⟩
    | modified hmodified =>
        obtain rfl := hmodified.eq_of_quiet hquiet hcomment
        exact ⟨rfl, rfl⟩
  recorded := (act_updates hact).imp_right And.right

/-- What a request is about does not depend on the clock. -/
theorem Detects.of_clocked (h : Detects i e.clocked f f') : Detects i e f f' where
  changed := h.changed
  others hother := h.others (by cases e <;> exact hother)
  quiet req commented now heq hquiet hcomment := by
    subst heq
    exact h.quiet req (round6 commented) (round6 now) rfl hquiet hcomment
  recorded := h.recorded

private theorem completes_clocked {S : MockIssueTrackerDriver} (h : Completes S e) {issueId : ℤ}
    {req : IssueModify} {commented now : ℚ}
    (he : e.clocked = .modifyIssue issueId req commented now)
    {issue : Issue} (hissue : S.issues.get? issueId = some issue) :
    KnownMasks req ∨ QuietMasks issue req := by
  cases e with
  | modifyIssue issueId' req' commented' now' =>
      obtain ⟨rfl, rfl, -⟩ := TrackerEvent.modifyIssue.inj he
      exact h issue hissue
  | _ => cases he

end Steps

namespace MockIssueTrackerDriver

variable {S T : MockIssueTrackerDriver} {repr : Text → Text} {identity : Text}
  {es : List TrackerEvent} {i : ℤ} {f : Folder}

/-- The steps of a driver whose clock reads whatever it likes. -/
def Clocked (repr : Text → Text) : Transition.Rel MockIssueTrackerDriver TrackerEvent :=
  fun S e T => T = S.serve repr e.clocked

/-- Every issue is filed and dated. -/
theorem dated_of_run (hrun : Run (Clocked repr) (blank identity) es S) :
    S.Filed ∧ ∀ i f, S.folder i = some f → Dated f := by
  refine hrun.invariant (fun S => S.Filed ∧ ∀ i f, S.folder i = some f → Dated f)
    ⟨filed_blank identity, fun _ _ h => by cases h⟩ ?_
  rintro S e T ⟨hfiled, hdated⟩ rfl
  refine ⟨filed_serve hfiled e.clocked, fun i f' hf' => ?_⟩
  rcases folder_serve hfiled hf' with ⟨req, reporter, -, now, hnow, rfl⟩ | ⟨f, hf, hact⟩
  · exact dated_born i req reporter (ticks_clocked e now hnow)
  · exact (hdated i f hf).act hact (ticks_clocked e)

/-- In every run of requests that are not given up half way, at any time, the time of the
modification tells what has changed. -/
theorem modified_detects (hrun : Run ((Clocked repr).within Completes) (blank identity) es S) :
    (∀ i f, S.folder i = some f → Dated f) ∧
      ∀ e T, (Clocked repr).within Completes S e T → ∀ i f, S.folder i = some f →
        ∃ f', T.folder i = some f' ∧ Detects i e f f' := by
  obtain ⟨hfiled, hdated⟩ := dated_of_run hrun.of_within
  refine ⟨hdated, ?_⟩
  rintro e T ⟨hcompletes, rfl⟩ i f hf
  obtain ⟨f', hf', hact⟩ := act_of_serve repr hfiled hf e.clocked
  refine ⟨f', hf', ((hdated i f hf).detects hact (ticks_clocked e) ?_).of_clocked⟩
  exact fun req commented now heq => completes_clocked hcompletes heq (folder_eq_some.mp hf).1

/-- An issue with a comment that is written before the issue is, by the clock. -/
private def commentedEarly : List TrackerEvent :=
  [.seedComponent 1, .seedIssue ⟨1, text "crash", text "NEW", text "BUG", text "P2", text "S2",
    [], []⟩ [] 5, .createComment 1001 (text "again") 2]

/-- A comment of an earlier time still moves the modification time on. -/
theorem modified_detects_early : ∃ S,
    Run ((Clocked id).within Completes) (blank (text "jetty")) commentedEarly S ∧
      (∀ i f, S.folder i = some f → Dated f) ∧
        ∀ e T, (Clocked id).within Completes S e T → ∀ i f, S.folder i = some f →
          ∃ f', T.folder i = some f' ∧ Detects i e f f' := by
  have hrun : Run ((Clocked id).within Completes) (blank (text "jetty")) commentedEarly _ :=
    .cons ⟨trivial, rfl⟩ (.cons ⟨trivial, rfl⟩ (.single ⟨trivial, rfl⟩))
  exact ⟨_, hrun, modified_detects hrun⟩

/-- The issue is fixed before the driver comes to a name that it does not know. -/
private def halfFixed : TrackerEvent :=
  .modifyIssue 1001
    { sets := (Dict.empty.set (text "status") (.str (text "FIXED"))).set (text "bogus")
        (.str []) } 9 9

/-- What was stored, and what is left of the request. -/
private def unfixed : MockIssueTrackerDriver :=
  serveAll id (blank (text "jetty")) [.seedComponent 1, .seedIssue ⟨1, text "crash", text "NEW",
    text "BUG", text "P2", text "S2", [], []⟩ [] (round6 5)]

private theorem halfFixed_changes : ∃ f f', unfixed.folder 1001 = some f ∧
    (unfixed.serve id halfFixed.clocked).folder 1001 = some f' ∧ f'.content ≠ f.content ∧
      f'.issue.modified = f.issue.modified := by
  obtain ⟨f, hf⟩ : ∃ f, unfixed.folder 1001 = some f :=
    Option.isSome_iff_exists.mp (by decide +kernel)
  obtain ⟨f', hf'⟩ : ∃ f', (unfixed.serve id halfFixed.clocked).folder 1001 = some f' :=
    Option.isSome_iff_exists.mp (by decide +kernel)
  have hcontent : ((unfixed.serve id halfFixed.clocked).folder 1001).map Folder.content ≠
      (unfixed.folder 1001).map Folder.content := by decide +kernel
  have hmodified : ((unfixed.serve id halfFixed.clocked).folder 1001).map (·.issue.modified) =
      (unfixed.folder 1001).map (·.issue.modified) := by decide +kernel
  rw [hf, hf'] at hcontent hmodified
  exact ⟨f, f', hf, hf', fun h => hcontent (congrArg some h), Option.some.inj hmodified⟩

/-- A modification that stops half way changes the issue without moving its time on. -/
theorem not_modified_detects_half : ¬ ∀ (repr : Text → Text) (identity : Text)
    (es : List TrackerEvent) (S T : MockIssueTrackerDriver) (e : TrackerEvent) (i : ℤ) (f : Folder),
      Run (Clocked repr) (blank identity) es S → Clocked repr S e T → S.folder i = some f →
        ∃ f', T.folder i = some f' ∧ Detects i e f f' := by
  intro h
  have hrun : Run (Clocked id) (blank (text "jetty")) [.seedComponent 1,
      .seedIssue ⟨1, text "crash", text "NEW", text "BUG", text "P2", text "S2", [], []⟩ [] 5]
      unfixed :=
    .cons rfl (.single rfl)
  obtain ⟨f, f', hf, hf', hcontent, hmodified⟩ := halfFixed_changes
  obtain ⟨f'', hf'', hdetects⟩ := h id _ _ unfixed _ halfFixed 1001 f hrun rfl hf
  obtain rfl := Option.some.inj (hf'.symm.trans hf'')
  exact absurd hmodified.symm (ne_of_lt (hdetects.changed hcontent).1)

end MockIssueTrackerDriver

end Jetty.Issuetracker
