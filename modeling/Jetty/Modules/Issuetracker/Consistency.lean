import Jetty.Modules.Issuetracker.Texts

/-!
# The consistency of the store

Whatever is requested after whatever boot: identifiers are given without gaps, every field holds a
value of its vocabulary, what one issue remark of others is true, and the history of an issue is in
order and names comments that are there. A request is carried out or has changed nothing; what is
carried out is answered, unless the answer has a text without bytes.
-/

namespace Jetty.Issuetracker

open Python Failure Transition

namespace MockIssueTrackerDriver

variable {S T : MockIssueTrackerDriver} {repr : Text → Text} {isoformat : ℤ → Text}
  {identity : Text} {i : ℤ} {e : TrackerEvent} {f f' : Folder} {es : List TrackerEvent}

/-! ### The store -/

/-- What is kept about an issue is well formed, and what it remark of other things is true. -/
structure WellKept (S : MockIssueTrackerDriver) (i : ℤ) (f : Folder) : Prop where
  vetted : f.issue.Vetted
  distinct : ∀ attr, (f.issue.collection attr).Nodup
  component : f.issue.componentId ∈ S.components
  commented : Commented i f
  chronicle : Chronicle f
  related : f.relationships.Nodup
  targets : ∀ r ∈ f.relationships, r.type ∈ relationshipTypes ∧ r.targetIssueId ∈ S.issues.keys

/-- The store is consistent. -/
structure Consistent (S : MockIssueTrackerDriver) : Prop where
  filed : S.Filed
  counted : 1001 ≤ S.counter
  numbered : S.issues.keys = (List.range' 1001 (S.counter - 1001)).map Nat.cast
  wellKept : ∀ i f, S.folder i = some f → WellKept S i f

/-- What vetted requests keep. -/
structure Kept (S : MockIssueTrackerDriver) : Prop where
  counted : 1001 ≤ S.counter
  numbered : S.issues.keys = (List.range' 1001 (S.counter - 1001)).map Nat.cast
  vetted : ∀ i f, S.folder i = some f → f.issue.Vetted
  component : ∀ i f, S.folder i = some f → f.issue.componentId ∈ S.components
  related : ∀ i f, S.folder i = some f → f.relationships.Nodup
  targets : ∀ i f, S.folder i = some f →
    ∀ r ∈ f.relationships, r.type ∈ relationshipTypes ∧ r.targetIssueId ∈ S.issues.keys

private theorem kept_blank (identity : Text) : Kept (blank identity) where
  counted := le_rfl
  numbered := by
    show [] = (List.range' 1001 (1000 + 1 - 1001)).map Nat.cast
    rw [Nat.sub_self]
    rfl
  vetted i f hf := by cases hf
  component i f hf := by cases hf
  related i f hf := by cases hf
  targets i f hf := by cases hf

private theorem keys_insert (h : S.Filed) (req : IssueCreate) (reporter : Text) (now : ℚ) :
    (S.insert req reporter now).1.issues.keys = S.issues.keys ++ [(S.counter : ℤ)] := by
  have hnew : (S.counter : ℤ) ∉ S.issues.keys := fun hmem =>
    absurd (h.filed _ hmem).1 (Int.lt_irrefl _)
  rw [insert, Dict.keys_set, if_neg hnew]

private theorem Kept.insert (h : Kept S) (hfiled : S.Filed) {req : IssueCreate} (hreq : req.Vetted)
    (hcomponent : req.componentId ∈ S.components) (reporter : Text) (now : ℚ) :
    Kept (S.insert req reporter now).1 := by
  obtain ⟨hborn, hothers⟩ := folder_insert hfiled req reporter now
  have hkeys := keys_insert hfiled req reporter now
  have hfolder : ∀ j f, (S.insert req reporter now).1.folder j = some f →
      f = .born S.counter req reporter now ∨ S.folder j = some f := by
    intro j f hf
    by_cases hj : j = S.counter
    · subst hj
      exact .inl (Option.some.inj (hf.symm.trans hborn))
    · exact .inr ((hothers j hj).symm.trans hf)
  refine ⟨Nat.le_succ_of_le h.counted, ?_, fun j f hf => ?_, fun j f hf => ?_,
    fun j f hf => ?_, fun j f hf r hr => ?_⟩
  · have hcounted := h.counted
    have hlength : S.counter + 1 - 1001 = S.counter - 1001 + 1 := by omega
    have hlast : 1001 + 1 * (S.counter - 1001) = S.counter := by omega
    rw [hkeys, h.numbered]
    show _ = (List.range' 1001 (S.counter + 1 - 1001)).map Nat.cast
    rw [hlength, List.range'_concat, List.map_append, hlast]
    rfl
  · rcases hfolder j f hf with rfl | hold
    · exact vetted_born hreq _ _ _
    · exact h.vetted j f hold
  · rcases hfolder j f hf with rfl | hold
    · exact hcomponent
    · exact h.component j f hold
  · rcases hfolder j f hf with rfl | hold
    · exact List.nodup_nil
    · exact h.related j f hold
  · rcases hfolder j f hf with rfl | hold
    · cases hr
    · rw [hkeys]
      exact (h.targets j f hold r hr).imp_right (List.mem_append_left _)

/-- A relationship is new, and its target is there. -/
def Relatable (S : MockIssueTrackerDriver) : TrackerEvent → Prop
  | .createRelationship i rel _ => ∀ f, S.folder i = some f →
    rel.targetIssueId ∈ S.issues.keys ∧ rel ∉ f.relationships
  | _ => True

/-- What a request can do to the relationships of an issue. -/
theorem relationships_act (hact : Act repr identity i e f f') :
    f'.relationships = f.relationships ∨ ∃ rel now,
      e = .createRelationship i rel now ∧ f'.relationships = f.relationships ++ [rel] := by
  cases hact with
  | related => exact .inr ⟨_, _, rfl, rfl⟩
  | modified hmodified => cases hmodified <;> exact .inl rfl
  | _ => exact .inl rfl

private theorem Kept.acts (h : Kept S) (hacts : Acts repr e S T) (he : e.Vetted)
    (hrel : S.Relatable e) : Kept T := by
  obtain ⟨j, f, f', hf, hf', hframe, hact⟩ := hacts
  have hfolder : ∀ k g, T.folder k = some g → (k = j ∧ g = f') ∨ S.folder k = some g := by
    intro k g hg
    by_cases hk : k = j
    · subst hk
      exact .inl ⟨rfl, Option.some.inj (hg.symm.trans hf')⟩
    · exact .inr ((hframe.others k hk).symm.trans hg)
  refine ⟨hframe.counter ▸ h.counted, ?_, fun k g hg => ?_, fun k g hg => ?_, fun k g hg => ?_,
    fun k g hg r hr => ?_⟩
  · rw [hframe.keys, hframe.counter]
    exact h.numbered
  · rcases hfolder k g hg with ⟨rfl, rfl⟩ | hold
    · exact vetted_act hact he (h.vetted k f hf)
    · exact h.vetted k g hold
  · rw [hframe.components]
    rcases hfolder k g hg with ⟨rfl, rfl⟩ | hold
    · rw [component_act hact]
      exact h.component k f hf
    · exact h.component k g hold
  · rcases hfolder k g hg with ⟨rfl, rfl⟩ | hold
    · rcases relationships_act hact with hsame | ⟨rel, now, rfl, happend⟩
      · rw [hsame]
        exact h.related k f hf
      · rw [happend, ← List.concat_eq_append]
        exact (h.related k f hf).concat (hrel f hf).2
    · exact h.related k g hold
  · rw [hframe.keys]
    rcases hfolder k g hg with ⟨rfl, rfl⟩ | hold
    · rcases relationships_act hact with hsame | ⟨rel, now, rfl, happend⟩
      · rw [hsame] at hr
        exact h.targets k f hf r hr
      · rw [happend] at hr
        rcases List.mem_append.mp hr with hr | hr
        · exact h.targets k f hf r hr
        · rw [List.mem_singleton.mp hr]
          exact ⟨he, (hrel f hf).1⟩
    · exact h.targets k g hold r hr

/-- A relationship that is not refused is new, and its target is there. -/
theorem createRelationship_relatable (rel : Relationship) (now : ℚ) :
    (S.createRelationship i rel now).1 = S ∨ S.Relatable (.createRelationship i rel now) := by
  unfold createRelationship
  cases hissue : S.issues.get? i with
  | none => exact .inl rfl
  | some issue =>
      dsimp only
      split
      · exact .inl rfl
      · rename_i htarget
        split
        · exact .inl rfl
        · rename_i hnew
          refine .inr fun f hf => ⟨not_not.mp htarget, ?_⟩
          rwa [(folder_eq_some.mp hf).2.2.2] at hnew

/-- A driver call that the surface has vetted keeps the store as it should be. -/
theorem Kept.serve (h : Kept S) (hfiled : S.Filed) (he : e.Vetted) : Kept (S.serve repr e) := by
  cases e with
  | seedComponent componentId =>
      exact ⟨h.counted, h.numbered, h.vetted, fun i f hf => List.mem_cons_of_mem _
        (h.component i f hf), h.related, h.targets⟩
  | seedIssue req reporter now =>
      rw [MockIssueTrackerDriver.serve]
      split
      · rename_i hcomponent
        exact h.insert hfiled he hcomponent reporter now
      · exact h
  | createIssue req now =>
      rw [MockIssueTrackerDriver.serve, createIssue]
      split
      · rename_i hcomponent
        exact h.insert hfiled he hcomponent S.identity now
      · exact h
  | modifyIssue issueId req commented now =>
      cases hissue : S.issues.get? issueId with
      | none =>
          rw [MockIssueTrackerDriver.serve, modifyIssue, hissue]
          exact h
      | some issue =>
          obtain ⟨f, hf, -⟩ := hfiled.folder hissue
          obtain ⟨f', hf', hact, hframe, -⟩ := folder_modifyIssue repr hf req commented now
          exact h.acts ⟨issueId, f, f', hf, hf', hframe, .modified hact⟩ he trivial
  | createRelationship issueId rel now =>
      rcases createRelationship_relatable (S := S) (i := issueId) rel now with heq | hrel
      · rw [MockIssueTrackerDriver.serve, heq]
        exact h
      · rcases (createRelationship_acts hfiled rel now : _ ∨ Acts repr _ S _) with heq | hacts
        · rw [MockIssueTrackerDriver.serve, heq]
          exact h
        · exact h.acts hacts he hrel
  | createComment issueId body now =>
      cases hissue : S.issues.get? issueId with
      | none =>
          rw [MockIssueTrackerDriver.serve, createComment, hissue]
          exact h
      | some issue =>
          obtain ⟨f, hf, -⟩ := hfiled.folder hissue
          obtain ⟨hf', hframe, -⟩ := folder_createComment hf body now
          have hacts : Acts repr (.createComment issueId body now) S _ :=
            ⟨issueId, f, _, hf, hf', hframe, .commented⟩
          exact h.acts hacts he trivial
  | updateComment issueId number body now =>
      rcases (updateComment_acts (i := issueId) hfiled number body now : _ ∨ Acts repr _ S _) with
        heq | hacts
      · rw [MockIssueTrackerDriver.serve, heq]
        exact h
      · exact h.acts hacts he trivial
  | createHotlistEntry entry now =>
      rcases (createHotlistEntry_acts hfiled entry now : _ ∨ Acts repr _ S _) with heq | hacts
      · rw [MockIssueTrackerDriver.serve, heq]
        exact h
      · exact h.acts hacts he trivial
  | deleteHotlistEntry hotlistId issueId now =>
      rcases (deleteHotlistEntry_acts (i := issueId) hfiled hotlistId now :
        _ ∨ Acts repr _ S _) with heq | hacts
      · rw [MockIssueTrackerDriver.serve, heq]
        exact h
      · exact h.acts hacts he trivial

/-- Every run of vetted driver calls leaves a consistent store. -/
theorem consistent_of_run
    (hrun : Run ((Serves repr).within fun _ e => e.Vetted) (blank identity) es S) :
    Consistent S := by
  obtain ⟨hfiled, -⟩ := filed_of_run hrun.of_within
  have hkept : S.Filed ∧ Kept S := by
    refine hrun.invariant (fun S => S.Filed ∧ Kept S) ⟨filed_blank identity, kept_blank identity⟩ ?_
    rintro S e T ⟨hfiled, hkept⟩ ⟨he, rfl⟩
    exact ⟨filed_serve hfiled e, hkept.serve hfiled he⟩
  have hkept := hkept.2
  refine ⟨hfiled, hkept.counted, hkept.numbered, fun i f hf => ?_⟩
  exact ⟨hkept.vetted i f hf, distinct_of_run hrun.of_within hf, hkept.component i f hf,
    commented_of_run hrun.of_within hf,
    folder_invariant (fun _ f => Chronicle f) chronicle_born (fun _ _ _ _ hact h => h.act hact)
      hrun.of_within hf, hkept.related i f hf, hkept.targets i f hf⟩

/-! ### Requests -/

/-- The steps of the surface: requests, one after the other. -/
def Asks (isoformat : ℤ → Text) (repr : Text → Text) :
    Transition.Rel MockIssueTrackerDriver TrackerRequest :=
  ofPartial fun S request => some (S.answer isoformat repr request).1

/-- A driver call of a request serves it. -/
theorem perform_fst (he : e.requested = true) :
    (S.perform isoformat repr e).1 = S.serve repr e := by
  cases e with
  | seedComponent _ | seedIssue _ _ _ => cases he
  | _ => rfl

variable {Q : Text → Prop}

/-- A run of requests is a run of vetted driver calls with no other texts. -/
theorem vetted_of_asks {requests : List TrackerRequest} (hempty : Q [])
    (hrun : Run ((Asks isoformat repr).within fun _ request => request.AllTexts Q) S requests T) :
    ∃ es, Run ((Serves repr).within fun _ e => e.Vetted ∧ e.AllTexts Q) S es T := by
  refine hrun.simulate id fun S request T hst => ?_
  obtain ⟨hrequest, hst⟩ := hst
  obtain rfl := Option.some.inj hst
  unfold answer
  cases hcall : request.call repr with
  | error e => exact .inl rfl
  | ok e =>
      obtain ⟨hrequested, hvetted⟩ := vetted_of_call hcall
      exact .inr ⟨e, ⟨hvetted, allTexts_of_call hcall hrequest hempty⟩, perform_fst hrequested⟩

private theorem run_components (components : List ℤ) (S : MockIssueTrackerDriver) :
    Run ((Serves repr).within fun _ e => e.Vetted ∧ e.AllTexts Q) S
      (components.map TrackerEvent.seedComponent)
      (S.serveAll repr (components.map TrackerEvent.seedComponent)) := by
  induction components generalizing S with
  | nil => exact .nil
  | cons c components ih => exact .cons ⟨⟨trivial, trivial⟩, rfl⟩ (ih _)

private theorem vetted_of_check {seed : SeedIssue} (h : seed.check repr = .ok ()) :
    seed.create.Vetted := by
  have hall : ∀ entry ∈ seed.vocabulary, entry.1 ∈ entry.2.1 := by
    intro entry hentry
    have hround := forM_eq_ok.mp h entry hentry
    dsimp only at hround
    split at hround
    · assumption
    · cases hround
  simp only [SeedIssue.vocabulary, List.forall_mem_cons] at hall
  obtain ⟨hstatus, htype, hpriority, hseverity, -⟩ := hall
  exact ⟨hstatus, htype, hpriority, hseverity⟩

/-- A boot is a run of vetted driver calls with no other texts. -/
theorem vetted_of_boot {seed : TrackerSeed} (h : seed.boot repr identity = .ok S)
    (hseed : ∀ issue ∈ seed.issues, issue.AllTexts Q) :
    ∃ es, Run ((Serves repr).within fun _ e => e.Vetted ∧ e.AllTexts Q) (blank identity) es S := by
  obtain ⟨_, hchecks, h⟩ := bind_eq_ok.mp h
  have hvetted : ∀ issue ∈ seed.issues, issue.create.Vetted ∧ issue.AllTexts Q :=
    fun issue hissue =>
      ⟨vetted_of_check (forM_eq_ok.mp hchecks issue hissue), hseed issue hissue⟩
  refine @foldlM_invariant _ _ _ _ (fun done T =>
    (∀ issue ∈ done, issue.create.Vetted ∧ issue.AllTexts Q) →
      ∃ es, Run ((Serves repr).within fun _ e => e.Vetted ∧ e.AllTexts Q) (blank identity) es T)
    _ _ _ (fun _ => ⟨_, run_components seed.components _⟩) ?_ h hvetted
  intro done issue T U hdone hstep hall
  obtain ⟨es, hrun⟩ := hdone fun x hx => hall x (List.mem_append_left _ hx)
  unfold SeedIssue.plant at hstep
  split at hstep
  · obtain rfl := Except.ok.inj hstep
    obtain ⟨hcreate, htexts⟩ := hall issue (List.mem_append_right _ List.mem_cons_self)
    have hvetted : issue.event.Vetted := hcreate
    have hevent : issue.event.AllTexts Q := ⟨htexts.create, htexts.reporter⟩
    exact ⟨es ++ [issue.event], hrun.snoc ⟨⟨hvetted, hevent⟩, rfl⟩⟩
  · cases hstep

/-- After any boot that succeeds, and any requests with any bodies, the store is consistent. -/
theorem tracker_consistent {seed : TrackerSeed} {S₀ : MockIssueTrackerDriver}
    {requests : List TrackerRequest} (hboot : seed.boot repr identity = .ok S₀)
    (hrun : Run (Asks isoformat repr) S₀ requests S) : Consistent S := by
  obtain ⟨es₀, hstart⟩ := vetted_of_boot (Q := fun _ => True) hboot
    fun issue _ => issue.allTexts_of_forall fun _ => trivial
  obtain ⟨es, hrest⟩ := vetted_of_asks (Q := fun _ => True) trivial
    (hrun.within_of_forall fun request _ => request.allTexts_of_forall fun _ => trivial)
  exact consistent_of_run ((hstart.append hrest).mono fun _ _ _ hst => ⟨hst.1.1, hst.2⟩)

/-- A component with one issue. -/
def seeded : TrackerSeed where
  components := [7]
  issues := [{ componentId := 7, title := text "crash" }]

/-- A second issue is filed, the two are related, and the first is fixed with a comment. -/
def fixesCrash : List TrackerRequest :=
  [.createIssue (some (.dict [(text "issue", .dict [(text "issueState", .dict [
      (text "componentId", .str (text "7")), (text "title", .str (text "leak")),
      (text "status", .str (text "NEW")), (text "type", .str (text "BUG")),
      (text "priority", .str (text "P1")), (text "severity", .str (text "S1"))])])])) 1,
    .createRelationship (text "1001") (some (text "LINKED"))
      (some (.dict [(text "targetIssueId", .int 1002)])) 2,
    .modifyIssue (text "1001") (some (.dict [(text "addMask", .str (text "status")),
      (text "add", .dict [(text "status", .str (text "FIXED"))]),
      (text "issueComment", .dict [(text "comment", .str (text "done"))])])) 3 3]

/-- A seeded issue is related to a second one and fixed. -/
theorem tracker_consistent_fixed : ∃ S₀ S,
    seeded.boot id (text "jetty") = .ok S₀ ∧ Run (Asks (fun _ => []) id) S₀ fixesCrash S ∧
      S.counter = 1003 ∧ Consistent S := by
  have hboth : (seeded.boot id (text "jetty")).toOption.any (fun S₀ =>
      (exec (fun S request => some (answer (fun _ => []) id S request).1) S₀ fixesCrash).any
        fun S => decide (S.counter = 1003)) = true := by
    decide +kernel
  cases hboot : seeded.boot id (text "jetty") with
  | error message =>
      rw [hboot] at hboth
      cases hboth
  | ok S₀ =>
      rw [hboot] at hboth
      obtain ⟨S, hrun, hS⟩ := exists_run_of_exec
        (fun S request => some (answer (fun _ => []) id S request).1) S₀ fixesCrash
        (fun S => decide (S.counter = 1003)) hboth
      exact ⟨S₀, S, rfl, hrun, of_decide_eq_true hS, tracker_consistent hboot hrun⟩

/-! ### Answers -/

/-- The call is answered, or it is refused with a message of the kind and has changed nothing. -/
def Settled (Q : Text → Prop) (S : MockIssueTrackerDriver)
    (result : MockIssueTrackerDriver × Outcome (List (Text × Json))) : Prop :=
  (∃ body, result.2 = .ok body) ∨
    result.1 = S ∧ ∃ status message, status ≠ .unavailable ∧ Q message ∧
      result.2 = .error (.api status message)

section Settling

variable (hQ : Spoken repr Q)

private theorem settled_rejects {message : Text} (h : Q message) : Settled Q S
    (S, invalid message) :=
  .inr ⟨rfl, .invalidArgument, message, by decide, h, rfl⟩

private theorem settled_missing {message : Text} (h : Q message) :
    Settled Q S (S, .error (.api .notFound message)) :=
  .inr ⟨rfl, .notFound, message, by decide, h, rfl⟩

include hQ

private theorem settled_modifyIssue (hfiled : S.Filed) {req : IssueModify} (hreq : req.Vetted)
    (commented now : ℚ) :
    Settled Q S (S.perform isoformat repr (.modifyIssue i req commented now)) := by
  cases hissue : S.issues.get? i with
  | none =>
      simp only [perform, modifyIssue, hissue]
      exact settled_missing (hQ.append _ _ (hQ.issueName i) (hQ.literal _))
  | some issue =>
      obtain ⟨f, hf, -⟩ := hfiled.folder hissue
      obtain ⟨f', -, -, -, hanswer⟩ := folder_modifyIssue repr hf req commented now
      have hanswer := hanswer (editIssue_known repr hreq.known f.issue)
      refine .inl ⟨issueJson isoformat f'.issue .full, ?_⟩
      simp only [perform, hanswer]
      rfl

private theorem settled_createRelationship (rel : Relationship) (now : ℚ) :
    Settled Q S (S.perform isoformat repr (.createRelationship i rel now)) := by
  simp only [perform, createRelationship]
  cases S.issues.get? i with
  | none => exact settled_missing (hQ.append _ _ (hQ.issueName i) (hQ.literal _))
  | some issue =>
      dsimp only
      split_ifs
      · exact settled_rejects (hQ.literal _)
      · exact .inl ⟨_, rfl⟩
      · exact settled_rejects (hQ.append _ _ (hQ.literal _) (hQ.literal _))

private theorem settled_createComment (hfiled : S.Filed) (body : Text) (now : ℚ) :
    Settled Q S (S.perform isoformat repr (.createComment i body now)) := by
  cases hissue : S.issues.get? i with
  | none =>
      simp only [perform, createComment, hissue]
      exact settled_missing (hQ.append _ _ (hQ.issueName i) (hQ.literal _))
  | some issue =>
      obtain ⟨f, hf, -⟩ := hfiled.folder hissue
      obtain ⟨-, -, hanswer⟩ := folder_createComment hf body now
      refine .inl ⟨commentJson ⟨i, f.comments.length + 1, body, S.identity⟩, ?_⟩
      simp only [perform, hanswer]
      rfl

private theorem settled_updateComment (number : ℤ) (body : Text) (now : ℚ) :
    Settled Q S (S.perform isoformat repr (.updateComment i number body now)) := by
  have hmissing : Q (text "comment " ++ text (toString number) ++ text " on " ++ issueName i ++
      text " not found") := by
    apply_rules [hQ.append, hQ.literal, hQ.issueName]
  simp only [perform, updateComment]
  cases S.issues.get? i with
  | none => exact settled_missing hmissing
  | some issue =>
      dsimp only
      split
      · rename_i hbounds
        generalize (S.comments.get? i).getD [] = rows at hbounds ⊢
        have hin : number.toNat - 1 <
            (rows.modify (number.toNat - 1) fun c => { c with text := body }).length := by
          rw [List.length_modify]
          omega
        rw [List.getElem?_eq_getElem hin]
        exact .inl ⟨_, rfl⟩
      · exact settled_missing hmissing

private theorem settled_hotlist (entry : HotlistEntry) (now : ℚ) :
    Settled Q S (S.perform isoformat repr (.createHotlistEntry entry now)) := by
  simp only [perform, createHotlistEntry]
  cases S.issues.get? entry.issueId with
  | none => exact settled_rejects (hQ.append _ _ (hQ.literal _) (hQ.literal _))
  | some issue =>
      dsimp only
      split
      · exact .inl ⟨_, rfl⟩
      · exact .inl ⟨_, rfl⟩

private theorem settled_unlist (hotlistId : ℤ) (now : ℚ) :
    Settled Q S (S.perform isoformat repr (.deleteHotlistEntry hotlistId i now)) := by
  have hmissing : Q (issueName i ++ text " is not on hotlist " ++ text (toString hotlistId)) := by
    apply_rules [hQ.append, hQ.literal, hQ.issueName]
  simp only [perform, deleteHotlistEntry]
  cases S.issues.get? i with
  | none => exact settled_missing hmissing
  | some issue =>
      dsimp only
      split
      · exact .inl ⟨_, rfl⟩
      · exact settled_missing hmissing

private theorem settled_perform (hfiled : S.Filed) (he : e.requested = true) (hvetted : e.Vetted) :
    Settled Q S (S.perform isoformat repr e) := by
  cases e with
  | seedComponent _ | seedIssue _ _ _ => cases he
  | createIssue req now =>
      simp only [perform, createIssue]
      split
      · exact .inl ⟨_, rfl⟩
      · exact settled_rejects (hQ.append _ _ (hQ.literal _) (hQ.literal _))
  | modifyIssue issueId req commented now =>
      exact settled_modifyIssue hQ hfiled hvetted commented now
  | createRelationship issueId rel now => exact settled_createRelationship hQ rel now
  | createComment issueId body now => exact settled_createComment hQ hfiled body now
  | updateComment issueId number body now => exact settled_updateComment hQ number body now
  | createHotlistEntry entry now => exact settled_hotlist hQ entry now
  | deleteHotlistEntry hotlistId issueId now => exact settled_unlist hQ hotlistId now

/-- A request comes to no call, or to one that is vetted; either is settled. -/
theorem settled_answer (isoformat : ℤ → Text) (hfiled : S.Filed) (request : TrackerRequest) :
    Settled Q S (S.answer isoformat repr request) := by
  unfold answer
  cases hcall : request.call repr with
  | error e =>
      have hspared := call_spares hQ request e hcall
      rcases e with ⟨status, message⟩ | _
      · cases status with
        | invalidArgument => exact settled_rejects (not_not.mp hspared)
        | _ => exact absurd trivial hspared
      · exact absurd trivial hspared
  | ok e =>
      obtain ⟨hrequested, hvetted⟩ := vetted_of_call hcall
      exact settled_perform hQ hfiled hrequested hvetted

end Settling

/-! ### Responses -/

section Responses

variable {lib : Formats}

/-- A body can be sent if and only if its texts have bytes. -/
theorem render_isSome_iff (lib : Formats) (body : List (Text × Json)) :
    (render lib.floats body).isSome ↔ Json.AllTexts Text.Plain (.dict body) :=
  Json.encode_response_iff (Json.allDoubles_of_forall lib.plain_floats _)

/-- An error whose message has bytes is sent. -/
theorem errorReply_sent (lib : Formats) (http : ℕ) {message status : Text}
    (hmessage : message.Plain) (hstatus : status.Plain) :
    ∃ bytes, errorReply lib.floats http message status = .sent http bytes := by
  have hliteral := lib.spoken.literal
  have htexts : Json.AllTexts Text.Plain (.dict (errorJson http message status)) :=
    ⟨⟨hliteral _, ⟨hliteral _, trivial⟩, ⟨hliteral _, hmessage⟩, ⟨hliteral _, hstatus⟩, trivial⟩,
      trivial⟩
  obtain ⟨bytes, hbytes⟩ := Option.isSome_iff_exists.mp ((render_isSome_iff lib _).mpr htexts)
  exact ⟨bytes, by rw [errorReply, hbytes]⟩

private theorem plain_statusName (lib : Formats) (status : Status) : status.name.Plain := by
  cases status <;> exact lib.spoken.literal _

/-- The request is answered, or refused as an invalid argument or for something that is not there,
with the store as it was. -/
def Settles (lib : Formats) (S : MockIssueTrackerDriver) (request : TrackerRequest) : Prop :=
  (∃ bytes, (S.respond lib request).2 = .sent 200 bytes) ∨
    (S.respond lib request).1 = S ∧ ∃ http bytes, (http = 400 ∨ http = 404) ∧
      (S.respond lib request).2 = .sent http bytes

/-- The surface fails with `INTERNAL`. -/
def Fails (lib : Formats) (S : MockIssueTrackerDriver) (request : TrackerRequest) : Prop :=
  ∃ bytes, (S.respond lib request).2 = .sent 500 bytes

/-- An answer whose texts have bytes settles the request, any other one fails. -/
theorem settles_or_fails (lib : Formats) (hfiled : S.Filed) (request : TrackerRequest) :
    ((∀ body, (S.answer lib.isoformat lib.repr request).2 = .ok body →
        Json.AllTexts Text.Plain (.dict body)) ∧ S.Settles lib request) ∨
      (∃ body, (S.answer lib.isoformat lib.repr request).2 = .ok body ∧
        ¬ Json.AllTexts Text.Plain (.dict body)) ∧ S.Fails lib request := by
  have hsettled := settled_answer lib.spoken lib.isoformat hfiled request
  unfold Settles Fails respond
  generalize S.answer lib.isoformat lib.repr request = result at hsettled ⊢
  obtain ⟨T, outcome⟩ := result
  rcases hsettled with ⟨body, rfl⟩ | ⟨rfl, status, message, hstatus, hmessage, rfl⟩
  · cases hrender : render lib.floats body with
    | some bytes =>
        have htexts := (render_isSome_iff lib body).mp (Option.isSome_of_eq_some hrender)
        refine .inl ⟨fun other hother => ?_, .inl ⟨bytes, ?_⟩⟩
        · obtain rfl := Except.ok.inj hother
          exact htexts
        · dsimp only [reply]
          rw [hrender]
    | none =>
        have htexts : ¬ Json.AllTexts Text.Plain (.dict body) := by
          rw [← render_isSome_iff lib body, hrender]
          exact Bool.false_ne_true
        have hinternal : (text "internal error").Plain := lib.spoken.literal _
        have hstatus : (text "INTERNAL").Plain := lib.spoken.literal _
        obtain ⟨bytes, hbytes⟩ := errorReply_sent lib 500 hinternal hstatus
        refine .inr ⟨⟨body, rfl, htexts⟩, bytes, ?_⟩
        dsimp only [reply]
        rw [hrender]
        exact hbytes
  · obtain ⟨bytes, hbytes⟩ := errorReply_sent lib status.http hmessage (plain_statusName lib status)
    refine .inl ⟨nofun, .inr ⟨rfl, status.http, bytes, ?_, hbytes⟩⟩
    cases status with
    | invalidArgument => exact .inl rfl
    | notFound => exact .inr rfl
    | unavailable => exact absurd rfl hstatus

private theorem not_fails_of_settles {request : TrackerRequest} (h : S.Settles lib request) :
    ¬ S.Fails lib request := by
  rintro ⟨bytes, hfails⟩
  rcases h with ⟨bytes', hsent⟩ | ⟨-, http, bytes', hhttp, hsent⟩
  · obtain ⟨hcode, -⟩ := Reply.sent.inj (hsent.symm.trans hfails)
    exact absurd hcode (by decide)
  · obtain ⟨hcode, -⟩ := Reply.sent.inj (hsent.symm.trans hfails)
    omega

end Responses

/-- At any time every request is answered, or refused as an invalid argument or for something that
is not there with the store as it was, unless a text that it would be answered with has no bytes;
then the surface fails. Where all texts of the boot and of the requests so far have bytes it never
does. -/
theorem requests_settled (lib : Formats) {seed : TrackerSeed} {S₀ : MockIssueTrackerDriver}
    {requests : List TrackerRequest} (hboot : seed.boot lib.repr identity = .ok S₀)
    (hrun : Run (Asks lib.isoformat lib.repr) S₀ requests S) (request : TrackerRequest) :
    (S.Settles lib request ∨ S.Fails lib request) ∧
      (S.Fails lib request ↔ ∃ body, (S.answer lib.isoformat lib.repr request).2 = .ok body ∧
        ¬ Json.AllTexts Text.Plain (.dict body)) ∧
      (identity.Plain → (∀ issue ∈ seed.issues, issue.AllTexts Text.Plain) →
        (∀ r ∈ requests, r.AllTexts Text.Plain) → request.AllTexts Text.Plain →
          S.Settles lib request) := by
  have hfiled := (tracker_consistent hboot hrun).filed
  have hcases := settles_or_fails lib hfiled request
  refine ⟨hcases.imp And.right And.right, ⟨fun hfails => ?_, ?_⟩, ?_⟩
  · rcases hcases with ⟨-, hsettles⟩ | ⟨hbody, -⟩
    · exact absurd hfails (not_fails_of_settles hsettles)
    · exact hbody
  · rintro ⟨body, hbody, htexts⟩
    rcases hcases with ⟨hplain, -⟩ | ⟨-, hfails⟩
    · exact absurd (hplain body hbody) htexts
    · exact hfails
  · intro hidentity hseed hrequests hrequest
    have hempty : Text.Plain [] := fun _ hc => absurd hc List.not_mem_nil
    obtain ⟨es₀, hstart⟩ := vetted_of_boot hboot hseed
    obtain ⟨es, hrest⟩ := vetted_of_asks hempty (hrun.within_of_forall hrequests)
    have hstore := allTexts_of_run hidentity hempty (hstart.append hrest)
    rcases hcases with ⟨-, hsettles⟩ | ⟨⟨body, hbody, htexts⟩, -⟩
    · exact hsettles
    · refine absurd ?_ htexts
      unfold answer at hbody
      cases hcall : request.call lib.repr with
      | error e =>
          rw [hcall] at hbody
          cases hbody
      | ok e =>
          rw [hcall] at hbody
          obtain ⟨-, hvetted⟩ := vetted_of_call hcall
          exact allTexts_perform lib.spoken lib.plain_isoformat hfiled hstore hvetted
            (allTexts_of_call hcall hrequest hempty) hbody

/-- Formats that write every instant as the epoch, and every other character than the visible ones
of ASCII as an escape. -/
def formats : Formats where
  isoformat _ := text "1970-01-01T00:00:00.000000Z"
  repr s := text "'" ++ (s.flatMap (Json.escapePoint true) ++ text "'")
  floats := ⟨fun _ => text "0.0", fun _ => .finite 0⟩
  plain_isoformat _ := Text.encode_isSome_iff.mp (Text.encode_text _)
  plain_repr s := by
    have hliteral := Text.encode_isSome_iff.mp (Text.encode_text "'")
    refine Text.plain_append.mpr ⟨hliteral, Text.plain_append.mpr ⟨fun c hc => ?_, hliteral⟩⟩
    have hmem : c ∈ Json.encodeString true s :=
      List.mem_cons_of_mem _ (List.mem_append_left _ hc)
    rcases Json.mem_encodeString true s c hmem with hvisible | ⟨hfalse, -⟩
    · exact Text.isSurrogate_of_lt (by omega)
    · exact absurd hfalse (by decide)
  plain_floats x := by
    cases x <;> exact Text.encode_isSome_iff.mp (Text.encode_text _)

/-- A comment on the issue of the seed. -/
def remark (comment : Text) : TrackerRequest :=
  .createComment (text "1001") (some (.dict [(text "comment", .str comment)])) 1

/-- A comment is answered, and another one whose text is a lone surrogate is an internal fault. -/
theorem requests_settled_surrogate : ∃ S₀, seeded.boot formats.repr (text "jetty") = .ok S₀ ∧
    S₀.Settles formats (remark (text "done")) ∧ S₀.Fails formats (remark [0xD800]) := by
  have hrefused : (seeded.boot formats.repr (text "jetty")).toOption.any (fun S₀ =>
      ((S₀.answer formats.isoformat formats.repr (remark [0xD800])).2.toOption.any fun body =>
        (render formats.floats body).isNone)) = true := by
    decide +kernel
  cases hboot : seeded.boot formats.repr (text "jetty") with
  | error message =>
      rw [hboot] at hrefused
      cases hrefused
  | ok S₀ =>
      have hrun : Run (Asks formats.isoformat formats.repr) S₀ [] S₀ := .nil
      refine ⟨S₀, rfl, ?_, ?_⟩
      · refine (requests_settled formats hboot hrun (remark (text "done"))).2.2
          (formats.spoken.literal _) ?_ (fun _ hr => absurd hr List.not_mem_nil) ?_
        · have hliteral := formats.spoken.literal
          refine List.forall_mem_singleton.mpr ⟨⟨hliteral _, hliteral _, hliteral _, hliteral _,
            hliteral _, hliteral "", hliteral ""⟩, hliteral ""⟩
        · rintro v hv
          obtain rfl := Option.some.inj hv
          exact ⟨⟨formats.spoken.literal _, formats.spoken.literal _⟩, trivial⟩
      · refine (requests_settled formats hboot hrun (remark [0xD800])).2.1.mpr ?_
        rw [hboot] at hrefused
        have hany : (S₀.answer formats.isoformat formats.repr (remark [0xD800])).2.toOption.any
            (fun body => (render formats.floats body).isNone) = true := hrefused
        cases hanswer : (S₀.answer formats.isoformat formats.repr (remark [0xD800])).2 with
        | error e =>
            rw [hanswer] at hany
            cases hany
        | ok body =>
            rw [hanswer] at hany
            have hnone : (render formats.floats body).isNone = true := hany
            refine ⟨body, rfl, fun htexts => ?_⟩
            have hsome := (render_isSome_iff formats body).mpr htexts
            rw [Option.isNone_iff_eq_none.mp hnone] at hsome
            cases hsome

end MockIssueTrackerDriver

end Jetty.Issuetracker
