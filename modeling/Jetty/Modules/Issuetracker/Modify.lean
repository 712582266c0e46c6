import Jetty.Modules.Issuetracker.Changes
import Jetty.Modules.Issuetracker.Folders
import Jetty.Modules.Issuetracker.Masks

/-!
# A masked modification touches what its masks name

The surface resolves the masks of a body into values, and the driver sets and edits the fields of
those names. Between the two nothing else is refused, and no other field is written.
-/

namespace Jetty.Issuetracker

open Python Journal Failure Transition

/-! ### Effects of edits -/

/-- A scalar is set. -/
def Issue.assign (issue : Issue) (entry : Text × FieldValue) : Issue :=
  match scalarFields.lookup entry.1 with
  | some attr => issue.setScalar attr entry.2
  | none => issue

/-- A value is added to a collection, or removed from it. -/
def adjust (removing : Bool) (current : List FieldValue) (value : FieldValue) : List FieldValue :=
  if removing then current.erase value
  else if value ∈ current then current
  else current ++ [value]

/-- All values of an entry are added or removed. -/
def Issue.adjust (removing : Bool) (issue : Issue) (entry : Text × List FieldValue) : Issue :=
  match collectionFields.lookup entry.1 with
  | some attr =>
    issue.setCollection attr (entry.2.foldl (Issuetracker.adjust removing) (issue.collection attr))
  | none => issue

private theorem setScalar_self (issue : Issue) (attr : Scalar) :
    issue.setScalar attr (issue.scalar attr) = issue := by
  cases attr <;> rfl

private theorem setCollection_self (issue : Issue) (attr : Collection) :
    issue.setCollection attr (issue.collection attr) = issue := by
  cases attr <;> rfl

private theorem setCollection_setCollection (issue : Issue) (attr : Collection)
    (values values' : List FieldValue) :
    (issue.setCollection attr values).setCollection attr values' =
      issue.setCollection attr values' := by
  cases attr <;> rfl

@[simp] theorem scalar_setScalar (issue : Issue) (attr a : Scalar) (value : FieldValue) :
    (issue.setScalar attr value).scalar a = if a = attr then value else issue.scalar a := by
  cases attr <;> cases a <;> rfl

@[simp] theorem collection_setScalar (issue : Issue) (attr : Scalar) (c : Collection)
    (value : FieldValue) : (issue.setScalar attr value).collection c = issue.collection c := by
  cases attr <;> cases c <;> rfl

@[simp] theorem scalar_setCollection (issue : Issue) (attr : Collection) (a : Scalar)
    (values : List FieldValue) : (issue.setCollection attr values).scalar a = issue.scalar a := by
  cases attr <;> cases a <;> rfl

@[simp] theorem collection_setCollection (issue : Issue) (attr c : Collection)
    (values : List FieldValue) : (issue.setCollection attr values).collection c =
      if c = attr then values else issue.collection c := by
  cases attr <;> cases c <;> rfl

/-- What no mask can name is the same. -/
structure SameRest (issue issue' : Issue) : Prop where
  issueId : issue'.issueId = issue.issueId
  componentId : issue'.componentId = issue.componentId
  reporter : issue'.reporter = issue.reporter
  created : issue'.created = issue.created
  modified : issue'.modified = issue.modified
  description : issue'.description = issue.description

private theorem SameRest.refl {issue : Issue} : SameRest issue issue :=
    ⟨rfl, rfl, rfl, rfl, rfl, rfl⟩

private theorem SameRest.trans {a b c : Issue} (h : SameRest a b) (h' : SameRest b c) :
    SameRest a c where
  issueId := h'.issueId.trans h.issueId
  componentId := h'.componentId.trans h.componentId
  reporter := h'.reporter.trans h.reporter
  created := h'.created.trans h.created
  modified := h'.modified.trans h.modified
  description := h'.description.trans h.description

private theorem sameRest_assign (issue : Issue) (entry : Text × FieldValue) :
    SameRest issue (issue.assign entry) := by
  unfold Issue.assign
  split
  · rename_i attr _
    cases attr <;> exact ⟨rfl, rfl, rfl, rfl, rfl, rfl⟩
  · exact .refl

private theorem sameRest_adjust (removing : Bool) (issue : Issue) (entry : Text × List FieldValue) :
    SameRest issue (issue.adjust removing entry) := by
  unfold Issue.adjust
  split
  · rename_i attr _
    cases attr <;> exact ⟨rfl, rfl, rfl, rfl, rfl, rfl⟩
  · exact .refl

/-- No two names are those of one scalar. -/
theorem scalarFields_injective {a b : Text} {attr : Scalar}
    (ha : scalarFields.lookup a = some attr) (hb : scalarFields.lookup b = some attr) : a = b := by
  have hmem : ∀ {name}, scalarFields.lookup name = some attr → (name, attr) ∈ scalarFields := by
    intro name h
    obtain ⟨front, back, hlist, -⟩ := List.lookup_eq_some_iff.mp h
    exact hlist ▸ by simp
  have hall : ∀ p ∈ scalarFields, ∀ q ∈ scalarFields, p.2 = q.2 → p.1 = q.1 := by decide +kernel
  exact hall _ (hmem ha) _ (hmem hb) rfl

private theorem collectionFields_injective {a b : Text} {attr : Collection}
    (ha : collectionFields.lookup a = some attr) (hb : collectionFields.lookup b = some attr) :
    a = b := by
  have hmem : ∀ {name}, collectionFields.lookup name = some attr →
      (name, attr) ∈ collectionFields := by
    intro name h
    obtain ⟨front, back, hlist, -⟩ := List.lookup_eq_some_iff.mp h
    exact hlist ▸ by simp
  have hall : ∀ p ∈ collectionFields, ∀ q ∈ collectionFields, p.2 = q.2 → p.1 = q.1 := by
    decide +kernel
  exact hall _ (hmem ha) _ (hmem hb) rfl

/-! ### Entries one after the other -/

private theorem scalar_foldl_assign {entries : List (Text × FieldValue)}
    (hnodup : (entries.map Prod.fst).Nodup) {name : Text} {attr : Scalar}
    (hattr : scalarFields.lookup name = some attr) (issue : Issue) :
    (∀ v, (name, v) ∈ entries → (entries.foldl Issue.assign issue).scalar attr = v) ∧
      (name ∉ entries.map Prod.fst →
        (entries.foldl Issue.assign issue).scalar attr = issue.scalar attr) := by
  induction entries generalizing issue with
  | nil => exact ⟨nofun, fun _ => rfl⟩
  | cons entry entries ih =>
      rw [List.map_cons, List.nodup_cons] at hnodup
      obtain ⟨hpresent, habsent⟩ := ih hnodup.2 (issue.assign entry)
      rw [List.foldl_cons]
      refine ⟨fun v hv => ?_, fun hname => ?_⟩
      · rcases List.mem_cons.mp hv with rfl | hv
        · rw [habsent hnodup.1]
          simp only [Issue.assign, hattr, scalar_setScalar, if_pos]
        · exact hpresent v hv
      · rw [List.map_cons, List.mem_cons, not_or] at hname
        rw [habsent hname.2]
        unfold Issue.assign
        split
        · rename_i other hother
          rw [scalar_setScalar, if_neg]
          rintro rfl
          exact hname.1 (scalarFields_injective hattr hother)
        · rfl

private theorem collection_foldl_assign (entries : List (Text × FieldValue)) (issue : Issue) :
    (entries.foldl Issue.assign issue).collection = issue.collection := by
  induction entries generalizing issue with
  | nil => rfl
  | cons entry entries ih =>
      rw [List.foldl_cons, ih]
      funext c
      unfold Issue.assign
      split
      · exact collection_setScalar _ _ _ _
      · rfl

private theorem sameRest_foldl_assign (entries : List (Text × FieldValue)) (issue : Issue) :
    SameRest issue (entries.foldl Issue.assign issue) := by
  induction entries generalizing issue with
  | nil => exact .refl
  | cons entry entries ih => exact (sameRest_assign issue entry).trans (ih _)

private theorem collection_foldl_adjust {entries : List (Text × List FieldValue)} (removing : Bool)
    (hnodup : (entries.map Prod.fst).Nodup) {name : Text} {attr : Collection}
    (hattr : collectionFields.lookup name = some attr) (issue : Issue) :
    (∀ vs, (name, vs) ∈ entries → (entries.foldl (Issue.adjust removing) issue).collection attr =
        vs.foldl (adjust removing) (issue.collection attr)) ∧
      (name ∉ entries.map Prod.fst →
        (entries.foldl (Issue.adjust removing) issue).collection attr = issue.collection attr) := by
  induction entries generalizing issue with
  | nil => exact ⟨nofun, fun _ => rfl⟩
  | cons entry entries ih =>
      rw [List.map_cons, List.nodup_cons] at hnodup
      obtain ⟨hpresent, habsent⟩ := ih hnodup.2 (issue.adjust removing entry)
      have hother : name ≠ entry.1 →
          (issue.adjust removing entry).collection attr = issue.collection attr := by
        intro hne
        unfold Issue.adjust
        split
        · rename_i other hother
          rw [collection_setCollection, if_neg]
          rintro rfl
          exact hne (collectionFields_injective hattr hother)
        · rfl
      rw [List.foldl_cons]
      refine ⟨fun vs hvs => ?_, fun hname => ?_⟩
      · rcases List.mem_cons.mp hvs with rfl | hvs
        · rw [habsent hnodup.1]
          simp only [Issue.adjust, hattr, collection_setCollection, if_pos]
        · rw [hpresent vs hvs, hother]
          rintro rfl
          exact hnodup.1 (List.mem_map.mpr ⟨_, hvs, rfl⟩)
      · rw [List.map_cons, List.mem_cons, not_or] at hname
        rw [habsent hname.2, hother hname.1]

private theorem scalar_foldl_adjust (entries : List (Text × List FieldValue)) (removing : Bool)
    (issue : Issue) : (entries.foldl (Issue.adjust removing) issue).scalar = issue.scalar := by
  induction entries generalizing issue with
  | nil => rfl
  | cons entry entries ih =>
      rw [List.foldl_cons, ih]
      funext a
      unfold Issue.adjust
      split
      · exact scalar_setCollection _ _ _ _
      · rfl

private theorem sameRest_foldl_adjust (entries : List (Text × List FieldValue)) (removing : Bool)
    (issue : Issue) : SameRest issue (entries.foldl (Issue.adjust removing) issue) := by
  induction entries generalizing issue with
  | nil => exact .refl
  | cons entry entries ih => exact (sameRest_adjust removing issue entry).trans (ih _)

/-- Values are added once. -/
theorem foldl_adjust_add (values current : List FieldValue) (h : current.Nodup) :
    (values.foldl (adjust false) current).Nodup ∧
      ∀ v, v ∈ values.foldl (adjust false) current ↔ v ∈ current ∨ v ∈ values := by
  induction values generalizing current with
  | nil => exact ⟨h, fun v => by simp⟩
  | cons value values ih =>
      have hstep : (adjust false current value).Nodup ∧
          ∀ v, v ∈ adjust false current value ↔ v ∈ current ∨ v = value := by
        unfold adjust
        rw [if_neg Bool.false_ne_true]
        split
        · rename_i hmem
          refine ⟨h, fun v => ⟨.inl, fun hv => hv.elim id fun heq => heq ▸ hmem⟩⟩
        · rename_i hnew
          refine ⟨List.nodup_append.mpr ⟨h, List.nodup_singleton _, ?_⟩, fun v => by simp⟩
          rintro v hv w hw rfl
          exact hnew (List.mem_singleton.mp hw ▸ hv)
      obtain ⟨hnodup, hmem⟩ := ih _ hstep.1
      refine ⟨hnodup, fun v => ?_⟩
      rw [List.foldl_cons, hmem, hstep.2, List.mem_cons, or_assoc]

/-- Values are removed. -/
theorem foldl_adjust_remove (values current : List FieldValue) (h : current.Nodup) :
    (values.foldl (adjust true) current).Nodup ∧
      ∀ v, v ∈ values.foldl (adjust true) current ↔ v ∈ current ∧ v ∉ values := by
  induction values generalizing current with
  | nil => exact ⟨h, fun v => by simp⟩
  | cons value values ih =>
      have herase : (adjust true current value).Nodup ∧
          ∀ v, v ∈ adjust true current value ↔ v ≠ value ∧ v ∈ current := by
        unfold adjust
        rw [if_pos rfl]
        exact ⟨h.erase value, fun v => h.mem_erase_iff⟩
      obtain ⟨hnodup, hmem⟩ := ih _ herase.1
      refine ⟨hnodup, fun v => ?_⟩
      rw [List.foldl_cons, hmem, herase.2, List.mem_cons]
      tauto

/-! ### The three loops -/

section Loops

variable (repr : Text → Text)

private theorem editScalar_assign {entry : Text × FieldValue} (h : knownScalar entry = true)
    (issue : Issue) :
    ∃ changes, editScalar repr issue entry = .ok (issue.assign entry, changes) := by
  obtain ⟨attr, hattr⟩ := Option.isSome_iff_exists.mp h
  simp only [editScalar, Issue.assign, hattr]
  split
  · rename_i hsame
    rw [← hsame, setScalar_self]
    exact ⟨[], rfl⟩
  · exact ⟨_, rfl⟩

private theorem editValue_adjust (removing : Bool) (field : Text) (attr : Collection)
    (value : FieldValue) (issue : Issue) : ∃ changes, editValue removing field attr issue value =
      .ok (issue.setCollection attr (adjust removing (issue.collection attr) value), changes) := by
  unfold editValue adjust
  cases removing with
  | true =>
      by_cases hmem : value ∈ issue.collection attr
      · simp [hmem]
      · simp [hmem, List.erase_of_not_mem, setCollection_self]
  | false =>
      by_cases hmem : value ∈ issue.collection attr
      · simp [hmem, setCollection_self]
      · simp [hmem]

private theorem foldl_setCollection (removing : Bool) (attr : Collection) (values : List FieldValue)
    (issue : Issue) :
    values.foldl (fun issue value =>
        issue.setCollection attr (adjust removing (issue.collection attr) value)) issue =
      issue.setCollection attr (values.foldl (adjust removing) (issue.collection attr)) := by
  induction values generalizing issue with
  | nil => exact (setCollection_self issue attr).symm
  | cons value values ih =>
      rw [List.foldl_cons, ih, setCollection_setCollection, collection_setCollection, if_pos rfl,
        List.foldl_cons]

private theorem editCollection_adjust {removing : Bool} {entry : Text × List FieldValue}
    (h : knownCollection entry = true) (issue : Issue) :
    ∃ changes, editCollection repr removing issue entry =
      .ok (issue.adjust removing entry, changes) := by
  obtain ⟨attr, hattr⟩ := Option.isSome_iff_exists.mp h
  simp only [editCollection, Issue.adjust, hattr]
  refine ⟨(editAll (editValue removing entry.1 attr) issue entry.2).1.2,
    congrArg Except.ok (Prod.ext ?_ rfl)⟩
  rw [editAll_eq_foldl fun value _ issue => editValue_adjust removing entry.1 attr value issue]
  exact foldl_setCollection removing attr entry.2 issue

/-- Where all names are known, the loops leave what their effects leave. -/
theorem editIssue_eq {req : IssueModify} (h : KnownMasks req) (issue : Issue) :
    (editIssue repr issue req).1.1 = req.remove.entries.foldl (Issue.adjust true)
      (req.add.entries.foldl (Issue.adjust false) (req.sets.entries.foldl Issue.assign issue)) := by
  obtain ⟨hset, hadd, hremove⟩ := h
  have hscalars := editAll_eq_foldl (fun entry hentry => editScalar_assign repr (hset entry hentry))
    issue
  have hsetnone := (editAll_refusal _ (editScalar_known repr) issue req.sets.entries).mpr hset
  unfold editIssue
  generalize editAll (editScalar repr) issue req.sets.entries = edited at hscalars hsetnone ⊢
  obtain ⟨⟨issue₁, set⟩, _ | e⟩ := edited
  · dsimp only at hscalars ⊢
    subst hscalars
    have hadded := editAll_eq_foldl (fun entry hentry =>
      @editCollection_adjust repr false entry (hadd entry hentry))
      (req.sets.entries.foldl Issue.assign issue)
    have haddnone := (editAll_refusal _ (editCollection_known repr false)
      (req.sets.entries.foldl Issue.assign issue) req.add.entries).mpr hadd
    generalize editAll (editCollection repr false) _ req.add.entries = edited
      at hadded haddnone ⊢
    obtain ⟨⟨issue₂, added⟩, _ | e⟩ := edited
    · dsimp only at hadded ⊢
      subst hadded
      exact editAll_eq_foldl (fun entry hentry =>
        editCollection_adjust repr (hremove entry hentry)) _
    · cases haddnone
  · cases hsetnone

/-- What setting a scalar and adjusting a collection keep, the loops keep. -/
theorem editIssue_preserves {P : Issue → Prop}
    (hscalar : ∀ issue attr value, P issue → P (issue.setScalar attr value))
    (hcollection : ∀ issue attr removing value, P issue →
      P (issue.setCollection attr (adjust removing (issue.collection attr) value)))
    (issue : Issue) (req : IssueModify) (h : P issue) : P (editIssue repr issue req).1.1 := by
  have hset : ∀ issue entry issue' changes, P issue →
      editScalar repr issue entry = .ok (issue', changes) → P issue' := by
    intro issue entry issue' changes hP hedit
    have hknown := (editScalar_known repr issue entry).mpr ⟨_, hedit⟩
    obtain ⟨changes', hassign⟩ := editScalar_assign repr hknown issue
    obtain ⟨rfl, -⟩ := Prod.mk.inj (Except.ok.inj (hassign.symm.trans hedit))
    unfold Issue.assign
    split
    · exact hscalar _ _ _ hP
    · exact hP
  have hadjust : ∀ removing issue entry issue' changes, P issue →
      editCollection repr removing issue entry = .ok (issue', changes) → P issue' := by
    intro removing issue entry issue' changes hP hedit
    unfold editCollection at hedit
    split at hedit
    · cases hedit
    · obtain ⟨rfl, -⟩ := Prod.mk.inj (Except.ok.inj hedit)
      refine editAll_preserves (fun issue value issue' changes hP hedit => ?_) issue entry.2 hP
      obtain ⟨changes', hvalue⟩ := editValue_adjust removing entry.1 _ value issue
      obtain ⟨rfl, -⟩ := Prod.mk.inj (Except.ok.inj (hvalue.symm.trans hedit))
      exact hcollection _ _ _ _ hP
  have hscalars := editAll_preserves hset issue req.sets.entries h
  unfold editIssue
  generalize editAll (editScalar repr) issue req.sets.entries = edited at hscalars ⊢
  obtain ⟨⟨issue₁, set⟩, _ | e⟩ := edited
  · have hadded := editAll_preserves (hadjust false) issue₁ req.add.entries hscalars
    dsimp only
    generalize editAll (editCollection repr false) issue₁ req.add.entries = edited at hadded ⊢
    obtain ⟨⟨issue₂, added⟩, _ | e⟩ := edited
    · exact editAll_preserves (hadjust true) issue₂ req.remove.entries hadded
    · exact hadded
  · exact hscalars

/-- A modification leaves alone what no mask can name. -/
theorem sameRest_editIssue (issue : Issue) (req : IssueModify) :
    SameRest issue (editIssue repr issue req).1.1 := by
  refine editIssue_preserves repr (P := SameRest issue) (fun issue' attr value h => h.trans ?_)
    (fun issue' attr removing value h => h.trans ?_) issue req .refl
  · cases attr <;> exact ⟨rfl, rfl, rfl, rfl, rfl, rfl⟩
  · cases attr <;> exact ⟨rfl, rfl, rfl, rfl, rfl, rfl⟩

end Loops

/-! ### From the body to the issue -/

/-- The comment of the body. -/
def commentOf (body : List (Text × Json)) : Option Text :=
  match Json.get? body (text "issueComment") with
  | some (.dict entries) =>
    match Json.get? entries (text "comment") with
    | some (.str s) => some s
    | _ => none
  | _ => none

/-- The values that the state of the body lists for a collection, if the mask names it. -/
def Listed (body : List (Text × Json)) (maskName stateName name : Text) (attr : Collection)
    (vs : List FieldValue) : Prop :=
  if name ∈ masks body maskName then
    ∃ values, carried body stateName name = some (.list values) ∧
      values.mapM attr.wire.read = some vs
  else vs = []

/-- Only what the masks name has changed, to what the body says. The time of the modification is not
among these fields. -/
structure Edits (body : List (Text × Json)) (issue issue' : Issue) : Prop where
  set : ∀ name attr, scalarFields.lookup name = some attr → name ∈ masks body (text "addMask") →
    ∃ value, carried body (text "add") name = some value ∧
      attr.wire.read value = some (issue'.scalar attr)
  unset : ∀ name attr, scalarFields.lookup name = some attr → name ∉ masks body (text "addMask") →
    issue'.scalar attr = issue.scalar attr
  edited : ∀ name attr, collectionFields.lookup name = some attr → ∃ added removed,
    Listed body (text "addMask") (text "add") name attr added ∧
      Listed body (text "removeMask") (text "remove") name attr removed ∧
      ∀ v, v ∈ issue'.collection attr ↔ (v ∈ issue.collection attr ∨ v ∈ added) ∧ v ∉ removed
  unedited : ∀ name attr, collectionFields.lookup name = some attr →
    name ∉ masks body (text "addMask") → name ∉ masks body (text "removeMask") →
      issue'.collection attr = issue.collection attr
  distinct : ∀ attr, (issue'.collection attr).Nodup
  rest : issue'.issueId = issue.issueId ∧ issue'.componentId = issue.componentId ∧
    issue'.reporter = issue.reporter ∧ issue'.created = issue.created ∧
    issue'.description = issue.description

/-- The modification is carried out, with its comment if there is one. -/
structure Carried (body : List (Text × Json)) (identity : Text) (i : ℤ) (f f' : Folder) :
    Prop where
  edits : Edits body f.issue f'.issue
  present : (Json.get? body (text "issueComment")).isSome = (commentOf body).isSome
  comments : f'.comments = f.comments ++
    ((commentOf body).map fun s => ⟨i, f.comments.length + 1, s, identity⟩).toList
  relationships : f'.relationships = f.relationships
  /-- The time and the history stay as they are, or the modification is recorded with its time. -/
  stamped : f'.issue.modified = f.issue.modified ∧ f'.updates = f.updates ∨
    ∃ u, f'.updates = f.updates ++ [u] ∧ u.author = identity ∧ u.timestamp = f'.issue.modified

/-- `_parse_modify`, and `modify_issue` with what it returns. -/
def modify (repr : Text → Text) (S : MockIssueTrackerDriver) (i : ℤ) (body : List (Text × Json))
    (commented now : ℚ) : MockIssueTrackerDriver × Outcome (Option Issue) :=
  match parseModify repr body with
  | .error e => (S, .error e)
  | .ok req => ((S.modifyIssue repr i req commented now).1,
    drive (S.modifyIssue repr i req commented now).2)

private theorem parseIssueComment_eq {body : List (Text × Json)} {comment : Option Text}
    (h : parseIssueComment body = .ok comment) : comment = commentOf body ∧
      (Json.get? body (text "issueComment")).isSome = (commentOf body).isSome := by
  unfold parseIssueComment at h
  unfold commentOf
  dsimp only at h
  split at h
  · rename_i hnone
    rw [hnone]
    exact ⟨(Except.ok.inj h).symm, rfl⟩
  · rename_i entries hentries
    rw [hentries]
    dsimp only
    cases hcomment : Json.get? entries (text "comment") with
    | none =>
        rw [hcomment] at h
        cases h
    | some value =>
        rw [hcomment] at h
        cases value with
        | str s => exact ⟨(Except.ok.inj h).symm, rfl⟩
        | _ => cases h
  · cases h

/-- The request names fields that the driver knows. -/
theorem knownMasks_of_parseModify {repr : Text → Text} {body : List (Text × Json)}
    {req : IssueModify} (h : parseModify repr body = .ok req) : KnownMasks req := by
  obtain ⟨⟨added, -, hadded⟩, ⟨removed, -, hremoved⟩, -⟩ := parseModify_resolved h
  have hcollections {entries : List (Text × Json)} {mask : List Text} {found : Deltas}
      (h : Resolved entries mask found) :
      ∀ entry ∈ found.collections.entries, knownCollection entry = true := by
    intro entry hentry
    obtain ⟨-, attr, -, hattr, -⟩ := h.collections entry.1 entry.2 (Dict.get?_eq_some.mpr hentry)
    exact Option.isSome_of_eq_some hattr
  refine ⟨fun entry hentry => ?_, hcollections hadded, hcollections hremoved⟩
  obtain ⟨-, attr, -, hattr, -⟩ := hadded.sets entry.1 entry.2 (Dict.get?_eq_some.mpr hentry)
  exact Option.isSome_of_eq_some hattr

/-- What a resolved mask lists for a collection. -/
theorem listed_of_resolved {body entries : List (Text × Json)} {maskName stateName name : Text}
    {attr : Collection} {found : Deltas}
    (hentries : ∀ name, Json.get? entries name = carried body stateName name)
    (h : Resolved entries (masks body maskName) found)
    (hattr : collectionFields.lookup name = some attr) :
    Listed body maskName stateName name attr ((found.collections.get? name).getD []) ∧
      (name ∉ masks body maskName → found.collections.get? name = none) := by
  unfold Listed
  cases hfound : found.collections.get? name with
  | none =>
      refine ⟨?_, fun _ => rfl⟩
      rw [if_neg]
      · rfl
      · intro hmask
        rcases h.known name hmask with ⟨other, hother, -⟩ | ⟨-, -, vs, hvs⟩
        · cases (scalar_of_collection hattr).symm.trans hother
        · cases hfound.symm.trans hvs
  | some vs =>
      obtain ⟨hmask, other, values, hother, hvalues, hread⟩ := h.collections name vs hfound
      obtain rfl := Option.some.inj (hattr.symm.trans hother)
      refine ⟨?_, fun hnot => absurd hmask hnot⟩
      rw [if_pos hmask]
      exact ⟨values, (hentries name).symm.trans hvalues, hread⟩

/-- Values of one dictionary are adjusted. -/
theorem collection_foldl_dict (d : Dict Text (List FieldValue)) (removing : Bool) {name : Text}
    {attr : Collection} (hattr : collectionFields.lookup name = some attr) (issue : Issue) :
    (d.entries.foldl (Issue.adjust removing) issue).collection attr =
      ((d.get? name).getD []).foldl (adjust removing) (issue.collection attr) := by
  obtain ⟨hpresent, habsent⟩ := collection_foldl_adjust removing d.nodup hattr issue
  cases hget : d.get? name with
  | none => exact habsent (Dict.get?_eq_none.mp hget)
  | some vs => exact hpresent vs (Dict.get?_eq_some.mp hget)

private theorem Edits.touch {body : List (Text × Json)} {issue issue' : Issue}
    (h : Edits body issue issue') (now : ℚ) : Edits body issue (issue'.touch now) :=
  ⟨h.set, h.unset, h.edited, h.unedited, h.distinct, h.rest⟩

/-- The loops do what the body says. -/
theorem edits_of_parseModify {repr : Text → Text} {body : List (Text × Json)} {req : IssueModify}
    (h : parseModify repr body = .ok req) {issue : Issue}
    (hdistinct : ∀ attr, (issue.collection attr).Nodup) :
    Edits body issue (editIssue repr issue req).1.1 := by
  obtain ⟨⟨added, haddedEntries, hadded⟩, ⟨removed, hremovedEntries, hremoved⟩, -⟩ :=
    parseModify_resolved h
  rw [editIssue_eq repr (knownMasks_of_parseModify h)]
  have hscalar : ∀ attr, (req.remove.entries.foldl (Issue.adjust true) (req.add.entries.foldl
      (Issue.adjust false) (req.sets.entries.foldl Issue.assign issue))).scalar attr =
        (req.sets.entries.foldl Issue.assign issue).scalar attr := by
    intro attr
    rw [scalar_foldl_adjust, scalar_foldl_adjust]
  have hcollection : ∀ name attr, collectionFields.lookup name = some attr →
      (req.remove.entries.foldl (Issue.adjust true) (req.add.entries.foldl
        (Issue.adjust false) (req.sets.entries.foldl Issue.assign issue))).collection attr =
        ((req.remove.get? name).getD []).foldl (adjust true)
          (((req.add.get? name).getD []).foldl (adjust false) (issue.collection attr)) := by
    intro name attr hattr
    rw [collection_foldl_dict req.remove true hattr, collection_foldl_dict req.add false hattr,
      collection_foldl_assign]
  have hrest := (sameRest_foldl_assign req.sets.entries issue).trans
    ((sameRest_foldl_adjust req.add.entries false _).trans
      (sameRest_foldl_adjust req.remove.entries true _))
  constructor
  case set =>
    intro name attr hattr hmask
    rw [hscalar]
    rcases hadded.known name hmask with ⟨other, hother, v, hv⟩ | ⟨other, hother, -⟩
    · obtain ⟨-, other, value, hother, hvalue, hread⟩ := hadded.sets name v hv
      obtain rfl := Option.some.inj (hattr.symm.trans hother)
      refine ⟨value, (haddedEntries name).symm.trans hvalue, ?_⟩
      rw [hread, (scalar_foldl_assign req.sets.nodup hattr issue).1 v (Dict.get?_eq_some.mp hv)]
    · cases (scalar_of_collection hother).symm.trans hattr
  case unset =>
    intro name attr hattr hmask
    rw [hscalar]
    refine (scalar_foldl_assign req.sets.nodup hattr issue).2 fun hmem => ?_
    obtain ⟨v, hv⟩ := Dict.mem_keys.mp hmem
    exact hmask (hadded.sets name v hv).1
  case edited =>
    intro name attr hattr
    obtain ⟨hlisted, -⟩ := listed_of_resolved haddedEntries hadded hattr
    obtain ⟨hlisted', -⟩ := listed_of_resolved hremovedEntries hremoved hattr
    refine ⟨_, _, hlisted, hlisted', fun v => ?_⟩
    obtain ⟨hnodup, hmem⟩ := foldl_adjust_add ((req.add.get? name).getD []) _ (hdistinct attr)
    rw [hcollection name attr hattr, (foldl_adjust_remove _ _ hnodup).2, hmem]
  case unedited =>
    intro name attr hattr hmask hmask'
    have hnone := (listed_of_resolved haddedEntries hadded hattr).2 hmask
    have hnone' := (listed_of_resolved hremovedEntries hremoved hattr).2 hmask'
    dsimp only at hnone hnone'
    rw [hcollection name attr hattr, hnone, hnone']
    rfl
  case distinct =>
    intro attr
    have hname : ∃ name, collectionFields.lookup name = some attr := by
      cases attr
      · exact ⟨text "ccs", by decide +kernel⟩
      · exact ⟨text "hotlistIds", by decide +kernel⟩
      · exact ⟨text "blockedByIssueIds", by decide +kernel⟩
    obtain ⟨name, hattr⟩ := hname
    rw [hcollection name attr hattr]
    exact (foldl_adjust_remove _ _ (foldl_adjust_add _ _ (hdistinct attr)).1).1
  case rest =>
    exact ⟨hrest.issueId, hrest.componentId, hrest.reporter, hrest.created, hrest.description⟩

namespace MockIssueTrackerDriver

variable {S : MockIssueTrackerDriver} {repr : Text → Text} {i : ℤ} {f : Folder}

/-! ### Collections in runs -/

private theorem adjust_nodup (removing : Bool) {current : List FieldValue} (h : current.Nodup)
    (value : FieldValue) : (adjust removing current value).Nodup := by
  cases removing with
  | true => exact (foldl_adjust_remove [value] current h).1
  | false => exact (foldl_adjust_add [value] current h).1

/-- No collection of an issue has a value twice. -/
theorem distinct_of_run {identity : Text} {es : List TrackerEvent}
    (hrun : Run (Serves repr) (blank identity) es S) (hf : S.folder i = some f)
    (attr : Collection) :
    (f.issue.collection attr).Nodup := by
  have hedit : ∀ {issue req issue' changes refusal}, (∀ attr, (Issue.collection issue attr).Nodup) →
      editIssue repr issue req = ((issue', changes), refusal) →
        ∀ attr, (issue'.collection attr).Nodup := by
    intro issue req issue' changes refusal h hedited
    have hdone := editIssue_preserves repr (P := fun issue => ∀ attr, (issue.collection attr).Nodup)
      (fun issue a v h attr => by
        rw [collection_setScalar]
        exact h attr)
      (fun issue a removing v h attr => by
        rw [collection_setCollection]
        split
        · exact adjust_nodup removing (h a) v
        · exact h attr) issue req h
    rwa [hedited] at hdone
  refine folder_invariant (fun _ f => ∀ attr, (f.issue.collection attr).Nodup) ?_ ?_ hrun hf attr
  · intro i req reporter now attr
    cases attr <;> exact List.nodup_nil
  · intro i e f f' hact h
    cases hact with
    | idle => exact h
    | modified hmodified =>
        cases hmodified with
        | refused hedited => exact hedit h hedited
        | quiet hedited _ => exact hedit h hedited
        | recorded hedited _ _ =>
            have hdone := hedit h hedited
            exact hdone
        | explained hedited _ =>
            have hdone := hedit h hedited
            exact hdone
    | related => exact h
    | commented => exact h
    | @rewritten number body now f _ _ =>
        intro attr
        have hsame : (f.rewrite number body now).issue.collection = f.issue.collection := by
          unfold Folder.rewrite
          split <;> rfl
        rw [hsame]
        exact h attr
    | @listed now f entry _ hnew =>
        intro attr
        cases attr with
        | hotlistIds =>
            have hadded := adjust_nodup false (h .hotlistIds) (.int entry.hotlistId)
            have hnew' : .int entry.hotlistId ∉ f.issue.collection .hotlistIds := hnew
            rwa [adjust, if_neg Bool.false_ne_true, if_neg hnew'] at hadded
        | ccs => exact h .ccs
        | blockedBy => exact h .blockedBy
    | unlisted _ =>
        intro attr
        cases attr with
        | hotlistIds => exact (h .hotlistIds).erase _
        | ccs => exact h .ccs
        | blockedBy => exact h .blockedBy

/-- In every run, a body is refused with `INVALID_ARGUMENT` before the driver is called, or the
driver carries out what its masks say and touches nothing else but the time of the modification and
the history, in which it may record it. -/
theorem modify_masked {identity : Text} {es : List TrackerEvent}
    (hrun : Run (Serves repr) (blank identity) es S) (hf : S.folder i = some f)
    (body : List (Text × Json)) (commented now : ℚ) :
    (∃ message, parseModify repr body = .error (.api .invalidArgument message) ∧
      modify repr S i body commented now = (S, .error (.api .invalidArgument message))) ∨
    ∃ T f', modify repr S i body commented now = (T, .ok (some f'.issue)) ∧
      T.folder i = some f' ∧ Carried body S.identity i f f' ∧ Frame i S T := by
  unfold modify
  cases hparse : parseModify repr body with
  | error e =>
      have hspares := parseModify_spares (spoken_true repr) body e hparse
      cases e with
      | other => exact absurd trivial hspares
      | api status message =>
          cases status with
          | invalidArgument => exact .inl ⟨message, rfl, rfl⟩
          | _ => exact absurd trivial hspares
  | ok req =>
      have hknown := knownMasks_of_parseModify hparse
      have hnone := editIssue_known repr hknown f.issue
      have hedits := edits_of_parseModify hparse (distinct_of_run hrun hf)
      obtain ⟨-, -, hcomment⟩ := parseModify_resolved hparse
      obtain ⟨hcomment, hpresent⟩ := parseIssueComment_eq hcomment
      obtain ⟨f', hf', hact, hframe, hanswer⟩ :=
        folder_modifyIssue repr hf req commented now
      refine .inr ⟨_, f', ?_, hf', ?_, hframe⟩
      · dsimp only
        rw [hanswer hnone]
        rfl
      · cases hact with
        | refused hedited =>
            rw [hedited] at hnone
            cases hnone
        | quiet hedited hreq =>
            rw [hedited] at hedits
            rw [hreq] at hcomment
            have hrest := sameRest_editIssue repr f.issue req
            rw [hedited] at hrest
            exact ⟨hedits, hpresent, by rw [← hcomment]; exact (List.append_nil _).symm, rfl,
              .inl ⟨hrest.modified, rfl⟩⟩
        | recorded hedited hreq _ =>
            rw [hedited] at hedits
            rw [hreq] at hcomment
            exact ⟨hedits.touch now, hpresent, by rw [← hcomment]; exact (List.append_nil _).symm,
              rfl, .inr ⟨_, rfl, rfl, rfl⟩⟩
        | explained hedited hreq =>
            rw [hedited] at hedits
            rw [hreq] at hcomment
            exact ⟨(hedits.touch commented).touch now, hpresent, by rw [← hcomment]; rfl, rfl,
              .inr ⟨_, rfl, rfl, rfl⟩⟩

/-- A component with one issue. -/
private def filedIssue : List TrackerEvent :=
  [.seedComponent 1,
    .seedIssue ⟨1, text "crash", text "NEW", text "BUG", text "P2", text "S2", [], []⟩
      (text "me") 0]

/-- The issue is fixed, with a comment; a new title is not masked. -/
private def fixing : List (Text × Json) :=
  [(text "add", .dict [(text "status", .str (text "FIXED")), (text "title", .str (text "none"))]),
    (text "addMask", .str (text "status")),
    (text "issueComment", .dict [(text "comment", .str (text "done"))])]

/-- An issue is fixed with a comment, and its title stays. -/
theorem modify_masked_fixed : ∃ S f T f', S.folder 1001 = some f ∧
    modify id S 1001 fixing 1 2 = (T, .ok (some f'.issue)) ∧ T.folder 1001 = some f' ∧
      Carried fixing S.identity 1001 f f' ∧ Frame 1001 S T := by
  obtain ⟨f, hf⟩ : ∃ f, (serveAll id (blank (text "jetty")) filedIssue).folder 1001 = some f :=
    Option.isSome_iff_exists.mp (by decide +kernel)
  have hok : (parseModify id fixing).isOk = true := by decide +kernel
  rcases modify_masked (run_serveAll id (blank (text "jetty")) filedIssue) hf fixing 1 2 with
    ⟨message, hparse, -⟩ | ⟨T, f', hcarried⟩
  · rw [hparse] at hok
    cases hok
  · exact ⟨_, f, T, f', hf, hcarried⟩

end MockIssueTrackerDriver

end Jetty.Issuetracker
