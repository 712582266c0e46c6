import Jetty.Modules.Issuetracker.Driver
import Mathlib.Data.List.TakeWhile
import Mathlib.Logic.Function.Basic

/-!
# What a modification changes

The changes that `modify_issue` collects, replayed over the fields of the issue as it was, give the
fields as it leaves them, also where it is refused half way. It is refused for a name in its masks
alone.
-/

namespace Jetty.Issuetracker

open Python Journal

/-! ### Replaying changes -/

/-- The fields of an issue whose changes are recorded. -/
structure Fields where
  scalar : Scalar → FieldValue
  collection : Collection → List FieldValue

def Issue.fields (issue : Issue) : Fields := ⟨issue.scalar, issue.collection⟩

namespace Fields

/-- A recorded change of a scalar is its new value; one of a collection is a value that came last
or that went. -/
def apply (F : Fields) (change : FieldChange) : Fields :=
  match scalarFields.lookup change.field, collectionFields.lookup change.field, change.old,
    change.new with
  | some attr, _, _, some value =>
    { F with scalar := Function.update F.scalar attr value }
  | none, some attr, none, some value =>
    { F with collection := Function.update F.collection attr (F.collection attr ++ [value]) }
  | none, some attr, some value, none =>
    { F with collection := Function.update F.collection attr ((F.collection attr).erase value) }
  | _, _, _, _ => F

/-- Replay a history, oldest first. -/
def replay (F : Fields) (history : List IssueUpdate) : Fields :=
  (history.flatMap IssueUpdate.changes).foldl apply F

end Fields

private theorem fields_setScalar (issue : Issue) (attr : Scalar) (value : FieldValue) :
    (issue.setScalar attr value).fields =
      { issue.fields with scalar := Function.update issue.scalar attr value } := by
  refine congrArg₂ Fields.mk (funext fun a => ?_) (funext fun c => ?_)
  · cases attr <;> cases a <;> rfl
  · cases attr <;> cases c <;> rfl

private theorem fields_setCollection (issue : Issue) (attr : Collection)
    (values : List FieldValue) : (issue.setCollection attr values).fields =
      { issue.fields with collection := Function.update issue.collection attr values } := by
  refine congrArg₂ Fields.mk (funext fun a => ?_) (funext fun c => ?_)
  · cases attr <;> cases a <;> rfl
  · cases attr <;> cases c <;> rfl

@[simp] theorem fields_touch (issue : Issue) (now : ℚ) : (issue.touch now).fields = issue.fields :=
  rfl

/-- No name is both that of a scalar and that of a collection. -/
theorem scalar_of_collection {field : Text} {attr : Collection}
    (h : collectionFields.lookup field = some attr) : scalarFields.lookup field = none := by
  have hmem : ∀ name ∈ collectionFields.map Prod.fst, scalarFields.lookup name = none := by
    decide +kernel
  obtain ⟨entry, hentry, heq⟩ := List.lookup_isSome_iff.mp (Option.isSome_of_eq_some h)
  rw [eq_of_beq heq]
  exact hmem entry.1 (List.mem_map_of_mem hentry)

section Edits

variable (repr : Text → Text)

private theorem editScalar_explains (issue : Issue) (entry : Text × FieldValue) (result : Issue)
    (changes : List FieldChange) (h : editScalar repr issue entry = .ok (result, changes)) :
    Explains Fields.apply issue.fields changes result.fields := by
  unfold editScalar at h
  cases hattr : scalarFields.lookup entry.1 with
  | none => simp [hattr] at h
  | some attr =>
      simp only [hattr, Except.ok.injEq] at h
      by_cases hsame : issue.scalar attr = entry.2
      · rw [if_pos hsame] at h
        cases h
        exact .refl
      · rw [if_neg hsame] at h
        cases h
        rw [Explains, List.foldl_cons, List.foldl_nil, fields_setScalar, Fields.apply, hattr]
        rfl

private theorem editValue_explains (removing : Bool) {field : Text} {attr : Collection}
    (hattr : collectionFields.lookup field = some attr) (issue : Issue) (value : FieldValue)
    (result : Issue) (changes : List FieldChange)
    (h : editValue removing field attr issue value = .ok (result, changes)) :
    Explains Fields.apply issue.fields changes result.fields := by
  have hscalar := scalar_of_collection hattr
  unfold editValue at h
  simp only [Except.ok.injEq] at h
  split at h
  · cases h
    rw [Explains, List.foldl_cons, List.foldl_nil, fields_setCollection, Fields.apply, hattr,
      hscalar]
    rfl
  · split at h
    · cases h
      rw [Explains, List.foldl_cons, List.foldl_nil, fields_setCollection, Fields.apply, hattr,
        hscalar]
      rfl
    · cases h
      exact .refl

private theorem editCollection_explains (removing : Bool) (issue : Issue)
    (entry : Text × List FieldValue) (result : Issue) (changes : List FieldChange)
    (h : editCollection repr removing issue entry = .ok (result, changes)) :
    Explains Fields.apply issue.fields changes result.fields := by
  unfold editCollection at h
  cases hattr : collectionFields.lookup entry.1 with
  | none => simp [hattr] at h
  | some attr =>
      simp only [hattr, Except.ok.injEq] at h
      have hall := editAll_explains Issue.fields
        (editValue_explains removing hattr) issue entry.2
      rwa [h] at hall

/-- The changes that the loops of a modification collect lead to the issue they leave. -/
theorem editIssue_explains (issue : Issue) (req : IssueModify) :
    Explains Fields.apply issue.fields (editIssue repr issue req).1.2
      (editIssue repr issue req).1.1.fields := by
  have hset := editAll_explains Issue.fields (editScalar_explains repr) issue
    req.sets.entries
  have hcollections (removing : Bool) (issue : Issue) (entries : List (Text × List FieldValue)) :=
    editAll_explains Issue.fields
      (editCollection_explains repr removing) issue entries
  unfold editIssue
  generalize editAll (editScalar repr) issue req.sets.entries = edited at hset ⊢
  obtain ⟨⟨issue₁, set⟩, _ | e⟩ := edited
  · have hadd := hcollections false issue₁ req.add.entries
    dsimp only at hset ⊢
    generalize editAll (editCollection repr false) issue₁ req.add.entries = edited at hadd ⊢
    obtain ⟨⟨issue₂, added⟩, _ | e⟩ := edited
    · exact (hset.trans hadd).trans (hcollections true issue₂ req.remove.entries)
    · exact hset.trans hadd
  · exact hset

end Edits

/-! ### What leaves no trace -/

/-- The name is that of a scalar. -/
def knownScalar (entry : Text × FieldValue) : Bool := (scalarFields.lookup entry.1).isSome

/-- The name is that of a collection. -/
def knownCollection (entry : Text × List FieldValue) : Bool :=
  (collectionFields.lookup entry.1).isSome

/-- Every name in the masks is that of a field of the right kind. -/
def KnownMasks (req : IssueModify) : Prop :=
  (∀ entry ∈ req.sets.entries, knownScalar entry) ∧
    (∀ entry ∈ req.add.entries, knownCollection entry) ∧
    ∀ entry ∈ req.remove.entries, knownCollection entry

/-- The scalar is set to what it is. -/
def SetAlready (issue : Issue) (entry : Text × FieldValue) : Prop :=
  ∀ attr, scalarFields.lookup entry.1 = some attr → issue.scalar attr = entry.2

/-- The values that are added are there, those that are removed are not. -/
def EditedAlready (removing : Bool) (issue : Issue) (entry : Text × List FieldValue) : Prop :=
  ∀ attr, collectionFields.lookup entry.1 = some attr →
    ∀ value ∈ entry.2, (value ∈ issue.collection attr ↔ removing = false)

/-- What stands before the first unknown name in the masks changes nothing. -/
def QuietMasks (issue : Issue) (req : IssueModify) : Prop :=
  (∀ entry ∈ req.sets.entries.takeWhile knownScalar, SetAlready issue entry) ∧
    ((∀ entry ∈ req.sets.entries, knownScalar entry) →
      (∀ entry ∈ req.add.entries.takeWhile knownCollection, EditedAlready false issue entry) ∧
      ((∀ entry ∈ req.add.entries, knownCollection entry) →
        ∀ entry ∈ req.remove.entries.takeWhile knownCollection, EditedAlready true issue entry))

section Refusals

variable (repr : Text → Text)

/-- The edit of a scalar field succeeds exactly if its name is known. -/
theorem editScalar_known (issue : Issue) (entry : Text × FieldValue) :
    knownScalar entry = true ↔ ∃ r, editScalar repr issue entry = .ok r := by
  unfold knownScalar editScalar
  cases scalarFields.lookup entry.1 <;> simp

/-- The edit of a collection succeeds exactly if its name is known. -/
theorem editCollection_known (removing : Bool) (issue : Issue)
    (entry : Text × List FieldValue) :
    knownCollection entry = true ↔ ∃ r, editCollection repr removing issue entry = .ok r := by
  unfold knownCollection editCollection
  cases collectionFields.lookup entry.1 <;> simp

private theorem editScalar_quiet {issue : Issue} {entry : Text × FieldValue}
    (hknown : knownScalar entry = true) (h : SetAlready issue entry) :
    editScalar repr issue entry = .ok (issue, []) := by
  obtain ⟨attr, hattr⟩ := Option.isSome_iff_exists.mp hknown
  simp only [editScalar, hattr, h attr hattr, if_true]

private theorem editCollection_quiet {removing : Bool} {issue : Issue}
    {entry : Text × List FieldValue} (hknown : knownCollection entry = true)
    (h : EditedAlready removing issue entry) :
    editCollection repr removing issue entry = .ok (issue, []) := by
  obtain ⟨attr, hattr⟩ := Option.isSome_iff_exists.mp hknown
  have hvalues : (editAll (editValue removing entry.1 attr) issue entry.2).1 = (issue, []) := by
    refine editAll_quiet (fun _ => true) (fun _ _ => iff_of_true rfl ⟨_, rfl⟩)
      fun value hvalue => ?_
    have hiff := h attr hattr value ((List.takeWhile_sublist _).subset hvalue)
    cases removing with
    | false => simp [hiff.mpr rfl]
    | true =>
        have hnot : value ∉ issue.collection attr := fun hmem => by simpa using hiff.mp hmem
        simp [hnot]
  simp only [editCollection, hattr, hvalues]

/-- A refused modification that finds nothing to change changes nothing. -/
theorem editIssue_quiet {issue : Issue} {req : IssueModify} (h : QuietMasks issue req) :
    (editIssue repr issue req).1 = (issue, []) := by
  obtain ⟨hset, hrest⟩ := h
  have hscalars : (editAll (editScalar repr) issue req.sets.entries).1 = (issue, []) :=
    editAll_quiet _ (editScalar_known repr) fun entry hentry =>
      editScalar_quiet repr (List.mem_takeWhile_imp hentry) (hset entry hentry)
  have hcollections (removing : Bool) (entries : List (Text × List FieldValue))
      (h : ∀ entry ∈ entries.takeWhile knownCollection, EditedAlready removing issue entry) :
      (editAll (editCollection repr removing) issue entries).1 = (issue, []) :=
    editAll_quiet _ (editCollection_known repr removing) fun entry hentry =>
      editCollection_quiet repr (List.mem_takeWhile_imp hentry) (h entry hentry)
  have hknown := editAll_refusal _ (editScalar_known repr) issue req.sets.entries
  unfold editIssue
  generalize editAll (editScalar repr) issue req.sets.entries = edited at hscalars hknown ⊢
  obtain ⟨done, _ | e⟩ := edited
  · obtain rfl : done = (issue, []) := hscalars
    obtain ⟨hadd, hremove⟩ := hrest (hknown.mp rfl)
    have hadded := hcollections false _ hadd
    have hknown := editAll_refusal _ (editCollection_known repr false) issue req.add.entries
    dsimp only
    generalize editAll (editCollection repr false) issue req.add.entries = edited
      at hadded hknown ⊢
    obtain ⟨done, _ | e⟩ := edited
    · obtain rfl : done = (issue, []) := hadded
      have hremoved := hcollections true _ (hremove (hknown.mp rfl))
      dsimp only
      generalize editAll (editCollection repr true) issue req.remove.entries = edited
        at hremoved ⊢
      obtain ⟨done, refusal⟩ := edited
      obtain rfl : done = (issue, []) := hremoved
      rfl
    · obtain rfl : done = (issue, []) := hadded
      rfl
  · exact hscalars

/-- A modification whose masks are known is not refused. -/
theorem editIssue_known {req : IssueModify} (h : KnownMasks req) (issue : Issue) :
    (editIssue repr issue req).2 = none := by
  obtain ⟨hset, hadd, hremove⟩ := h
  have hscalars := (editAll_refusal _ (editScalar_known repr) issue req.sets.entries).mpr hset
  unfold editIssue
  generalize editAll (editScalar repr) issue req.sets.entries = edited at hscalars ⊢
  obtain ⟨⟨issue₁, set⟩, _ | e⟩ := edited
  · have hadded :=
      (editAll_refusal _ (editCollection_known repr false) issue₁ req.add.entries).mpr hadd
    dsimp only
    generalize editAll (editCollection repr false) issue₁ req.add.entries = edited at hadded ⊢
    obtain ⟨⟨issue₂, added⟩, _ | e⟩ := edited
    · exact (editAll_refusal _ (editCollection_known repr true) issue₂ _).mpr hremove
    · cases hadded
  · cases hscalars

end Refusals

end Jetty.Issuetracker
