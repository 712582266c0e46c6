import Jetty.Core.Python.Words
import Jetty.Core.Sorting
import Jetty.Modules.Issuetracker.Listing
import Jetty.Modules.Issuetracker.Masks
import Mathlib.Data.List.Infix

/-!
# Queries

A query is a list of terms. The driver goes through them for each issue until one fails, and finds
out that a term is not supported only when it comes to it.
-/

namespace Jetty.Issuetracker

open Python

/-! ### Sorting -/

/-- The attributes behind `_SORT_FIELDS`. -/
inductive SortField
  | priority
  | severity
  | created
  | modified
  | assignee
deriving DecidableEq

/-- What issues are sorted by. -/
inductive SortKey
  | field (value : FieldValue)
  | time (t : ℚ)

/-- `getattr(i, attr)`. -/
def SortField.key (issue : Issue) : SortField → SortKey
  | .priority => .field issue.priority
  | .severity => .field issue.severity
  | .created => .time issue.created
  | .modified => .time issue.modified
  | .assignee => .field issue.assignee

/-- Two keys are compared without a `TypeError`. -/
def SortKey.comparable : SortKey → SortKey → Bool
  | .field (.str _), .field (.str _) | .field (.int _), .field (.int _) | .time _, .time _ => true
  | _, _ => false

/-- `<=` of keys; those that cannot be compared are put in some order. -/
def SortKey.le : SortKey → SortKey → Bool
  | .field (.str s), .field (.str t) => decide (s ≤ t)
  | .field (.int m), .field (.int n) => decide (m ≤ n)
  | .time p, .time q => decide (p ≤ q)
  | .field (.str _), _ => true
  | .field (.int _), .time _ => true
  | _, _ => false

/-- A pass with `reverse` leaves equal rows in their order, too. -/
def keyLE (key : SortField × Bool) (a b : Issue) : Bool :=
  if key.2 then (key.1.key b).le (key.1.key a) else (key.1.key a).le (key.1.key b)

/-! ### Terms -/

/-- What a query raises. -/
inductive QueryError
  /-- `DriverRejects`. -/
  | rejects (message : Text)
  /-- `AttributeError` or `TypeError`. -/
  | other
deriving DecidableEq

structure IssueQuery where
  query : Text
  /-- The primary key first; `true` for descending. -/
  orderBy : List (SortField × Bool) := []
  page : Page := {}

def openStatuses : List Text := [text "NEW", text "ASSIGNED", text "ACCEPTED"]

def colon : CodePoint := 0x3A

/-- What a query calls outside. -/
structure Library where
  repr : Text → Text
  /-- `str.lower`. -/
  lower : Text → Text
  /-- `str.upper`. -/
  upper : Text → Text

section Matching

variable (lib : Library)

/-- One round of the loop in `_match`. -/
def matchTerm (issue : Issue) (term : Text) : Except QueryError Bool :=
  let (fieldName, value) := Text.partition colon term
  let value := lib.lower value
  if colon ∉ term then
    match issue.title with
    | .str title => .ok (decide (lib.lower term <:+: lib.lower title))
    | .int _ => .error .other
  else if lib.lower fieldName = text "componentid" then
    .ok (decide (text (toString issue.componentId) = value))
  else if lib.lower fieldName = text "status" then
    if value = text "open" then .ok (decide (issue.status ∈ openStatuses.map FieldValue.str))
    else if value = text "closed" then
      .ok (decide (issue.status ∉ openStatuses.map FieldValue.str))
    else if lib.upper value ∈ statuses then .ok (decide (issue.status = .str (lib.upper value)))
    else .error (.rejects (text "query: unknown status " ++ lib.repr value))
  else if lib.lower fieldName = text "assignee" then
    match issue.assignee with
    | .str assignee =>
      let assignee := lib.lower assignee
      .ok (decide (value = assignee ∨ value = (Text.partition 0x40 assignee).1))
    | .int _ => .error .other
  else if lib.lower fieldName = text "p" then
    if lib.upper value ∉ priorities then
      .error (.rejects (text "query: unknown priority " ++ lib.repr value))
    else .ok (decide (issue.priority = .str (lib.upper value)))
  else
    .error (.rejects (text "query: unsupported term " ++ lib.repr fieldName ++ text
      (" (this driver supports componentid:, status:, assignee:, p:, and bare-word title match)")))

/-- The loop in `_match`. -/
def matchTerms (issue : Issue) : List Text → Except QueryError Bool
  | [] => .ok true
  | term :: terms =>
    match matchTerm lib issue term with
    | .error e => .error e
    | .ok false => .ok false
    | .ok true => matchTerms issue terms

/-- The rows that match, one after the other. -/
def selectIssues (terms : List Text) : List Issue → Except QueryError (List Issue)
  | [] => .ok []
  | issue :: issues =>
    match matchTerms lib issue terms with
    | .error e => .error e
    | .ok found => (selectIssues terms issues).map fun rows => if found then issue :: rows else rows

/-- `rows.sort` by one key. -/
def sortBy (rows : List Issue) (key : SortField × Bool) : Except QueryError (List Issue) :=
  if rows.all fun a => rows.all fun b => (key.1.key a).comparable (key.1.key b) then
    .ok (rows.mergeSort (keyLE key))
  else .error .other

namespace MockIssueTrackerDriver

variable (S : MockIssueTrackerDriver)

/-- The rows of `list_issues` before they are cut into pages. -/
def listRows (query : Text) (orderBy : List (SortField × Bool)) :
    Except QueryError (List Issue) := do
  let rows ← selectIssues lib (Text.words query) S.issues.values
  let rows := rows.mergeSort fun a b => decide (a.issueId ≤ b.issueId)
  orderBy.reverse.foldlM sortBy rows

/-- `list_issues`: the window, the next token and the total. -/
def listIssues (query : IssueQuery) : Except QueryError (List Issue × Text × ℕ) := do
  let rows ← S.listRows lib query.query query.orderBy
  match paginate lib.repr rows query.page with
  | .ok (window, token) => return (window, token, rows.length)
  | .error (.rejects message) => throw (.rejects message)
  | .error .missing => throw .other

end MockIssueTrackerDriver

end Matching

/-! ### What a term asks for -/

/-- A term that is supported. -/
inductive Term
  | word (s : Text)
  | component (value : Text)
  | opened
  | closed
  | status (value : Text)
  | assignee (value : Text)
  | priority (value : Text)

section Terms

variable (lib : Library)

/-- The term that a text is; nothing for an unknown field, status or priority. -/
def readTerm (term : Text) : Option Term :=
  let fieldName := lib.lower (Text.partition colon term).1
  let value := lib.lower (Text.partition colon term).2
  if colon ∉ term then some (.word term)
  else if fieldName = text "componentid" then some (.component value)
  else if fieldName = text "status" then
    if value = text "open" then some .opened
    else if value = text "closed" then some .closed
    else if lib.upper value ∈ statuses then some (.status (lib.upper value))
    else none
  else if fieldName = text "assignee" then some (.assignee value)
  else if fieldName = text "p" then
    if lib.upper value ∈ priorities then some (.priority (lib.upper value)) else none
  else none

/-- The issue is what the term asks for. -/
def Term.meets (issue : Issue) : Term → Bool
  | .word s =>
    match issue.title with
    | .str title => decide (lib.lower s <:+: lib.lower title)
    | .int _ => false
  | .component value => decide (text (toString issue.componentId) = value)
  | .opened => decide (issue.status ∈ openStatuses.map FieldValue.str)
  | .closed => decide (issue.status ∉ openStatuses.map FieldValue.str)
  | .status value => decide (issue.status = .str value)
  | .assignee value =>
    match issue.assignee with
    | .str email =>
      decide (value = lib.lower email ∨ value = (Text.partition 0x40 (lib.lower email)).1)
    | .int _ => false
  | .priority value => decide (issue.priority = .str value)

/-- The term is supported, and met. -/
def met (issue : Issue) (term : Text) : Bool := (readTerm lib term).any (Term.meets lib issue)

/-- The fields that queries look at hold texts, as they are declared. -/
structure Issue.Typed (issue : Issue) : Prop where
  title : ∃ s, issue.title = .str s
  priority : ∃ s, issue.priority = .str s
  severity : ∃ s, issue.severity = .str s
  assignee : ∃ s, issue.assignee = .str s

/-- An issue gets as far as an unsupported term. -/
def Reaches (terms : List Text) (issue : Issue) : Prop :=
  (∃ term ∈ terms, readTerm lib term = none) ∧
    ∀ term ∈ terms.takeWhile fun term => (readTerm lib term).isSome, met lib issue term = true

/-- A query is rejected if and only if a term is not supported; otherwise the rows are the issues
that meet all terms. -/
def RejectsUnsupported (S : MockIssueTrackerDriver) (query : Text)
    (orderBy : List (SortField × Bool)) : Prop :=
  ((∃ message, S.listRows lib query orderBy = .error (.rejects message)) ↔
      ∃ term ∈ Text.words query, readTerm lib term = none) ∧
    ((∀ term ∈ Text.words query, (readTerm lib term).isSome) →
      ∃ rows, S.listRows lib query orderBy = .ok rows ∧
        rows.Perm (S.issues.values.filter fun issue => (Text.words query).all (met lib issue)))

variable {lib} {issue : Issue}

/-- A term is evaluated as it is read. -/
theorem matchTerm_eq (h : issue.Typed) (term : Text) :
    (∃ t, readTerm lib term = some t ∧ matchTerm lib issue term = .ok (t.meets lib issue)) ∨
      readTerm lib term = none ∧
        ∃ message, matchTerm lib issue term = .error (.rejects message) := by
  obtain ⟨title, htitle⟩ := h.title
  obtain ⟨assignee, hassignee⟩ := h.assignee
  unfold readTerm matchTerm
  dsimp only
  by_cases hword : colon ∉ term
  · rw [if_pos hword, if_pos hword, htitle]
    exact .inl ⟨_, rfl, by simp only [Term.meets, htitle]⟩
  rw [if_neg hword, if_neg hword]
  by_cases hcomponent : lib.lower (Text.partition colon term).1 = text "componentid"
  · rw [if_pos hcomponent, if_pos hcomponent]
    exact .inl ⟨_, rfl, rfl⟩
  rw [if_neg hcomponent, if_neg hcomponent]
  by_cases hstatus : lib.lower (Text.partition colon term).1 = text "status"
  · rw [if_pos hstatus, if_pos hstatus]
    split_ifs
    · exact .inl ⟨_, rfl, rfl⟩
    · exact .inl ⟨_, rfl, rfl⟩
    · exact .inl ⟨_, rfl, rfl⟩
    · exact .inr ⟨rfl, _, rfl⟩
  rw [if_neg hstatus, if_neg hstatus]
  by_cases hfield : lib.lower (Text.partition colon term).1 = text "assignee"
  · rw [if_pos hfield, if_pos hfield, hassignee]
    exact .inl ⟨_, rfl, by simp only [Term.meets, hassignee]⟩
  rw [if_neg hfield, if_neg hfield]
  by_cases hpriority : lib.lower (Text.partition colon term).1 = text "p"
  · rw [if_pos hpriority, if_pos hpriority]
    by_cases hknown : lib.upper (lib.lower (Text.partition colon term).2) ∈ priorities
    · rw [if_pos hknown, if_neg (not_not.mpr hknown)]
      exact .inl ⟨_, rfl, rfl⟩
    · rw [if_neg hknown, if_pos hknown]
      exact .inr ⟨rfl, _, rfl⟩
  rw [if_neg hpriority, if_neg hpriority]
  exact .inr ⟨rfl, _, rfl⟩

/-- An issue is rejected if it reaches an unsupported term, and matches if it meets all. -/
theorem matchTerms_eq (h : issue.Typed) (terms : List Text) :
    (Reaches lib terms issue ∧ ∃ message, matchTerms lib issue terms = .error (.rejects message)) ∨
      ¬ Reaches lib terms issue ∧
        matchTerms lib issue terms = .ok (terms.all (met lib issue)) := by
  induction terms with
  | nil => exact .inr ⟨fun hreaches => (by simpa using hreaches.1), rfl⟩
  | cons term terms ih =>
      rw [matchTerms]
      rcases matchTerm_eq h term with ⟨t, hread, hmatch⟩ | ⟨hread, message, hmatch⟩
      · have hmet : met lib issue term = t.meets lib issue := by rw [met, hread]; rfl
        have hreaches : Reaches lib (term :: terms) issue ↔
            t.meets lib issue = true ∧ Reaches lib terms issue := by
          unfold Reaches
          rw [List.takeWhile_cons_of_pos (by rw [hread]; rfl), List.forall_mem_cons, hmet]
          simp only [List.mem_cons, exists_eq_or_imp, hread, reduceCtorEq, false_or]
          tauto
        rw [hmatch, List.all_cons, hmet, hreaches]
        cases hmeets : t.meets lib issue with
        | true =>
            dsimp only
            rw [Bool.true_and]
            simpa using ih
        | false => exact .inr ⟨fun h => Bool.false_ne_true h.1, rfl⟩
      · rw [hmatch]
        refine .inl ⟨⟨⟨term, List.mem_cons_self, hread⟩, ?_⟩, message, rfl⟩
        rw [List.takeWhile_cons_of_neg (by rw [hread]; exact Bool.false_ne_true)]
        exact List.forall_mem_nil _

variable (lib) in
private theorem selectIssues_eq {issues : List Issue} (h : ∀ issue ∈ issues, issue.Typed)
    (terms : List Text) :
    ((∃ issue ∈ issues, Reaches lib terms issue) ∧
        ∃ message, selectIssues lib terms issues = .error (.rejects message)) ∨
      (¬ ∃ issue ∈ issues, Reaches lib terms issue) ∧ selectIssues lib terms issues =
        .ok (issues.filter fun issue => terms.all (met lib issue)) := by
  induction issues with
  | nil => exact .inr ⟨fun ⟨_, h, _⟩ => (by cases h), rfl⟩
  | cons issue issues ih =>
      obtain ⟨hissue, hissues⟩ := List.forall_mem_cons.mp h
      rw [selectIssues]
      simp only [List.mem_cons, exists_eq_or_imp]
      rcases matchTerms_eq hissue terms with ⟨hreaches, message, hmatch⟩ | ⟨hreaches, hmatch⟩
      · rw [hmatch]
        exact .inl ⟨.inl hreaches, message, rfl⟩
      · rw [hmatch]
        dsimp only
        rcases ih hissues with ⟨hrest, message, hselect⟩ | ⟨hrest, hselect⟩
        · rw [hselect]
          exact .inl ⟨.inr hrest, message, rfl⟩
        · rw [hselect]
          refine .inr ⟨not_or.mpr ⟨hreaches, hrest⟩, ?_⟩
          rw [List.filter_cons]
          rfl

private theorem comparable_of_typed {a b : Issue} (ha : a.Typed) (hb : b.Typed)
    (field : SortField) : (field.key a).comparable (field.key b) = true := by
  obtain ⟨p, hp⟩ := ha.priority
  obtain ⟨p', hp'⟩ := hb.priority
  obtain ⟨s, hs⟩ := ha.severity
  obtain ⟨s', hs'⟩ := hb.severity
  obtain ⟨e, he⟩ := ha.assignee
  obtain ⟨e', he'⟩ := hb.assignee
  cases field with
  | priority => rw [SortField.key, SortField.key, hp, hp']; rfl
  | severity => rw [SortField.key, SortField.key, hs, hs']; rfl
  | created => rfl
  | modified => rfl
  | assignee => rw [SortField.key, SortField.key, he, he']; rfl

/-- The passes succeed on issues as they are declared. -/
theorem sortBy_foldlM {keys : List (SortField × Bool)} {rows : List Issue}
    (h : ∀ issue ∈ rows, issue.Typed) : keys.reverse.foldlM sortBy rows =
      .ok (keys.foldr (fun key rows => rows.mergeSort (keyLE key)) rows) := by
  rw [List.foldlM_reverse]
  induction keys with
  | nil => rfl
  | cons key keys ih =>
      rw [List.foldrM_cons, ih, List.foldr_cons]
      have hperm := @Sorting.foldr_mergeSort_perm _ _ keyLE keys rows
      have hall : ((keys.foldr (fun key rows => rows.mergeSort (keyLE key)) rows).all fun a =>
          (keys.foldr (fun key rows => rows.mergeSort (keyLE key)) rows).all fun b =>
            (key.1.key a).comparable (key.1.key b)) = true := by
        rw [List.all_eq_true]
        intro a ha
        rw [List.all_eq_true]
        exact fun b hb =>
          comparable_of_typed (h a (hperm.mem_iff.mp ha)) (h b (hperm.mem_iff.mp hb)) key.1
      exact if_pos hall

namespace MockIssueTrackerDriver

variable {S : MockIssueTrackerDriver}

variable (lib) in
/-- A listing is refused if some issue gets as far as an unsupported term, and otherwise has the
issues that meet all terms, sorted by the keys from the last to the first and by number before. -/
theorem listRows_eq (h : ∀ issue ∈ S.issues.values, issue.Typed) (query : Text)
    (orderBy : List (SortField × Bool)) :
    ((∃ issue ∈ S.issues.values, Reaches lib (Text.words query) issue) ∧
        ∃ message, S.listRows lib query orderBy = .error (.rejects message)) ∨
      (¬ ∃ issue ∈ S.issues.values, Reaches lib (Text.words query) issue) ∧
        S.listRows lib query orderBy =
          .ok (orderBy.foldr (fun key rows => rows.mergeSort (keyLE key))
            ((S.issues.values.filter fun issue => (Text.words query).all (met lib issue)).mergeSort
              fun a b => decide (a.issueId ≤ b.issueId))) := by
  unfold listRows
  rcases selectIssues_eq lib h (Text.words query) with
    ⟨hreaches, message, hselect⟩ | ⟨hreaches, hselect⟩
  · rw [hselect]
    exact .inl ⟨hreaches, message, rfl⟩
  · rw [hselect]
    refine .inr ⟨hreaches, sortBy_foldlM fun issue hissue => ?_⟩
    exact h issue (List.mem_filter.mp (List.mem_mergeSort.mp hissue)).1

/-- Over issues as they are declared, a query is treated as it should be exactly if it has no
unsupported term or some stored issue meets all terms before the first one. -/
theorem rejects_unsupported_iff (h : ∀ issue ∈ S.issues.values, issue.Typed) (query : Text)
    (orderBy : List (SortField × Bool)) : RejectsUnsupported lib S query orderBy ↔
      (∀ term ∈ Text.words query, (readTerm lib term).isSome) ∨ ∃ issue ∈ S.issues.values,
        ∀ term ∈ (Text.words query).takeWhile fun term => (readTerm lib term).isSome,
          met lib issue term = true := by
  have hunsupported : (∃ term ∈ Text.words query, readTerm lib term = none) ↔
      ¬ ∀ term ∈ Text.words query, (readTerm lib term).isSome := by
    simp only [not_forall, ← Option.not_isSome_iff_eq_none, exists_prop]
  unfold RejectsUnsupported
  rw [hunsupported]
  rcases listRows_eq lib h query orderBy with
    ⟨⟨issue, hissue, hterm, hmet⟩, hrejects⟩ | ⟨hreaches, hrows⟩
  · have hnot := hunsupported.mp hterm
    exact iff_of_true ⟨iff_of_true hrejects hnot, fun hall => absurd hall hnot⟩
      (.inr ⟨issue, hissue, hmet⟩)
  · have hno : ¬ ∃ message, S.listRows lib query orderBy = .error (.rejects message) := by
      rintro ⟨message, hmessage⟩
      rw [hrows] at hmessage
      cases hmessage
    constructor
    · rintro ⟨hiff, -⟩
      left
      by_contra hnot
      exact hno (hiff.mpr hnot)
    · intro hcondition
      have hall : ∀ term ∈ Text.words query, (readTerm lib term).isSome := by
        rcases hcondition with hall | ⟨issue, hissue, hmet⟩
        · exact hall
        · by_contra hnot
          exact hreaches ⟨issue, hissue, hunsupported.mpr hnot, hmet⟩
      refine ⟨iff_of_false hno (not_not.mpr hall), fun _ => ⟨_, hrows, ?_⟩⟩
      exact (Sorting.foldr_mergeSort_perm _ _).trans (List.mergeSort_perm _ _)

/-- An issue in a store of its own. -/
private def crash : Issue :=
  { issueId := 1001, componentId := 1, title := .str (text "crash"), reporter := text "me" }

private def crashed : MockIssueTrackerDriver :=
  { blank (text "me") with issues := Dict.empty.set 1001 crash }

/-- Texts of ASCII in lower case, apart from names of priorities. -/
private def asciiLibrary : Library := ⟨id, id, id⟩

private theorem typed_crashed : ∀ issue ∈ crashed.issues.values, issue.Typed := by
  intro issue hissue
  obtain rfl : issue = crash := List.mem_singleton.mp hissue
  exact ⟨⟨_, rfl⟩, ⟨_, rfl⟩, ⟨_, rfl⟩, ⟨_, rfl⟩⟩

/-- An unsupported term behind one that the only issue meets is rejected. -/
theorem rejects_unsupported_crash :
    RejectsUnsupported asciiLibrary crashed (text "crash hotlist:1") [] := by
  refine (rejects_unsupported_iff typed_crashed _ _).mpr
    (.inr ⟨crash, List.mem_singleton.mpr rfl, fun term hterm => ?_⟩)
  have hfront : ((Text.words (text "crash hotlist:1")).takeWhile fun term =>
      (readTerm asciiLibrary term).isSome) = [text "crash"] := by decide +kernel
  rw [hfront, List.mem_singleton] at hterm
  rw [hterm]
  decide +kernel

/-- No issue is called `missing`, so nobody finds out that `hotlist:` is not supported. -/
theorem not_rejects_unsupported_missing : ¬ ∀ (lib : Library) (S : MockIssueTrackerDriver)
    (query : Text) (orderBy : List (SortField × Bool)), (∀ issue ∈ S.issues.values, issue.Typed) →
      RejectsUnsupported lib S query orderBy := by
  intro h
  obtain ⟨hrejects, -⟩ := h asciiLibrary crashed (text "missing hotlist:1") [] typed_crashed
  have hunsupported : ∃ term ∈ Text.words (text "missing hotlist:1"),
      readTerm asciiLibrary term = none := by
    refine ⟨text "hotlist:1", ?_, ?_⟩
    · decide +kernel
    · decide +kernel
  obtain ⟨message, hmessage⟩ := hrejects.mpr hunsupported
  have hok : (crashed.listRows asciiLibrary (text "missing hotlist:1") []).isOk = true := by
    decide +kernel
  rw [hmessage] at hok
  cases hok

end MockIssueTrackerDriver

end Terms

end Jetty.Issuetracker
