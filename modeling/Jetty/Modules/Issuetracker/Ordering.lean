import Jetty.Modules.Issuetracker.Query

/-!
# The order of a listing

The driver sorts by the identifier and then by each key, the least significant first. Since its
sorts are stable, the rows come out in the order of all keys.
-/

namespace Jetty.Issuetracker

open Python Failure

/-! ### Reading `orderBy` -/

/-- `_ORDER_FIELDS`. -/
def orderFields : List (Text × SortField) :=
  [(text "priority", .priority), (text "severity", .severity), (text "created", .created),
    (text "modified_time", .modified), (text "assignee", .assignee)]

section Parsing

variable (lib : Library)

/-- One round of the loop in `_parse_order_by`. -/
def parseOrderPart (part : Text) : Outcome (SortField × Bool) :=
  let unsupported : Outcome (SortField × Bool) :=
    invalid (text "orderBy: unsupported " ++ lib.repr (Chat.strip part))
  match Text.words part with
  | [] => unsupported
  | name :: rest =>
    match orderFields.lookup name with
    | none => unsupported
    | some field =>
      if 1 < rest.length then unsupported
      else
        let direction := (rest.head?.map lib.lower).getD (text "asc")
        if direction = text "asc" ∨ direction = text "desc" then
          .ok (field, direction = text "desc")
        else unsupported

/-- `_parse_order_by`. -/
def parseOrderBy (orderBy : Option Text) : Outcome (List (SortField × Bool)) :=
  match orderBy with
  | none | some [] => .ok []
  | some s => (s.splitOn 0x2C).mapM (parseOrderPart lib)

end Parsing

/-! ### The order of all keys -/

/-- The first of two rows: by the first key whose values differ, in its direction, and else by the
identifier. -/
def Precedes : List (SortField × Bool) → Issue → Issue → Prop
  | [], a, b => a.issueId ≤ b.issueId
  | key :: keys, a, b =>
    (keyLE key a b = true ∧ key.1.key a ≠ key.1.key b) ∨
      (key.1.key a = key.1.key b ∧ Precedes keys a b)

private theorem SortKey.total (a b : SortKey) : (a.le b || b.le a) = true := by
  rcases a with (s | m) | p <;> rcases b with (t | n) | q <;>
    simp only [SortKey.le, Bool.or_eq_true, decide_eq_true_eq, Bool.or_true, Bool.true_or]
  · exact List.le_total s t
  · exact Int.le_total m n
  · exact le_total p q

private theorem SortKey.trans (a b c : SortKey) (hab : a.le b = true) (hbc : b.le c = true) :
    a.le c = true := by
  rcases a with (s | m) | p <;> rcases b with (t | n) | q <;> rcases c with (u | k) | r <;>
    simp only [SortKey.le, decide_eq_true_eq, Bool.false_eq_true] at hab hbc ⊢
  · exact List.le_trans hab hbc
  · exact Int.le_trans hab hbc
  · exact le_trans hab hbc

private theorem keyLE_total (key : SortField × Bool) (a b : Issue) :
    (keyLE key a b || keyLE key b a) = true := by
  unfold keyLE
  split
  · exact SortKey.total _ _
  · exact SortKey.total _ _

private theorem keyLE_trans (key : SortField × Bool) (a b c : Issue) (hab : keyLE key a b = true)
    (hbc : keyLE key b c = true) : keyLE key a c = true := by
  unfold keyLE at hab hbc ⊢
  split at hab
  · rename_i hdescending
    rw [if_pos hdescending] at hbc ⊢
    exact SortKey.trans _ _ _ hbc hab
  · rename_i hdescending
    rw [if_neg hdescending] at hbc ⊢
    exact SortKey.trans _ _ _ hab hbc

/-- Rows with one value of the key are not told apart by it. -/
theorem keyLE_of_eq {key : SortField × Bool} {a b : Issue} (h : key.1.key a = key.1.key b) :
    keyLE key b a = true := by
  have hrefl := SortKey.total (key.1.key b) (key.1.key b)
  rw [Bool.or_self] at hrefl
  unfold keyLE
  rw [h]
  split <;> exact hrefl

private theorem precedes_of_lex {keys : List (SortField × Bool)} {a b : Issue}
    (h : Sorting.Lex keyLE (fun a b => a.issueId ≤ b.issueId) keys a b) : Precedes keys a b := by
  induction keys with
  | nil => exact h
  | cons key keys ih =>
      obtain ⟨hle, hrest⟩ := h
      by_cases heq : key.1.key a = key.1.key b
      · exact .inr ⟨heq, ih (hrest (keyLE_of_eq heq))⟩
      · exact .inl ⟨hle, heq⟩

/-- The passes sort by all keys. -/
theorem pairwise_passes (keys : List (SortField × Bool)) (rows : List Issue) :
    (keys.foldr (fun key rows => rows.mergeSort (keyLE key))
      (rows.mergeSort fun a b => decide (a.issueId ≤ b.issueId))).Pairwise (Precedes keys) := by
  have hids : (rows.mergeSort fun a b => decide (a.issueId ≤ b.issueId)).Pairwise
      fun a b => a.issueId ≤ b.issueId := by
    have hsorted := @List.pairwise_mergeSort Issue (fun a b => decide (a.issueId ≤ b.issueId))
      (fun a b c hab hbc => decide_eq_true (Int.le_trans (of_decide_eq_true hab)
        (of_decide_eq_true hbc)))
      (fun a b => by simpa using Int.le_total a.issueId b.issueId) rows
    exact hsorted.imp of_decide_eq_true
  exact (Sorting.pairwise_foldr_mergeSort keyLE_trans keyLE_total hids).imp precedes_of_lex

namespace MockIssueTrackerDriver

variable {S : MockIssueTrackerDriver} {lib : Library}

/-- The rows are the issues that meet all terms, in the order of the keys, and their number is the
total of every page. -/
def ListsSorted (lib : Library) (S : MockIssueTrackerDriver) (query : Text)
    (keys : List (SortField × Bool)) : Prop :=
  ∃ rows, S.listRows lib query keys = .ok rows ∧
    rows.Perm (S.issues.values.filter fun issue => (Text.words query).all (met lib issue)) ∧
    rows.Pairwise (Precedes keys) ∧
    ∀ page result, S.listIssues lib ⟨query, keys, page⟩ = .ok result →
      result.2.2 = rows.length ∧ paginate lib.repr rows page = .ok (result.1, result.2.1)

/-- For an `orderBy` that is accepted, a query is rejected, or it lists what it asks for in the
order of all keys. -/
theorem listing_sorted (h : ∀ issue ∈ S.issues.values, issue.Typed) (query : Text)
    (orderBy : Option Text) (keys : List (SortField × Bool)) :
    parseOrderBy lib orderBy = .ok keys →
      (∃ message, S.listRows lib query keys = .error (.rejects message)) ∨
        ListsSorted lib S query keys := by
  intro _
  rcases listRows_eq lib h query keys with ⟨-, hrejects⟩ | ⟨-, hrows⟩
  · exact .inl hrejects
  · refine .inr ⟨_, hrows, ?_, pairwise_passes keys _, fun page result hresult => ?_⟩
    · exact (Sorting.foldr_mergeSort_perm _ _).trans (List.mergeSort_perm _ _)
    · unfold listIssues at hresult
      obtain ⟨rows, hsame, hresult⟩ := bind_eq_ok.mp hresult
      obtain rfl := Except.ok.inj (hrows.symm.trans hsame)
      dsimp only at hresult
      split at hresult
      · rename_i window token hpage
        obtain rfl := Except.ok.inj hresult
        exact ⟨rfl, hpage⟩
      · cases hresult
      · cases hresult

private def reported (issueId : ℤ) (priority : Text) : Issue :=
  { issueId, componentId := 1, title := .str (text "crash"), reporter := text "me"
    priority := .str priority }

private def pair : MockIssueTrackerDriver :=
  { blank (text "me") with
    issues := (Dict.empty.set 1001 (reported 1001 (text "P1"))).set 1002
      (reported 1002 (text "P3")) }

private theorem typed_pair : ∀ issue ∈ pair.issues.values, issue.Typed := by
  intro issue hissue
  rcases List.mem_cons.mp hissue with rfl | hissue
  · exact ⟨⟨_, rfl⟩, ⟨_, rfl⟩, ⟨_, rfl⟩, ⟨_, rfl⟩⟩
  · obtain rfl := List.mem_singleton.mp hissue
    exact ⟨⟨_, rfl⟩, ⟨_, rfl⟩, ⟨_, rfl⟩, ⟨_, rfl⟩⟩

/-- The query is no rejected one, so the two issues are listed. -/
theorem listing_sorted_pair :
    ListsSorted ⟨id, id, id⟩ pair (text "crash") [(.priority, true), (.created, false)] := by
  have hsorted := @listing_sorted pair ⟨id, id, id⟩ typed_pair (text "crash")
    (some (text "priority desc, created")) [(.priority, true), (.created, false)] (by rfl)
  refine hsorted.resolve_left ?_
  rintro ⟨message, hrejects⟩
  have hread : ∀ term ∈ Text.words (text "crash"), (readTerm ⟨id, id, id⟩ term).isSome = true := by
    decide +kernel
  rcases listRows_eq ⟨id, id, id⟩ typed_pair (text "crash") [(.priority, true), (.created, false)]
    with ⟨⟨issue, -, ⟨term, hterm, hnone⟩, -⟩, -⟩ | ⟨-, hrows⟩
  · have hsome := hread term hterm
    rw [hnone] at hsome
    cases hsome
  · cases hrows.symm.trans hrejects

end MockIssueTrackerDriver

end Jetty.Issuetracker
