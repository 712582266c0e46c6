import Jetty.Core.Failure
import Jetty.Modules.Chat.Surface
import Jetty.Modules.Issuetracker.Listing

/-!
# Masked modifications

What the surface makes of the body of `issues.modify`: the masks name fields, and the values of
those that they name are taken from the two states.
-/

namespace Jetty.Issuetracker

open Python Failure

/-! ### The vocabulary -/

def statuses : List Text :=
  [text "NEW", text "ASSIGNED", text "ACCEPTED", text "FIXED", text "VERIFIED",
    text "NOT_REPRODUCIBLE", text "INTENDED_BEHAVIOR", text "OBSOLETE", text "INFEASIBLE",
    text "DUPLICATE", text "INACTIVE"]

def types : List Text :=
  [text "BUG", text "FEATURE_REQUEST", text "CUSTOMER_ISSUE", text "INTERNAL_CLEANUP",
    text "PROCESS", text "VULNERABILITY", text "PRIVACY_ISSUE", text "PORTFOLIO", text "PROGRAM",
    text "PROJECT", text "FEATURE", text "MILESTONE", text "EPIC", text "STORY", text "TASK"]

def priorities : List Text := [text "P0", text "P1", text "P2", text "P3", text "P4"]

def severities : List Text := [text "S0", text "S1", text "S2", text "S3", text "S4"]

/-! ### Values -/

/-- `_parse_id64`. -/
def parseId64 (value : Json) (fieldName : Text) : Outcome ℤ :=
  let positive (n : ℤ) : Outcome ℤ :=
    if n ≤ 0 then invalid (fieldName ++ text " must be positive") else .ok n
  match value with
  | .int n => positive n
  | .str s =>
    match intOfText s with
    | some n => positive n
    | none => invalid (fieldName ++ text " must be an integer")
  | _ => invalid (fieldName ++ text " must be an integer")

/-- `_parse_user`. -/
def parseUser (value : Json) (fieldName : Text) : Outcome Text :=
  let refused : Outcome Text := invalid (fieldName ++ text " must be a User with emailAddress")
  match value with
  | .dict entries =>
    match Json.get? entries (text "emailAddress") with
    | some (.str s) => .ok s
    | _ => refused
  | _ => refused

/-- `_parse_enum`. -/
def parseEnum (value : Json) (allowed : List Text) (fieldName : Text) : Outcome Text :=
  let refused : Outcome Text := invalid (fieldName ++ text ": must be one of " ++
    (text ", ").intercalate (allowed.mergeSort fun a b => decide (a ≤ b)))
  match value with
  | .str s => if s ∈ allowed then .ok s else refused
  | _ => refused

/-- The title of `_MODIFY_SCALARS`. -/
def parseTitle : Json → Outcome Text
  | .str (c :: cs) => .ok (c :: cs)
  | _ => invalid (text "add.title must be a non-empty string")

/-- `_MODIFY_SCALARS`. -/
def modifyScalars : List (Text × (Json → Outcome Text)) :=
  [(text "status", fun v => parseEnum v statuses (text "add.status")),
    (text "priority", fun v => parseEnum v priorities (text "add.priority")),
    (text "severity", fun v => parseEnum v severities (text "add.severity")),
    (text "type", fun v => parseEnum v types (text "add.type")),
    (text "title", parseTitle),
    (text "assignee", fun v => parseUser v (text "add.assignee")),
    (text "verifier", fun v => parseUser v (text "add.verifier"))]

/-- `_MODIFY_COLLECTIONS`. -/
def modifyCollections : List (Text × (Json → Text → Outcome FieldValue)) :=
  [(text "ccs", fun v context => (parseUser v context).map .str),
    (text "hotlistIds", fun v context => (parseId64 v context).map .int),
    (text "blockedByIssueIds", fun v context => (parseId64 v context).map .int)]

/-! ### Masks -/

/-- `_parse_mask`. -/
def parseMask (mask : Option Json) (fieldName : Text) : Outcome (List Text) :=
  match mask with
  | none | some .null => .ok []
  | some (.str s) => .ok (Chat.maskPaths s)
  | some _ => invalid (fieldName ++ text " must be a string")

/-- What the masked fields of a state come to. -/
structure Deltas where
  sets : Dict Text FieldValue := .empty
  collections : Dict Text (List FieldValue) := .empty

section Deltas

variable (repr : Text → Text)

/-- One round of the loop in `_masked_deltas`. -/
def maskedDelta (state : List (Text × Json)) (maskName stateName : Text) (scalarsAllowed : Bool)
    (found : Deltas) (fieldName : Text) : Outcome Deltas :=
  match modifyScalars.lookup fieldName with
  | some parse =>
    if ¬ scalarsAllowed then
      invalid (maskName ++ text ": " ++ repr fieldName ++ text " is not a collection field")
    else
      match Json.get? state fieldName with
      | none =>
        invalid (maskName ++ text " names " ++ repr fieldName ++ text " but " ++ stateName ++
          text " does not carry it")
      | some value =>
        (parse value).map fun s => { found with sets := found.sets.set fieldName (.str s) }
  | none =>
    match modifyCollections.lookup fieldName with
    | some parse =>
      match Json.get? state fieldName with
      | some (.list values) =>
        (values.mapM fun v => parse v (stateName ++ text "." ++ fieldName)).map fun rows =>
          { found with collections := found.collections.set fieldName rows }
      | _ =>
        invalid (maskName ++ text " names " ++ repr fieldName ++ text " but " ++ stateName ++
          text "." ++ fieldName ++ text " is not a list")
    | none => invalid (maskName ++ text ": unsupported field " ++ repr fieldName)

/-- The entries of a state, which need not be there. -/
def stateEntries (state : Option Json) (stateName : Text) : Outcome (List (Text × Json)) :=
  match state with
  | none | some .null => .ok []
  | some (.dict entries) => .ok entries
  | some _ => invalid (stateName ++ text " must be an IssueState")

/-- `_masked_deltas`. -/
def maskedDeltas (state : Option Json) (maskFields : List Text) (maskName stateName : Text)
    (scalarsAllowed : Bool) : Outcome Deltas := do
  let entries ← stateEntries state stateName
  maskFields.foldlM (maskedDelta repr entries maskName stateName scalarsAllowed) {}

/-- The comment of a modification. -/
def parseIssueComment (body : List (Text × Json)) : Outcome (Option Text) :=
  let refused : Outcome (Option Text) := invalid (text "issueComment must carry a comment string")
  match Json.get? body (text "issueComment") with
  | none => .ok none
  | some (.dict entries) =>
    match Json.get? entries (text "comment") with
    | some (.str s) => .ok (some s)
    | _ => refused
  | some _ => refused

/-- `_parse_modify`. -/
def parseModify (body : List (Text × Json)) : Outcome IssueModify := do
  let addMask ← parseMask (Json.get? body (text "addMask")) (text "addMask")
  let removeMask ← parseMask (Json.get? body (text "removeMask")) (text "removeMask")
  let added ← maskedDeltas repr (Json.get? body (text "add")) addMask (text "addMask")
    (text "add") true
  let removed ← maskedDeltas repr (Json.get? body (text "remove")) removeMask (text "removeMask")
    (text "remove") false
  if removed.sets.entries ≠ [] then .error .other
  else
    let comment ← parseIssueComment body
    if added.sets.entries = [] ∧ added.collections.entries = [] ∧
        removed.collections.entries = [] ∧ comment = none then
      invalid (text "modify names no masked field and carries no comment")
    else .ok ⟨added.sets, added.collections, removed.collections, comment⟩

end Deltas

/-! ### What is raised -/

/-- A property of all texts that are put together from literals and from what `repr` writes. -/
structure Spoken (repr : Text → Text) (Q : Text → Prop) : Prop where
  literal : ∀ s : String, Q (text s)
  quoted : ∀ s, Q (repr s)
  append : ∀ s t, Q s → Q t → Q (s ++ t)

/-- Any text may be spoken. -/
theorem spoken_true (repr : Text → Text) : Spoken repr fun _ => True :=
  ⟨fun _ => trivial, fun _ => trivial, fun _ _ _ _ => trivial⟩

/-- What is not `INVALID_ARGUMENT` with a message that has the property. -/
def Raised.escapes (Q : Text → Prop) : Raised → Prop
  | .api .invalidArgument message => ¬ Q message
  | _ => True

section Raising

variable {repr : Text → Text} {Q : Text → Prop} (hQ : Spoken repr Q)

/-- A refusal says what its message says. -/
theorem invalid_spares {α : Type} {message : Text} (h : Q message) :
    Spares (Raised.escapes Q) (invalid message : Outcome α) := by
  rintro e ⟨⟩
  exact not_not_intro h

include hQ

private theorem Spoken.intercalate {ts : List Text} (separator : String) (h : ∀ t ∈ ts, Q t) :
    Q ((text separator).intercalate ts) := by
  induction ts with
  | nil => exact hQ.literal ""
  | cons t ts ih =>
      obtain ⟨ht, hts⟩ := List.forall_mem_cons.mp h
      cases ts with
      | nil => rwa [List.intercalate_singleton]
      | cons u us =>
          rw [List.intercalate_cons_cons]
          exact hQ.append _ _ (hQ.append _ _ ht (hQ.literal separator)) (ih hts)

omit hQ in
/-- Whatever is not taken is refused as an invalid argument. -/
theorem parseId64_cases (value : Json) (fieldName : Text) :
    (∃ message, parseId64 value fieldName = invalid message) ∨
      ∃ n : ℤ, parseId64 value fieldName = .ok n ∧ 1 ≤ n := by
  have hpositive (n : ℤ) : (∃ message,
      (if n ≤ 0 then invalid (fieldName ++ text " must be positive")
      else .ok n) = (invalid message : Outcome ℤ)) ∨
      ∃ m : ℤ, (if n ≤ 0 then invalid (fieldName ++ text " must be positive") else .ok n) =
        (.ok m : Outcome ℤ) ∧ 1 ≤ m := by
    split
    · exact .inl ⟨_, rfl⟩
    · exact .inr ⟨n, rfl, by omega⟩
  unfold parseId64
  cases value with
  | int n => exact hpositive n
  | str s =>
      dsimp only
      cases intOfText s with
      | none => exact .inl ⟨_, rfl⟩
      | some n => exact hpositive n
  | _ => exact .inl ⟨_, rfl⟩

/-- The refusal of an identifier names its field. -/
theorem parseId64_spares (value : Json) {fieldName : Text} (h : Q fieldName) :
    Spares (Raised.escapes Q) (parseId64 value fieldName) := by
  have hpositive (n : ℤ) : Spares (Raised.escapes Q)
      (if n ≤ 0 then invalid (fieldName ++ text " must be positive") else .ok n) := by
    split
    · exact invalid_spares (hQ.append _ _ h (hQ.literal _))
    · exact spares_ok n
  have hinteger : Q (fieldName ++ text " must be an integer") := hQ.append _ _ h (hQ.literal _)
  unfold parseId64
  cases value with
  | int n => exact hpositive n
  | str s =>
      dsimp only
      cases intOfText s with
      | none => exact invalid_spares hinteger
      | some n => exact hpositive n
  | _ => exact invalid_spares hinteger

/-- The refusal of a user names its field. -/
theorem parseUser_spares (value : Json) {fieldName : Text} (h : Q fieldName) :
    Spares (Raised.escapes Q) (parseUser value fieldName) := by
  have hmessage : Q (fieldName ++ text " must be a User with emailAddress") :=
    hQ.append _ _ h (hQ.literal _)
  unfold parseUser
  cases value with
  | dict entries =>
      dsimp only
      split
      · exact spares_ok _
      · exact invalid_spares hmessage
  | _ => exact invalid_spares hmessage

/-- The refusal of a name lists the ones allowed. -/
theorem parseEnum_spares (value : Json) {allowed : List Text} {fieldName : Text}
    (hallowed : ∀ s ∈ allowed, Q s) (h : Q fieldName) :
    Spares (Raised.escapes Q) (parseEnum value allowed fieldName) := by
  have hmessage : Q (fieldName ++ text ": must be one of " ++
      (text ", ").intercalate (allowed.mergeSort fun a b => decide (a ≤ b))) :=
    hQ.append _ _ (hQ.append _ _ h (hQ.literal _))
      (hQ.intercalate _ fun s hs => hallowed s (List.mem_mergeSort.mp hs))
  unfold parseEnum
  cases value with
  | str s =>
      dsimp only
      split
      · exact spares_ok s
      · exact invalid_spares hmessage
  | _ => exact invalid_spares hmessage

private theorem parseTitle_spares (value : Json) : Spares (Raised.escapes Q)
    (parseTitle value) := by
  unfold parseTitle
  split
  · exact spares_ok _
  · exact invalid_spares (hQ.literal _)

private theorem Spoken.collectionName {fieldName : Text} {parse : Json → Text → Outcome FieldValue}
    (h : (fieldName, parse) ∈ modifyCollections) : Q fieldName := by
  simp only [modifyCollections, List.mem_cons, Prod.mk.injEq, List.not_mem_nil, or_false] at h
  rcases h with ⟨rfl, -⟩ | ⟨rfl, -⟩ | ⟨rfl, -⟩ <;> exact hQ.literal _

/-- The names of the statuses are literals. -/
theorem Spoken.statuses : ∀ s ∈ statuses, Q s := by
  simp only [Issuetracker.statuses, List.forall_mem_cons, List.not_mem_nil, false_imp_iff,
    implies_true, hQ.literal, and_self]

/-- The names of the types are literals. -/
theorem Spoken.types : ∀ s ∈ types, Q s := by
  simp only [Issuetracker.types, List.forall_mem_cons, List.not_mem_nil, false_imp_iff,
    implies_true, hQ.literal, and_self]

/-- The names of the priorities are literals. -/
theorem Spoken.priorities : ∀ s ∈ priorities, Q s := by
  simp only [Issuetracker.priorities, List.forall_mem_cons, List.not_mem_nil, false_imp_iff,
    implies_true, hQ.literal, and_self]

/-- The names of the severities are literals. -/
theorem Spoken.severities : ∀ s ∈ severities, Q s := by
  simp only [Issuetracker.severities, List.forall_mem_cons, List.not_mem_nil, false_imp_iff,
    implies_true, hQ.literal, and_self]

end Raising

/-! ### What the masks name -/

/-- How JSON carries the values of a field. -/
inductive Wire
  | text
  | user
  | id

/-- The value that is carried. -/
def Wire.read : Wire → Json → Option FieldValue
  | .text, .str s => some (.str s)
  | .user, .dict entries =>
    match Json.get? entries (Python.text "emailAddress") with
    | some (.str s) => some (.str s)
    | _ => none
  | .id, .int n => some (.int n)
  | .id, .str s => (intOfText s).map FieldValue.int
  | _, _ => none

def Scalar.wire : Scalar → Wire
  | .assignee | .verifier => .user
  | _ => .text

def Collection.wire : Collection → Wire
  | .ccs => .user
  | _ => .id

/-- The fields that a mask of the body names. -/
def masks (body : List (Text × Json)) (maskName : Text) : List Text :=
  match Json.get? body maskName with
  | some (.str s) => Chat.maskPaths s
  | _ => []

/-- What a state of the body carries for a field. -/
def carried (body : List (Text × Json)) (stateName fieldName : Text) : Option Json :=
  match Json.get? body stateName with
  | some (.dict entries) => Json.get? entries fieldName
  | _ => none

/-- The deltas are the values that the state carries for the fields of the mask. -/
structure Resolved (entries : List (Text × Json)) (mask : List Text) (found : Deltas) : Prop where
  known : ∀ name ∈ mask, (∃ attr, scalarFields.lookup name = some attr ∧
      ∃ v, found.sets.get? name = some v) ∨
    ∃ attr, collectionFields.lookup name = some attr ∧ ∃ vs, found.collections.get? name = some vs
  sets : ∀ name v, found.sets.get? name = some v → name ∈ mask ∧
    ∃ attr value, scalarFields.lookup name = some attr ∧ Json.get? entries name = some value ∧
      attr.wire.read value = some v
  collections : ∀ name vs, found.collections.get? name = some vs → name ∈ mask ∧
    ∃ attr values, collectionFields.lookup name = some attr ∧
      Json.get? entries name = some (.list values) ∧ values.mapM attr.wire.read = some vs

/-- The user that the parser takes is the one on the wire. -/
theorem parseUser_read {value : Json} {fieldName s : Text}
    (h : parseUser value fieldName = .ok s) : Wire.read .user value = some (.str s) := by
  unfold parseUser at h
  unfold Wire.read
  cases value with
  | dict entries =>
      dsimp only at h ⊢
      cases hentry : Json.get? entries (text "emailAddress") with
      | none =>
          rw [hentry] at h
          cases h
      | some entry =>
          rw [hentry] at h
          cases entry with
          | str t =>
              obtain rfl := Except.ok.inj h
              rfl
          | _ => cases h
  | _ => cases h

/-- The name that the parser takes is the one on the wire. -/
theorem parseEnum_read {value : Json} {allowed : List Text} {fieldName s : Text}
    (h : parseEnum value allowed fieldName = .ok s) : Wire.read .text value = some (.str s) := by
  unfold parseEnum at h
  cases value with
  | str t =>
      dsimp only at h
      split at h
      · obtain rfl := Except.ok.inj h
        rfl
      · cases h
  | _ => cases h

private theorem parseTitle_read {value : Json} {s : Text} (h : parseTitle value = .ok s) :
    Wire.read .text value = some (.str s) := by
  unfold parseTitle at h
  split at h
  · obtain rfl := Except.ok.inj h
    rfl
  · cases h

private theorem parseId64_read {value : Json} {fieldName : Text} {n : ℤ}
    (h : parseId64 value fieldName = .ok n) : Wire.read .id value = some (.int n) := by
  unfold parseId64 at h
  cases value with
  | int m =>
      dsimp only at h
      split at h
      · cases h
      · obtain rfl := Except.ok.inj h
        rfl
  | str s =>
      dsimp only at h
      cases hs : intOfText s with
      | none =>
          rw [hs] at h
          cases h
      | some m =>
          rw [hs] at h
          dsimp only at h
          split at h
          · cases h
          · obtain rfl := Except.ok.inj h
            rw [Wire.read, hs]
            rfl
  | _ => cases h

/-- A parser of a scalar reads its values and raises nothing but `INVALID_ARGUMENT`. -/
theorem modifyScalars_lookup {repr : Text → Text} {Q : Text → Prop} (hQ : Spoken repr Q)
    {name : Text} {parse : Json → Outcome Text} (h : modifyScalars.lookup name = some parse) :
    ∃ attr, scalarFields.lookup name = some attr ∧ ∀ value,
      Spares (Raised.escapes Q) (parse value) ∧
        ∀ s, parse value = .ok s → attr.wire.read value = some (.str s) := by
  obtain ⟨front, back, hlist, -⟩ := List.lookup_eq_some_iff.mp h
  have hmem : (name, parse) ∈ modifyScalars := hlist ▸ by simp
  simp only [modifyScalars, List.mem_cons, Prod.mk.injEq, List.not_mem_nil, or_false] at hmem
  rcases hmem with ⟨rfl, rfl⟩ | ⟨rfl, rfl⟩ | ⟨rfl, rfl⟩ | ⟨rfl, rfl⟩ | ⟨rfl, rfl⟩ | ⟨rfl, rfl⟩ |
    ⟨rfl, rfl⟩
  · exact ⟨.status, by decide +kernel, fun v =>
      ⟨parseEnum_spares hQ v hQ.statuses (hQ.literal _), fun s => parseEnum_read⟩⟩
  · exact ⟨.priority, by decide +kernel, fun v =>
      ⟨parseEnum_spares hQ v hQ.priorities (hQ.literal _), fun s => parseEnum_read⟩⟩
  · exact ⟨.severity, by decide +kernel, fun v =>
      ⟨parseEnum_spares hQ v hQ.severities (hQ.literal _), fun s => parseEnum_read⟩⟩
  · exact ⟨.type, by decide +kernel, fun v =>
      ⟨parseEnum_spares hQ v hQ.types (hQ.literal _), fun s => parseEnum_read⟩⟩
  · exact ⟨.title, by decide +kernel, fun v => ⟨parseTitle_spares hQ v, fun s => parseTitle_read⟩⟩
  · exact ⟨.assignee, by decide +kernel, fun v =>
      ⟨parseUser_spares hQ v (hQ.literal _), fun s => parseUser_read⟩⟩
  · exact ⟨.verifier, by decide +kernel, fun v =>
      ⟨parseUser_spares hQ v (hQ.literal _), fun s => parseUser_read⟩⟩

/-- The same for the elements of a collection. -/
theorem modifyCollections_lookup {repr : Text → Text} {Q : Text → Prop} (hQ : Spoken repr Q)
    {name : Text} {parse : Json → Text → Outcome FieldValue}
    (h : modifyCollections.lookup name = some parse) :
    ∃ attr, collectionFields.lookup name = some attr ∧ ∀ value context, Q context →
      Spares (Raised.escapes Q) (parse value context) ∧
        ∀ v, parse value context = .ok v → attr.wire.read value = some v := by
  obtain ⟨front, back, hlist, -⟩ := List.lookup_eq_some_iff.mp h
  have hmem : (name, parse) ∈ modifyCollections := hlist ▸ by simp
  have hid (value : Json) (context : Text) (hcontext : Q context) :
      Spares (Raised.escapes Q) ((parseId64 value context).map FieldValue.int) ∧
        ∀ v, (parseId64 value context).map FieldValue.int = .ok v →
          Wire.read .id value = some v := by
    refine ⟨(parseId64_spares hQ value hcontext).map, fun v hv => ?_⟩
    obtain ⟨n, hn, rfl⟩ := map_eq_ok.mp hv
    exact parseId64_read hn
  simp only [modifyCollections, List.mem_cons, Prod.mk.injEq, List.not_mem_nil, or_false] at hmem
  rcases hmem with ⟨rfl, rfl⟩ | ⟨rfl, rfl⟩ | ⟨rfl, rfl⟩
  · refine ⟨.ccs, by decide +kernel, fun value context hcontext =>
      ⟨(parseUser_spares hQ value hcontext).map, ?_⟩⟩
    intro v hv
    obtain ⟨s, hs, rfl⟩ := map_eq_ok.mp hv
    exact parseUser_read hs
  · exact ⟨.hotlistIds, by decide +kernel, hid⟩
  · exact ⟨.blockedBy, by decide +kernel, hid⟩

/-! ### Resolving a mask -/

section Resolving

variable {repr : Text → Text} {Q : Text → Prop} (hQ : Spoken repr Q)

include hQ in
private theorem maskedDelta_spares (entries : List (Text × Json)) {maskName stateName : Text}
    (hmask : Q maskName) (hstate : Q stateName) (scalarsAllowed : Bool) (found : Deltas)
    (fieldName : Text) :
    Spares (Raised.escapes Q)
      (maskedDelta repr entries maskName stateName scalarsAllowed found fieldName) := by
  unfold maskedDelta
  cases hscalar : modifyScalars.lookup fieldName with
  | some parse =>
      obtain ⟨attr, -, hparse⟩ := modifyScalars_lookup hQ hscalar
      dsimp only
      split
      · apply invalid_spares
        apply_rules [hQ.append, hQ.literal, hQ.quoted]
      · split
        · apply invalid_spares
          apply_rules [hQ.append, hQ.literal, hQ.quoted]
        · exact (hparse _).1.map
  | none =>
      dsimp only
      cases hcollection : modifyCollections.lookup fieldName with
      | some parse =>
          obtain ⟨attr, -, hparse⟩ := modifyCollections_lookup hQ hcollection
          have hname : Q fieldName := by
            obtain ⟨front, back, hlist, -⟩ := List.lookup_eq_some_iff.mp hcollection
            have hmem : (fieldName, parse) ∈ modifyCollections := hlist ▸ by simp
            exact hQ.collectionName hmem
          have hcontext : Q (stateName ++ text "." ++ fieldName) := by
            apply_rules [hQ.append, hQ.literal]
          dsimp only
          split
          · exact Spares.map (Spares.mapM fun value _ => (hparse value _ hcontext).1)
          · apply invalid_spares
            apply_rules [hQ.append, hQ.literal, hQ.quoted]
      | none =>
          apply invalid_spares
          apply_rules [hQ.append, hQ.literal, hQ.quoted]

include hQ in
private theorem maskedDeltas_spares (state : Option Json) (mask : List Text)
    {maskName stateName : Text}
    (hmask : Q maskName) (hstate : Q stateName) (scalarsAllowed : Bool) :
    Spares (Raised.escapes Q) (maskedDeltas repr state mask maskName stateName scalarsAllowed) := by
  unfold maskedDeltas
  refine Spares.bind ?_ fun entries => ?_
  · unfold stateEntries
    split
    · exact spares_ok _
    · exact spares_ok _
    · exact spares_ok _
    · exact invalid_spares (hQ.append _ _ hstate (hQ.literal _))
  · rw [spares_foldlM_iff]
    intro front x back t _ _
    exact maskedDelta_spares hQ _ hmask hstate _ _ _

private theorem mapM_read {attr : Collection} {parse : Json → Outcome FieldValue}
    (h : ∀ value v, parse value = .ok v → attr.wire.read value = some v) {values : List Json}
    {rows : List FieldValue} (hrows : values.mapM parse = .ok rows) :
    values.mapM attr.wire.read = some rows := by
  induction values generalizing rows with
  | nil =>
      obtain rfl := Except.ok.inj hrows
      rfl
  | cons value values ih =>
      rw [List.mapM_cons] at hrows ⊢
      obtain ⟨v, hv, hrows⟩ := bind_eq_ok.mp hrows
      obtain ⟨rest, hrest, hrows⟩ := bind_eq_ok.mp hrows
      obtain rfl := Except.ok.inj hrows
      rw [h value v hv, ih hrest]
      rfl

/-- One more field is resolved. -/
theorem Resolved.next {entries : List (Text × Json)} {mask : List Text} {found found' : Deltas}
    {maskName stateName fieldName : Text} {scalarsAllowed : Bool} (h : Resolved entries mask found)
    (hstep : maskedDelta repr entries maskName stateName scalarsAllowed found fieldName =
      .ok found') : Resolved entries (mask ++ [fieldName]) found' := by
  unfold maskedDelta at hstep
  cases hscalar : modifyScalars.lookup fieldName with
  | some parse =>
      obtain ⟨attr, hattr, hparse⟩ := modifyScalars_lookup (spoken_true repr) hscalar
      rw [hscalar] at hstep
      dsimp only at hstep
      split at hstep
      · cases hstep
      · split at hstep
        · cases hstep
        · rename_i value hvalue
          obtain ⟨s, hs, rfl⟩ := map_eq_ok.mp hstep
          refine ⟨fun name hname => ?_, fun name v hv => ?_, fun name vs hvs => ?_⟩
          · by_cases heq : name = fieldName
            · subst heq
              exact .inl ⟨attr, hattr, _, Dict.get?_set_self⟩
            · rw [Dict.get?_set_of_ne heq]
              refine h.known name ((List.mem_append.mp hname).resolve_right fun hlast => ?_)
              exact heq (List.mem_singleton.mp hlast)
          · by_cases heq : name = fieldName
            · subst heq
              rw [Dict.get?_set_self] at hv
              obtain rfl := Option.some.inj hv
              exact ⟨List.mem_append_right _ List.mem_cons_self, attr, value, hattr, hvalue,
                (hparse value).2 s hs⟩
            · rw [Dict.get?_set_of_ne heq] at hv
              exact (h.sets name v hv).imp_left (List.mem_append_left _)
          · exact (h.collections name vs hvs).imp_left (List.mem_append_left _)
  | none =>
      rw [hscalar] at hstep
      dsimp only at hstep
      cases hcollection : modifyCollections.lookup fieldName with
      | none =>
          rw [hcollection] at hstep
          cases hstep
      | some parse =>
          obtain ⟨attr, hattr, hparse⟩ := modifyCollections_lookup (spoken_true repr) hcollection
          rw [hcollection] at hstep
          dsimp only at hstep
          split at hstep
          · rename_i values hvalues
            obtain ⟨rows, hrows, rfl⟩ := map_eq_ok.mp hstep
            refine ⟨fun name hname => ?_, fun name v hv => ?_, fun name vs hvs => ?_⟩
            · by_cases heq : name = fieldName
              · subst heq
                exact .inr ⟨attr, hattr, _, Dict.get?_set_self⟩
              · rw [Dict.get?_set_of_ne heq]
                refine h.known name ((List.mem_append.mp hname).resolve_right fun hlast => ?_)
                exact heq (List.mem_singleton.mp hlast)
            · exact (h.sets name v hv).imp_left (List.mem_append_left _)
            · by_cases heq : name = fieldName
              · subst heq
                rw [Dict.get?_set_self] at hvs
                obtain rfl := Option.some.inj hvs
                exact ⟨List.mem_append_right _ List.mem_cons_self, attr, values, hattr, hvalues,
                  mapM_read (fun value v => (hparse value _ trivial).2 v) hrows⟩
              · rw [Dict.get?_set_of_ne heq] at hvs
                exact (h.collections name vs hvs).imp_left (List.mem_append_left _)
          · cases hstep

/-- Where scalars are not allowed none is set. -/
theorem maskedDelta_sets {entries : List (Text × Json)} {found found' : Deltas}
    {maskName stateName fieldName : Text}
    (h : maskedDelta repr entries maskName stateName false found fieldName = .ok found') :
    found'.sets = found.sets := by
  unfold maskedDelta at h
  cases hscalar : modifyScalars.lookup fieldName with
  | some parse =>
      rw [hscalar] at h
      cases h
  | none =>
      rw [hscalar] at h
      dsimp only at h
      split at h
      · split at h
        · obtain ⟨rows, -, rfl⟩ := map_eq_ok.mp h
          rfl
        · cases h
      · cases h

private theorem maskedDeltas_resolved {body : List (Text × Json)} {mask : List Text}
    {maskName stateName : Text} {scalarsAllowed : Bool} {found : Deltas}
    (h : maskedDeltas repr (Json.get? body stateName) mask maskName stateName scalarsAllowed =
      .ok found) :
    (∃ entries, (∀ name, Json.get? entries name = carried body stateName name) ∧
      Resolved entries mask found) ∧ (scalarsAllowed = false → found.sets.entries = []) := by
  unfold maskedDeltas at h
  obtain ⟨entries, hentries, h⟩ := bind_eq_ok.mp h
  refine ⟨⟨entries, fun name => ?_, ?_⟩, ?_⟩
  · unfold stateEntries at hentries
    unfold carried
    split at hentries
    · rename_i hnone
      obtain rfl := Except.ok.inj hentries
      rw [hnone]
      rfl
    · rename_i hnull
      obtain rfl := Except.ok.inj hentries
      rw [hnull]
      rfl
    · rename_i hdict
      obtain rfl := Except.ok.inj hentries
      rw [hdict]
    · cases hentries
  · have hnone : Resolved entries [] {} := ⟨nofun, fun name v hv => (by cases hv),
      fun name vs hvs => (by cases hvs)⟩
    refine foldlM_invariant hnone ?_ h
    intro done fieldName found found' hdone hstep
    exact hdone.next hstep
  · rintro rfl
    refine @foldlM_invariant _ _ _ _ (fun _ found => found.sets.entries = []) _ _ _ rfl ?_ h
    intro done fieldName found found' hdone hstep
    rwa [maskedDelta_sets hstep]

include hQ in
private theorem parseMask_spares (mask : Option Json) {fieldName : Text} (h : Q fieldName) :
    Spares (Raised.escapes Q) (parseMask mask fieldName) := by
  unfold parseMask
  split
  · exact spares_ok _
  · exact spares_ok _
  · exact spares_ok _
  · exact invalid_spares (hQ.append _ _ h (hQ.literal _))

private theorem parseMask_masks {body : List (Text × Json)} {maskName : Text} {fields : List Text}
    (h : parseMask (Json.get? body maskName) maskName = .ok fields) :
    fields = masks body maskName := by
  unfold parseMask at h
  unfold masks
  split at h
  · rename_i hnone
    rw [hnone]
    exact (Except.ok.inj h).symm
  · rename_i hnull
    rw [hnull]
    exact (Except.ok.inj h).symm
  · rename_i hstr
    rw [hstr]
    exact (Except.ok.inj h).symm
  · cases h

include hQ in
private theorem parseIssueComment_spares (body : List (Text × Json)) :
    Spares (Raised.escapes Q) (parseIssueComment body) := by
  unfold parseIssueComment
  dsimp only
  split
  · exact spares_ok _
  · split
    · exact spares_ok _
    · exact invalid_spares (hQ.literal _)
  · exact invalid_spares (hQ.literal _)

include hQ in
/-- Only `INVALID_ARGUMENT` is raised: the assertion holds. -/
theorem parseModify_spares (body : List (Text × Json)) :
    Spares (Raised.escapes Q) (parseModify repr body) := by
  unfold parseModify
  refine (parseMask_spares hQ _ (hQ.literal _)).bind fun addMask =>
    (parseMask_spares hQ _ (hQ.literal _)).bind fun removeMask => ?_
  refine (maskedDeltas_spares hQ _ _ (hQ.literal _) (hQ.literal _) _).bind fun added => ?_
  rw [spares_bind_iff]
  refine ⟨maskedDeltas_spares hQ _ _ (hQ.literal _) (hQ.literal _) _, fun removed hremoved => ?_⟩
  rw [if_neg (not_not.mpr ((maskedDeltas_resolved hremoved).2 rfl))]
  refine (parseIssueComment_spares hQ body).bind fun comment => ?_
  split
  · exact invalid_spares (hQ.literal _)
  · exact spares_ok _

/-- A request holds what the masks of its body name. -/
theorem parseModify_resolved {body : List (Text × Json)} {req : IssueModify}
    (h : parseModify repr body = .ok req) :
    (∃ entries, (∀ name, Json.get? entries name = carried body (text "add") name) ∧
      Resolved entries (masks body (text "addMask")) ⟨req.sets, req.add⟩) ∧
    (∃ entries, (∀ name, Json.get? entries name = carried body (text "remove") name) ∧
      Resolved entries (masks body (text "removeMask")) ⟨.empty, req.remove⟩) ∧
    parseIssueComment body = .ok req.comment := by
  unfold parseModify at h
  obtain ⟨addMask, haddMask, h⟩ := bind_eq_ok.mp h
  obtain ⟨removeMask, hremoveMask, h⟩ := bind_eq_ok.mp h
  obtain ⟨added, hadded, h⟩ := bind_eq_ok.mp h
  obtain ⟨removed, hremoved, h⟩ := bind_eq_ok.mp h
  rw [parseMask_masks haddMask] at hadded
  rw [parseMask_masks hremoveMask] at hremoved
  obtain ⟨hresolved, hempty⟩ := maskedDeltas_resolved hremoved
  rw [if_neg (not_not.mpr (hempty rfl))] at h
  obtain ⟨comment, hcomment, h⟩ := bind_eq_ok.mp h
  split at h
  · cases h
  · obtain rfl := Except.ok.inj h
    have hsets : removed.sets = .empty := by
      have hentries := hempty rfl
      obtain ⟨⟨entries, hnodup⟩, collections⟩ := removed
      dsimp only at hentries
      subst hentries
      rfl
    obtain ⟨sets, collections⟩ := removed
    dsimp only at hsets
    subst hsets
    exact ⟨(maskedDeltas_resolved hadded).1, hresolved, hcomment⟩

end Resolving

end Jetty.Issuetracker
