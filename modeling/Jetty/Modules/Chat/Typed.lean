import Jetty.Core.Failure
import Jetty.Modules.Chat.Surface

/-!
# What parsing raises

A request is answered if nothing harmful is raised on the way and what comes out can be written. For
each parser of the surface, the values that it takes or refuses with `INVALID_ARGUMENT`; on all
others it raises something else.
-/

namespace Jetty.Chat

open Python Failure

/-- What does not reach the client as `NOT_FOUND` or `INVALID_ARGUMENT`. -/
def Raised.harms : Raised → Prop
  | .api status message =>
    (status ≠ .invalidArgument ∧ status ≠ .notFound) ∨ (Text.encode message).isSome = false
  | .other => True

/-- Nothing harmful is raised, and what is returned can be written. -/
def Answers (result : Outcome Json) : Prop :=
  Spares Raised.harms result ∧ ∀ body, result = .ok body → encodes body = true

/-- A response is acceptable exactly if the route answers. -/
theorem acceptable_iff (lib : Library) (S : MockChatDriver) (now : ℚ) (req : MessageRequest) :
    (answer lib S now req).acceptable = true ↔ Answers (route lib S now req) := by
  unfold answer Answers
  cases route lib S now req with
  | ok body =>
      refine Iff.trans ?_ (and_iff_right (spares_ok body)).symm
      simp only [Except.ok.injEq, forall_eq']
      cases hbody : encodes body <;> simp [Answer.acceptable]
  | error e =>
      rw [spares_error_iff]
      refine Iff.trans ?_ (and_iff_left nofun).symm
      cases e with
      | other => simp [Answer.acceptable, Raised.harms]
      | api status message =>
          dsimp only
          cases hmessage : (Text.encode message).isSome with
          | true => cases status <;> simp [Answer.acceptable, Raised.harms, hmessage]
          | false => simp [Answer.acceptable, Raised.harms, hmessage]

section Steps

variable {α β : Type}

/-- A route answers exactly if its first part harms nobody and its second part answers. -/
theorem answers_bind_iff {a : Outcome α} {f : α → Outcome Json} :
    Answers (a >>= f) ↔ Spares Raised.harms a ∧ ∀ v, a = .ok v → Answers (f v) := by
  unfold Answers
  rw [spares_bind_iff]
  constructor
  · rintro ⟨⟨ha, hf⟩, hbody⟩
    exact ⟨ha, fun v hv => ⟨hf v hv, fun body h => hbody body (bind_eq_ok.mpr ⟨v, hv, h⟩)⟩⟩
  · rintro ⟨ha, hf⟩
    refine ⟨⟨ha, fun v hv => (hf v hv).1⟩, fun body h => ?_⟩
    obtain ⟨v, hv, h⟩ := bind_eq_ok.mp h
    exact (hf v hv).2 body h

private theorem spares_invalid {message : Text} (h : (Text.encode message).isSome) :
    Spares Raised.harms (invalid message : Outcome α) :=
  spares_error_iff.mpr (by simp [Raised.harms, h])

/-- `NOT_FOUND` harms nobody exactly if its message can be written. -/
theorem spares_notFound {message : Text} :
    Spares Raised.harms (notFound message : Outcome α) ↔ (Text.encode message).isSome := by
  rw [notFound, spares_error_iff]
  cases hmessage : (Text.encode message).isSome <;> simp [Raised.harms, hmessage]

/-- Any other exception does. -/
theorem not_spares_other : ¬ Spares Raised.harms (.error .other : Outcome α) :=
  fun h => h .other rfl trivial

/-- `INVALID_ARGUMENT` is an answer if its message can be written. -/
theorem answers_invalid {message : Text} (h : (Text.encode message).isSome) :
    Answers (invalid message) :=
  ⟨spares_invalid h, nofun⟩

/-- So is `NOT_FOUND`. -/
theorem answers_notFound {message : Text} (h : (Text.encode message).isSome) :
    Answers (notFound message) :=
  ⟨spares_notFound.mpr h, nofun⟩

/-- A body is an answer exactly if it can be written. -/
theorem answers_ok {body : Json} : Answers (.ok body) ↔ encodes body = true :=
  ⟨fun h => h.2 body rfl, fun h => ⟨spares_ok body, fun _ hb => by cases hb; exact h⟩⟩

end Steps

/-! ### Parsing -/

section Parsing

variable (lib : Library)

/-- A text between which a value is printed can be written. -/
private theorem encode_quoted {front back : Text} (v : Json) (hfront : (Text.encode front).isSome)
    (hback : (Text.encode back).isSome) : (Text.encode (front ++ lib.repr v ++ back)).isSome :=
  Text.encode_append_isSome.mpr
    ⟨Text.encode_append_isSome.mpr ⟨hfront, lib.repr.encodes v⟩, hback⟩

private theorem encode_printed {front : Text} (v : Json) (hfront : (Text.encode front).isSome) :
    (Text.encode (front ++ lib.repr v)).isSome :=
  Text.encode_append_isSome.mpr ⟨hfront, lib.repr.encodes v⟩

/-- Reading the body harms nobody. -/
theorem jsonBody_spares (allowed : List Text) (body : Option Json) :
    Spares Raised.harms (jsonBody lib allowed body) := by
  unfold jsonBody
  split
  · exact spares_invalid (Text.encode_text _)
  · dsimp only
    split
    · exact spares_invalid (encode_quoted lib _ (Text.encode_text _) (Text.encode_text _))
    · exact spares_ok _
  · exact spares_invalid (Text.encode_text _)

/-- Reading the page harms nobody. -/
theorem parsePage_spares (pageSize : Option ℤ) (pageToken : Json) :
    Spares Raised.harms (parsePage pageSize pageToken) := by
  unfold parsePage
  dsimp only
  split
  · exact spares_invalid (Text.encode_text _)
  · exact spares_ok _

/-- Reading the page size from the query harms nobody. -/
theorem queryPageSize_spares (pageSize : Option UrlText) :
    Spares Raised.harms (queryPageSize lib pageSize) := by
  unfold queryPageSize
  split
  · exact spares_ok _
  · split
    · exact spares_ok _
    · exact spares_invalid (Text.encode_text _)

/-- Reading the page size from the body harms nobody. -/
theorem bodyPageSize_spares (value : Json) : Spares Raised.harms (bodyPageSize value) := by
  unfold bodyPageSize
  split
  · exact spares_ok _
  · exact spares_ok _
  · exact spares_ok _
  · exact spares_invalid (Text.encode_text _)

/-- The value is a text, and reading it as a time does not overflow. -/
def TimeTyped (value : Json) : Prop :=
  ∃ s, value = .str s ∧ lib.timestamp (replaceZulu s) ≠ .error .other

private theorem parseTime_spares_iff {value : Json} {fieldName : Text}
    (hfield : (Text.encode fieldName).isSome) :
    Spares Raised.harms (parseTime lib value fieldName) ↔ TimeTyped lib value := by
  unfold parseTime TimeTyped
  cases value with
  | str s =>
      simp only [Json.str.injEq, exists_eq_left']
      cases htime : lib.timestamp (replaceZulu s) with
      | ok t => exact iff_of_true (spares_ok t) nofun
      | error e =>
          cases e with
          | value =>
              refine iff_of_true (spares_invalid (encode_printed lib _ ?_)) nofun
              exact Text.encode_append_isSome.mpr ⟨hfield, Text.encode_text _⟩
          | other => exact iff_of_false not_spares_other fun h => h rfl
  | _ => exact iff_of_false not_spares_other (by rintro ⟨s, h, -⟩; cases h)

/-- A time that the term bounds the messages by is read without overflow. -/
def TermTyped (term : Text) : Prop :=
  ∀ op value, matchTerm lib term = some (text "createTime", op, value) →
    op.val = 0x3E ∨ op.val = 0x3C → lib.timestamp (replaceZulu value) ≠ .error .other

private theorem parseTerm_spares_iff (found : ListFilter) (term : Text) :
    Spares Raised.harms (parseTerm lib found term) ↔ TermTyped lib term := by
  have htime (value : Text) {f : ℚ → ListFilter} : Spares Raised.harms
      ((parseTime lib (.str value) (text "filter createTime")).map f) ↔
        lib.timestamp (replaceZulu value) ≠ .error .other := by
    rw [spares_map_iff, parseTime_spares_iff lib (Text.encode_text _)]
    unfold TimeTyped
    simp
  unfold parseTerm TermTyped
  by_cases hnil : term = []
  · rw [if_pos hnil]
    refine iff_of_true (spares_ok _) fun op value h => ?_
    rw [hnil] at h
    cases h
  rw [if_neg hnil]
  cases hterm : matchTerm lib term with
  | none => exact iff_of_true (spares_invalid (encode_printed lib _ (Text.encode_text _))) nofun
  | some groups =>
      obtain ⟨field, op, value⟩ := groups
      dsimp only
      simp only [Option.some.injEq, Prod.mk.injEq]
      by_cases hafter : field = text "createTime" ∧ op.val = 0x3E
      · rw [if_pos hafter, htime]
        exact ⟨fun h op' value' ⟨_, _, hvalue⟩ _ => hvalue ▸ h,
          fun h => h op value ⟨hafter.1, rfl, rfl⟩ (.inl hafter.2)⟩
      rw [if_neg hafter]
      by_cases hbefore : field = text "createTime" ∧ op.val = 0x3C
      · rw [if_pos hbefore, htime]
        exact ⟨fun h op' value' ⟨_, _, hvalue⟩ _ => hvalue ▸ h,
          fun h => h op value ⟨hbefore.1, rfl, rfl⟩ (.inr hbefore.2)⟩
      rw [if_neg hbefore]
      refine iff_of_true ?_ ?_
      · split
        · split
          · exact spares_invalid (Text.encode_text _)
          · exact spares_ok _
        · exact spares_invalid (encode_printed lib _ (Text.encode_text _))
      · rintro op' value' ⟨hfield, rfl, -⟩ hop
        exact absurd hop (not_or.mpr ⟨fun h => hafter ⟨hfield, h⟩, fun h => hbefore ⟨hfield, h⟩⟩)

/-- So are those of all terms up to the first one that is refused. -/
def FilterTyped (filter : Text) : Prop :=
  ∀ front term back found, filterTerms filter = front ++ term :: back →
    front.foldlM (parseTerm lib) {} = .ok found → TermTyped lib term

/-- Parsing a filter harms nobody exactly if the filter is typed. -/
theorem parseListFilter_spares_iff (filter : Text) :
    Spares Raised.harms (parseListFilter lib filter) ↔ FilterTyped lib filter := by
  unfold parseListFilter FilterTyped
  rw [spares_foldlM_iff]
  simp only [parseTerm_spares_iff]

/-- Parsing an order harms nobody exactly if it is falsy or a text with a word in it. -/
theorem parseOrderBy_spares_iff (orderBy : Json) :
    Spares Raised.harms (parseOrderBy lib orderBy) ↔
      orderBy.truthy = false ∨ ∃ s, orderBy = .str s ∧ splitSpaces s ≠ [] := by
  unfold parseOrderBy
  have hunsupported : (Text.encode (text "orderBy: unsupported " ++ lib.repr orderBy)).isSome :=
    encode_printed lib _ (Text.encode_text _)
  by_cases htruthy : orderBy.truthy = true
  · rw [if_pos htruthy]
    dsimp only
    cases orderBy with
    | str s =>
        dsimp only
        cases hwords : splitSpaces s with
        | nil =>
            refine iff_of_false not_spares_other ?_
            rintro (h | ⟨s', hs, hne⟩)
            · rw [htruthy] at h
              cases h
            · obtain rfl := Json.str.inj hs
              exact hne hwords
        | cons field rest =>
            refine iff_of_true ?_ (.inr ⟨s, rfl, by rw [hwords]; nofun⟩)
            dsimp only
            split
            · exact spares_invalid hunsupported
            · split
              · exact spares_ok _
              · exact spares_invalid hunsupported
    | _ =>
        refine iff_of_false not_spares_other ?_
        rintro (h | ⟨s, hs, -⟩)
        · rw [htruthy] at h
          cases h
        · cases hs
  · rw [if_neg htruthy]
    exact iff_of_true (spares_ok _) (.inl (by simpa using htruthy))

/-- The quote, if it has a name and a time, has one that is read without overflow. -/
def QuoteTyped (body : List (Text × Json)) : Prop :=
  ∀ quoted name lastUpdateTime,
    Json.get? body (text "quotedMessageMetadata") = some (.dict quoted) →
    Json.get? quoted (text "name") = some name → name.truthy = true →
    Json.get? quoted (text "lastUpdateTime") = some lastUpdateTime →
    lastUpdateTime.truthy = true → TimeTyped lib lastUpdateTime

/-- A value that is true is one that is there. -/
theorem eq_some_of_truthy {v : Option Json} (h : (v.getD .null).truthy = true) :
    v = some (v.getD .null) := by
  cases v with
  | none => cases h
  | some v => rfl

private theorem parseQuote_spares_iff (body : List (Text × Json)) :
    Spares Raised.harms (parseQuote lib body) ↔ QuoteTyped lib body := by
  unfold parseQuote QuoteTyped
  cases hmeta : Json.get? body (text "quotedMessageMetadata") with
  | none => exact iff_of_true (spares_ok _) nofun
  | some quotation =>
      rw [Option.getD_some]
      cases quotation with
      | null => exact iff_of_true (spares_ok _) nofun
      | dict quoted =>
          dsimp only
          by_cases hname : ((Json.get? quoted (text "name")).getD .null).truthy = true
          · rw [if_neg (not_not.mpr hname)]
            by_cases htime :
                ((Json.get? quoted (text "lastUpdateTime")).getD .null).truthy = true
            · rw [if_neg (not_not.mpr htime), spares_map_iff,
                parseTime_spares_iff lib (Text.encode_text _)]
              constructor
              · rintro h quoted' name lastUpdateTime hquoted - - hlast -
                obtain rfl := Json.dict.inj (Option.some.inj hquoted)
                rwa [hlast] at h
              · exact fun h => h quoted _ _ rfl (eq_some_of_truthy hname) hname
                  (eq_some_of_truthy htime) htime
            · rw [if_pos htime]
              refine iff_of_true (spares_invalid (Text.encode_text _)) ?_
              rintro quoted' name lastUpdateTime hquoted - - hlast htruthy
              obtain rfl := Json.dict.inj (Option.some.inj hquoted)
              rw [hlast] at htime
              exact absurd htruthy htime
          · rw [if_pos hname]
            refine iff_of_true (spares_invalid (Text.encode_text _)) ?_
            rintro quoted' name lastUpdateTime hquoted hnamed htruthy - -
            obtain rfl := Json.dict.inj (Option.some.inj hquoted)
            rw [hnamed] at hname
            exact absurd htruthy hname
      | _ => exact iff_of_true (spares_invalid (Text.encode_text _)) nofun

/-- The row is false, or an object whose reference, if it has one, is an object. -/
def RefTyped (row : Json) : Prop :=
  row.truthy = false ∨ ∃ entries, row = .dict entries ∧
    ∀ ref, Json.get? entries (text "attachmentDataRef") = some ref → ∃ inner, ref = .dict inner

private theorem parseAttachment_spares_iff (row : Json) :
    Spares Raised.harms (parseAttachment row) ↔ RefTyped row := by
  have hmissing : (Text.encode (text
      "attachment.attachmentDataRef.resourceName is required")).isSome := Text.encode_text _
  have hname (inner : List (Text × Json)) : Spares Raised.harms (do
      let name ← getField (.dict inner) (text "resourceName") (.str [])
      if name.truthy then .ok name
      else invalid (text "attachment.attachmentDataRef.resourceName is required")) := by
    refine spares_bind_iff.mpr ⟨spares_ok _, fun name _ => ?_⟩
    split
    · exact spares_ok _
    · exact spares_invalid hmissing
  have hnot (ref : Json) (href : ∀ inner, ref ≠ .dict inner) :
      getField ref (text "resourceName") (.str []) = .error .other := by
    cases ref with
    | dict inner => exact absurd rfl (href inner)
    | _ => rfl
  unfold parseAttachment RefTyped
  by_cases htruthy : row.truthy = true
  · rw [orEmpty, if_pos htruthy]
    cases row with
    | dict entries =>
        refine spares_bind_iff.trans ?_
        refine (and_iff_right (spares_ok _)).trans ?_
        simp only [getField, Except.ok.injEq, forall_eq', htruthy, Bool.true_eq_false, false_or,
          Json.dict.injEq, exists_eq_left']
        cases href : Json.get? entries (text "attachmentDataRef") with
        | none => exact iff_of_true (hname []) nofun
        | some ref =>
            simp only [Option.getD_some, Option.some.injEq, forall_eq']
            by_cases hinner : ∃ inner, ref = .dict inner
            · obtain ⟨inner, rfl⟩ := hinner
              exact iff_of_true (hname inner) ⟨inner, rfl⟩
            · refine iff_of_false (fun h => ?_) hinner
              have hspares := (spares_bind_iff.mp h).1
              have hother := hnot ref fun inner h => hinner ⟨inner, h⟩
              exact hspares .other hother trivial
    | _ =>
        refine iff_of_false (fun h => (spares_bind_iff.mp h).1 .other rfl trivial) ?_
        rintro (h | ⟨entries, h, -⟩)
        · rw [htruthy] at h
          cases h
        · cases h
  · rw [orEmpty, if_neg htruthy]
    refine iff_of_true (spares_bind_iff.mpr ⟨spares_ok _, fun ref href => ?_⟩)
      (.inl (by simpa using htruthy))
    obtain rfl := Except.ok.inj href
    exact hname []

/-- The attachments are false, or a value that can be run through whose rows up to the first one
without a reference are well typed. -/
def AttachmentsTyped (body : List (Text × Json)) : Prop :=
  ∀ value, Json.get? body (text "attachment") = some value → value.truthy = true →
    ∃ rows, iterate value = .ok rows ∧ ∀ front row back, rows = front ++ row :: back →
      (∀ r ∈ front, ∃ ref, parseAttachment r = .ok ref) → RefTyped row

private theorem parseAttachments_spares_iff (body : List (Text × Json)) :
    Spares Raised.harms (parseAttachments body) ↔ AttachmentsTyped body := by
  unfold parseAttachments AttachmentsTyped
  dsimp only
  by_cases htruthy : ((Json.get? body (text "attachment")).getD .null).truthy = true
  · rw [if_pos htruthy, spares_bind_iff, eq_some_of_truthy htruthy]
    simp only [spares_mapM_iff, parseAttachment_spares_iff, Option.getD_some]
    generalize (Json.get? body (text "attachment")).getD .null = value at htruthy
    simp only [Option.some.injEq, forall_eq', htruthy, forall_const]
    cases hrows : iterate value with
    | error e =>
        obtain rfl : e = .other := by
          cases value <;> cases hrows <;> rfl
        exact iff_of_false (fun h => not_spares_other h.1) (by rintro ⟨rows, h, -⟩; cases h)
    | ok rows =>
        constructor
        · exact fun h => ⟨rows, rfl, h.2 rows rfl⟩
        · rintro ⟨rows', hrows', h⟩
          obtain rfl := Except.ok.inj hrows'
          refine ⟨spares_ok _, fun rows' hrows' => ?_⟩
          obtain rfl := Except.ok.inj hrows'
          exact h
  · rw [if_neg htruthy, spares_bind_iff]
    refine iff_of_true ⟨spares_ok _, fun rows hrows => ?_⟩ ?_
    · obtain rfl := Except.ok.inj hrows
      exact spares_ok _
    · intro value hvalue htruthy'
      rw [hvalue] at htruthy
      exact absurd htruthy' htruthy

/-- The quote and the attachments are well typed, as far as they are looked at. -/
def CreateTyped (body : List (Text × Json)) (replyOption : Option Text) : Prop :=
  ∀ c cs reply thread, (Json.get? body (text "text")).getD (.str []) = .str (c :: cs) →
    replyOptions.lookup replyOption = some reply →
    orEmpty ((Json.get? body (text "thread")).getD .null) = .dict thread →
    QuoteTyped lib body ∧ ∀ quote, parseQuote lib body = .ok quote → AttachmentsTyped body

/-- Parsing a message to create harms nobody exactly if its body is typed. -/
theorem parseCreate_spares_iff (body : List (Text × Json)) (replyOption : Option Text) :
    Spares Raised.harms (parseCreate lib body replyOption) ↔ CreateTyped lib body replyOption := by
  unfold parseCreate CreateTyped
  cases htext : (Json.get? body (text "text")).getD (.str []) with
  | str s =>
      cases s with
      | nil => exact iff_of_true (spares_invalid (Text.encode_text _)) nofun
      | cons c cs =>
          dsimp only
          cases hreply : replyOptions.lookup replyOption with
          | none =>
              exact iff_of_true (spares_invalid (encode_printed lib _ (Text.encode_text _))) nofun
          | some reply =>
              dsimp only
              cases hthread : orEmpty ((Json.get? body (text "thread")).getD .null) with
              | dict thread =>
                  dsimp only
                  rw [spares_bind_iff, parseQuote_spares_iff]
                  simp only [spares_bind_iff, parseAttachments_spares_iff]
                  constructor
                  · rintro ⟨hquote, h⟩ c' cs' reply' thread' - - -
                    exact ⟨hquote, fun quote hq => (h quote hq).1⟩
                  · intro h
                    obtain ⟨hquote, hattachments⟩ := h c cs reply thread rfl rfl rfl
                    exact ⟨hquote, fun quote hq => ⟨hattachments quote hq, fun _ _ => spares_ok _⟩⟩
              | _ => exact iff_of_true (spares_invalid (Text.encode_text _)) nofun
  | _ => exact iff_of_true (spares_invalid (Text.encode_text _)) nofun

end Parsing

end Jetty.Chat
