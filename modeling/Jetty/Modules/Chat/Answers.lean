import Jetty.Modules.Chat.Responses
import Jetty.Modules.Chat.Store

/-!
# Which requests are answered

For each route, the requests that it answers with success, `NOT_FOUND` or `INVALID_ARGUMENT`: what
is looked at on the way is well typed, and the result can be written.
-/

namespace Jetty.Chat

open Python Failure

section Routes

variable (lib : Library) (S : MockChatDriver)

/-! ### Steps that the routes share -/

/-- The body is an object with the given keys at most. -/
def BodyOf (allowed : List Text) (body : Option Json) (fields : List (Text × Json)) : Prop :=
  body = some (.dict fields) ∧ ∀ entry ∈ fields, entry.1 ∈ allowed

private theorem jsonBody_eq_ok {allowed : List Text} {body : Option Json}
    {fields : List (Text × Json)} :
    jsonBody lib allowed body = .ok fields ↔ BodyOf allowed body fields := by
  unfold jsonBody BodyOf
  split
  · exact ⟨nofun, fun h => by cases h.1⟩
  · rename_i entries
    simp only [Option.some.injEq, Json.dict.injEq]
    cases hhead : (((entries.map Prod.fst).filter (· ∉ allowed)).mergeSort
        fun a b => decide (a ≤ b)).head? with
    | some key =>
        refine ⟨nofun, ?_⟩
        rintro ⟨rfl, hall⟩
        have hmem := List.mem_mergeSort.mp (List.mem_of_head? hhead)
        rw [List.mem_filter, decide_eq_true_eq] at hmem
        obtain ⟨entry, hentry, rfl⟩ := List.mem_map.mp hmem.1
        exact absurd (hall entry hentry) hmem.2
    | none =>
        have hnil := List.head?_eq_none_iff.mp hhead
        have hknown : ∀ entry ∈ entries, entry.1 ∈ allowed := by
          intro entry hentry
          by_contra hnot
          have hmem : entry.1 ∈ ((entries.map Prod.fst).filter (· ∉ allowed)).mergeSort
              fun a b => decide (a ≤ b) :=
            List.mem_mergeSort.mpr (List.mem_filter.mpr
              ⟨List.mem_map_of_mem hentry, decide_eq_true hnot⟩)
          rw [hnil] at hmem
          cases hmem
        constructor
        · intro h
          obtain rfl := Except.ok.inj h
          exact ⟨rfl, hknown⟩
        · rintro ⟨rfl, -⟩
          rfl
  · rename_i value hvalue
    refine ⟨nofun, ?_⟩
    rintro ⟨h, -⟩
    exact absurd (Option.some.inj h) (hvalue fields)

private theorem requireSpace_spares (spaceId : UrlText) : Spares Raised.harms
    (requireSpace S spaceId) := by
  unfold requireSpace
  split
  · exact spares_ok _
  · exact spares_notFound.mpr
      (Text.encode_append_isSome.mpr ⟨Text.encode_text _, spaceId.encodes⟩)

private theorem requireSpace_eq_ok {spaceId : UrlText} {space : Space} :
    requireSpace S spaceId = .ok space ↔
      S.getSpace (text "spaces/" ++ spaceId.text) = some space := by
  unfold requireSpace
  cases S.getSpace (text "spaces/" ++ spaceId.text) with
  | none => exact ⟨nofun, nofun⟩
  | some space' =>
      exact ⟨fun h => congrArg _ (Except.ok.inj h), fun h => congrArg _ (Option.some.inj h)⟩

private theorem urlMessage_encodes (spaceId messageId : UrlText) :
    (Text.encode (urlMessage spaceId messageId)).isSome := by
  unfold urlMessage
  simp only [Text.encode_append_isSome]
  exact ⟨⟨⟨Text.encode_text _, spaceId.encodes⟩, Text.encode_text _⟩, messageId.encodes⟩

private theorem requireMessage_spares {name : Text} (h : (Text.encode name).isSome) :
    Spares Raised.harms (requireMessage S name) := by
  unfold requireMessage
  split
  · exact spares_ok _
  · exact spares_notFound.mpr (Text.encode_append_isSome.mpr ⟨Text.encode_text _, h⟩)

private theorem requireMessage_eq_ok {name : Text} {message : Message} :
    requireMessage S name = .ok message ↔ S.getMessage name = some message := by
  unfold requireMessage
  cases S.getMessage name with
  | none => exact ⟨nofun, nofun⟩
  | some message' =>
      exact ⟨fun h => congrArg _ (Except.ok.inj h), fun h => congrArg _ (Option.some.inj h)⟩

/-! ### One route after the other -/

/-- The keys of a body that creates a message. -/
def createKeys : List Text :=
  [text "text", text "thread", text "quotedMessageMetadata", text "attachment"]

/-- What goes into a message can be written: the names of the space and of the thread, who sends it,
its text and its time, and what it quotes and has attached. -/
structure PartsWritable (space : Text) (req : MessageCreate) (thread : Text) (now : ℚ) : Prop where
  texts : ∀ t ∈ [space, S.identity, thread, req.text], (Text.encode t).isSome
  created : (lib.rfc3339 now).isSome
  attached : ∀ ref ∈ req.attachments, ∀ name upload, ref = .str name →
    S.uploads.get? name = some upload →
      (Text.encode upload.filename).isSome ∧ (Text.encode upload.contentType).isSome
  quoted : ∀ quote, req.quote = some quote → ∀ name message, quote.name = .str name →
    S.messages.get? name = some message →
      (lib.rfc3339 (MockChatDriver.latest message)).isSome ∧ (Text.encode message.name).isSome ∧
        (Text.encode message.text).isSome

/-- A new message can be written if its parts can. -/
theorem writable_insert_iff (space sender body thread : Text) (now : ℚ)
    (attachments : List Attachment) (quoted : Option Quote) :
    Writable lib (S.insert space sender body thread now attachments quoted).2 ↔
      (∀ t ∈ [space, sender, thread, body], (Text.encode t).isSome) ∧
        (lib.rfc3339 now).isSome ∧
        (∀ a ∈ attachments,
          (Text.encode a.contentName).isSome ∧ (Text.encode a.contentType).isSome) ∧
        ∀ q, quoted = some q → (lib.rfc3339 q.lastUpdateTime).isSome ∧
          (Text.encode q.name).isSome ∧ (Text.encode q.text).isSome := by
  have hhuman : (Text.encode (text "HUMAN")).isSome := Text.encode_text _
  have hmessages : (Text.encode (text "/messages/m")).isSome := Text.encode_text _
  have hthreads : (Text.encode (text "/threads/t")).isSome := Text.encode_text _
  have hname (n : ℕ) : (Text.encode (messageName space n)).isSome ↔ (Text.encode space).isSome := by
    simp only [messageName, Text.encode_append_isSome, hmessages, numeral_encodes, and_true]
  have hthread (n : ℕ) :
      (Text.encode (threadName space n)).isSome ↔ (Text.encode space).isSome := by
    simp only [threadName, Text.encode_append_isSome, hthreads, numeral_encodes, and_true]
  unfold MockChatDriver.insert
  constructor
  · rintro ⟨htexts, hcreated, -, hattached, hquoted⟩
    refine ⟨?_, hcreated, hattached, hquoted⟩
    simp only [List.forall_mem_cons] at htexts ⊢
    obtain ⟨hmessage, hsender, -, hin, hbody, hnil⟩ := htexts
    refine ⟨(hname _).mp hmessage, hsender, ?_, hbody, hnil⟩
    split at hin
    · rename_i hempty
      rw [hempty]
      rfl
    · exact hin
  · rintro ⟨htexts, hcreated, hattached, hquoted⟩
    simp only [List.forall_mem_cons] at htexts
    obtain ⟨hspace, hsender, hin, hbody, hnil⟩ := htexts
    refine ⟨?_, hcreated, fun h => absurd rfl h, hattached, hquoted⟩
    simp only [List.forall_mem_cons]
    refine ⟨(hname _).mpr hspace, hsender, hhuman, ?_, hbody, hnil⟩
    split
    · exact (hthread _).mpr hspace
    · exact hin

/-- The message that is created can be written exactly if, wherever what it refers to is found, its
parts can. -/
theorem created_writable_iff (space : Text) (req : MessageCreate) (now : ℚ) :
    (∀ message, (S.createMessage lib.repr space req now).2 = .ok message → Writable lib message) ↔
      ∀ thread, (S.resolveThread lib.repr space req).2 = .ok thread →
        (∀ quote, req.quote = some quote → S.Quotable thread quote) →
        (∀ ref ∈ req.attachments, S.Uploaded ref) →
        PartsWritable lib S space req thread now := by
  have hrefs := resolveRefs_resolved (S := S) lib.repr space req
  have hidentity : (S.resolveThread lib.repr space req).1.identity = S.identity := by
    rcases @MockChatDriver.resolveThread_cases S lib.repr space req with
      ⟨-, result, hresolve⟩ | ⟨-, hresolve⟩
    · rw [hresolve]
    · rw [hresolve]
      rfl
  unfold MockChatDriver.createMessage
  generalize S.resolveThread lib.repr space req = resolved at hrefs hidentity ⊢
  obtain ⟨T, e | thread⟩ := resolved
  · exact iff_of_true nofun nofun
  dsimp only at hrefs hidentity ⊢
  rw [hrefs]
  simp only [Except.ok.injEq, forall_eq']
  cases hresult : S.resolveRefs lib.repr req thread with
  | error e =>
      refine iff_of_true nofun fun hquotes hattachments => ?_
      obtain ⟨refs, hok⟩ := (MockChatDriver.resolveRefs_isOk_iff lib.repr).mpr
        ⟨hquotes, hattachments⟩
      cases hok.symm.trans hresult
  | ok refs =>
      obtain ⟨quoted, attachments⟩ := refs
      obtain ⟨hquotes, hattachments⟩ :=
        (MockChatDriver.resolveRefs_isOk_iff lib.repr).mp ⟨_, hresult⟩
      obtain ⟨hquoted, hattached⟩ := (MockChatDriver.resolveRefs_eq_ok lib.repr).mp hresult
      simp only [Except.ok.injEq, forall_eq']
      rw [forall_prop_of_true hquotes, forall_prop_of_true hattachments, writable_insert_iff,
        hidentity]
      constructor
      · rintro ⟨htexts, hcreated, hfiles, hquote⟩
        refine ⟨htexts, hcreated, fun ref href name upload hname hupload => ?_,
          fun quote hreq name message hname hmessage => ?_⟩
        · obtain ⟨attachment, hmem, hok⟩ := (mem_of_mapM hattached).1 ref href
          obtain ⟨name', upload', rfl, hupload', rfl⟩ :=
            (MockChatDriver.resolveAttachment_eq_ok lib.repr).mp hok
          obtain rfl := Json.str.inj hname
          obtain rfl := Option.some.inj (hupload'.symm.trans hupload)
          exact hfiles _ hmem
        · rw [hreq, Option.mapM_some] at hquoted
          obtain ⟨q, hq, rfl⟩ := map_eq_ok.mp hquoted
          obtain ⟨name', message', hname', hmessage', rfl⟩ :=
            MockChatDriver.resolveQuote_eq_ok lib.repr hq
          obtain rfl := Json.str.inj (hname'.symm.trans hname)
          obtain rfl := Option.some.inj (hmessage'.symm.trans hmessage)
          exact hquote _ rfl
      · rintro ⟨htexts, hcreated, hfiles, hquote⟩
        refine ⟨htexts, hcreated, fun attachment hmem => ?_, fun q hq => ?_⟩
        · obtain ⟨ref, href, hok⟩ := (mem_of_mapM hattached).2 attachment hmem
          obtain ⟨name, upload, rfl, hupload, rfl⟩ :=
            (MockChatDriver.resolveAttachment_eq_ok lib.repr).mp hok
          exact hfiles _ href name upload rfl hupload
        · cases hreq : req.quote with
          | none =>
              rw [hreq] at hquoted
              cases hquoted
              cases hq
          | some quote =>
              rw [hreq, Option.mapM_some] at hquoted
              obtain ⟨q', hq', rfl⟩ := map_eq_ok.mp hquoted
              obtain rfl := Option.some.inj hq
              obtain ⟨name, message, hname, hmessage, rfl⟩ :=
                MockChatDriver.resolveQuote_eq_ok lib.repr hq'
              exact hquote quote hreq name message hname hmessage

/-- In a space that is there, with keys that are known: the body is well typed, the driver can look
up what it names, and if all that is found, the parts of the message can be written. -/
def CreateFits (spaceId : UrlText) (body : Option Json) (replyOption : Option UrlText) (now : ℚ) :
    Prop :=
  ∀ space fields, S.getSpace (text "spaces/" ++ spaceId.text) = some space →
    BodyOf createKeys body fields →
    CreateTyped lib fields (replyOption.map UrlText.text) ∧
    ∀ req, parseCreate lib fields (replyOption.map UrlText.text) = .ok req →
      (ThreadTyped S req ∧ RefsTyped lib.repr S space.name req) ∧
      ∀ thread, (S.resolveThread lib.repr space.name req).2 = .ok thread →
        (∀ quote, req.quote = some quote → S.Quotable thread quote) →
        (∀ ref ∈ req.attachments, S.Uploaded ref) →
        PartsWritable lib S space.name req thread now

private theorem createMessageRoute_answers_iff (spaceId : UrlText) (body : Option Json)
    (replyOption : Option UrlText) (now : ℚ) :
    Answers (createMessageRoute lib S spaceId body replyOption now) ↔
      CreateFits lib S spaceId body replyOption now := by
  unfold createMessageRoute CreateFits
  simp only [answers_bind_iff, requireSpace_spares, requireSpace_eq_ok, jsonBody_spares,
    jsonBody_eq_ok, parseCreate_spares_iff, drive_spares_iff, drive_eq_ok,
    createMessage_error_iff, messageJson_answers_iff, created_writable_iff, true_and]
  exact ⟨fun h space fields hspace hbody => h space hspace fields hbody,
    fun h space hspace fields hbody => h space fields hspace hbody⟩

/-- The message that is changed can be written with the new text and the new time. -/
def PatchFits (spaceId messageId : UrlText) (body : Option Json) (updateMask : UrlText) (now : ℚ) :
    Prop :=
  maskPaths updateMask.text ≠ [] → (∀ path ∈ maskPaths updateMask.text, path = text "text") →
    ∀ fields s message, BodyOf [text "text"] body fields →
      (Json.get? fields (text "text")).getD (.str []) = .str s →
      S.messages.get? (urlMessage spaceId messageId) = some message →
      Writable lib { message with text := s, updateTime := now }

private theorem patchMessage_result (name body : Text) (now : ℚ) :
    (S.patchMessage name (some body) now).2 = (S.messages.get? name).map fun message =>
      { message with text := body, updateTime := now } := by
  unfold MockChatDriver.patchMessage
  cases S.messages.get? name <;> rfl

private theorem patchMessageRoute_answers_iff (spaceId messageId : UrlText) (body : Option Json)
    (updateMask : UrlText) (now : ℚ) :
    Answers (patchMessageRoute lib S spaceId messageId body updateMask now) ↔
      PatchFits lib S spaceId messageId body updateMask now := by
  unfold patchMessageRoute PatchFits
  dsimp only
  by_cases hpaths : maskPaths updateMask.text = []
  · rw [if_pos hpaths]
    exact iff_of_true (answers_invalid (Text.encode_text _)) fun h => absurd hpaths h
  rw [if_neg hpaths, forall_prop_of_true hpaths]
  cases hfind : (maskPaths updateMask.text).find? (· ≠ text "text") with
  | some path =>
      refine iff_of_true (answers_invalid ?_) fun h => ?_
      · exact Text.encode_append_isSome.mpr ⟨Text.encode_append_isSome.mpr
          ⟨Text.encode_text _, lib.repr.encodes _⟩, Text.encode_text _⟩
      · have hne := List.find?_some hfind
        rw [decide_eq_true_eq] at hne
        exact absurd (h path (List.mem_of_find?_eq_some hfind)) hne
  | none =>
      have hall : ∀ path ∈ maskPaths updateMask.text, path = text "text" := by
        simpa using hfind
      rw [forall_prop_of_true hall]
      simp only [answers_bind_iff, jsonBody_spares, jsonBody_eq_ok, true_and]
      refine forall_congr' fun fields => ?_
      cases htext : (Json.get? fields (text "text")).getD (.str []) with
      | str s =>
          dsimp only
          rw [patchMessage_result]
          simp only [Json.str.injEq]
          cases hmessage : S.messages.get? (urlMessage spaceId messageId) with
          | none =>
              refine iff_of_true (fun _ => ?_) (by simp)
              exact answers_notFound (Text.encode_append_isSome.mpr
                ⟨Text.encode_text _, urlMessage_encodes _ _⟩)
          | some message =>
              rw [Option.map_some]
              dsimp only
              rw [messageJson_answers_iff]
              constructor
              · rintro h _ message' hbody rfl hmessage'
                obtain rfl := Option.some.inj hmessage'
                exact h hbody
              · exact fun h hbody => h s message hbody rfl rfl
      | _ => exact iff_of_true (fun _ => answers_invalid (Text.encode_text _)) (by simp)

/-- Rows are answered together exactly if each of them is, where errors are harmful. -/
theorem answers_rows_iff {α : Type} {f : α → Outcome Json}
    (hf : ∀ x e, f x = .error e → e.harms) (l : List α) :
    (Spares Raised.harms (l.mapM f) ∧
        ∀ rows, l.mapM f = .ok rows → ∀ row ∈ rows, encodes row = true) ↔
      ∀ x ∈ l, Answers (f x) := by
  constructor
  · rintro ⟨hspares, hrows⟩ x hx
    cases hmap : l.mapM f with
    | error e =>
        obtain ⟨front, y, back, -, -, hy⟩ := mapM_eq_error.mp hmap
        exact absurd (hf y e hy) (hspares e hmap)
    | ok rows =>
        obtain ⟨row, hrow, hxrow⟩ := (mem_of_mapM hmap).1 x hx
        rw [hxrow, answers_ok]
        exact hrows rows hmap row hrow
  · intro h
    constructor
    · intro e he
      obtain ⟨front, x, back, rfl, -, hx⟩ := mapM_eq_error.mp he
      exact (h x (List.mem_append_right _ List.mem_cons_self)).1 e hx
    · intro rows hrows row hrow
      obtain ⟨x, hx, hxrow⟩ := (mem_of_mapM hrows).2 row hrow
      exact (h x hx).2 row hxrow

/-- Whatever writing a message raises is harmful. -/
theorem messageJson_harms {message : Message} {e : Raised}
    (h : messageJson lib message = .error e) : e.harms := by
  have htime (t : ℚ) : Spares (¬ Raised.harms ·) (timeJson lib t) := by
    unfold timeJson
    cases lib.rfc3339 t with
    | some s => exact spares_ok _
    | none => exact spares_error_iff.mpr fun hnot => hnot trivial
  have hupdated : Spares (¬ Raised.harms ·) (updateFields lib message) := by
    unfold updateFields
    split
    · exact spares_ok _
    · exact spares_map_iff.mpr (htime _)
  have hquoted : Spares (¬ Raised.harms ·) (quoteFields lib message) := by
    unfold quoteFields
    cases message.quoted with
    | none => exact spares_ok _
    | some quoted => exact spares_map_iff.mpr (htime _)
  have hmessage : Spares (¬ Raised.harms ·) (messageJson lib message) :=
    spares_bind_iff.mpr ⟨htime _, fun _ _ => spares_bind_iff.mpr ⟨hupdated, fun _ _ =>
      spares_bind_iff.mpr ⟨hquoted, fun _ _ => spares_ok _⟩⟩⟩
  exact not_not.mp (hmessage e h)

private theorem encodes_pageJson {key : Text} (hkey : (Text.encode key).isSome) {rows : List Json}
    {token : Text} (htoken : (Text.encode token).isSome) :
    encodes (pageJson key rows token) = true ↔ ∀ row ∈ rows, encodes row = true := by
  have hnext : (Text.encode (text "nextPageToken")).isSome := Text.encode_text _
  unfold pageJson
  rw [encodes_dict, encodesEntries_cons, hkey, Bool.true_and, Bool.and_eq_true, encodes_list]
  refine and_iff_left ?_
  split
  · exact encodesEntries_nil
  · simp [hnext, htoken]

/-- The messages of a page can be written. -/
theorem messagesJson_answers_iff {page : List Message × Text}
    (htoken : (Text.encode page.2).isSome) :
    Answers (messagesJson lib page) ↔ ∀ message ∈ page.1, Writable lib message := by
  unfold messagesJson
  rw [answers_bind_iff]
  have hrows := answers_rows_iff (f := messageJson lib)
    (fun message e => messageJson_harms lib) page.1
  simp only [messageJson_answers_iff] at hrows
  rw [← hrows]
  refine and_congr_right fun _ => forall₂_congr fun rows _ => ?_
  exact answers_ok.trans (encodes_pageJson (Text.encode_text _) htoken)

private theorem mapM_eq_none {α β : Type} {f : α → Option β} {l : List α} :
    l.mapM f = none ↔ ∃ x ∈ l, f x = none := by
  induction l with
  | nil => simp
  | cons a l ih =>
      rw [List.mapM_cons, List.exists_mem_cons_iff, ← ih]
      cases f a <;> cases l.mapM f <;> simp

/-- Listing fails where the order names a message that is not there. -/
theorem listMessages_error_iff (repr : Repr) (space : Text) (query : MessageQuery)
    (htoken : TokenTyped query.page.token) :
    (∀ e, S.listMessages repr space query = .error e → e.typed = true ∧ e.writes = true) ↔
      ∀ name ∈ (S.order.get? space).getD [], name ∈ S.messages.keys := by
  have hnone : S.listRows space query = none ↔
      ∃ name ∈ (S.order.get? space).getD [], name ∉ S.messages.keys := by
    simp only [← Dict.get?_eq_none, ← mapM_eq_none]
    unfold MockChatDriver.listRows
    cases ((S.order.get? space).getD []).mapM S.messages.get? <;> simp
  unfold MockChatDriver.listMessages
  cases hrows : S.listRows space query with
  | none =>
      obtain ⟨name, hname, hnot⟩ := hnone.mp hrows
      exact iff_of_false (fun h => absurd (h .other rfl).1 Bool.false_ne_true)
        fun h => hnot (h name hname)
  | some rows =>
      refine iff_of_true ((paginate_error_iff repr rows query.page).mpr htoken) fun name hname => ?_
      by_contra hnot
      rw [hnone.mpr ⟨name, hname, hnot⟩] at hrows
      cases hrows

/-- An order that is a text is blank only if it is empty. -/
theorem orderText_iff (orderBy : Text) :
    ((Json.str orderBy).truthy = false ∨
        ∃ s, Json.str orderBy = .str s ∧ splitSpaces s ≠ []) ↔
      orderBy = [] ∨ splitSpaces orderBy ≠ [] := by
  refine or_congr ?_ ?_
  · cases orderBy <;> simp [Json.truthy]
  · simp

/-- The messages on a page. -/
def shown (result : Except DriverError (List Message × Text)) : List Message :=
  match result with
  | .ok (messages, _) => messages
  | .error _ => []

/-- The messages on a page are some of those that the driver has, so it is them that have to be
written. -/
theorem shown_writable_iff {rows : List Message} (hrows : ∀ m ∈ rows, m ∈ S.messages.values)
    (page : Page) : (∀ result, paginate lib.repr rows page = .ok result →
        ∀ message ∈ result.1, Writable lib message) ↔
      ∀ message ∈ S.messages.values, message ∈ shown (paginate lib.repr rows page) →
        Writable lib message := by
  cases hpage : paginate lib.repr rows page with
  | error e => exact iff_of_true nofun fun _ _ => nofun
  | ok result =>
      simp only [Except.ok.injEq, forall_eq', shown]
      refine ⟨fun h message _ => h message, fun h message hmessage => h message ?_ hmessage⟩
      obtain ⟨offset, -, rfl⟩ := map_eq_ok.mp hpage
      exact hrows message (List.mem_of_mem_drop (List.mem_of_mem_take hmessage))

/-- A page of a space is answered if the order names messages only and those on the page can be
written. -/
theorem listing_answers_iff {space : Text} {query : MessageQuery}
    (htoken : TokenTyped query.page.token) :
    ((∀ e, S.listMessages lib.repr space query = .error e → e.typed = true ∧ e.writes = true) ∧
        ∀ result, S.listMessages lib.repr space query = .ok result →
          Answers (messagesJson lib result)) ↔
      (∀ name ∈ (S.order.get? space).getD [], name ∈ S.messages.keys) ∧
        ∀ message ∈ S.messages.values,
          message ∈ shown (S.listMessages lib.repr space query) → Writable lib message := by
  rw [listMessages_error_iff S lib.repr space query htoken]
  refine and_congr_right fun _ => ?_
  unfold MockChatDriver.listMessages
  cases hrows : S.listRows space query with
  | none => exact iff_of_true nofun fun _ _ => nofun
  | some rows =>
      have hstored : ∀ m ∈ rows, m ∈ S.messages.values := fun m hm =>
        Dict.mem_values.mpr (MockChatDriver.listRows_mem hrows hm)
      dsimp only
      rw [← shown_writable_iff lib S hstored]
      exact forall₂_congr fun result hresult =>
        messagesJson_answers_iff lib (paginate_token hresult)

/-- The bounds are well typed, the order of the space names messages only, and those of the page can
be written. -/
def ListFits (spaceId : UrlText) (pageSize pageToken filter orderBy : Option UrlText) : Prop :=
  ∀ size space, queryPageSize lib pageSize = .ok size →
    S.getSpace (text "spaces/" ++ spaceId.text) = some space →
    FilterTyped lib (queryText filter) ∧
    ∀ found page, parseListFilter lib (queryText filter) = .ok found →
      parsePage size (.str (queryText pageToken)) = .ok page →
      (queryText orderBy = [] ∨ splitSpaces (queryText orderBy) ≠ []) ∧
      ∀ descending, parseOrderBy lib (.str (queryText orderBy)) = .ok descending →
        (∀ name ∈ (S.order.get? space.name).getD [], name ∈ S.messages.keys) ∧
        ∀ message ∈ S.messages.values,
          message ∈ shown (S.listMessages lib.repr space.name { page, after := found.after
                                                                before := found.before
                                                                thread := found.thread
                                                                descending }) →
            Writable lib message

private theorem listMessagesRoute_answers_iff (spaceId : UrlText)
    (pageSize pageToken filter orderBy : Option UrlText) :
    Answers (listMessagesRoute lib S spaceId pageSize pageToken filter orderBy) ↔
      ListFits lib S spaceId pageSize pageToken filter orderBy := by
  unfold listMessagesRoute ListFits
  simp only [answers_bind_iff, queryPageSize_spares, requireSpace_spares, requireSpace_eq_ok,
    parseListFilter_spares_iff, parsePage_spares, parseOrderBy_spares_iff, drive_spares_iff,
    drive_eq_ok, true_and, orderText_iff]
  constructor
  · intro h size space hsize hspace
    obtain ⟨hfilter, h⟩ := h size hsize space hspace
    refine ⟨hfilter, fun found page hfound hpage => ?_⟩
    obtain ⟨horder, h⟩ := h found hfound page hpage
    have htoken := (parsePage_token hpage).mpr trivial
    exact ⟨horder, fun descending hdescending =>
      (listing_answers_iff lib S htoken).mp (h descending hdescending)⟩
  · intro h size hsize space hspace
    obtain ⟨hfilter, h⟩ := h size space hsize hspace
    refine ⟨hfilter, fun found hfound page hpage => ?_⟩
    obtain ⟨horder, h⟩ := h found page hfound hpage
    have htoken := (parsePage_token hpage).mpr trivial
    exact ⟨horder, fun descending hdescending =>
      (listing_answers_iff lib S htoken).mpr (h descending hdescending)⟩

/-- The page of a search is well typed, and the messages on it can be written. -/
def SearchFits (spaceId : UrlText) (body : Option Json) : Prop :=
  spaceId.text = text "-" → ∀ fields c cs size page,
    BodyOf [text "filter", text "pageSize", text "pageToken", text "orderBy"] body fields →
    (Json.get? fields (text "filter")).getD (.str []) = .str (c :: cs) →
    bodyPageSize ((Json.get? fields (text "pageSize")).getD .null) = .ok size →
    parsePage size ((Json.get? fields (text "pageToken")).getD .null) = .ok page →
    (((Json.get? fields (text "orderBy")).getD .null).truthy = false ∨
      ∃ s, (Json.get? fields (text "orderBy")).getD .null = .str s ∧ splitSpaces s ≠ []) ∧
    ∀ descending, parseOrderBy lib ((Json.get? fields (text "orderBy")).getD .null) =
        .ok descending →
      TokenTyped ((Json.get? fields (text "pageToken")).getD .null) ∧
      ∀ message ∈ S.messages.values, message ∈ shown
          (S.searchMessages lib.repr lib.lower { filter := c :: cs, page, descending }) →
        Writable lib message

/-- A page of a search is answered if its token is typed and what is on it can be written. -/
theorem searching_answers_iff (req : MessageSearch) :
    ((∀ e, S.searchMessages lib.repr lib.lower req = .error e →
          e.typed = true ∧ e.writes = true) ∧
        ∀ result, S.searchMessages lib.repr lib.lower req = .ok result →
          Answers (messagesJson lib result)) ↔
      TokenTyped req.page.token ∧
        ∀ message ∈ S.messages.values,
          message ∈ shown (S.searchMessages lib.repr lib.lower req) → Writable lib message := by
  have hstored : ∀ m ∈ S.searchRows lib.lower req, m ∈ S.messages.values := by
    intro m hm
    unfold MockChatDriver.searchRows at hm
    exact List.mem_of_mem_filter (List.mem_mergeSort.mp hm)
  unfold MockChatDriver.searchMessages
  rw [paginate_error_iff, ← shown_writable_iff lib S hstored]
  exact and_congr_right fun _ => forall₂_congr fun result hresult =>
    messagesJson_answers_iff lib (paginate_token hresult)

private theorem searchMessagesRoute_answers_iff (spaceId : UrlText) (body : Option Json) :
    Answers (searchMessagesRoute lib S spaceId body) ↔ SearchFits lib S spaceId body := by
  unfold searchMessagesRoute SearchFits
  by_cases hparent : spaceId.text = text "-"
  · rw [if_neg (not_not.mpr hparent), forall_prop_of_true hparent]
    simp only [answers_bind_iff, jsonBody_spares, jsonBody_eq_ok, true_and]
    refine forall_congr' fun fields => ?_
    cases hfilter : (Json.get? fields (text "filter")).getD (.str []) with
    | str s =>
        cases s with
        | nil => exact iff_of_true (fun _ => answers_invalid (Text.encode_text _)) nofun
        | cons c cs =>
            dsimp only
            simp only [answers_bind_iff, bodyPageSize_spares, parsePage_spares,
              parseOrderBy_spares_iff, drive_spares_iff, drive_eq_ok, searching_answers_iff,
              true_and]
            constructor
            · rintro h c' cs' size page hbody hfilter' hsize hpage
              obtain ⟨rfl, rfl⟩ := List.cons.inj (Json.str.inj hfilter')
              obtain ⟨horder, h⟩ := h hbody size hsize page hpage
              refine ⟨horder, fun descending hdescending => ?_⟩
              exact (h descending hdescending).imp_left (parsePage_token hpage).mp
            · intro h hbody size hsize page hpage
              obtain ⟨horder, h⟩ := h c cs size page hbody rfl hsize hpage
              refine ⟨horder, fun descending hdescending => ?_⟩
              exact (h descending hdescending).imp_left (parsePage_token hpage).mpr
    | _ => exact iff_of_true (fun _ => answers_invalid (Text.encode_text _)) nofun
  · rw [if_pos hparent]
    exact iff_of_true (answers_invalid (Text.encode_text _)) fun h => absurd h hparent

/-- The emoji is false or an object, and its text is false or a text. -/
def EmojiTyped (body : List (Text × Json)) : Prop :=
  ∀ emoji, Json.get? body (text "emoji") = some emoji → emoji.truthy = true →
    ∃ entries, emoji = .dict entries ∧ ∀ unicode,
      Json.get? entries (text "unicode") = some unicode → unicode.truthy = true →
        ∃ s, unicode = .str s

/-- The emoji is well typed, and the reaction can be written. -/
def CreateReactionFits (spaceId messageId : UrlText) (body : Option Json) : Prop :=
  ∀ fields, BodyOf [text "emoji"] body fields → EmojiTyped fields ∧
    ∀ unicode message, parseEmoji fields = .ok unicode → unicode ≠ [] →
      S.getMessage (urlMessage spaceId messageId) = some message →
      (Text.encode S.identity).isSome ∧ (Text.encode unicode).isSome

/-- The reactions on the page can be written. -/
def ListReactionsFits (spaceId messageId : UrlText) (pageSize pageToken : Option UrlText) : Prop :=
  ∀ size message page result, queryPageSize lib pageSize = .ok size →
    S.getMessage (urlMessage spaceId messageId) = some message →
    parsePage size (.str (queryText pageToken)) = .ok page →
    S.listReactions lib.repr (urlMessage spaceId messageId) page = .ok result →
    ∀ reaction ∈ result.1, (Text.encode reaction.name).isSome ∧
      (Text.encode reaction.user).isSome ∧ (Text.encode reaction.emoji).isSome

private theorem parseEmoji_spares_iff (body : List (Text × Json)) :
    Spares Raised.harms (parseEmoji body) ↔ EmojiTyped body := by
  have hunicode (entries : List (Text × Json))
      (h : orEmpty ((Json.get? body (text "emoji")).getD .null) = .dict entries) :
      Spares Raised.harms (parseEmoji body) ↔
        ∀ unicode, Json.get? entries (text "unicode") = some unicode →
          unicode.truthy = true → ∃ s, unicode = .str s := by
    unfold parseEmoji
    rw [h]
    dsimp only
    rw [spares_bind_iff, getField, and_iff_right (spares_ok _)]
    simp only [Except.ok.injEq, forall_eq']
    cases hvalue : Json.get? entries (text "unicode") with
    | none => exact iff_of_true (spares_ok _) fun _ h => by cases h
    | some unicode =>
        simp only [Option.getD_some, Option.some.injEq, forall_eq']
        by_cases htruthy : unicode.truthy = true
        · rw [if_pos htruthy, forall_prop_of_true htruthy]
          cases unicode with
          | str s => exact iff_of_true (spares_ok _) ⟨s, rfl⟩
          | _ => exact iff_of_false not_spares_other (by rintro ⟨s, h⟩; cases h)
        · rw [if_neg htruthy]
          exact iff_of_true (spares_ok _) fun h => absurd h htruthy
  by_cases htruthy : ((Json.get? body (text "emoji")).getD .null).truthy = true
  · have hemoji := eq_some_of_truthy htruthy
    cases hvalue : (Json.get? body (text "emoji")).getD .null with
    | dict entries =>
        rw [hvalue] at htruthy hemoji
        rw [hunicode entries (by rw [orEmpty, hvalue, if_pos htruthy])]
        simp only [EmojiTyped, hemoji, Option.some.injEq, forall_eq', htruthy, forall_const,
          Json.dict.injEq, exists_eq_left']
    | _ =>
        refine iff_of_false ?_ fun h => ?_
        · unfold parseEmoji
          rw [orEmpty, if_pos htruthy, hvalue]
          exact fun h => (spares_bind_iff.mp h).1 .other rfl trivial
        · obtain ⟨entries, hdict, -⟩ := h _ hemoji htruthy
          rw [hvalue] at hdict
          cases hdict
  · have hempty : orEmpty ((Json.get? body (text "emoji")).getD .null) = .dict [] := by
      rw [orEmpty, if_neg htruthy]
    refine iff_of_true ((hunicode [] hempty).mpr fun _ h => by cases h) ?_
    intro emoji hemoji htruthy'
    rw [hemoji] at htruthy
    exact absurd htruthy' htruthy

private theorem encodes_reactionJson (reaction : Reaction) : encodes
    (reactionJson reaction) = true ↔
    (Text.encode reaction.name).isSome ∧ (Text.encode reaction.user).isSome ∧
      (Text.encode reaction.emoji).isSome := by
  have hkeys : ∀ key ∈ [text "name", text "user", text "emoji", text "unicode"],
      (Text.encode key).isSome := by
    decide +kernel
  simp only [List.forall_mem_cons] at hkeys
  simp [reactionJson, hkeys]

private theorem createReactionRoute_answers_iff (spaceId messageId : UrlText) (body : Option Json) :
    Answers (createReactionRoute lib S spaceId messageId body) ↔
      CreateReactionFits S spaceId messageId body := by
  unfold createReactionRoute CreateReactionFits
  simp only [answers_bind_iff, jsonBody_spares, jsonBody_eq_ok, parseEmoji_spares_iff, true_and]
  refine forall₂_congr fun fields _ => and_congr_right fun _ => ?_
  have hcreate (unicode : Text) : Answers (do
        if unicode = [] then invalid (text "emoji.unicode is required")
        else
          let _ ← requireMessage S (urlMessage spaceId messageId)
          return reactionJson (S.createReaction (urlMessage spaceId messageId) unicode).2) ↔
      ∀ message, unicode ≠ [] → S.getMessage (urlMessage spaceId messageId) = some message →
        (Text.encode S.identity).isSome ∧ (Text.encode unicode).isSome := by
    by_cases hnil : unicode = []
    · rw [if_pos hnil]
      exact iff_of_true (answers_invalid (Text.encode_text _)) fun _ h => absurd hnil h
    · rw [if_neg hnil, answers_bind_iff,
        and_iff_right (requireMessage_spares S (urlMessage_encodes _ _))]
      simp only [requireMessage_eq_ok, ne_eq, hnil, not_false_eq_true, forall_const]
      refine forall₂_congr fun message _ => answers_ok.trans ?_
      rw [encodes_reactionJson]
      refine and_iff_right (Text.encode_append_isSome.mpr ⟨?_, numeral_encodes _⟩)
      exact Text.encode_append_isSome.mpr ⟨urlMessage_encodes _ _, Text.encode_text _⟩
  constructor
  · exact fun h unicode message hunicode => (hcreate unicode).mp (h unicode hunicode) message
  · exact fun h unicode hunicode => (hcreate unicode).mpr fun message => h unicode message hunicode

private theorem listReactionsRoute_answers_iff (spaceId messageId : UrlText)
    (pageSize pageToken : Option UrlText) :
    Answers (listReactionsRoute lib S spaceId messageId pageSize pageToken) ↔
      ListReactionsFits lib S spaceId messageId pageSize pageToken := by
  unfold listReactionsRoute ListReactionsFits
  simp only [answers_bind_iff, queryPageSize_spares, parsePage_spares, requireMessage_eq_ok,
    requireMessage_spares S (urlMessage_encodes spaceId messageId), drive_spares_iff,
    drive_eq_ok, true_and]
  have hpage {page : Page} (htoken : TokenTyped page.token) :
      ((∀ e, S.listReactions lib.repr (urlMessage spaceId messageId) page = .error e →
            e.typed = true ∧ e.writes = true) ∧
          ∀ result, S.listReactions lib.repr (urlMessage spaceId messageId) page = .ok result →
            Answers (.ok (pageJson (text "reactions") (result.1.map reactionJson) result.2))) ↔
        ∀ result, S.listReactions lib.repr (urlMessage spaceId messageId) page = .ok result →
          ∀ reaction ∈ result.1, (Text.encode reaction.name).isSome ∧
            (Text.encode reaction.user).isSome ∧ (Text.encode reaction.emoji).isSome := by
    refine (and_iff_right ((paginate_error_iff _ _ _).mpr htoken)).trans ?_
    refine forall₂_congr fun result hresult => answers_ok.trans ?_
    rw [encodes_pageJson (Text.encode_text _) (paginate_token hresult)]
    simp only [List.forall_mem_map, encodes_reactionJson]
  constructor
  · intro h size message page result hsize hmessage hparsed
    exact (hpage ((parsePage_token hparsed).mpr trivial)).mp
      (h size hsize message hmessage page hparsed) result
  · intro h size hsize message hmessage page hparsed
    exact (hpage ((parsePage_token hparsed).mpr trivial)).mpr fun result =>
      h size message page result hsize hmessage hparsed

private theorem deleteReactionRoute_answers (spaceId messageId reactionId : UrlText) :
    Answers (deleteReactionRoute S spaceId messageId reactionId) := by
  unfold deleteReactionRoute
  dsimp only
  split
  · exact answers_ok.mpr (by rw [encodes_dict, encodesEntries_nil])
  · refine answers_notFound (Text.encode_append_isSome.mpr ⟨Text.encode_text _, ?_⟩)
    exact Text.encode_append_isSome.mpr ⟨Text.encode_append_isSome.mpr
      ⟨urlMessage_encodes _ _, Text.encode_text _⟩, reactionId.encodes⟩

/-- What the request has to meet to be answered. -/
def Fits (now : ℚ) : MessageRequest → Prop
  | .create spaceId body replyOption => CreateFits lib S spaceId body replyOption now
  | .patch spaceId messageId body updateMask =>
    PatchFits lib S spaceId messageId body updateMask now
  | .list spaceId pageSize pageToken filter orderBy =>
    ListFits lib S spaceId pageSize pageToken filter orderBy
  | .search spaceId body => SearchFits lib S spaceId body
  | .createReaction spaceId messageId body => CreateReactionFits S spaceId messageId body
  | .listReactions spaceId messageId pageSize pageToken =>
    ListReactionsFits lib S spaceId messageId pageSize pageToken
  | .deleteReaction _ _ _ => True

/-- For every request over every state of the driver: the client gets success, `NOT_FOUND` or
`INVALID_ARGUMENT` exactly where what the route looks at is well typed and the result can be
written. -/
theorem acceptable_iff_fits (now : ℚ) (req : MessageRequest) :
    (answer lib S now req).acceptable = true ↔ Fits lib S now req := by
  rw [acceptable_iff]
  cases req with
  | create spaceId body replyOption => exact createMessageRoute_answers_iff lib S _ _ _ now
  | patch spaceId messageId body updateMask => exact patchMessageRoute_answers_iff lib S _ _ _ _ now
  | list spaceId pageSize pageToken filter orderBy =>
      exact listMessagesRoute_answers_iff lib S _ _ _ _ _
  | search spaceId body => exact searchMessagesRoute_answers_iff lib S _ _
  | createReaction spaceId messageId body => exact createReactionRoute_answers_iff lib S _ _ _
  | listReactions spaceId messageId pageSize pageToken =>
      exact listReactionsRoute_answers_iff lib S _ _ _ _
  | deleteReaction spaceId messageId reactionId =>
      exact iff_of_true (deleteReactionRoute_answers S _ _ _) trivial

end Routes

/-- A library that knows ASCII and a single instant. -/
private def asciiLibrary : Library where
  repr := asciiRepr
  lower := Text.lower
  upper s := s.map fun c =>
    if 0x61 ≤ c.val ∧ c.val ≤ 0x7A then Fin.ofNat _ (c.val - 0x20) else c
  isWord c := decide (0x61 ≤ c.val ∧ c.val ≤ 0x7A ∨ 0x41 ≤ c.val ∧ c.val ≤ 0x5A ∨ c.val = 0x5F)
  timestamp s := if s = text "1970-01-01T00:00:00+00:00" then .ok 0 else .error .value
  rfc3339 t := if t = 0 then some (text "1970-01-01T00:00:00.000000Z") else none
  rfc3339_encodes t s h := by
    split at h
    · obtain rfl := Option.some.inj h
      decide +kernel
    · cases h
  queryInt _ := none

/-- The messages of a space, in an order that is a blank. -/
private def blankOrder : MessageRequest :=
  .list ⟨text "a", by decide +kernel⟩ none none none (some ⟨text " ", by decide +kernel⟩)

/-- An order of blanks is split into no words at all, and the first of them is looked at. -/
theorem blank_order_internal : ¬ ∀ (lib : Library) (S : MockChatDriver), S.Reachable lib.repr →
    ∀ now req, (answer lib S now req).acceptable = true := by
  intro h
  have hreach : ((MockChatDriver.blank (text "users/me")).seedSpace { id := text "a" }).Reachable
      asciiRepr := ⟨_, [{ id := text "a" }], [], _, [], rfl, .nil⟩
  have hacceptable := h asciiLibrary _ hreach 0 blankOrder
  revert hacceptable
  decide +kernel

end Jetty.Chat
