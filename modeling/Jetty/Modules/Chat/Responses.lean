import Jetty.Modules.Chat.Binding
import Jetty.Modules.Chat.References
import Jetty.Modules.Chat.Typed

/-!
# What rendering and the driver raise

A message can be written if its texts have encodings and its times are dates. The driver refuses
what it can look up and does not find; what cannot be looked up becomes `UNAVAILABLE`.
-/

namespace Jetty.Chat

open Python Failure

/-! ### Rendering -/

section Rendering

variable (lib : Library)

@[simp] theorem encodes_str (s : Text) : encodes (.str s) = (Text.encode s).isSome := by
  rw [encodes]

@[simp] theorem encodes_dict (entries : List (Text × Json)) :
    encodes (.dict entries) = encodesEntries entries := by
  rw [encodes]

@[simp] theorem encodesEntries_nil : encodesEntries [] = true := by rw [encodesEntries]

@[simp] theorem encodesEntries_cons (key : Text) (value : Json) (entries : List (Text × Json)) :
    encodesEntries ((key, value) :: entries) =
      ((Text.encode key).isSome && encodes value && encodesEntries entries) := by
  rw [encodesEntries]

private theorem encodesEntries_append (entries rest : List (Text × Json)) :
    encodesEntries (entries ++ rest) = (encodesEntries entries && encodesEntries rest) := by
  induction entries with
  | nil => simp
  | cons entry entries ih =>
      obtain ⟨key, value⟩ := entry
      simp [ih, Bool.and_assoc]

/-- A list can be written exactly if its members can. -/
theorem encodes_list (xs : List Json) : encodes (.list xs) = true ↔ ∀ x ∈ xs, encodes x = true := by
  rw [encodes]
  induction xs with
  | nil => simp [encodesAll]
  | cons x xs ih => simp [encodesAll, ih]

/-- The texts of the message have encodings, and its times can be written. -/
structure Writable (message : Message) : Prop where
  texts : ∀ t ∈ [message.name, message.sender, message.senderType, message.thread, message.text],
    (Text.encode t).isSome
  created : (lib.rfc3339 message.createTime).isSome
  updated : message.updateTime ≠ 0 → (lib.rfc3339 message.updateTime).isSome
  attached : ∀ a ∈ message.attachments,
    (Text.encode a.contentName).isSome ∧ (Text.encode a.contentType).isSome
  quoted : ∀ quoted, message.quoted = some quoted → (lib.rfc3339 quoted.lastUpdateTime).isSome ∧
    (Text.encode quoted.name).isSome ∧ (Text.encode quoted.text).isSome

private theorem timeJson_spares_iff (t : ℚ) :
    Spares Raised.harms (timeJson lib t) ↔ (lib.rfc3339 t).isSome := by
  unfold timeJson
  cases lib.rfc3339 t with
  | none => exact iff_of_false not_spares_other nofun
  | some s => exact iff_of_true (spares_ok _) rfl

/-- Writing a time harms, or succeeds. -/
theorem exists_timeFields {t : ℚ} {f : Json → List (Text × Json)}
    (h : Spares Raised.harms ((timeJson lib t).map f)) :
    ∃ fields, (timeJson lib t).map f = .ok fields := by
  rw [spares_map_iff, timeJson_spares_iff] at h
  obtain ⟨s, hs⟩ := Option.isSome_iff_exists.mp h
  exact ⟨f (.str s), by rw [timeJson, hs]; rfl⟩

private theorem encodes_timeJson {t : ℚ} {v : Json} (h : timeJson lib t = .ok v) :
    encodes v = true := by
  unfold timeJson at h
  cases htime : lib.rfc3339 t with
  | none =>
      rw [htime] at h
      cases h
  | some s =>
      rw [htime] at h
      obtain rfl := Except.ok.inj h
      rw [encodes_str]
      exact lib.rfc3339_encodes t s htime

private theorem updateFields_spares_iff (message : Message) :
    Spares Raised.harms (updateFields lib message) ↔
      (message.updateTime ≠ 0 → (lib.rfc3339 message.updateTime).isSome) := by
  unfold updateFields
  split
  · rename_i h
    exact iff_of_true (spares_ok _) fun hne => absurd h hne
  · rename_i h
    rw [spares_map_iff, timeJson_spares_iff]
    exact ⟨fun h _ => h, fun h' => h' h⟩

private theorem encodes_updateFields {message : Message} {fields : List (Text × Json)}
    (h : updateFields lib message = .ok fields) : encodesEntries fields = true := by
  unfold updateFields at h
  split at h
  · obtain rfl := Except.ok.inj h
    exact encodesEntries_nil
  · obtain ⟨t, ht, rfl⟩ := map_eq_ok.mp h
    have hkey : (Text.encode (text "lastUpdateTime")).isSome := Text.encode_text _
    simp [hkey, encodes_timeJson lib ht]

private theorem quoteFields_spares_iff (message : Message) : Spares Raised.harms
    (quoteFields lib message) ↔
    ∀ quoted, message.quoted = some quoted → (lib.rfc3339 quoted.lastUpdateTime).isSome := by
  unfold quoteFields
  cases message.quoted with
  | none => exact iff_of_true (spares_ok _) nofun
  | some quoted =>
      rw [spares_map_iff, timeJson_spares_iff]
      simp

private theorem encodes_quoteFields {message : Message} {fields : List (Text × Json)}
    (h : quoteFields lib message = .ok fields) : encodesEntries fields = true ↔
      ∀ quoted, message.quoted = some quoted →
        (Text.encode quoted.name).isSome ∧ (Text.encode quoted.text).isSome := by
  unfold quoteFields at h
  cases hquoted : message.quoted with
  | none =>
      rw [hquoted] at h
      obtain rfl := Except.ok.inj h
      exact iff_of_true encodesEntries_nil nofun
  | some quoted =>
      rw [hquoted] at h
      obtain ⟨t, ht, rfl⟩ := map_eq_ok.mp h
      have hkeys : ∀ key ∈ [text "quotedMessageMetadata", text "name", text "lastUpdateTime",
          text "quotedMessageSnapshot", text "text"], (Text.encode key).isSome := by
        decide +kernel
      simp only [List.forall_mem_cons] at hkeys
      simp [hkeys, encodes_timeJson lib ht]

private theorem encodes_attachmentFields (message : Message) :
    encodesEntries (attachmentFields message) = true ↔ ∀ a ∈ message.attachments,
      (Text.encode a.contentName).isSome ∧ (Text.encode a.contentType).isSome := by
  have hkeys : ∀ key ∈ [text "attachment", text "contentName", text "contentType"],
      (Text.encode key).isSome := by
    decide +kernel
  simp only [List.forall_mem_cons] at hkeys
  unfold attachmentFields
  split
  · rename_i hnil
    rw [hnil]
    exact iff_of_true encodesEntries_nil (List.forall_mem_nil _)
  · simp [hkeys, encodes_list, attachmentJson]

/-- A message is answered exactly if its texts can be written. -/
theorem messageJson_answers_iff (message : Message) :
    Answers (messageJson lib message) ↔ Writable lib message := by
  have hkeys : ∀ key ∈ [text "name", text "sender", text "type", text "thread", text "text",
      text "createTime"], (Text.encode key).isSome := by
    decide +kernel
  simp only [List.forall_mem_cons] at hkeys
  unfold messageJson
  rw [answers_bind_iff, timeJson_spares_iff]
  constructor
  · rintro ⟨hcreated, h⟩
    obtain ⟨s, hs⟩ := Option.isSome_iff_exists.mp hcreated
    obtain ⟨hupdated, h⟩ := answers_bind_iff.mp (h (.str s) (by rw [timeJson, hs]))
    obtain ⟨updated, hupdate⟩ : ∃ fields, updateFields lib message = .ok fields := by
      unfold updateFields at hupdated ⊢
      split
      · exact ⟨[], rfl⟩
      · rename_i hne
        rw [if_neg hne] at hupdated
        exact exists_timeFields lib hupdated
    obtain ⟨hquoted, h⟩ := answers_bind_iff.mp (h updated hupdate)
    obtain ⟨fields, hfields⟩ : ∃ fields, quoteFields lib message = .ok fields := by
      unfold quoteFields at hquoted ⊢
      cases hq : message.quoted with
      | none => exact ⟨[], rfl⟩
      | some quoted =>
          rw [hq] at hquoted
          exact exists_timeFields lib hquoted
    have hbody := answers_ok.mp (h fields hfields)
    simp only [encodes_dict, encodesEntries_append, encodesEntries_cons, encodesEntries_nil,
      encodes_str, hkeys, Bool.and_eq_true, encodes_attachmentFields,
      encodes_quoteFields lib hfields, true_and, and_true] at hbody
    obtain ⟨⟨⟨⟨hname, ⟨hsender, htype⟩, hthread, htext, -⟩, -⟩, hattached⟩, hquote⟩ := hbody
    have hquotable := (quoteFields_spares_iff lib message).mp hquoted
    refine ⟨?_, hcreated, (updateFields_spares_iff lib message).mp hupdated, hattached,
      fun quoted hq => ⟨hquotable quoted hq, hquote quoted hq⟩⟩
    simp only [List.forall_mem_cons]
    exact ⟨hname, hsender, htype, hthread, htext, List.forall_mem_nil _⟩
  · rintro ⟨htexts, hcreated, hupdated, hattached, hquoted⟩
    refine ⟨hcreated, fun createTime hcreate => answers_bind_iff.mpr
      ⟨(updateFields_spares_iff lib message).mpr hupdated, fun updated hupdate =>
        answers_bind_iff.mpr ⟨(quoteFields_spares_iff lib message).mpr
          fun quoted hq => (hquoted quoted hq).1, fun fields hfields => answers_ok.mpr ?_⟩⟩⟩
    have hquote := (encodes_quoteFields lib hfields).mpr fun quoted hq => (hquoted quoted hq).2
    have hattachments := (encodes_attachmentFields message).mpr hattached
    simp only [List.forall_mem_cons] at htexts
    simp [encodesEntries_append, hkeys, htexts, encodes_timeJson lib hcreate,
      encodes_updateFields lib hupdate, hquote, hattachments]

end Rendering

/-! ### The driver -/

section Driving

variable (lib : Library) {S : MockChatDriver}

/-- The driver harms nobody exactly if each of its errors is typed and can be written. -/
theorem drive_spares_iff {α : Type} (result : Except DriverError α) :
    Spares Raised.harms (drive result) ↔
      ∀ e, result = .error e → e.typed = true ∧ e.writes = true := by
  unfold drive
  cases result with
  | ok a => exact iff_of_true (spares_ok a) nofun
  | error e =>
      simp only [Except.error.injEq, forall_eq']
      cases e with
      | rejects message =>
          dsimp only
          rw [invalid, spares_error_iff]
          cases hmessage : (Text.encode message).isSome <;>
            simp [Raised.harms, DriverError.typed, DriverError.writes, hmessage]
      | threadNotFound message =>
          have hfront : (Text.encode (text "thread not found: ")).isSome := Text.encode_text _
          dsimp only
          rw [spares_notFound, Text.encode_append_isSome, and_iff_right hfront]
          simp [DriverError.typed, DriverError.writes]
      | other =>
          rw [spares_error_iff]
          simp [Raised.harms, DriverError.typed]

/-- What the driver returns is what the route goes on with. -/
theorem drive_eq_ok {α : Type} {result : Except DriverError α} {a : α} :
    drive result = .ok a ↔ result = .ok a := by
  cases result with
  | ok b => exact ⟨fun h => congrArg _ (Except.ok.inj h), fun h => congrArg _ (Except.ok.inj h)⟩
  | error e => cases e <;> exact ⟨nofun, nofun⟩

/-- The token is false, or a value that `int` takes or refuses with a `ValueError`. -/
def TokenTyped : Json → Prop
  | .list xs => xs = []
  | .dict entries => entries = []
  | .float .inf | .float .negInf => False
  | _ => True

private theorem tokenTyped_iff (token : Json) :
    TokenTyped token ↔ (token.truthy = true → token.asInt ≠ .error .other) := by
  cases token with
  | null => exact iff_of_true trivial nofun
  | bool b => exact iff_of_true trivial fun _ => nofun
  | int n => exact iff_of_true trivial fun _ => nofun
  | str s =>
      refine iff_of_true trivial fun _ h => ?_
      unfold Json.asInt at h
      cases htoken : (Json.str s).toInt <;> rw [htoken] at h <;> cases h
  | list xs => cases xs <;> simp [TokenTyped, Json.truthy, Json.asInt, Json.toInt]
  | dict entries => cases entries <;> simp [TokenTyped, Json.truthy, Json.asInt, Json.toInt]
  | float x =>
      cases x with
      | finite q => exact iff_of_true trivial fun _ => nofun
      | nan => exact iff_of_true trivial fun _ => nofun
      | inf => exact iff_of_false id fun h => h rfl rfl
      | negInf => exact iff_of_false id fun h => h rfl rfl

private theorem pageOffset_error_iff (repr : Repr) (token : Json) :
    (∀ e, pageOffset repr token = .error e → e.typed = true ∧ e.writes = true) ↔
      TokenTyped token := by
  have hinvalid : (DriverError.rejects (text "invalid pageToken " ++ repr token)).writes = true :=
    Text.encode_append_isSome.mpr ⟨Text.encode_text _, repr.encodes _⟩
  rw [tokenTyped_iff]
  unfold pageOffset
  by_cases htruthy : token.truthy = true
  · rw [if_pos htruthy]
    simp only [htruthy, forall_const]
    cases htoken : token.asInt with
    | ok n =>
        dsimp only
        split
        · refine iff_of_true ?_ nofun
          rintro e he
          obtain rfl := Except.error.inj he
          exact ⟨rfl, hinvalid⟩
        · exact iff_of_true nofun nofun
    | error e =>
        cases e with
        | value =>
            refine iff_of_true ?_ nofun
            rintro e he
            obtain rfl := Except.error.inj he
            exact ⟨rfl, hinvalid⟩
        | other =>
            refine iff_of_false (fun h => ?_) fun h => h rfl
            cases (h .other rfl).1
  · rw [if_neg htruthy]
    exact iff_of_true nofun fun h => absurd h htruthy

/-- The refusal of a token is typed exactly if the token is. -/
theorem paginate_error_iff {α : Type} (repr : Repr) (rows : List α) (page : Page) :
    (∀ e, paginate repr rows page = .error e → e.typed = true ∧ e.writes = true) ↔
      TokenTyped page.token := by
  simp only [paginate, map_eq_error, pageOffset_error_iff]

/-- The page has the token of the request. -/
theorem parsePage_token {pageSize : Option ℤ} {pageToken : Json} {page : Page}
    (h : parsePage pageSize pageToken = .ok page) :
    TokenTyped page.token ↔ TokenTyped pageToken := by
  unfold parsePage at h
  dsimp only at h
  split at h
  · cases h
  · obtain rfl := Except.ok.inj h
    dsimp only
    split
    · exact Iff.rfl
    · rename_i hfalse
      exact iff_of_true trivial ((tokenTyped_iff _).mpr fun h => absurd h hfalse)

/-- The token of the next page can be written. -/
theorem paginate_token {α : Type} {repr : Repr} {rows : List α} {page : Page}
    {result : List α × Text} (h : paginate repr rows page = .ok result) :
    (Text.encode result.2).isSome := by
  obtain ⟨offset, -, rfl⟩ := map_eq_ok.mp h
  have hnext (p : Prop) [Decidable p] (n : ℕ) :
      (Text.encode (if p then numeral n else [])).isSome := by
    split
    · exact numeral_encodes n
    · rfl
  exact hnext _ _

/-- A named thread, or else a key, can be looked up, and the name of a thread that has to exist can
be written. -/
def ThreadTyped (S : MockChatDriver) (req : MessageCreate) : Prop :=
  req.reply ≠ .new →
    (req.thread.truthy = true → req.thread.hashable = true ∧
      (req.reply = .orFail → ∀ s, req.thread = .str s → s ∉ S.threads →
        (Text.encode s).isSome)) ∧
    (req.thread.truthy = false → req.threadKey.truthy = true → req.threadKey.hashable = true)

private theorem resolveThread_error_iff (repr : Repr) (space : Text) (req : MessageCreate) :
    (∀ e, (S.resolveThread repr space req).2 = .error e → e.typed = true ∧ e.writes = true) ↔
      ThreadTyped S req := by
  unfold MockChatDriver.resolveThread ThreadTyped
  by_cases hnew : req.reply = .new ∨ ¬ (req.thread.truthy = true ∨ req.threadKey.truthy = true)
  · rw [if_pos hnew]
    refine iff_of_true (fun _ he => by cases he) fun hreply => ?_
    have hnone := not_or.mp (hnew.resolve_left hreply)
    exact ⟨fun h => absurd h hnone.1, fun _ h => absurd h hnone.2⟩
  rw [if_neg hnew]
  have hreply : req.reply ≠ .new := fun h => hnew (.inl h)
  rw [forall_prop_of_true hreply]
  by_cases hthread : req.thread.truthy = true
  · rw [if_pos hthread]
    refine Iff.trans ?_ (and_iff_left fun h => by rw [hthread] at h; cases h).symm
    rw [forall_prop_of_true hthread]
    by_cases hhash : req.thread.hashable = true
    · rw [if_pos hhash, and_iff_right hhash]
      cases hknown : S.knownThread req.thread with
      | some thread =>
          refine iff_of_true (fun _ he => by cases he) fun _ s hs hnot => ?_
          rw [hs, MockChatDriver.knownThread, if_neg hnot] at hknown
          cases hknown
      | none =>
          dsimp only
          by_cases hfail : req.reply = .orFail
          · rw [if_pos hfail, forall_prop_of_true hfail]
            simp only [Except.error.injEq, forall_eq', DriverError.typed, DriverError.writes,
              true_and]
            cases hvalue : req.thread with
            | str s =>
                have hnot : s ∉ S.threads := fun hmem => by
                  rw [hvalue, MockChatDriver.knownThread, if_pos hmem] at hknown
                  cases hknown
                exact ⟨fun h s' hs _ => Json.str.inj hs ▸ h, fun h => h s rfl hnot⟩
            | _ => exact iff_of_true (repr.encodes _) fun _ hs => by cases hs
          · rw [if_neg hfail]
            exact iff_of_true (fun _ he => by cases he) fun h => absurd h hfail
    · rw [if_neg hhash]
      exact iff_of_false (fun h => absurd (h .other rfl).1 Bool.false_ne_true) fun h => hhash h.1
  · rw [if_neg hthread]
    have hfalse : req.thread.truthy = false := by simpa using hthread
    have hkey : req.threadKey.truthy = true := by
      by_contra hkey
      exact hnew (.inr fun h => h.elim hthread hkey)
    refine Iff.trans ?_ (and_iff_right fun h => absurd h hthread).symm
    rw [forall_prop_of_true hfalse, forall_prop_of_true hkey]
    by_cases hhash : req.threadKey.hashable = true
    · rw [if_pos hhash]
      refine iff_of_true ?_ hhash
      cases S.boundThread space req.threadKey with
      | some thread => exact fun _ he => by cases he
      | none =>
          dsimp only
          split
          · rintro e he
            obtain rfl := Except.error.inj he
            exact ⟨rfl, Text.encode_append_isSome.mpr ⟨Text.encode_text _, repr.encodes _⟩⟩
          · exact fun _ he => by cases he
    · rw [if_neg hhash]
      exact iff_of_false (fun h => absurd (h .other rfl).1 Bool.false_ne_true) hhash

/-- The names that a message to create refers to can be looked up, up to the first one that leads
nowhere. -/
def RefsTyped (repr : Repr) (S : MockChatDriver) (space : Text) (req : MessageCreate) : Prop :=
  ∀ thread, (S.resolveThread repr space req).2 = .ok thread → ¬ S.Dangles req false thread

/-- Resolving the thread does not change what a message may refer to. -/
theorem resolveRefs_resolved (repr : Repr) (space : Text) (req : MessageCreate) (thread : Text) :
    (S.resolveThread repr space req).1.resolveRefs repr req thread =
      S.resolveRefs repr req thread := by
  rcases MockChatDriver.resolveThread_cases (S := S) repr with
    ⟨-, result, hresolve⟩ | ⟨-, hresolve⟩
  · rw [hresolve]
  · rw [hresolve]
    rfl

/-- A message is refused in type exactly if its thread and the names it refers to can be looked up.
-/
theorem createMessage_error_iff (repr : Repr) (space : Text) (req : MessageCreate) (now : ℚ) :
    (∀ e, (S.createMessage repr space req now).2 = .error e → e.typed = true ∧ e.writes = true) ↔
      ThreadTyped S req ∧ RefsTyped repr S space req := by
  rw [← resolveThread_error_iff repr space req]
  have hrefs := resolveRefs_resolved (S := S) repr space req
  unfold RefsTyped MockChatDriver.createMessage
  generalize S.resolveThread repr space req = resolved at hrefs ⊢
  obtain ⟨T, e | thread⟩ := resolved
  · dsimp only
    simp only [Except.error.injEq, forall_eq', reduceCtorEq, false_imp_iff, implies_true, and_true]
  · dsimp only at hrefs ⊢
    rw [hrefs, and_iff_right nofun]
    simp only [Except.ok.injEq, forall_eq']
    rw [← MockChatDriver.resolveRefs_error_iff repr]
    cases hresult : S.resolveRefs repr req thread with
    | ok refs => exact iff_of_true nofun (by rintro ⟨e, he, -⟩; cases he)
    | error e =>
        simp only [Except.error.injEq, exists_eq_left', forall_eq',
          MockChatDriver.resolveRefs_writes repr hresult, and_true, Bool.not_eq_false]

end Driving

end Jetty.Chat
