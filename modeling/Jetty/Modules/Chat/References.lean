import Jetty.Core.Failure
import Jetty.Modules.Chat.Driver

/-!
# What a message refers to

A quote and attachments name messages and uploads. The first name that leads nowhere ends
`create_message`: with `DriverRejects` if it can be looked up, with a `TypeError` if it cannot.
-/

namespace Jetty.Chat

open Python Failure

/-- The text of the error has an encoding. -/
def DriverError.writes : DriverError → Bool
  | .rejects message | .threadNotFound message => (Text.encode message).isSome
  | .other => true

private theorem rejects_text_writes (s : String) : (DriverError.rejects (text s)).writes = true :=
  Text.encode_text s

namespace MockChatDriver

variable (S : MockChatDriver) (repr : Repr) (req : MessageCreate)

/-- When a message was last written. -/
def latest (message : Message) : ℚ :=
  if message.updateTime = 0 then message.createTime else message.updateTime

/-- The quote names a message, has the date of its latest version, and the message is of the given
thread or the root of its own. -/
def Quotable (thread : Text) (quote : QuoteRequest) : Prop :=
  ∃ name message, quote.name = .str name ∧ S.messages.get? name = some message ∧
    |latest message - quote.lastUpdateTime| ≤ 1 / 1000000 ∧
    (message.thread = thread ∨ S.threadRoots.get? message.thread = some message.name)

/-- The value names an upload. -/
def Uploaded (ref : Json) : Prop := ∃ name, ref = .str name ∧ name ∈ S.uploads.keys

/-- The quote cannot be made, or else one of the attachments names no upload; the first value that
fails is or is not one that may be looked up. -/
def Dangles (hashable : Bool) (thread : Text) : Prop :=
  (∃ quote, req.quote = some quote ∧ quote.name.hashable = hashable ∧
      ¬ S.Quotable thread quote) ∨
    (∀ quote, req.quote = some quote → S.Quotable thread quote) ∧
      ∃ front ref back, req.attachments = front ++ ref :: back ∧ (∀ r ∈ front, S.Uploaded r) ∧
        ref.hashable = hashable ∧ ¬ S.Uploaded ref

variable {S req}

/-- A value is looked up, or the lookup raises. -/
theorem fetch_cases {ν : Type*} (d : Dict Text ν) (v : Json) :
    (∃ name, v = .str name ∧ fetch d v = .ok (d.get? name)) ∨
      (∀ name, v ≠ .str name) ∧ v.hashable = true ∧ fetch d v = .ok none ∨
      v.hashable = false ∧ fetch d v = .error .other := by
  cases v with
  | str name => exact .inl ⟨name, rfl, rfl⟩
  | list xs => exact .inr (.inr ⟨rfl, rfl⟩)
  | dict entries => exact .inr (.inr ⟨rfl, rfl⟩)
  | null => exact .inr (.inl ⟨nofun, rfl, rfl⟩)
  | bool b => exact .inr (.inl ⟨nofun, rfl, rfl⟩)
  | int n => exact .inr (.inl ⟨nofun, rfl, rfl⟩)
  | float x => exact .inr (.inl ⟨nofun, rfl, rfl⟩)

/-- A quote is made, or ends in an error. -/
theorem resolveQuote_cases (quote : QuoteRequest) (thread : Text) :
    (S.Quotable thread quote ∧ ∃ quoted, S.resolveQuote repr quote thread = .ok quoted) ∨
      ¬ S.Quotable thread quote ∧ ∃ e, S.resolveQuote repr quote thread = .error e ∧
        e.typed = quote.name.hashable ∧ e.writes = true := by
  unfold resolveQuote
  rcases fetch_cases S.messages quote.name with ⟨name, hname, hfetch⟩ | ⟨hname, hhash, hfetch⟩ |
    ⟨hhash, hfetch⟩
  · have hhash : quote.name.hashable = true := by
      rw [hname]
      rfl
    rw [hfetch, hhash]
    cases hmessage : S.messages.get? name with
    | none =>
        refine .inr ⟨?_, _, rfl, rfl, ?_⟩
        · rintro ⟨name', message, hname', hmessage', -⟩
          obtain rfl : name' = name := Json.str.inj (hname'.symm.trans hname)
          rw [hmessage] at hmessage'
          cases hmessage'
        · exact Text.encode_append_isSome.mpr ⟨Text.encode_text _, repr.encodes _⟩
    | some message =>
        have hquotable : S.Quotable thread quote ↔
            |latest message - quote.lastUpdateTime| ≤ 1 / 1000000 ∧
              (message.thread = thread ∨
                S.threadRoots.get? message.thread = some message.name) := by
          constructor
          · rintro ⟨name', message', hname', hmessage', h⟩
            obtain rfl : name' = name := Json.str.inj (hname'.symm.trans hname)
            rw [hmessage] at hmessage'
            cases hmessage'
            exact h
          · exact fun h => ⟨name, message, hname, hmessage, h⟩
        by_cases hdate : 1 / 1000000 < |latest message - quote.lastUpdateTime|
        · exact .inr ⟨fun h => absurd (hquotable.mp h).1 (not_le.mpr hdate), _, if_pos hdate, rfl,
            rejects_text_writes _⟩
        · by_cases hthread : message.thread = thread ∨
            S.threadRoots.get? message.thread = some message.name
          · refine .inl ⟨hquotable.mpr ⟨not_lt.mp hdate, hthread⟩, _,
              (if_neg hdate).trans (if_neg ?_)⟩
            exact fun h => hthread.elim h.1 h.2
          · exact .inr ⟨fun h => hthread (hquotable.mp h).2, _,
              (if_neg hdate).trans (if_pos (not_or.mp hthread)), rfl, rejects_text_writes _⟩
  · rw [hfetch, hhash]
    refine .inr ⟨?_, _, rfl, rfl, Text.encode_append_isSome.mpr ⟨Text.encode_text _,
      repr.encodes _⟩⟩
    rintro ⟨name, -, h, -⟩
    exact hname name h
  · rw [hfetch, hhash]
    refine .inr ⟨?_, _, rfl, rfl, rfl⟩
    rintro ⟨name, -, h, -⟩
    rw [h] at hhash
    cases hhash

/-- An attachment is found, or ends in an error. -/
theorem resolveAttachment_cases (ref : Json) :
    (S.Uploaded ref ∧ ∃ attachment, S.resolveAttachment repr ref = .ok attachment) ∨
      ¬ S.Uploaded ref ∧ ∃ e, S.resolveAttachment repr ref = .error e ∧
        e.typed = ref.hashable ∧ e.writes = true := by
  unfold resolveAttachment
  rcases fetch_cases S.uploads ref with ⟨name, rfl, hfetch⟩ | ⟨hname, hhash, hfetch⟩ |
    ⟨hhash, hfetch⟩
  · rw [hfetch]
    cases hupload : S.uploads.get? name with
    | none =>
        refine .inr ⟨?_, _, rfl, rfl, Text.encode_append_isSome.mpr ⟨Text.encode_text _,
          repr.encodes _⟩⟩
        rintro ⟨name', hname', h⟩
        obtain rfl := Json.str.inj hname'
        exact Dict.get?_eq_none.mp hupload h
    | some upload => exact .inl ⟨⟨name, rfl, Dict.mem_keys.mpr ⟨_, hupload⟩⟩, _, rfl⟩
  · rw [hfetch, hhash]
    refine .inr ⟨?_, _, rfl, rfl, Text.encode_append_isSome.mpr ⟨Text.encode_text _,
      repr.encodes _⟩⟩
    rintro ⟨name, h, -⟩
    exact hname name h
  · rw [hfetch, hhash]
    refine .inr ⟨?_, _, rfl, rfl, rfl⟩
    rintro ⟨name, rfl, -⟩
    cases hhash

/-- What is quoted is the latest version of a message. -/
theorem resolveQuote_eq_ok {quote : QuoteRequest} {thread : Text} {quoted : Quote}
    (h : S.resolveQuote repr quote thread = .ok quoted) :
    ∃ name message, quote.name = .str name ∧ S.messages.get? name = some message ∧
      quoted = ⟨message.name, latest message, message.text⟩ := by
  unfold resolveQuote at h
  rcases fetch_cases S.messages quote.name with ⟨name, hname, hfetch⟩ | ⟨-, -, hfetch⟩ |
    ⟨-, hfetch⟩
  · rw [hfetch] at h
    cases hmessage : S.messages.get? name with
    | none =>
        rw [hmessage] at h
        cases h
    | some message =>
        have hlatest : (if message.updateTime = 0 then message.createTime
            else message.updateTime) = latest message := rfl
        rw [hmessage] at h
        simp only [bind, Except.bind, hlatest] at h
        split at h
        · cases h
        · split at h
          · cases h
          · obtain rfl := Except.ok.inj h
            exact ⟨name, message, hname, hmessage, rfl⟩
  · rw [hfetch] at h
    cases h
  · rw [hfetch] at h
    cases h

/-- What is attached is an upload. -/
theorem resolveAttachment_eq_ok {ref : Json} {attachment : Attachment} :
    S.resolveAttachment repr ref = .ok attachment ↔ ∃ name upload, ref = .str name ∧
      S.uploads.get? name = some upload ∧ attachment = ⟨upload.filename, upload.contentType⟩ := by
  unfold resolveAttachment
  constructor
  · intro h
    rcases fetch_cases S.uploads ref with ⟨name, rfl, hfetch⟩ | ⟨-, -, hfetch⟩ | ⟨-, hfetch⟩
    · rw [hfetch] at h
      cases hupload : S.uploads.get? name with
      | none =>
          rw [hupload] at h
          cases h
      | some upload =>
          rw [hupload] at h
          exact ⟨name, upload, rfl, hupload, (Except.ok.inj h).symm⟩
    · rw [hfetch] at h
      cases h
    · rw [hfetch] at h
      cases h
  · rintro ⟨name, upload, rfl, hupload, rfl⟩
    rw [fetch, hupload]
    rfl

private theorem resolveAttachment_ok {ref : Json} :
    (∃ attachment, S.resolveAttachment repr ref = .ok attachment) ↔ S.Uploaded ref := by
  rcases resolveAttachment_cases (S := S) repr ref with ⟨hup, hok⟩ | ⟨hnot, e, he, -⟩
  · exact iff_of_true hok hup
  · refine iff_of_false ?_ hnot
    rintro ⟨attachment, h⟩
    rw [he] at h
    cases h

/-- The error of the quote, or else of the first attachment that fails. -/
theorem resolveRefs_eq_error {thread : Text} {e : DriverError} :
    S.resolveRefs repr req thread = .error e ↔
      (∃ quote, req.quote = some quote ∧ S.resolveQuote repr quote thread = .error e) ∨
        (∀ quote, req.quote = some quote →
          ∃ quoted, S.resolveQuote repr quote thread = .ok quoted) ∧
        req.attachments.mapM (S.resolveAttachment repr) = .error e := by
  have hmade (quoted : Option Quote)
      (h : req.quote.mapM (fun quote => S.resolveQuote repr quote thread) = .ok quoted) :
      S.resolveRefs repr req thread = .error e ↔
        req.attachments.mapM (S.resolveAttachment repr) = .error e := by
    rw [resolveRefs, h]
    cases req.attachments.mapM (S.resolveAttachment repr) with
    | error d =>
        exact ⟨fun h => congrArg _ (Except.error.inj h), fun h => congrArg _ (Except.error.inj h)⟩
    | ok attachments => exact ⟨nofun, nofun⟩
  cases hquote : req.quote with
  | none =>
      rw [hmade none (by rw [hquote]; rfl)]
      simp
  | some quote =>
      simp only [Option.some.injEq, exists_eq_left', forall_eq']
      cases hresolve : S.resolveQuote repr quote thread with
      | ok quoted =>
          rw [hmade (some quoted) (by rw [hquote]; simp [hresolve])]
          simp
      | error d =>
          have hfailed : S.resolveRefs repr req thread = .error d := by
            have hmap : req.quote.mapM (fun quote => S.resolveQuote repr quote thread) =
                .error d := by
              rw [hquote]
              simp [hresolve]
            rw [resolveRefs, hmap]
            rfl
          rw [hfailed]
          simp

/-- The quote and the attachments are found one after the other. -/
theorem resolveRefs_eq_ok {thread : Text} {quoted : Option Quote} {attachments : List Attachment} :
    S.resolveRefs repr req thread = .ok (quoted, attachments) ↔
      req.quote.mapM (fun quote => S.resolveQuote repr quote thread) = .ok quoted ∧
        req.attachments.mapM (S.resolveAttachment repr) = .ok attachments := by
  unfold resolveRefs
  rw [bind_eq_ok]
  constructor
  · rintro ⟨quoted', hquoted, h⟩
    obtain ⟨attachments', hattachments, h⟩ := bind_eq_ok.mp h
    obtain ⟨rfl, rfl⟩ := Prod.mk.inj (Except.ok.inj h)
    exact ⟨hquoted, hattachments⟩
  · rintro ⟨hquoted, hattachments⟩
    exact ⟨quoted, hquoted, bind_eq_ok.mpr ⟨attachments, hattachments, rfl⟩⟩

/-- They are all found exactly if the quote can be made and the uploads are there. -/
theorem resolveRefs_isOk_iff {thread : Text} :
    (∃ refs, S.resolveRefs repr req thread = .ok refs) ↔
      (∀ quote, req.quote = some quote → S.Quotable thread quote) ∧
        ∀ ref ∈ req.attachments, S.Uploaded ref := by
  constructor
  · rintro ⟨⟨quoted, attachments⟩, h⟩
    obtain ⟨hquoted, hattachments⟩ := (resolveRefs_eq_ok repr).mp h
    refine ⟨fun quote hquote => ?_, fun ref href => ?_⟩
    · rcases resolveQuote_cases (S := S) repr quote thread with ⟨hgood, -⟩ | ⟨-, e, he, -⟩
      · exact hgood
      · rw [hquote, Option.mapM_some, he] at hquoted
        cases hquoted
    · obtain ⟨attachment, -, hattachment⟩ := (mem_of_mapM hattachments).1 ref href
      exact (resolveAttachment_ok repr).mp ⟨attachment, hattachment⟩
  · rintro ⟨hquotes, hrefs⟩
    cases hresolve : S.resolveRefs repr req thread with
    | ok refs => exact ⟨refs, rfl⟩
    | error e =>
        rcases (resolveRefs_eq_error repr).mp hresolve with ⟨quote, hquote, he⟩ | ⟨-, he⟩
        · rcases resolveQuote_cases (S := S) repr quote thread with ⟨-, quoted, hok⟩ | ⟨hbad, -⟩
          · cases hok.symm.trans he
          · exact absurd (hquotes quote hquote) hbad
        · obtain ⟨front, ref, back, hall, -, he⟩ := mapM_eq_error.mp he
          obtain ⟨attachment, hok⟩ := (resolveAttachment_ok repr).mpr (hrefs ref (by simp [hall]))
          cases hok.symm.trans he

/-- The quote or an attachment dangles exactly if it ends in an error. -/
theorem resolveRefs_error_iff (hashable : Bool) (thread : Text) :
    (∃ e, S.resolveRefs repr req thread = .error e ∧ e.typed = hashable) ↔
      S.Dangles req hashable thread := by
  have hquotable (quote : QuoteRequest) : S.Quotable thread quote ↔
      ∃ quoted, S.resolveQuote repr quote thread = .ok quoted := by
    rcases resolveQuote_cases (S := S) repr quote thread with ⟨hgood, hok⟩ | ⟨hbad, e, he, -⟩
    · exact iff_of_true hgood hok
    · refine iff_of_false hbad ?_
      rintro ⟨quoted, h⟩
      rw [he] at h
      cases h
  simp only [resolveRefs_eq_error, mapM_eq_error, resolveAttachment_ok]
  unfold Dangles
  simp only [← hquotable]
  constructor
  · rintro ⟨e, ⟨quote, hquote, he⟩ | ⟨hquotes, front, ref, back, hrefs, hfront, he⟩, htyped⟩
    · rcases resolveQuote_cases (S := S) repr quote thread with ⟨-, quoted, hok⟩ |
        ⟨hbad, d, hd, hhash, -⟩
      · rw [hok] at he
        cases he
      · obtain rfl := Except.error.inj (hd.symm.trans he)
        exact .inl ⟨quote, hquote, hhash.symm.trans htyped, hbad⟩
    · rcases resolveAttachment_cases (S := S) repr ref with ⟨-, attachment, hok⟩ |
        ⟨hbad, d, hd, hhash, -⟩
      · rw [hok] at he
        cases he
      · obtain rfl := Except.error.inj (hd.symm.trans he)
        exact .inr ⟨hquotes, front, ref, back, hrefs, hfront, hhash.symm.trans htyped, hbad⟩
  · rintro (⟨quote, hquote, hhash, hbad⟩ | ⟨hquotes, front, ref, back, hrefs, hfront, hhash, hbad⟩)
    · rcases resolveQuote_cases (S := S) repr quote thread with ⟨hgood, -⟩ | ⟨-, d, hd, htyped, -⟩
      · exact absurd hgood hbad
      · exact ⟨d, .inl ⟨quote, hquote, hd⟩, htyped.trans hhash⟩
    · rcases resolveAttachment_cases (S := S) repr ref with ⟨hgood, -⟩ | ⟨-, d, hd, htyped, -⟩
      · exact absurd hgood hbad
      · exact ⟨d, .inr ⟨hquotes, front, ref, back, hrefs, hfront, hd⟩, htyped.trans hhash⟩

/-- Every error can be written. -/
theorem resolveRefs_writes {thread : Text} {e : DriverError}
    (h : S.resolveRefs repr req thread = .error e) : e.writes = true := by
  rw [resolveRefs_eq_error, mapM_eq_error] at h
  rcases h with ⟨quote, -, he⟩ | ⟨-, front, ref, back, -, -, he⟩
  · rcases resolveQuote_cases (S := S) repr quote thread with ⟨-, quoted, hok⟩ |
      ⟨-, d, hd, -, hwrites⟩
    · rw [hok] at he
      cases he
    · obtain rfl := Except.error.inj (hd.symm.trans he)
      exact hwrites
  · rcases resolveAttachment_cases (S := S) repr ref with ⟨-, attachment, hok⟩ |
      ⟨-, d, hd, -, hwrites⟩
    · rw [hok] at he
      cases he
    · obtain rfl := Except.error.inj (hd.symm.trans he)
      exact hwrites

end MockChatDriver

end Jetty.Chat
