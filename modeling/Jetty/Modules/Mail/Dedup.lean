import Jetty.Core.Transition
import Jetty.Modules.Mail.Spool

/-!
# A key is delivered once

Runs of requests and restarts over one spool directory. The keys that were accepted are those in
memory and those of the rows in the directory, so that a restart finds them again. What comes
before the look at the keys, the sender and the recipients, still refuses a repetition.
-/

namespace Jetty.Mail

open Python

variable (digest : List ℕ → Text) (repr : Text → Text)

/-- What happens over one spool directory. -/
inductive Event
  | request (req : Request) (disk : Disk) (now : Text) (answer : Answer)
  | restart (settings : Settings) (listing : Spool)

/-- The process answers a request, or is started again and lists the directory in any order. -/
def Serves : Transition.Rel World Event := fun w e w' =>
  match e with
  | .request req disk now answer => handle digest repr w req disk now = (w', answer)
  | .restart settings listing => listing.Perm w.files ∧
      ∃ seen, recover listing = .ok seen ∧ w' = ⟨settings, seen, w.files⟩

/-- The body of the request is this message. -/
def Request.Sends (req : Request) (msg : MailSend) : Prop :=
  ∃ body, req.body = some body ∧ parseSend repr body = .ok msg

/-- A send with the key was accepted, with this id. -/
def Accepted (es : List Event) (key : Text) (m : Json) : Prop :=
  ∃ req disk now deduped msg, Event.request req disk now (.accepted m deduped) ∈ es ∧
    req.Sends repr msg ∧ msg.dryRun = false ∧ msg.idempotencyKey = key

/-- The hash separates the keys. -/
def Separates (K : Set Text) : Prop :=
  ∀ k ∈ K, ∀ k' ∈ K, ∀ bytes bytes', Text.encode k = some bytes → Text.encode k' = some bytes' →
    digest bytes = digest bytes' → k = k'

/-- What a file adds to the keys. -/
def rowEntry (file : Text × Content) : Option (Json × Json) :=
  if isRowName file.1 then
    match file.2 with
    | .json (.dict row) =>
      match Json.get? row (text "messageId"), Json.get? row (text "idempotencyKey") with
      | some messageId, some key => some (key, messageId)
      | _, _ => none
    | _ => none
  else none

/-- Every row is of a key in memory: none is left of a send that raised with all of it written. -/
def World.Confirmed (w : World) : Prop := ∀ file ∈ w.files, ∀ entry ∈ rowEntry file, entry ∈ w.seen

/-- The keys are among those, no failure is forced, and a restart finds no row of a send that
raised. -/
def Regular (K : Set Text) : World → Event → Prop
  | _, .request req _ _ _ => ∀ msg, req.Sends repr msg → msg.idempotencyKey ∈ K
  | w, .restart settings _ => settings.fail = [] ∧ w.Confirmed

section Rows

private theorem recoverFile_of_ok {seen seen' : Seen} {name : Text} {content : Content}
    (h : recoverFile seen name content = .ok seen') :
    seen' = (rowEntry (name, content)).toList ++ seen := by
  unfold recoverFile at h
  unfold rowEntry
  split at h
  · rename_i hname
    rw [if_pos hname]
    split at h
    · cases h; rfl
    · cases h; rfl
    · cases h
    · rename_i row
      cases hid : Json.get? row (text "messageId") with
      | none =>
          simp only [hid] at h ⊢
          cases h
          rfl
      | some messageId =>
          cases hkey : Json.get? row (text "idempotencyKey") with
          | none =>
              simp only [hid, hkey] at h ⊢
              cases h
              rfl
          | some key =>
              simp only [hid, hkey] at h ⊢
              split at h
              · cases h
                rfl
              · cases h
    · cases h
  · rename_i hname
    rw [if_neg hname]
    cases h
    rfl

private theorem recoverFile_of_entry {name : Text} {content : Content} {key m : Json}
    (h : rowEntry (name, content) = some (key, m)) (hkey : hashable key = true) (seen : Seen) :
    recoverFile seen name content = .ok ((key, m) :: seen) := by
  unfold rowEntry at h
  split at h
  · rename_i hname
    have hname : isRowName name = true := hname
    split at h
    · rename_i row hcontent
      obtain rfl : content = .json (.dict row) := hcontent
      split at h
      · rename_i m' key' hm hkey'
        cases h
        simp only [recoverFile, hname, hm, hkey', hkey, if_true]
      · cases h
    · cases h
  · cases h

/-- The keys that are recovered are those of the rows. -/
theorem recoverFrom_of_ok {files : Spool} {seen seen' : Seen}
    (h : recoverFrom seen files = .ok seen') :
    seen' = (files.filterMap rowEntry).reverse ++ seen := by
  induction files generalizing seen with
  | nil =>
      cases h
      rfl
  | cons file files ih =>
      obtain ⟨name, content⟩ := file
      rw [recoverFrom] at h
      cases hfile : recoverFile seen name content with
      | error e =>
          rw [hfile] at h
          cases h
      | ok seen₁ =>
          rw [hfile] at h
          rw [ih h, recoverFile_of_ok hfile]
          cases hentry : rowEntry (name, content) with
          | none => simp [hentry]
          | some entry => simp [hentry]

private theorem mem_recover {files : Spool} {seen : Seen} (h : recover files = .ok seen)
    (entry : Json × Json) : entry ∈ seen ↔ ∃ file ∈ files, rowEntry file = some entry := by
  rw [recoverFrom_of_ok h, List.append_nil, List.mem_reverse, List.mem_filterMap]

/-- The name of a row is one. -/
theorem isRowName_rowName (d : Text) : isRowName (rowName d) = true := by
  rw [isRowName, List.isSuffixOf_iff_suffix]
  exact List.suffix_append d _

private theorem rowName_injective {d d' : Text} (h : rowName d = rowName d') : d = d' :=
  List.append_cancel_right h

private theorem lookup_cons_of_ne {name : String} {key : Text} (hne : text name ≠ key)
    (value : Json)
    (rest : List (Text × Json)) : ((text name, value) :: rest).lookup key = rest.lookup key := by
  have hkey : (key == text name) = false := beq_eq_false_iff_ne.mpr hne.symm
  rw [List.lookup_cons, hkey]

private theorem lookup_optional {name : String} {key : Text} (hne : text name ≠ key) (empty : Bool)
    (value : Json) (rest : List (Text × Json)) :
    (optional name empty value ++ rest).lookup key = rest.lookup key := by
  cases empty with
  | true => rfl
  | false => exact lookup_cons_of_ne hne value rest

/-- The key and the id of a row are those of its message. -/
theorem rowEntry_spoolRow (d : Text) (msg : MailSend) (messageId now : Text) :
    rowEntry (rowName d, .json (spoolRow msg messageId now)) =
      some (.str msg.idempotencyKey, .str messageId) := by
  have hkey : text "idempotencyKey" ≠ text "messageId" := by decide
  rw [rowEntry, if_pos (isRowName_rowName d), spoolRow]
  simp only [Json.get?, List.append_assoc, List.cons_append, List.nil_append, List.lookup_cons_self]
  rw [lookup_cons_of_ne hkey]
  simp (disch := decide) only [lookup_cons_of_ne, lookup_optional, List.lookup_cons_self]

end Rows

section Keys

variable {digest repr}

private theorem Request.Sends.unique {req : Request} {msg msg' : MailSend} (h : req.Sends repr msg)
    (h' : req.Sends repr msg') : msg = msg' := by
  obtain ⟨body, hbody, hparse⟩ := h
  obtain ⟨body', hbody', hparse'⟩ := h'
  rw [hbody] at hbody'
  cases hbody'
  exact Except.ok.inj (hparse.symm.trans hparse')

private theorem Request.sends_of_parse {req : Request} {settings : Settings} {msg : MailSend}
    (h : req.parse repr settings = .ok msg) : req.Sends repr msg := by
  unfold Request.parse at h
  split at h
  · split at h
    · cases h
    · split at h
      · cases h
      · rename_i body hbody
        exact ⟨body, hbody, h⟩
  · cases h

private theorem Accepted.mono {es : List Event} {key : Text} {m : Json} (h : Accepted repr es key m)
    (e : Event) : Accepted repr (es ++ [e]) key m := by
  obtain ⟨req, disk, now, deduped, msg, hmem, hmsg⟩ := h
  exact ⟨req, disk, now, deduped, msg, List.mem_append_left _ hmem, hmsg⟩

private theorem accepted_restart {es : List Event} {key : Text} {m : Json} {settings : Settings}
    {listing : Spool} :
    Accepted repr (es ++ [.restart settings listing]) key m ↔ Accepted repr es key m := by
  refine ⟨?_, fun h => h.mono _⟩
  rintro ⟨req, disk, now, deduped, msg, hmem, hmsg⟩
  rcases List.mem_append.mp hmem with hmem | hmem
  · exact ⟨req, disk, now, deduped, msg, hmem, hmsg⟩
  · cases List.mem_singleton.mp hmem

private theorem accepted_error {es : List Event} {key : Text} {m : Json} {req : Request}
    {disk : Disk} {now : Text} {e : ApiError} :
    Accepted repr (es ++ [.request req disk now (.error e)]) key m ↔ Accepted repr es key m := by
  refine ⟨?_, fun h => h.mono _⟩
  rintro ⟨req', disk', now', deduped, msg, hmem, hmsg⟩
  rcases List.mem_append.mp hmem with hmem | hmem
  · exact ⟨req', disk', now', deduped, msg, hmem, hmsg⟩
  · cases List.mem_singleton.mp hmem

private theorem accepted_request {es : List Event} {key : Text} {m m' : Json} {req : Request}
    {disk : Disk} {now : Text} {deduped : Bool} {msg : MailSend} (hsends : req.Sends repr msg) :
    Accepted repr (es ++ [.request req disk now (.accepted m' deduped)]) key m ↔
      Accepted repr es key m ∨ msg.dryRun = false ∧ msg.idempotencyKey = key ∧ m = m' := by
  constructor
  · rintro ⟨req', disk', now', deduped', msg', hmem, hsends', hdry, hkey⟩
    rcases List.mem_append.mp hmem with hmem | hmem
    · exact .inl ⟨req', disk', now', deduped', msg', hmem, hsends', hdry, hkey⟩
    · cases List.mem_singleton.mp hmem
      obtain rfl := hsends.unique hsends'
      exact .inr ⟨hdry, hkey, rfl⟩
  · rintro (h | ⟨hdry, hkey, rfl⟩)
    · exact h.mono _
    · exact ⟨req, disk, now, deduped, msg, List.mem_append_right _ (List.mem_singleton_self _),
        hsends, hdry, hkey⟩

end Keys

section Invariant

variable {digest repr} {K : Set Text}

variable (digest K) in
/-- The file is the row of a message, under the name that its key gets. -/
def IsRow (file : Text × Content) : Prop :=
  ∃ msg bytes now, file = (rowName (digest bytes),
      .json (spoolRow msg (messageIdOf (digest bytes)) now)) ∧
    Text.encode msg.idempotencyKey = some bytes ∧ msg.idempotencyKey ∈ K

variable (digest repr K)

/-- The accepted keys are those in memory, and have their rows. -/
structure Kept (es : List Event) (w : World) : Prop where
  fail : w.settings.fail = []
  accepted : ∀ key m, Accepted repr es key m → key ∈ K ∧
    ∃ bytes, Text.encode key = some bytes ∧ m = .str (messageIdOf (digest bytes))
  seen : ∀ entry, entry ∈ w.seen ↔ ∃ key m, entry = (.str key, m) ∧ Accepted repr es key m
  files : ∀ file ∈ w.files, IsRow digest K file ∨ file.2 matches .garbage
  rows : ∀ key m, Accepted repr es key m → ∃ file ∈ w.files, rowEntry file = some (.str key, m)

variable {digest repr K} {es : List Event} {w : World}

/-- An event that accepts nothing new keeps the invariant. -/
theorem Kept.congr (h : Kept digest repr K es w) {es' : List Event}
    (hes : ∀ key m, Accepted repr es' key m ↔ Accepted repr es key m) :
    Kept digest repr K es' w where
  fail := h.fail
  accepted key m hacc := h.accepted key m ((hes key m).mp hacc)
  seen entry := by simp only [h.seen, hes]
  files := h.files
  rows key m hacc := h.rows key m ((hes key m).mp hacc)

private theorem rowEntry_garbage {file : Text × Content} (h : file.2 matches .garbage) :
    rowEntry file = none := by
  obtain ⟨name, content⟩ := file
  cases content with
  | garbage => simp [rowEntry]
  | _ => cases h

/-- A key has one id. -/
theorem Kept.accepted_unique (h : Kept digest repr K es w) {key : Text} {m m' : Json}
    (hm : Accepted repr es key m) (hm' : Accepted repr es key m') : m = m' := by
  obtain ⟨-, bytes, henc, rfl⟩ := h.accepted key m hm
  obtain ⟨-, bytes', henc', rfl⟩ := h.accepted key m' hm'
  rw [henc] at henc'
  cases henc'
  rfl

/-- The keys in memory are those that were accepted. -/
theorem Kept.get_eq_some (h : Kept digest repr K es w) (key : Text) (m : Json) :
    w.seen.get key = some m ↔ Accepted repr es key m := by
  have hsound {m' : Json} (hget : w.seen.get key = some m') : Accepted repr es key m' := by
    obtain ⟨entry, hfind, rfl⟩ := Option.map_eq_some_iff.mp hget
    obtain ⟨key', m', rfl, hacc⟩ := (h.seen entry).mp (List.mem_of_find?_eq_some hfind)
    have hkey := List.find?_some hfind
    obtain rfl : key' = key := by simpa using hkey
    exact hacc
  refine ⟨hsound, fun hacc => ?_⟩
  cases hget : w.seen.get key with
  | some m' => rw [h.accepted_unique hacc (hsound hget)]
  | none =>
      rw [Seen.get, Option.map_eq_none_iff, List.find?_eq_none] at hget
      exact absurd (decide_eq_true rfl) (hget (.str key, m) ((h.seen _).mpr ⟨key, m, rfl, hacc⟩))

private theorem Kept.get_ne_null (h : Kept digest repr K es w) (key : Text) :
    w.seen.get key ≠ some .null := by
  intro hget
  obtain ⟨-, bytes, -, hm⟩ := h.accepted key _ ((h.get_eq_some key _).mp hget)
  cases hm

/-- The file of another key keeps the rows. -/
theorem Kept.rows_write (h : Kept digest repr K es w) (hK : Separates digest K) {key : Text}
    {bytes : List ℕ} (hkey : key ∈ K) (henc : Text.encode key = some bytes)
    (hnew : ∀ m, ¬ Accepted repr es key m) (content : Content) {key' : Text} {m : Json}
    (hacc : Accepted repr es key' m) :
    ∃ file ∈ w.files.write (rowName (digest bytes)) content,
      rowEntry file = some (.str key', m) := by
  obtain ⟨file, hfile, hentry⟩ := h.rows key' m hacc
  refine ⟨file, List.mem_cons_of_mem _ (List.mem_filter.mpr ⟨hfile, ?_⟩), hentry⟩
  rw [decide_eq_true_eq]
  intro hname
  rcases h.files file hfile with ⟨msg, bytes', now, rfl, henc', hkey'⟩ | hgarbage
  · have hsame := hK _ hkey' _ hkey _ _ henc' henc (rowName_injective hname)
    rw [rowEntry_spoolRow, hsame] at hentry
    cases hentry
    exact hnew _ hacc
  · rw [rowEntry_garbage hgarbage] at hentry
    cases hentry

variable (digest) in
/-- What a send does as long as no failure is forced. -/
theorem send_cases {msg : MailSend} (hfail : w.settings.fail = [])
    (hnull : w.seen.get msg.idempotencyKey ≠ some .null) (disk : Disk) (now : Text) :
    (¬ (w.settings.Permits msg ∧ w.settings.unroutable msg = []) ∧
      ∃ e, send digest w msg disk now = (w, .error e)) ∨
    (w.settings.Permits msg ∧ w.settings.unroutable msg = []) ∧
      (msg.dryRun = true ∧
          send digest w msg disk now = (w, .ok ⟨.str (text "<dry-run@jetty-mail>"), false⟩) ∨
        msg.dryRun = false ∧
          ((∃ existing, w.seen.get msg.idempotencyKey = some existing ∧
              send digest w msg disk now = (w, .ok ⟨existing, true⟩)) ∨
            w.seen.get msg.idempotencyKey = none ∧
              send digest w msg disk now = spool digest w msg disk now)) := by
  have h503 : w.settings.fail ≠ text "503" := by rw [hfail]; decide
  have h429 : w.settings.fail ≠ text "429" := by rw [hfail]; decide
  have h422 : w.settings.fail ≠ text "422" := by rw [hfail]; decide
  rw [send, if_neg h503, if_neg h429]
  by_cases hpermits : w.settings.Permits msg
  · rw [if_neg (not_not.mpr hpermits)]
    by_cases hroutes : w.settings.unroutable msg = []
    · refine .inr ⟨⟨hpermits, hroutes⟩, ?_⟩
      simp only [h422, hroutes, ne_eq, not_true_eq_false, or_self, if_false]
      cases hdry : msg.dryRun with
      | true => exact .inl ⟨rfl, rfl⟩
      | false =>
          refine .inr ⟨rfl, ?_⟩
          cases hget : w.seen.get msg.idempotencyKey with
          | none => exact .inr ⟨rfl, rfl⟩
          | some existing =>
              refine .inl ⟨existing, rfl, ?_⟩
              cases existing with
              | null => exact absurd hget hnull
              | _ => rfl
    · refine .inl ⟨fun h => hroutes h.2, .unroutable (w.settings.unroutable msg), ?_⟩
      simp only [hroutes, ne_eq, not_false_eq_true, or_true, if_true, if_false]
  · rw [if_pos hpermits]
    exact .inl ⟨fun h => hpermits h.1, _, rfl⟩

/-- What spooling does: the key is new, and so is its file. -/
theorem Kept.spool (h : Kept digest repr K es w) (hK : Separates digest K) {req : Request}
    {msg : MailSend} (hsends : req.Sends repr msg) (hkey : msg.idempotencyKey ∈ K)
    (hdry : msg.dryRun = false) (hnone : w.seen.get msg.idempotencyKey = none) (disk : Disk)
    (now : Text) {w' : World} {result : Except SendError SendResult}
    (hspool : Mail.spool digest w msg disk now = (w', result)) :
    match result with
    | .error e => Kept digest repr K (es ++ [.request req disk now (.error e.surface)]) w'
    | .ok r => r.deduped = false ∧
        Kept digest repr K
          (es ++ [.request req disk now (.accepted r.messageId r.deduped)]) w' := by
  have hnew (m : Json) : ¬ Accepted repr es msg.idempotencyKey m := by
    intro hacc
    rw [(h.get_eq_some _ _).mpr hacc] at hnone
    cases hnone
  unfold Mail.spool at hspool
  split at hspool
  · cases hspool
    exact h.congr fun _ _ => accepted_error
  · rename_i bytes henc
    cases disk with
    | refused =>
        cases hspool
        exact h.congr fun _ _ => accepted_error
    | torn =>
        cases hspool
        have htorn : Kept digest repr K es
            { w with files := w.files.write (rowName (digest bytes)) .garbage } := by
          refine ⟨h.fail, h.accepted, h.seen, fun file hfile => ?_,
            fun key m hacc => h.rows_write hK hkey henc hnew _ hacc⟩
          rcases List.mem_cons.mp hfile with rfl | hfile
          · exact .inr rfl
          · exact h.files file (List.mem_of_mem_filter hfile)
        exact htorn.congr fun _ _ => accepted_error
    | late =>
        cases hspool
        have hlate : Kept digest repr K es
            { w with
              files := Spool.write w.files (rowName (digest bytes))
                (.json (spoolRow msg (messageIdOf (digest bytes)) now)) } := by
          refine ⟨h.fail, h.accepted, h.seen, fun file hfile => ?_,
            fun key m hacc => h.rows_write hK hkey henc hnew _ hacc⟩
          rcases List.mem_cons.mp hfile with rfl | hfile
          · exact .inl ⟨msg, bytes, now, rfl, henc, hkey⟩
          · exact h.files file (List.mem_of_mem_filter hfile)
        exact hlate.congr fun _ _ => accepted_error
    | whole =>
        cases hspool
        have hacc (key : Text) (m : Json) :
            Accepted repr (es ++ [.request req .whole now
              (.accepted (.str (messageIdOf (digest bytes))) false)]) key m ↔
            Accepted repr es key m ∨
              msg.idempotencyKey = key ∧ m = .str (messageIdOf (digest bytes)) := by
          rw [accepted_request hsends]
          simp only [hdry, true_and]
        refine ⟨rfl, h.fail, fun key m hm => ?_, fun entry => ?_, fun file hfile => ?_,
          fun key m hm => ?_⟩
        · rcases (hacc key m).mp hm with hm | ⟨rfl, rfl⟩
          · exact h.accepted key m hm
          · exact ⟨hkey, bytes, henc, rfl⟩
        · simp only [List.mem_cons, h.seen, hacc]
          constructor
          · rintro (rfl | ⟨key, m, rfl, hm⟩)
            · exact ⟨_, _, rfl, .inr ⟨rfl, rfl⟩⟩
            · exact ⟨key, m, rfl, .inl hm⟩
          · rintro ⟨key, m, rfl, hm | ⟨rfl, rfl⟩⟩
            · exact .inr ⟨key, m, rfl, hm⟩
            · exact .inl rfl
        · rcases List.mem_cons.mp hfile with rfl | hfile
          · exact .inl ⟨msg, bytes, now, rfl, henc, hkey⟩
          · exact h.files file (List.mem_of_mem_filter hfile)
        · rcases (hacc key m).mp hm with hm | ⟨rfl, rfl⟩
          · exact h.rows_write hK hkey henc hnew _ hm
          · exact ⟨_, List.mem_cons_self .., rowEntry_spoolRow _ _ _ _⟩

/-- A request keeps the invariant. -/
theorem Kept.request (h : Kept digest repr K es w) (hK : Separates digest K) {req : Request}
    (hkey : ∀ msg, req.Sends repr msg → msg.idempotencyKey ∈ K) {disk : Disk} {now : Text}
    {answer : Answer} {w' : World} (hhandle : handle digest repr w req disk now = (w', answer)) :
    Kept digest repr K (es ++ [.request req disk now answer]) w' := by
  unfold handle at hhandle
  cases hparse : req.parse repr w.settings with
  | error e =>
      rw [hparse] at hhandle
      cases hhandle
      exact h.congr fun _ _ => accepted_error
  | ok msg =>
      have hsends := Request.sends_of_parse hparse
      rw [hparse] at hhandle
      dsimp only at hhandle
      rcases send_cases digest h.fail (h.get_ne_null msg.idempotencyKey) disk now with
        ⟨-, e, hsend⟩ | ⟨-, ⟨hdry, hsend⟩ | ⟨hdry, ⟨existing, hget, hsend⟩ | ⟨hnone, hsend⟩⟩⟩
      · rw [hsend] at hhandle
        cases hhandle
        exact h.congr fun _ _ => accepted_error
      · rw [hsend] at hhandle
        cases hhandle
        refine h.congr fun key m => ?_
        rw [accepted_request hsends, hdry]
        simp
      · rw [hsend] at hhandle
        cases hhandle
        refine h.congr fun key m => ?_
        rw [accepted_request hsends]
        refine or_iff_left_of_imp ?_
        rintro ⟨-, rfl, rfl⟩
        exact (h.get_eq_some _ _).mp hget
      · rw [hsend] at hhandle
        rcases hspool : Mail.spool digest w msg disk now with ⟨w'', e | r⟩
        · rw [hspool] at hhandle
          cases hhandle
          exact h.spool hK hsends (hkey msg hsends) hdry hnone disk now hspool
        · rw [hspool] at hhandle
          cases hhandle
          exact (h.spool hK hsends (hkey msg hsends) hdry hnone disk now hspool).2

/-- The rows of the directory are recovered. -/
theorem recoverFrom_isOk (files : Spool) (seen : Seen)
    (h : ∀ file ∈ files, IsRow digest K file ∨ file.2 matches .garbage) :
    ∃ seen', recoverFrom seen files = .ok seen' := by
  induction files generalizing seen with
  | nil => exact ⟨seen, rfl⟩
  | cons file files ih =>
      obtain ⟨name, content⟩ := file
      have hfile : ∃ seen', recoverFile seen name content = .ok seen' := by
        rcases h _ (List.mem_cons_self ..) with ⟨msg, bytes, now, heq, -, -⟩ | hgarbage
        · obtain ⟨rfl, rfl⟩ := Prod.mk.inj heq
          exact ⟨_, recoverFile_of_entry (rowEntry_spoolRow ..) rfl seen⟩
        · cases content with
          | garbage => exact ⟨seen, by simp [recoverFile]⟩
          | _ => cases hgarbage
      obtain ⟨seen', hseen⟩ := hfile
      rw [recoverFrom, hseen]
      exact ih seen' fun file hmem => h file (List.mem_cons_of_mem _ hmem)

/-- A restart finds the accepted keys again. -/
theorem Kept.restart (h : Kept digest repr K es w) {settings : Settings}
    (hfail : settings.fail = []) (hconfirmed : w.Confirmed) {listing : Spool}
    (hperm : listing.Perm w.files) {seen : Seen} (hseen : recover listing = .ok seen) :
    Kept digest repr K (es ++ [.restart settings listing]) ⟨settings, seen, w.files⟩ := by
  have hkept : Kept digest repr K es ⟨settings, seen, w.files⟩ := by
    refine ⟨hfail, h.accepted, fun entry => ?_, h.files, h.rows⟩
    rw [mem_recover hseen]
    constructor
    · rintro ⟨file, hfile, hentry⟩
      exact (h.seen entry).mp (hconfirmed file (hperm.mem_iff.mp hfile) entry hentry)
    · rintro ⟨key, m, rfl, hacc⟩
      obtain ⟨file, hfile, hentry⟩ := h.rows key m hacc
      exact ⟨file, hperm.mem_iff.mpr hfile, hentry⟩
  exact hkept.congr fun _ _ => accepted_restart

end Invariant

/-- What holds of the requests and restarts that may come next. -/
structure Idempotent (es : List Event) (w : World) : Prop where
  /-- A repeated key is answered with its id, and changes nothing, exactly if the sender may be
  used and the recipients can be delivered to. -/
  repeated : ∀ req disk now msg m, req.parse repr w.settings = .ok msg → msg.dryRun = false →
    Accepted repr es msg.idempotencyKey m →
      (handle digest repr w req disk now = (w, .accepted m true) ↔
        w.settings.Permits msg ∧ w.settings.unroutable msg = [])
  first : ∀ req disk now msg m deduped, req.parse repr w.settings = .ok msg →
    msg.dryRun = false → (∀ m', ¬ Accepted repr es msg.idempotencyKey m') →
      (handle digest repr w req disk now).2 = .accepted m deduped → deduped = false
  dryRun : ∀ req disk now msg, req.parse repr w.settings = .ok msg → msg.dryRun = true →
    (handle digest repr w req disk now).1 = w
  restarts : ∀ settings listing, listing.Perm w.files →
    ∃ w', Serves digest repr w (.restart settings listing) w'

section Main

variable {digest repr} {K : Set Text} {es : List Event} {w : World}

private theorem handle_of_parse {req : Request} {msg : MailSend}
    (hparse : req.parse repr w.settings = .ok msg) (disk : Disk) (now : Text) :
    handle digest repr w req disk now =
      match send digest w msg disk now with
      | (w, .ok result) => (w, .accepted result.messageId result.deduped)
      | (w, .error e) => (w, .error e.surface) := by
  unfold handle
  split
  · rename_i e herror
    cases hparse.symm.trans herror
  · rename_i msg' hok
    cases hparse.symm.trans hok
    rfl

private theorem deduped_spool {msg : MailSend} {disk : Disk} {now : Text} {w' : World}
    {r : SendResult} (h : Mail.spool digest w msg disk now = (w', .ok r)) : r.deduped = false := by
  unfold Mail.spool at h
  split at h
  · cases h
  · cases disk with
    | whole =>
        cases h
        rfl
    | refused => cases h
    | torn => cases h
    | late => cases h

private theorem Kept.idempotent (h : Kept digest repr K es w) : Idempotent digest repr es w where
  repeated req disk now msg m hparse hdry hacc := by
    have hget := (h.get_eq_some _ _).mpr hacc
    rw [handle_of_parse hparse]
    rcases send_cases digest h.fail (h.get_ne_null msg.idempotencyKey) disk now with
      ⟨hrefused, e, hsend⟩ | ⟨hadmitted, ⟨hdry', -⟩ | ⟨-, ⟨m', hget', hsend⟩ | ⟨hnone, -⟩⟩⟩
    · simp only [hsend, hrefused, iff_false]
      intro hanswer
      cases hanswer
    · rw [hdry] at hdry'
      cases hdry'
    · rw [hget] at hget'
      cases hget'
      simp only [hsend, hadmitted, and_self]
    · rw [hget] at hnone
      cases hnone
  first req disk now msg m deduped hparse hdry hnew hanswer := by
    rw [handle_of_parse hparse] at hanswer
    rcases send_cases digest h.fail (h.get_ne_null msg.idempotencyKey) disk now with
      ⟨-, e, hsend⟩ | ⟨-, ⟨hdry', -⟩ | ⟨-, ⟨m', hget, -⟩ | ⟨-, hsend⟩⟩⟩
    · rw [hsend] at hanswer
      cases hanswer
    · rw [hdry] at hdry'
      cases hdry'
    · exact absurd ((h.get_eq_some _ _).mp hget) (hnew m')
    · rw [hsend] at hanswer
      rcases hspool : Mail.spool digest w msg disk now with ⟨w', e | r⟩
      · rw [hspool] at hanswer
        cases hanswer
      · rw [hspool] at hanswer
        cases hanswer
        exact deduped_spool hspool
  dryRun req disk now msg hparse hdry := by
    rw [handle_of_parse hparse]
    rcases send_cases digest h.fail (h.get_ne_null msg.idempotencyKey) disk now with
      ⟨-, e, hsend⟩ | ⟨-, ⟨-, hsend⟩ | ⟨hdry', -⟩⟩
    · rw [hsend]
    · rw [hsend]
    · rw [hdry] at hdry'
      cases hdry'
  restarts settings listing hperm := by
    obtain ⟨seen, hseen⟩ := recoverFrom_isOk listing [] fun file hfile =>
      h.files file (hperm.mem_iff.mp hfile)
    exact ⟨_, hperm, seen, hseen, rfl⟩

/-- After any run over a new directory, a key is delivered once. -/
theorem idempotent_of_run (hK : Separates digest K) {settings : Settings}
    (hfail : settings.fail = [])
    (hrun : Transition.Run ((Serves digest repr).within (Regular repr K)) ⟨settings, [], []⟩ es w) :
    Idempotent digest repr es w := by
  have hempty (key : Text) (m : Json) : ¬ Accepted repr [] key m := by
    rintro ⟨req, disk, now, deduped, msg, hmem, -⟩
    cases hmem
  have hkept : Kept digest repr K es w := by
    refine hrun.history_invariant (Kept digest repr K) ?_ ?_
    · refine ⟨hfail, fun key m hacc => absurd hacc (hempty key m), fun entry => ?_,
        (fun file hfile => by cases hfile), fun key m hacc => absurd hacc (hempty key m)⟩
      simp [hempty]
    · rintro es w e w' h ⟨hregular, hserves⟩
      cases e with
      | request req disk now answer => exact h.request hK hregular hserves
      | restart settings listing =>
          obtain ⟨hperm, seen, hseen, rfl⟩ := hserves
          exact h.restart hregular.1 hregular.2 hperm hseen
  exact hkept.idempotent

end Main

section Corp

/-- A hash that loses nothing of an ASCII key. -/
def asciiDigest (bytes : List ℕ) : Text := bytes.map (Fin.ofNat _)

/-- A send of one key and one message. -/
def sendFrom (sender : String) : Request where
  authorization := none
  length := 0
  body := some (.dict
    [(text "idempotencyKey", .str (text "k")), (text "from", .str (text sender)),
      (text "to", .list [.str (text "ada@corp.example")]), (text "subject", .str (text "due")),
      (text "text", .str (text "tomorrow"))])

def messageFrom (sender : String) : MailSend where
  idempotencyKey := text "k"
  fromAddr := text sender
  to_ := [text "ada@corp.example"]
  subject := text "due"
  text := Python.text "tomorrow"

/-- A sender is pinned. -/
def corp : Settings := { sender := text "bot@corp.example" }

private theorem sends_of_toOption {req : Request} {body : Json} {msg : MailSend}
    (hbody : req.body = some body) (h : (parseSend id body).toOption = some msg) :
    req.Sends id msg := by
  refine ⟨body, hbody, ?_⟩
  cases hparse : parseSend id body with
  | ok msg' =>
      rw [hparse] at h
      cases h
      rfl
  | error e =>
      rw [hparse] at h
      cases h

private theorem sends_bot : (sendFrom "bot@corp.example").Sends id
    (messageFrom "bot@corp.example") :=
  sends_of_toOption rfl (by decide +kernel)

private theorem sends_eve : (sendFrom "eve@corp.example").Sends id
    (messageFrom "eve@corp.example") :=
  sends_of_toOption rfl (by decide +kernel)

private theorem parse_of_sends {req : Request} {msg : MailSend} (h : req.Sends id msg)
    (hlength : req.length = 0) : req.parse id corp = .ok msg := by
  obtain ⟨body, hbody, hparse⟩ := h
  simp [Request.parse, Settings.authorizes, corp, hlength, hbody, hparse]

/-- The world after the first send of the pinned sender. -/
def delivered : World where
  settings := corp
  seen := [(.str (text "k"), .str (text "<k@jetty-mail>"))]
  files := [(text "k.json",
    .json (spoolRow (messageFrom "bot@corp.example") (text "<k@jetty-mail>") []))]

/-- The first send of the pinned sender. -/
def delivery : Event :=
  .request (sendFrom "bot@corp.example") .whole [] (.accepted (.str (text "<k@jetty-mail>")) false)

private theorem run_delivery : Transition.Run
    ((Serves asciiDigest id).within (Regular id {text "k"}))
    ⟨corp, [], []⟩ [delivery] delivered := by
  refine Transition.Run.single ⟨fun msg hmsg => ?_, ?_⟩
  · rw [← sends_bot.unique hmsg]
    rfl
  · show handle asciiDigest id ⟨corp, [], []⟩ _ _ _ = _
    rw [handle_of_parse (parse_of_sends sends_bot rfl)]
    rfl

private theorem separates_singleton (digest : List ℕ → Text) (key : Text) : Separates digest
    {key} := by
  rintro k rfl k' rfl _ _ _ _ _
  rfl

/-- After one delivery. -/
theorem idempotent_delivery : Idempotent asciiDigest id [delivery] delivered :=
  idempotent_of_run (separates_singleton _ _) rfl run_delivery

/-- A repetition in the name of another sender is refused. -/
theorem not_repeated_eve : ¬ ∀ (digest : List ℕ → Text) (repr : Text → Text) (K : Set Text)
    (settings : Settings) (es : List Event) (w : World), Separates digest K → settings.fail = [] →
    Transition.Run ((Serves digest repr).within (Regular repr K)) ⟨settings, [], []⟩ es w →
    ∀ req disk now msg m, req.parse repr w.settings = .ok msg → msg.dryRun = false →
      Accepted repr es msg.idempotencyKey m →
        handle digest repr w req disk now = (w, .accepted m true) := by
  intro h
  have hrepeated := h asciiDigest id _ corp _ _ (separates_singleton _ _) rfl run_delivery
    (sendFrom "eve@corp.example") .whole [] _ _ (parse_of_sends sends_eve rfl) rfl
    ⟨_, _, _, _, _, List.mem_singleton_self _, sends_bot, rfl, rfl⟩
  rw [handle_of_parse (parse_of_sends sends_eve rfl)] at hrepeated
  cases hrepeated

end Corp

end Jetty.Mail
