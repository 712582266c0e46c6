import Jetty.Core.Failure
import Jetty.Modules.Mail.Message

/-!
# The limits of a message

What the validation of a send request is for: either the request is refused with `bad_request`, or
the message keeps the limits of the wire. The validation itself is a sequence of checks, and what
can go wrong in one of them is that it takes the length of a text that has no encoding.
-/

namespace Jetty.Mail

open Python Failure

/-! ### The limits -/

/-- One `local@domain` token. -/
def PlainAddress (a : Text) : Prop :=
  ∃ local_ domain, a = local_ ++ at_ :: domain ∧ local_ ≠ [] ∧ domain ≠ [] ∧
    ∀ c ∈ local_ ++ domain, addressChar c = true

/-- The text has an encoding, of so many bytes at most. -/
def Fits (bound : ℕ) (s : Text) : Prop := ∃ bytes, Text.encode s = some bytes ∧ bytes.length ≤ bound

/-- All addresses of a message. -/
def MailSend.addresses (msg : MailSend) : List Text :=
  msg.fromAddr :: (msg.to_ ++ msg.cc ++ msg.bcc ++ msg.replyTo)

/-- The limits of the wire. -/
structure WithinLimits (msg : MailSend) : Prop where
  addresses : ∀ a ∈ msg.addresses, PlainAddress a ∧ Fits maxAddressBytes a
  idempotencyKey : msg.idempotencyKey ≠ [] ∧ Fits maxKeyBytes msg.idempotencyKey
  subject : msg.subject ≠ [] ∧ msg.subject.length ≤ maxSubjectChars ∧
    carriageReturn ∉ msg.subject ∧ lineFeed ∉ msg.subject
  to_ : msg.to_ ≠ []
  recipients : msg.to_.length + msg.cc.length + msg.bcc.length ≤ maxRecipients
  replyTo : msg.replyTo.length ≤ maxReplyTo
  tags : msg.tags.length ≤ maxTags ∧ ∀ tag ∈ msg.tags, Fits maxTagBytes tag
  text : msg.text ≠ [] ∧ Fits maxTextBytes msg.text
  html : Fits maxHtmlBytes msg.html
  threadKey : Fits maxThreadKeyBytes msg.threadKey

/-- The error is the answer to a bad request. -/
def Refuses (e : ApiError) : Prop := ∃ detail, e = bad detail

/-- The validation refuses the body or returns a message within the limits. -/
def Enforced (repr : Text → Text) (body : Json) : Prop :=
  match parseSend repr body with
  | .ok msg => WithinLimits msg
  | .error e => Refuses e

/-! ### A sequence of checks -/

/-- What a check asks of a body. -/
structure Check where
  /-- It takes the length of no text without an encoding. -/
  measurable : Prop
  passes : Prop

/-- Every check that is reached is measurable, and the last condition holds if all of them pass. -/
def Reached (last : Prop) : List Check → Prop
  | [] => last
  | check :: checks => check.measurable ∧ (check.passes → Reached last checks)

/-- The result has the property, or the computation ends with a refusal. -/
def Holds {α : Type} (P : α → Prop) (a : Except ApiError α) : Prop :=
  Spares (fun e => ¬ Refuses e) a ∧ ∀ v, a = .ok v → P v

/-- The check is what the computation asks. -/
structure Check.Describes {α : Type} (check : Check) (a : Except ApiError α) : Prop where
  measurable : Spares (fun e => ¬ Refuses e) a ↔ check.measurable
  passes : (∃ v, a = .ok v) ↔ check.passes

private theorem Check.Describes.holds_iff {α β : Type} {check : Check} {a : Except ApiError α}
    {f : α → Except ApiError β} {P : β → Prop} {last : Prop} {checks : List Check}
    (h : check.Describes a) (hrest : ∀ v, a = .ok v → (Holds P (f v) ↔ Reached last checks)) :
    Holds P (a >>= f) ↔ Reached last (check :: checks) := by
  unfold Holds Reached
  rw [spares_bind_iff, ← h.measurable, ← h.passes, and_assoc]
  refine and_congr_right fun _ => ?_
  cases a with
  | error e =>
      refine iff_of_true ⟨nofun, fun w hw => ?_⟩ (fun ⟨v, hv⟩ => nomatch hv)
      cases hw
  | ok v =>
      have hholds := hrest v rfl
      constructor
      · rintro ⟨hspares, hall⟩ -
        exact hholds.mp ⟨hspares v rfl, hall⟩
      · intro hreached
        obtain ⟨hspares, hall⟩ := hholds.mpr (hreached ⟨v, rfl⟩)
        refine ⟨fun w hw => ?_, hall⟩
        cases hw
        exact hspares

private theorem enforced_iff (repr : Text → Text) (body : Json) :
    Enforced repr body ↔ Holds WithinLimits (parseSend repr body) := by
  unfold Enforced Holds
  cases parseSend repr body with
  | ok msg =>
      refine ⟨fun h => ⟨spares_ok msg, fun v hv => Except.ok.inj hv ▸ h⟩, fun h => h.2 msg rfl⟩
  | error e =>
      rw [spares_error_iff, not_not]
      exact (and_iff_left nofun).symm

/-- A condition under which the request is refused. -/
def refuse (c : Prop) [Decidable c] (detail : Text) : Except ApiError Unit :=
  if c then .error (bad detail) else .ok ()

private theorem refuse_describes (c : Prop) [Decidable c] (detail : Text) :
    Check.Describes ⟨True, ¬ c⟩ (refuse c detail) := by
  unfold refuse
  by_cases hc : c
  · rw [if_pos hc]
    refine ⟨iff_of_true ?_ trivial, iff_of_false (fun ⟨_, hv⟩ => nomatch hv) (not_not.mpr hc)⟩
    exact spares_error_iff.mpr (not_not.mpr ⟨detail, rfl⟩)
  · rw [if_neg hc]
    exact ⟨iff_of_true (spares_ok ()) trivial, iff_of_true ⟨(), rfl⟩ hc⟩

private theorem parseSend_dict (repr : Text → Text) {entries : List (Text × Json)}
    (h : unknownFields entries = []) : parseSend repr (.dict entries) = (do
      let get (name : String) := Json.get? entries (text name)
      let key ← boundedStr (get "idempotencyKey") "idempotencyKey" maxKeyBytes true
      let fromAddr ← parseFrom (get "from")
      let to_ ← addresses (get "to") "to" none
      refuse (to_ = []) (text "to requires at least one recipient")
      let cc ← addresses (get "cc") "cc" none
      let bcc ← addresses (get "bcc") "bcc" none
      let replyTo ← addresses (get "replyTo") "replyTo" (some maxReplyTo)
      refuse (maxRecipients < to_.length + cc.length + bcc.length)
        (text s!"to+cc+bcc exceeds {maxRecipients} addresses")
      let subject ← parseSubject (get "subject")
      let body_ ← boundedStr (get "text") "text" maxTextBytes true
      let html ← boundedStr (get "html") "html" maxHtmlBytes false
      let threadKey ← boundedStr (get "threadKey") "threadKey" maxThreadKeyBytes false
      let tags ← parseTags (get "tags")
      let dryRun ← parseDryRun (get "dryRun")
      .ok { idempotencyKey := key, fromAddr, to_, cc, bcc, replyTo, subject, text := body_, html,
            threadKey, tags, dryRun }) := by
  unfold parseSend
  simp -zeta only [h]
  refine bind_congr fun key => bind_congr fun fromAddr => bind_congr fun to_ => ?_
  cases to_ with
  | nil => rfl
  | cons a to_ =>
      refine bind_congr fun cc => bind_congr fun bcc => bind_congr fun replyTo => ?_
      unfold refuse
      split <;> rfl

/-! ### The checks of the fields -/

/-- The texts of a value: the value itself, or the elements of an array of texts. -/
def textsOf : Option Json → List Text
  | some (.str s) => [s]
  | some (.list xs) => (Json.strings? xs).getD []
  | _ => []

/-- Nothing, or an array of texts. -/
def Listed : Option Json → Prop
  | none | some .null => True
  | some (.list xs) => (Json.strings? xs).isSome
  | some _ => False

/-- `q` holds of each element that comes after elements with `p` only. -/
def UpTo (p q : Text → Prop) (l : List Text) : Prop :=
  ∀ front a back, l = front ++ a :: back → (∀ b ∈ front, p b) → q a

private theorem upTo_nil {p q : Text → Prop} : UpTo p q [] := by
  intro front a back h
  simp at h

private theorem upTo_cons {p q : Text → Prop} {a : Text} {l : List Text} :
    UpTo p q (a :: l) ↔ q a ∧ (p a → UpTo p q l) := by
  constructor
  · intro h
    refine ⟨h [] a l rfl (List.forall_mem_nil _), fun hp front b back hl hfront => ?_⟩
    exact h (a :: front) b back (congrArg (a :: ·) hl) (List.forall_mem_cons.mpr ⟨hp, hfront⟩)
  · rintro ⟨ha, hrest⟩ front b back hl hfront
    cases front with
    | nil =>
        obtain rfl := (List.cons.inj hl).1
        exact ha
    | cons c front =>
        obtain ⟨rfl, hl'⟩ := List.cons.inj hl
        obtain ⟨hp, hfront'⟩ := List.forall_mem_cons.mp hfront
        exact hrest hp front b back hl' hfront'

/-- What `_bounded_str` accepts. -/
def Bounded (bound : ℕ) (required : Bool) : Option Json → Prop
  | none | some .null => required = false
  | some (.str s) => (required = true → s ≠ []) ∧ Fits bound s
  | some _ => False

/-- The text that `_bounded_str` measures has an encoding. -/
def Measurable (required : Bool) (value : Option Json) : Prop :=
  ∀ s, value = some (.str s) → (required = true → s ≠ []) → (Text.encode s).isSome

/-- The loop over the addresses goes past this one. -/
def AddressFits (a : Text) : Prop := matchesAddress a = true ∧ Fits maxAddressBytes a

private theorem refuses_bad (detail : Text) : Refuses (bad detail) := ⟨detail, rfl⟩

private theorem not_refuses_internal : ¬ Refuses internalError := by
  rintro ⟨detail, h⟩
  exact absurd (congrArg ApiError.status h) (by simp [internalError, bad])

/-- A refusal passes for no input. -/
theorem describes_bad {α : Type} (detail : Text) {check : Check} (hm : check.measurable)
    (hp : ¬ check.passes) : check.Describes (.error (bad detail) : Except ApiError α) :=
  ⟨iff_of_true (spares_error_iff.mpr (not_not.mpr ⟨detail, rfl⟩)) hm,
    iff_of_false (fun ⟨_, hv⟩ => nomatch hv) hp⟩

private theorem describes_ok {α : Type} (v : α) {check : Check} (hm : check.measurable)
    (hp : check.passes) : check.Describes (.ok v : Except ApiError α) :=
  ⟨iff_of_true (spares_ok v) hm, iff_of_true ⟨v, rfl⟩ hp⟩

private theorem describes_internal {α : Type} {check : Check} (hm : ¬ check.measurable)
    (hp : ¬ check.passes) : check.Describes (.error internalError : Except ApiError α) :=
  ⟨iff_of_false (fun h => spares_error_iff.mp h not_refuses_internal) hm,
    iff_of_false (fun ⟨_, hv⟩ => nomatch hv) hp⟩

private theorem not_fits_of_none {bound : ℕ} {s : Text} (h : Text.encode s = none) :
    ¬ Fits bound s := by
  rintro ⟨bytes, henc, -⟩
  rw [h] at henc
  cases henc

private theorem fits_iff {bound : ℕ} {s : Text} {bytes : List ℕ} (h : Text.encode s = some bytes) :
    Fits bound s ↔ bytes.length ≤ bound := by
  unfold Fits
  rw [h]
  simp

/-- Measuring a text, refusing it or going on. -/
theorem measure_describes {α : Type} {s : Text} {bound : ℕ} {detail : Text}
    {rest : Except ApiError α} {check : Check} (h : check.Describes rest) :
    Check.Describes ⟨(Text.encode s).isSome ∧ (Fits bound s → check.measurable),
        Fits bound s ∧ check.passes⟩
      (byteLength s >>= fun n => if bound < n then .error (bad detail) else rest) := by
  unfold byteLength
  cases henc : Text.encode s with
  | none => exact describes_internal (fun h => by cases h.1) fun h => not_fits_of_none henc h.1
  | some bytes =>
      have hfits : Fits bound s ↔ bytes.length ≤ bound := fits_iff henc
      change Check.Describes _ (if bound < bytes.length then .error (bad detail) else rest)
      by_cases hlong : bound < bytes.length
      · have hnot : ¬ Fits bound s := fun h => absurd (hfits.mp h) hlong.not_ge
        rw [if_pos hlong]
        exact describes_bad _ ⟨rfl, fun h => absurd h hnot⟩ fun h => hnot h.1
      · have hyes : Fits bound s := hfits.mpr (not_lt.mp hlong)
        rw [if_neg hlong]
        refine ⟨h.measurable.trans ?_, h.passes.trans ?_⟩
        · exact ⟨fun h => ⟨rfl, fun _ => h⟩, fun h => h.2 hyes⟩
        · exact ⟨fun h => ⟨hyes, h⟩, fun h => h.2⟩

private theorem Check.Describes.congr {α : Type} {check : Check} {a : Except ApiError α}
    {m p : Prop} (h : check.Describes a) (hm : check.measurable ↔ m) (hp : check.passes ↔ p) :
    Check.Describes ⟨m, p⟩ a :=
  ⟨h.measurable.trans hm, h.passes.trans hp⟩

private theorem boundedStr_str (s : Text) (fieldName : String) (bound : ℕ) (required : Bool) :
    boundedStr (some (.str s)) fieldName bound required =
      if required && s.isEmpty then .error (bad (text (fieldName ++ " must be a non-empty string")))
      else byteLength s >>= fun n =>
        if bound < n then .error (bad (text s!"{fieldName} exceeds {bound} bytes")) else .ok s := by
  unfold boundedStr
  by_cases hempty : (required && s.isEmpty) = true
  · rw [if_pos hempty]
    exact if_pos hempty
  · rw [if_neg hempty]
    exact if_neg hempty

private theorem boundedStr_describes (value : Option Json) (fieldName : String) (bound : ℕ)
    (required : Bool) :
    Check.Describes ⟨Measurable required value, Bounded bound required value⟩
      (boundedStr value fieldName bound required) := by
  have hother {v : Json} (h : ∀ s, v ≠ .str s) : Measurable required (some v) := by
    intro s hs
    exact absurd (Option.some.inj hs) (h s)
  have hnothing {value : Option Json} (hm : Measurable required value)
      (hb : Bounded bound required value ↔ required = false) :
      Check.Describes ⟨Measurable required value, Bounded bound required value⟩
        (if required then .error (bad (text (fieldName ++ " is required")))
          else .ok ([] : Text)) := by
    cases required with
    | true => exact describes_bad _ hm fun h => nomatch hb.mp h
    | false => exact describes_ok _ hm (hb.mpr rfl)
  cases value with
  | none => exact hnothing (fun s hs => nomatch hs) .rfl
  | some v =>
      cases v with
      | null => exact hnothing (hother nofun) .rfl
      | str s =>
          rw [boundedStr_str]
          by_cases hempty : required = true ∧ s = []
          · obtain ⟨rfl, rfl⟩ := hempty
            refine describes_bad _ (fun s hs hne => ?_) fun h => h.1 rfl rfl
            exact absurd (Json.str.inj (Option.some.inj hs)).symm (hne rfl)
          · have hne : required = true → s ≠ [] := fun hr hs => hempty ⟨hr, hs⟩
            have hif : ¬ (required && s.isEmpty) = true := by simpa using hne
            rw [if_neg hif]
            refine (measure_describes (@describes_ok _ s ⟨True, True⟩ trivial
              trivial)).congr ?_ ?_
            · refine ⟨fun h t ht _ => ?_, fun h => ⟨h s rfl hne, fun _ => trivial⟩⟩
              obtain rfl := Json.str.inj (Option.some.inj ht)
              exact h.1
            · exact ⟨fun h => ⟨hne, h.1⟩, fun h => ⟨h.2, trivial⟩⟩
      | bool b => exact describes_bad _ (hother nofun) id
      | int n => exact describes_bad _ (hother nofun) id
      | float x => exact describes_bad _ (hother nofun) id
      | list xs => exact describes_bad _ (hother nofun) id
      | dict entries => exact describes_bad _ (hother nofun) id

private theorem checkAddresses_describes (fieldName : String) (l : List Text) :
    Check.Describes ⟨UpTo AddressFits (fun a => matchesAddress a = true → (Text.encode a).isSome) l,
      ∀ a ∈ l, AddressFits a⟩ (checkAddresses fieldName l) := by
  induction l with
  | nil => exact describes_ok () upTo_nil (List.forall_mem_nil _)
  | cons a l ih =>
      have hunfold : checkAddresses fieldName (a :: l) =
          if matchesAddress a then
            byteLength a >>= fun n =>
              if maxAddressBytes < n then
                .error (bad (text (fieldName ++ ": not a plain local@domain address")))
              else checkAddresses fieldName l
          else .error (bad (text (fieldName ++ ": not a plain local@domain address"))) := by
        rw [checkAddresses]
        by_cases ha : matchesAddress a = true
        · rw [if_pos ha, if_pos ha]
          rfl
        · rw [if_neg ha, if_neg ha]
          rfl
      rw [hunfold]
      by_cases ha : matchesAddress a = true
      · rw [if_pos ha]
        refine (measure_describes ih).congr ?_ ?_
        · rw [upTo_cons]
          unfold AddressFits
          tauto
        · rw [List.forall_mem_cons]
          unfold AddressFits
          tauto
      · rw [if_neg ha]
        refine describes_bad _ (upTo_cons.mpr ?_) fun h => ha (List.forall_mem_cons.mp h).1.1
        exact ⟨fun h => absurd h ha, fun h => absurd h.1 ha⟩

/-- One check after another. -/
theorem Check.Describes.bind {α β : Type} {check next : Check} {a : Except ApiError α}
    {f : α → Except ApiError β} (ha : check.Describes a) (hf : ∀ v, next.Describes (f v)) :
    Check.Describes ⟨check.measurable ∧ (check.passes → next.measurable),
      check.passes ∧ next.passes⟩ (a >>= f) := by
  constructor
  · rw [spares_bind_iff, ha.measurable, ← ha.passes]
    refine and_congr_right fun _ => ⟨fun h hok => ?_, fun h v hv => ?_⟩
    · obtain ⟨v, hv⟩ := hok
      exact (hf v).measurable.mp (h v hv)
    · exact (hf v).measurable.mpr (h ⟨v, hv⟩)
  · constructor
    · rintro ⟨w, hw⟩
      obtain ⟨v, hv, hw⟩ := bind_eq_ok.mp hw
      exact ⟨ha.passes.mp ⟨v, hv⟩, (hf v).passes.mp ⟨w, hw⟩⟩
    · rintro ⟨hcheck, hnext⟩
      obtain ⟨v, hv⟩ := ha.passes.mpr hcheck
      obtain ⟨w, hw⟩ := (hf v).passes.mpr hnext
      exact ⟨w, bind_eq_ok.mpr ⟨v, hv, hw⟩⟩

/-- The number of addresses. -/
def bounded (fieldName : String) (maximum : Option ℕ) (ss : List Text) :
    Except ApiError (List Text) :=
  match maximum with
  | some m =>
    if m < ss.length then .error (bad (text s!"{fieldName} carries more than {m} addresses"))
    else .ok ss
  | none => .ok ss

private theorem bounded_describes (fieldName : String) (maximum : Option ℕ) (ss : List Text) :
    Check.Describes ⟨True, ∀ m, maximum = some m → ss.length ≤ m⟩
      (bounded fieldName maximum ss) := by
  cases maximum with
  | none => exact describes_ok ss trivial nofun
  | some m =>
      dsimp only [bounded]
      by_cases hlong : m < ss.length
      · rw [if_pos hlong]
        exact describes_bad _ trivial fun h => absurd (h m rfl) hlong.not_ge
      · rw [if_neg hlong]
        refine describes_ok ss trivial fun n hn => ?_
        obtain rfl := Option.some.inj hn
        exact not_lt.mp hlong

private theorem addresses_list {value : Option Json} {xs : List Json} {ss : List Text}
    (hvalue : value = some (.list xs)) (h : Json.strings? xs = some ss) (fieldName : String)
    (maximum : Option ℕ) : addresses value fieldName maximum =
      checkAddresses fieldName ss >>= fun _ => bounded fieldName maximum ss := by
  unfold addresses
  simp only [hvalue, h]
  refine bind_congr fun _ => ?_
  cases maximum <;> rfl

/-- What is asked of the addresses of a field. -/
def addressesCheck (maximum : Option ℕ) (value : Option Json) : Check where
  measurable := Listed value →
    UpTo AddressFits (fun a => matchesAddress a = true → (Text.encode a).isSome) (textsOf value)
  passes := Listed value ∧ (∀ a ∈ textsOf value, AddressFits a) ∧
    ∀ m, maximum = some m → (textsOf value).length ≤ m

/-- A value is nothing, an array of texts or something else. -/
theorem listing_cases (value : Option Json) :
    ((value = none ∨ value = some .null) ∧ Listed value ∧ textsOf value = []) ∨
      (∃ xs, value = some (.list xs) ∧ Json.strings? xs = some (textsOf value) ∧ Listed value) ∨
        (¬ Listed value ∧ (∃ v, value = some v ∧ v ≠ .null) ∧
          ∀ xs, value = some (.list xs) → Json.strings? xs = none) := by
  cases value with
  | none => exact .inl ⟨.inl rfl, trivial, rfl⟩
  | some v =>
      cases v with
      | null => exact .inl ⟨.inr rfl, trivial, rfl⟩
      | list xs =>
          right
          unfold Listed textsOf
          simp only [Option.some.injEq, Json.list.injEq, exists_eq_left']
          cases hstrings : Json.strings? xs with
          | none =>
              refine .inr ⟨nofun, by simp, ?_⟩
              rintro ys rfl
              exact hstrings
          | some ss => exact .inl ⟨rfl, rfl⟩
      | _ => exact .inr (.inr ⟨id, ⟨_, rfl, by simp⟩, nofun⟩)

private theorem addresses_other {value : Option Json} (h : ∃ v, value = some v ∧ v ≠ .null)
    (hlist : ∀ xs, value = some (.list xs) → Json.strings? xs = none) (fieldName : String)
    (maximum : Option ℕ) : addresses value fieldName maximum =
      .error (bad (text (fieldName ++ " must be an array of addresses"))) := by
  obtain ⟨v, rfl, hv⟩ := h
  cases v with
  | null => exact absurd rfl hv
  | list xs =>
      unfold addresses
      simp only [hlist xs rfl]
  | _ => rfl

private theorem addresses_describes (value : Option Json) (fieldName : String)
    (maximum : Option ℕ) :
    (addressesCheck maximum value).Describes (addresses value fieldName maximum) := by
  rcases listing_cases value with ⟨hnone, hlisted, htexts⟩ | ⟨xs, hvalue, hstrings, hlisted⟩ |
    ⟨hnot, hother, hlist⟩
  · have hunfold : addresses value fieldName maximum = .ok [] := by
      rcases hnone with rfl | rfl <;> rfl
    rw [hunfold]
    refine describes_ok [] ?_ ⟨hlisted, ?_, fun m _ => ?_⟩
    · rintro -
      rw [htexts]
      exact upTo_nil
    · rw [htexts]
      exact List.forall_mem_nil _
    · rw [htexts]
      exact Nat.zero_le m
  · rw [addresses_list hvalue hstrings]
    exact ((checkAddresses_describes fieldName _).bind fun _ =>
      bounded_describes fieldName maximum _).congr
        ⟨fun h _ => h.1, fun h => ⟨h hlisted, fun _ => trivial⟩⟩ (and_iff_right hlisted).symm
  · rw [addresses_other hother hlist]
    exact describes_bad _ (fun h => absurd h hnot) fun h => hnot h.1

private theorem addresses_eq_ok {value : Option Json} {fieldName : String} {maximum : Option ℕ}
    {ss : List Text} (h : addresses value fieldName maximum = .ok ss) : ss = textsOf value := by
  rcases listing_cases value with ⟨hnone, -, htexts⟩ | ⟨xs, hvalue, hstrings, -⟩ |
    ⟨-, hother, hlist⟩
  · rw [htexts]
    rcases hnone with rfl | rfl <;> exact (Except.ok.inj h).symm
  · rw [addresses_list hvalue hstrings] at h
    obtain ⟨-, -, h⟩ := bind_eq_ok.mp h
    unfold bounded at h
    split at h
    · split at h
      · cases h
      · exact (Except.ok.inj h).symm
    · exact (Except.ok.inj h).symm
  · rw [addresses_other hother hlist] at h
    cases h

private theorem parseFrom_describes (value : Option Json) :
    Check.Describes ⟨True, ∃ s, value = some (.str s) ∧ matchesAddress s = true⟩
      (parseFrom value) := by
  have hother {v : Json} (h : ∀ s, v ≠ .str s) :
      ¬ ∃ s, some v = some (.str s) ∧ matchesAddress s = true := by
    rintro ⟨s, hs, -⟩
    exact h s (Option.some.inj hs)
  cases value with
  | none => exact describes_bad _ trivial (by rintro ⟨s, hs, -⟩; cases hs)
  | some v =>
      cases v with
      | str s =>
          unfold parseFrom
          dsimp only
          by_cases hs : matchesAddress s = true
          · rw [if_pos hs]
            exact describes_ok s trivial ⟨s, rfl, hs⟩
          · rw [if_neg hs]
            refine describes_bad _ trivial ?_
            rintro ⟨t, ht, hmatch⟩
            obtain rfl := Json.str.inj (Option.some.inj ht)
            exact hs hmatch
      | null => exact describes_bad _ trivial (hother nofun)
      | bool b => exact describes_bad _ trivial (hother nofun)
      | int n => exact describes_bad _ trivial (hother nofun)
      | float x => exact describes_bad _ trivial (hother nofun)
      | list xs => exact describes_bad _ trivial (hother nofun)
      | dict entries => exact describes_bad _ trivial (hother nofun)

private theorem parseFrom_eq_ok {value : Option Json} {s : Text} (h : parseFrom value = .ok s) :
    value = some (.str s) := by
  unfold parseFrom at h
  split at h
  · split at h
    · exact congrArg (some ∘ Json.str) (Except.ok.inj h)
    · cases h
  · cases h

/-- A line of so many characters. -/
def SubjectFits (s : Text) : Prop :=
  s ≠ [] ∧ s.length ≤ maxSubjectChars ∧ carriageReturn ∉ s ∧ lineFeed ∉ s

private theorem parseSubject_eq_ok_iff {value : Option Json} {s : Text} :
    parseSubject value = .ok s ↔ value = some (.str s) ∧ SubjectFits s := by
  unfold parseSubject SubjectFits
  split
  · rename_i t
    simp only [Option.some.injEq, Json.str.injEq]
    split_ifs with hlong hline
    · refine iff_of_false nofun ?_
      rintro ⟨rfl, hne, hlength, -⟩
      simp [hne, hlength.not_gt] at hlong
    · refine iff_of_false nofun ?_
      rintro ⟨rfl, -, -, hcr, hlf⟩
      simp [hcr, hlf] at hline
    · simp only [Bool.or_eq_true, not_or, List.isEmpty_iff, decide_eq_true_iff, not_lt,
        List.contains_iff_mem] at hlong hline
      rw [Except.ok.injEq]
      exact ⟨by rintro rfl; exact ⟨rfl, hlong.1, hlong.2, hline.1, hline.2⟩, fun h => h.1⟩
  · rename_i hne
    refine iff_of_false nofun ?_
    rintro ⟨rfl, -⟩
    exact hne s rfl

private theorem parseSubject_describes (value : Option Json) :
    Check.Describes ⟨True, ∃ s, value = some (.str s) ∧ SubjectFits s⟩ (parseSubject value) := by
  refine ⟨iff_of_true ?_ trivial, exists_congr fun s => parseSubject_eq_ok_iff⟩
  unfold parseSubject
  split
  · split_ifs
    · exact spares_error_iff.mpr (not_not.mpr (refuses_bad _))
    · exact spares_error_iff.mpr (not_not.mpr (refuses_bad _))
    · exact spares_ok _
  · exact spares_error_iff.mpr (not_not.mpr (refuses_bad _))

private theorem anyLongTag_describes (detail : Text) {α : Type} (v : α) (l : List Text) :
    Check.Describes ⟨UpTo (Fits maxTagBytes) (fun t => (Text.encode t).isSome) l,
        ∀ t ∈ l, Fits maxTagBytes t⟩
      (anyLongTag l >>= fun long => if long then .error (bad detail) else .ok v) := by
  induction l with
  | nil => exact describes_ok v upTo_nil (List.forall_mem_nil _)
  | cons t l ih =>
      have hunfold : (anyLongTag (t :: l) >>= fun long =>
          if long then .error (bad detail) else .ok v) =
          byteLength t >>= fun n => if maxTagBytes < n then .error (bad detail) else
            anyLongTag l >>= fun long => if long then .error (bad detail) else .ok v := by
        rw [anyLongTag, bind_assoc]
        refine bind_congr fun n => ?_
        by_cases hn : maxTagBytes < n
        · rw [if_pos hn, if_pos hn]
          rfl
        · rw [if_neg hn, if_neg hn]
      rw [hunfold]
      refine (measure_describes ih).congr ?_ ?_
      · rw [upTo_cons]
      · exact List.forall_mem_cons.symm

/-- What is asked of the tags. -/
def tagsCheck (value : Option Json) : Check where
  measurable := Listed value → (textsOf value).length ≤ maxTags →
    UpTo (Fits maxTagBytes) (fun t => (Text.encode t).isSome) (textsOf value)
  passes := Listed value ∧ (textsOf value).length ≤ maxTags ∧
    ∀ t ∈ textsOf value, Fits maxTagBytes t

private theorem parseTags_list {value : Option Json} {xs : List Json} {ss : List Text}
    (hvalue : value = some (.list xs)) (h : Json.strings? xs = some ss) : parseTags value =
      refuse (maxTags < ss.length) (text s!"tags carries more than {maxTags} entries") >>= fun _ =>
        anyLongTag ss >>= fun long =>
          if long then .error (bad (text s!"tags entries are at most {maxTagBytes} bytes"))
          else .ok ss := by
  unfold parseTags refuse
  simp -zeta only [hvalue, h]
  by_cases hlong : maxTags < ss.length
  · simp only [pure_bind, if_pos hlong]
    rfl
  · simp only [pure_bind, if_neg hlong]
    rfl

private theorem parseTags_other {value : Option Json} (h : ∃ v, value = some v ∧ v ≠ .null)
    (hlist : ∀ xs, value = some (.list xs) → Json.strings? xs = none) :
    parseTags value = .error (bad (text "tags must be an array of strings")) := by
  obtain ⟨v, rfl, hv⟩ := h
  cases v with
  | null => exact absurd rfl hv
  | list xs =>
      unfold parseTags
      simp -zeta only [hlist xs rfl]
      rfl
  | _ => rfl

private theorem parseTags_describes (value : Option Json) :
    (tagsCheck value).Describes (parseTags value) := by
  rcases listing_cases value with ⟨hnone, hlisted, htexts⟩ | ⟨xs, hvalue, hstrings, hlisted⟩ |
    ⟨hnot, hother, hlist⟩
  · have hunfold : parseTags value = .ok [] := by
      rcases hnone with rfl | rfl <;> rfl
    rw [hunfold]
    refine describes_ok [] ?_ ⟨hlisted, ?_, ?_⟩
    · rintro - -
      rw [htexts]
      exact upTo_nil
    · rw [htexts]
      exact Nat.zero_le _
    · rw [htexts]
      exact List.forall_mem_nil _
  · rw [parseTags_list hvalue hstrings]
    refine ((refuse_describes _ _).bind fun _ => anyLongTag_describes _ _ _).congr ?_ ?_
    · exact ⟨fun h _ hlength => h.2 hlength.not_gt,
        fun h => ⟨trivial, fun hlength => h hlisted (not_lt.mp hlength)⟩⟩
    · exact ⟨fun h => ⟨hlisted, not_lt.mp h.1, h.2⟩, fun h => ⟨h.2.1.not_gt, h.2.2⟩⟩
  · rw [parseTags_other hother hlist]
    exact describes_bad _ (fun h => absurd h hnot) fun h => hnot h.1

private theorem parseTags_eq_ok {value : Option Json} {ss : List Text}
    (h : parseTags value = .ok ss) : ss = textsOf value := by
  rcases listing_cases value with ⟨hnone, -, htexts⟩ | ⟨xs, hvalue, hstrings, -⟩ |
    ⟨-, hother, hlist⟩
  · rw [htexts]
    rcases hnone with rfl | rfl <;> exact (Except.ok.inj h).symm
  · rw [parseTags_list hvalue hstrings] at h
    obtain ⟨-, -, h⟩ := bind_eq_ok.mp h
    obtain ⟨long, -, h⟩ := bind_eq_ok.mp h
    split at h
    · cases h
    · exact (Except.ok.inj h).symm
  · rw [parseTags_other hother hlist] at h
    cases h

/-- A flag, if anything. -/
def Flag : Option Json → Prop
  | none | some (.bool _) => True
  | some _ => False

private theorem parseDryRun_describes (value : Option Json) :
    Check.Describes ⟨True, Flag value⟩ (parseDryRun value) := by
  cases value with
  | none => exact describes_ok false trivial trivial
  | some v =>
      cases v with
      | bool b => exact describes_ok b trivial trivial
      | null => exact describes_bad _ trivial id
      | int n => exact describes_bad _ trivial id
      | float x => exact describes_bad _ trivial id
      | str s => exact describes_bad _ trivial id
      | list xs => exact describes_bad _ trivial id
      | dict entries => exact describes_bad _ trivial id

private theorem boundedStr_eq_ok {value : Option Json} {fieldName : String} {bound : ℕ}
    {required : Bool} {s : Text} (h : boundedStr value fieldName bound required = .ok s) :
    Fits bound s ∧ (required = true → s ≠ []) := by
  have hbounded := (boundedStr_describes value fieldName bound required).passes.mp ⟨s, h⟩
  have hnothing (hb : required = false) (hs : ([] : Text) = s) :
      Fits bound s ∧ (required = true → s ≠ []) := by
    refine ⟨⟨[], hs ▸ rfl, Nat.zero_le bound⟩, fun hr => ?_⟩
    rw [hb] at hr
    cases hr
  cases value with
  | none =>
      have hfalse : required = false := hbounded
      subst hfalse
      exact hnothing rfl (Except.ok.inj h)
  | some v =>
      cases v with
      | null =>
          have hfalse : required = false := hbounded
          subst hfalse
          exact hnothing rfl (Except.ok.inj h)
      | str t =>
          have hst : s = t := by
            rw [boundedStr_str] at h
            split at h
            · cases h
            · obtain ⟨n, -, h⟩ := bind_eq_ok.mp h
              split at h
              · cases h
              · exact (Except.ok.inj h).symm
          rw [hst]
          exact ⟨hbounded.2, hbounded.1⟩
      | _ => cases h

/-! ### Addresses -/

private theorem plainAddress_of_isAddress {a : Text} (h : isAddress a = true) : PlainAddress a := by
  unfold isAddress Text.partition at h
  dsimp only at h
  rw [Bool.and_eq_true, Bool.and_eq_true, Bool.and_eq_true] at h
  obtain ⟨⟨⟨hlocal, hlocals⟩, hdomains⟩, hdot⟩ := h
  obtain ⟨rest, hrest⟩ : ∃ rest, a.dropWhile (· ≠ at_) = at_ :: rest := by
    cases hdrop : a.dropWhile (· ≠ at_) with
    | nil =>
        rw [hdrop] at hdot
        cases hdot
    | cons c rest =>
        have hne : a.dropWhile (fun c => decide (c ≠ at_)) ≠ [] := by
          rw [hdrop]
          exact List.cons_ne_nil c rest
        have hc := List.head_dropWhile_not (fun c => decide (c ≠ at_)) hne
        simp only [hdrop, List.head_cons] at hc
        exact ⟨rest, by rw [not_not.mp (of_decide_eq_false hc)]⟩
  rw [hrest, List.tail_cons] at hdomains hdot
  refine ⟨a.takeWhile (· ≠ at_), rest, ?_, ?_, ?_, ?_⟩
  · rw [← hrest, List.takeWhile_append_dropWhile]
  · intro hnil
    rw [hnil] at hlocal
    cases hlocal
  · rintro rfl
    cases hdot
  · intro c hc
    rcases List.mem_append.mp hc with hc | hc
    · exact List.all_eq_true.mp hlocals c hc
    · exact List.all_eq_true.mp hdomains c hc

/-- No token ends in a line feed. -/
theorem PlainAddress.last {a : Text} (h : PlainAddress a) : a.getLast? ≠ some lineFeed := by
  obtain ⟨local_, domain, rfl, -, hdomain, hchars⟩ := h
  intro hlast
  have hmem : lineFeed ∈ domain := by
    rw [List.getLast?_append_cons] at hlast
    cases domain with
    | nil => exact absurd rfl hdomain
    | cons c domain =>
        rw [List.getLast?_cons_cons] at hlast
        exact List.mem_of_getLast? hlast
  exact absurd (hchars lineFeed (List.mem_append_right _ hmem)) (by decide)

/-- What the pattern matches is a token, or ends in a line feed. -/
theorem plainAddress_iff {a : Text} (h : matchesAddress a = true) :
    PlainAddress a ↔ a.getLast? ≠ some lineFeed := by
  refine ⟨PlainAddress.last, fun hlast => plainAddress_of_isAddress ?_⟩
  unfold matchesAddress at h
  rcases Bool.or_eq_true_iff.mp h with h | h
  · exact h
  · exact absurd (beq_iff_eq.mp (Bool.and_eq_true_iff.mp h).1) hlast

/-! ### All checks of a body -/

/-- The value of a field. -/
def field (entries : List (Text × Json)) (name : String) : Option Json :=
  Json.get? entries (text name)

/-- The checks in the order in which they are made. -/
def checks (entries : List (Text × Json)) : List Check :=
  let get := field entries
  [⟨Measurable true (get "idempotencyKey"), Bounded maxKeyBytes true (get "idempotencyKey")⟩,
    ⟨True, ∃ s, get "from" = some (.str s) ∧ matchesAddress s = true⟩,
    addressesCheck none (get "to"),
    ⟨True, textsOf (get "to") ≠ []⟩,
    addressesCheck none (get "cc"),
    addressesCheck none (get "bcc"),
    addressesCheck (some maxReplyTo) (get "replyTo"),
    ⟨True, ¬ maxRecipients < (textsOf (get "to")).length + (textsOf (get "cc")).length +
      (textsOf (get "bcc")).length⟩,
    ⟨True, ∃ s, get "subject" = some (.str s) ∧ SubjectFits s⟩,
    ⟨Measurable true (get "text"), Bounded maxTextBytes true (get "text")⟩,
    ⟨Measurable false (get "html"), Bounded maxHtmlBytes false (get "html")⟩,
    ⟨Measurable false (get "threadKey"), Bounded maxThreadKeyBytes false (get "threadKey")⟩,
    tagsCheck (get "tags"),
    ⟨True, Flag (get "dryRun")⟩]

/-- No address ends in a line feed, and the sender is not too long. -/
structure Clean (entries : List (Text × Json)) : Prop where
  lines : ∀ name ∈ ["from", "to", "cc", "bcc", "replyTo"],
    ∀ a ∈ textsOf (field entries name), a.getLast? ≠ some lineFeed
  sender : ∀ a ∈ textsOf (field entries "from"), Fits maxAddressBytes a

/-- The body is refused before a text without an encoding is measured, and if it is not refused it
is clean. -/
def Sound : Json → Prop
  | .dict entries => (∀ e ∈ entries, e.1 ∈ fields) → Reached (Clean entries) (checks entries)
  | _ => True

private theorem unknownFields_eq_nil_iff {entries : List (Text × Json)} :
    unknownFields entries = [] ↔ ∀ e ∈ entries, e.1 ∈ fields := by
  unfold unknownFields
  rw [← List.length_eq_zero_iff, List.length_mergeSort, List.length_eq_zero_iff,
    List.filter_eq_nil_iff]
  simp

private theorem parseSend_unknown (repr : Text → Text) {entries : List (Text × Json)}
    (h : unknownFields entries ≠ []) : ∃ detail, parseSend repr (.dict entries) =
      .error (bad detail) := by
  cases hunknown : unknownFields entries with
  | nil => exact absurd hunknown h
  | cons key keys =>
      refine ⟨text "unknown field " ++ repr key ++ text " in request body", ?_⟩
      unfold parseSend
      simp -zeta only [hunknown]
      rfl

/-- Of a message that passes all checks the limits are those of its addresses. -/
theorem withinLimits_iff {entries : List (Text × Json)} {msg : MailSend}
    (hkey : boundedStr (field entries "idempotencyKey") "idempotencyKey" maxKeyBytes true =
      .ok msg.idempotencyKey)
    (hfrom : parseFrom (field entries "from") = .ok msg.fromAddr)
    (hto : addresses (field entries "to") "to" none = .ok msg.to_)
    (hne : msg.to_ ≠ [])
    (hcc : addresses (field entries "cc") "cc" none = .ok msg.cc)
    (hbcc : addresses (field entries "bcc") "bcc" none = .ok msg.bcc)
    (hreply : addresses (field entries "replyTo") "replyTo" (some maxReplyTo) = .ok msg.replyTo)
    (hcount : msg.to_.length + msg.cc.length + msg.bcc.length ≤ maxRecipients)
    (hsubject : parseSubject (field entries "subject") = .ok msg.subject)
    (htext : boundedStr (field entries "text") "text" maxTextBytes true = .ok msg.text)
    (hhtml : boundedStr (field entries "html") "html" maxHtmlBytes false = .ok msg.html)
    (hthread : boundedStr (field entries "threadKey") "threadKey" maxThreadKeyBytes false =
      .ok msg.threadKey)
    (htags : parseTags (field entries "tags") = .ok msg.tags) :
    WithinLimits msg ↔ Clean entries := by
  have hlisted {name : String} {maximum : Option ℕ} {ss : List Text}
      (h : addresses (field entries name) name maximum = .ok ss) :
      textsOf (field entries name) = ss ∧ (∀ a ∈ ss, AddressFits a) ∧
        ∀ m, maximum = some m → ss.length ≤ m := by
    have hss := addresses_eq_ok h
    have hpasses := (addresses_describes _ name maximum).passes.mp ⟨ss, h⟩
    exact ⟨hss.symm, hss ▸ hpasses.2⟩
  obtain ⟨htoTexts, hto, -⟩ := hlisted hto
  obtain ⟨hccTexts, hcc, -⟩ := hlisted hcc
  obtain ⟨hbccTexts, hbcc, -⟩ := hlisted hbcc
  obtain ⟨hreplyTexts, hreply, hreplyCount⟩ := hlisted hreply
  have hfromValue := parseFrom_eq_ok hfrom
  have hfromTexts : textsOf (field entries "from") = [msg.fromAddr] := by
    rw [hfromValue]
    rfl
  have hfromMatch : matchesAddress msg.fromAddr = true := by
    obtain ⟨s, hs, hmatch⟩ := (parseFrom_describes _).passes.mp ⟨_, hfrom⟩
    obtain rfl := Json.str.inj (Option.some.inj (hfromValue.symm.trans hs))
    exact hmatch
  have htagsTexts := parseTags_eq_ok htags
  obtain ⟨-, htagCount, htagFits⟩ := (parseTags_describes _).passes.mp ⟨_, htags⟩
  rw [← htagsTexts] at htagCount htagFits
  constructor
  · intro h
    have hall : ∀ a ∈ msg.addresses, a.getLast? ≠ some lineFeed :=
      fun a ha => (h.addresses a ha).1.last
    unfold MailSend.addresses at hall
    simp only [List.forall_mem_cons, List.forall_mem_append] at hall
    obtain ⟨hf, ⟨⟨hto', hcc'⟩, hbcc'⟩, hreply'⟩ := hall
    refine ⟨?_, ?_⟩
    · simp only [List.forall_mem_cons, hfromTexts, htoTexts, hccTexts, hbccTexts, hreplyTexts]
      exact ⟨⟨hf, List.forall_mem_nil _⟩, hto', hcc', hbcc', hreply', List.forall_mem_nil _⟩
    · rw [hfromTexts, List.forall_mem_singleton]
      exact (h.addresses msg.fromAddr List.mem_cons_self).2
  · intro h
    have hlines := h.lines
    simp only [List.forall_mem_cons, hfromTexts, htoTexts, hccTexts, hbccTexts,
      hreplyTexts] at hlines
    obtain ⟨⟨hf, -⟩, hto', hcc', hbcc', hreply', -⟩ := hlines
    have hplain {ss : List Text} (haccepted : ∀ a ∈ ss, AddressFits a)
        (hlast : ∀ a ∈ ss, a.getLast? ≠ some lineFeed) :
        ∀ a ∈ ss, PlainAddress a ∧ Fits maxAddressBytes a := fun a ha =>
      ⟨(plainAddress_iff (haccepted a ha).1).mpr (hlast a ha), (haccepted a ha).2⟩
    refine ⟨?_, ?_, ?_, hne, hcount, hreplyCount _ rfl, ⟨htagCount, htagFits⟩, ?_, ?_, ?_⟩
    · unfold MailSend.addresses
      simp only [List.forall_mem_cons, List.forall_mem_append]
      refine ⟨⟨(plainAddress_iff hfromMatch).mpr hf, h.sender _ ?_⟩,
        ⟨⟨hplain hto hto', hplain hcc hcc'⟩, hplain hbcc hbcc'⟩, hplain hreply hreply'⟩
      rw [hfromTexts]
      exact List.mem_singleton_self _
    · exact ⟨(boundedStr_eq_ok hkey).2 rfl, (boundedStr_eq_ok hkey).1⟩
    · exact (parseSubject_eq_ok_iff.mp hsubject).2
    · exact ⟨(boundedStr_eq_ok htext).2 rfl, (boundedStr_eq_ok htext).1⟩
    · exact (boundedStr_eq_ok hhtml).1
    · exact (boundedStr_eq_ok hthread).1

/-- For every value of JSON: the validation refuses it or returns a message within the limits
exactly if the value is sound. -/
theorem enforced_iff_sound (repr : Text → Text) (body : Json) :
    Enforced repr body ↔ Sound body := by
  rw [enforced_iff]
  cases body with
  | dict entries =>
      by_cases hfields : unknownFields entries = []
      · have hall := unknownFields_eq_nil_iff.mp hfields
        have hsound : Sound (.dict entries) ↔ Reached (Clean entries) (checks entries) :=
          forall_prop_of_true hall
        rw [hsound, parseSend_dict repr hfields]
        refine (boundedStr_describes _ _ _ _).holds_iff fun key hkey => ?_
        refine (parseFrom_describes _).holds_iff fun fromAddr hfrom => ?_
        refine (addresses_describes _ _ _).holds_iff fun to_ hto => ?_
        obtain rfl := addresses_eq_ok hto
        refine (refuse_describes _ _).holds_iff fun _ hne => ?_
        refine (addresses_describes _ _ _).holds_iff fun cc hcc => ?_
        obtain rfl := addresses_eq_ok hcc
        refine (addresses_describes _ _ _).holds_iff fun bcc hbcc => ?_
        obtain rfl := addresses_eq_ok hbcc
        refine (addresses_describes _ _ _).holds_iff fun replyTo hreply => ?_
        refine (refuse_describes _ _).holds_iff fun _ hcount => ?_
        refine (parseSubject_describes _).holds_iff fun subject hsubject => ?_
        refine (boundedStr_describes _ _ _ _).holds_iff fun body_ htext => ?_
        refine (boundedStr_describes _ _ _ _).holds_iff fun html hhtml => ?_
        refine (boundedStr_describes _ _ _ _).holds_iff fun threadKey hthread => ?_
        refine (parseTags_describes _).holds_iff fun tags htags => ?_
        refine (parseDryRun_describes _).holds_iff fun dryRun hdry => ?_
        have hpassed {c : Prop} [Decidable c] {detail : Text} (h : refuse c detail = .ok ()) :
            ¬ c :=
          (refuse_describes c detail).passes.mp ⟨(), h⟩
        unfold Holds Reached
        rw [and_iff_right (spares_ok _)]
        simp only [Except.ok.injEq, forall_eq']
        exact withinLimits_iff hkey hfrom hto (hpassed hne) hcc hbcc hreply
          (not_lt.mp (hpassed hcount)) hsubject htext hhtml hthread htags
      · have hunknown : ¬ ∀ e ∈ entries, e.1 ∈ fields :=
          fun h => hfields (unknownFields_eq_nil_iff.mpr h)
        obtain ⟨detail, hbad⟩ := parseSend_unknown repr hfields
        rw [hbad]
        exact iff_of_true ⟨spares_error_iff.mpr (not_not.mpr (refuses_bad detail)), nofun⟩
          fun h => absurd h hunknown
  | _ => exact iff_of_true ⟨spares_error_iff.mpr (not_not.mpr (refuses_bad _)), nofun⟩ trivial

/-- A send whose sender ends in a line feed. -/
private def injected : Json :=
  .dict [(text "idempotencyKey", .str (text "k")),
    (text "from", .str (text "eve@corp.example" ++ [lineFeed])),
    (text "to", .list [.str (text "ann@corp.example")]), (text "subject", .str (text "s")),
    (text "text", .str (text "t"))]

/-- The final line feed of a sender gets through. -/
theorem not_enforced_injected : ¬ ∀ repr body, Enforced repr body := by
  intro h
  have henforced := h id injected
  have hsender : (parseSend id injected).toOption.map MailSend.fromAddr =
      some (text "eve@corp.example" ++ [lineFeed]) := by decide +kernel
  unfold Enforced at henforced
  cases hparse : parseSend id injected with
  | error e =>
      rw [hparse] at hsender
      cases hsender
  | ok msg =>
      rw [hparse] at hsender henforced
      have hfrom : msg.fromAddr = text "eve@corp.example" ++ [lineFeed] :=
        Option.some.inj hsender
      have hplain := (henforced.addresses msg.fromAddr List.mem_cons_self).1
      exact hplain.last (by rw [hfrom, List.getLast?_concat])

end Jetty.Mail
