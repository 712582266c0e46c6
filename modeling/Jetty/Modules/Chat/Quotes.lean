import Jetty.Core.Monitor
import Jetty.Modules.Chat.Store
import Mathlib.Algebra.Order.Group.Unbundled.Abs

/-!
# Quotes of messages that have changed

A quote names the version of the message that it was made from by a time only. The driver compares
it with the time of the current version and takes times as equal that are a microsecond apart.
-/

namespace Jetty.Chat

open Python Transition

/-- The time that a client sees on a message. -/
def Message.seen (m : Message) : ℚ := if m.updateTime = 0 then m.createTime else m.updateTime

/-- A version of a message that a client may have seen. -/
structure Version where
  name : Text
  time : ℚ
  /-- A later patch has changed the message. -/
  outdated : Bool
deriving DecidableEq

namespace MockChatDriver

variable {S T : MockChatDriver} {repr : Repr} {vs : List Version}

/-- The versions there are to see. -/
def current (S : MockChatDriver) : List Version :=
  S.messages.entries.map fun entry => ⟨entry.1, entry.2.seen, false⟩

/-- The request changes the text of the message. -/
def changes (S : MockChatDriver) : ChatEvent → Text → Bool
  | .patchMessage name (some body) _, other =>
    decide (name = other) && (S.messages.get? other).any fun m => m.text ≠ body
  | _, _ => false

/-- The versions that have been there to see. -/
def remember (vs : List Version) (S : MockChatDriver) (e : ChatEvent) (T : MockChatDriver) :
    List Version :=
  (vs.map fun v => { v with outdated := v.outdated || S.changes e v.name }) ++ T.current

/-- A quote request with the time of a version is accepted only if the message has not been changed
since. -/
def QuotesCurrent (repr : Repr) (S : MockChatDriver) (vs : List Version) : Prop :=
  ∀ v ∈ vs, ∀ space req now message, req.quote = some ⟨.str v.name, v.time⟩ →
    (S.createMessage repr space req now).2 = .ok message → v.outdated = false

/-- A patch gives the message a time more than a microsecond from the times of the versions that it
leaves outdated. -/
def Spaced (x : MockChatDriver × List Version) : ChatEvent → Prop
  | .patchMessage name (some body) now => ∀ m, x.1.messages.get? name = some m → ∀ v ∈ x.2,
      v.name = name → v.outdated = true ∨ m.text ≠ body →
        1 / 1000000 < |(if now = 0 then m.createTime else now) - v.time|
  | _ => True

/-! ### What a quote is compared with -/

/-- A quote that is accepted has the time of the message, to the microsecond. -/
theorem resolveQuote_time {req : QuoteRequest} {thread : Text} {quote : Quote}
    (h : S.resolveQuote repr req thread = .ok quote) :
    ∃ m, fetch S.messages req.name = .ok (some m) ∧
      |m.seen - req.lastUpdateTime| ≤ 1 / 1000000 := by
  unfold resolveQuote at h
  cases hfetch : fetch S.messages req.name with
  | error e =>
      rw [hfetch] at h
      cases h
  | ok found =>
      rw [hfetch] at h
      cases found with
      | none => cases h
      | some m =>
          refine ⟨m, rfl, ?_⟩
          by_contra hfar
          have hfar' : 1 / 1000000 < |m.seen - req.lastUpdateTime| := not_le.mp hfar
          simp only [Message.seen] at hfar'
          simp only [bind, Except.bind, if_pos hfar'] at h
          cases h

private theorem createMessage_time {space : Text} {req : MessageCreate} {now : ℚ}
    {message : Message} {name : Text} {time : ℚ} (hquote : req.quote = some ⟨.str name, time⟩)
    (h : (S.createMessage repr space req now).2 = .ok message) :
    ∃ m, S.messages.get? name = some m ∧ |m.seen - time| ≤ 1 / 1000000 := by
  obtain ⟨hmessages, -⟩ := resolveThread_untouched (S := S) repr space req
  unfold createMessage at h
  generalize S.resolveThread repr space req = resolved at hmessages h
  obtain ⟨T, e | thread⟩ := resolved
  · cases h
  · dsimp only at hmessages h
    cases hrefs : T.resolveRefs repr req thread with
    | error e =>
        rw [hrefs] at h
        cases h
    | ok refs =>
        unfold resolveRefs at hrefs
        rw [hquote, Option.mapM_some] at hrefs
        cases hresolve : T.resolveQuote repr ⟨.str name, time⟩ thread with
        | error e =>
            rw [hresolve] at hrefs
            cases hrefs
        | ok quote =>
            obtain ⟨m, hfetch, htime⟩ := resolveQuote_time hresolve
            refine ⟨m, ?_, htime⟩
            rw [← hmessages]
            exact Except.ok.inj hfetch

/-! ### What holds in every state -/

/-- The number in a message's name has been given. -/
def Given (S : MockChatDriver) (name : Text) : Prop :=
  ∃ space n, name = messageName space n ∧ n < S.counter

/-- Outdated versions cannot be quoted, and no name will be given again. -/
structure Kept (x : MockChatDriver × List Version) : Prop where
  given : ∀ name ∈ x.1.messages.keys, x.1.Given name
  remembered : ∀ v ∈ x.2, x.1.Given v.name
  apart : ∀ v ∈ x.2, v.outdated = true → ∀ m, x.1.messages.get? v.name = some m →
    1 / 1000000 < |m.seen - v.time|

private theorem Given.mono {name : Text} (h : S.Given name) (hcounter : S.counter ≤ T.counter) :
    T.Given name := by
  obtain ⟨space, n, hname, hn⟩ := h
  exact ⟨space, n, hname, hn.trans_le hcounter⟩

private theorem counter_le_serve (repr : Repr) (S : MockChatDriver) (e : ChatEvent) :
    S.counter ≤ (S.serve repr e).counter := by
  rcases serve_cases (S := S) repr e with ⟨-, space, n, message, hn, hnext, -⟩ |
    ⟨name, -, -, -, hcounter⟩ | ⟨-, -, -, hcounter⟩
  · rw [hnext]
    exact Nat.le_succ_of_le hn
  · exact hcounter
  · exact hcounter

variable (repr) in
private theorem given_serve (h : ∀ name ∈ S.messages.keys, S.Given name) (e : ChatEvent) :
    ∀ name ∈ (S.serve repr e).messages.keys, (S.serve repr e).Given name := by
  intro name hname
  have hcounter := counter_le_serve repr S e
  rcases serve_cases (S := S) repr e with ⟨-, space, n, message, hn, hnext, hnamed, hmessages, -⟩ |
    ⟨other, -, -, hkeys, -⟩ | ⟨hmessages, -, -, -⟩
  · rw [hmessages, Dict.mem_keys_set] at hname
    rcases hname with hold | rfl
    · exact (h name hold).mono hcounter
    · exact ⟨space, n, hnamed, by rw [hnext]; exact Nat.lt_succ_self n⟩
  · exact (h name (hkeys name hname)).mono hcounter
  · exact (h name (hmessages ▸ hname)).mono hcounter

/-- A message that is there after a step was there before, as it is unless the step is a patch. -/
theorem get?_of_get?_serve {e : ChatEvent} {name : Text} {m : Message} (hgiven : S.Given name)
    (hpatch : ∀ body now, e ≠ .patchMessage name (some body) now)
    (hm : (S.serve repr e).messages.get? name = some m) : S.messages.get? name = some m := by
  cases e with
  | createSpace req => exact hm
  | createMessage space req now =>
      rcases createMessage_writes (S := S) repr space req now with ⟨hsame, -⟩ |
        ⟨n, message, hn, -, hnamed, hset, -⟩
      · exact hsame ▸ hm
      · have hne : name ≠ message.name := by
          rintro rfl
          obtain ⟨space', k, hk, hlt⟩ := hgiven
          obtain rfl : n = k := messageName_number (hnamed.symm.trans hk)
          exact absurd hlt (Nat.not_lt.mpr hn)
        rw [serve, hset, Dict.get?_set_of_ne hne] at hm
        exact hm
  | patchMessage other body now =>
      rw [serve, patchMessage] at hm
      cases hother : S.messages.get? other with
      | none =>
          rw [hother] at hm
          exact hm
      | some old =>
          rw [hother] at hm
          cases body with
          | none => exact hm
          | some body =>
              have hne : name ≠ other := by
                rintro rfl
                exact hpatch body now rfl
              exact (Dict.get?_set_of_ne hne).symm.trans hm
  | deleteMessage other =>
      obtain ⟨hlocal, hkeys, -⟩ := deleteMessage_local (S := S) other
      have hne : name ≠ other := by
        rintro rfl
        rw [serve, deleteMessage] at hm
        cases hmessage : S.messages.get? name with
        | none =>
            rw [hmessage] at hm
            cases hmessage.symm.trans hm
        | some old =>
            rw [hmessage] at hm
            dsimp only at hm
            split at hm
            · cases Dict.get?_erase_self.symm.trans hm
            · split at hm <;> cases Dict.get?_erase_self.symm.trans hm
      exact (hlocal name hne).1.symm.trans hm
  | createReaction message emoji =>
      rw [serve] at hm
      split at hm <;> exact hm
  | deleteReaction other =>
      rw [serve, deleteReaction] at hm
      split at hm <;> exact hm
  | uploadAttachment space upload =>
      rw [serve, uploadAttachment] at hm
      split at hm <;> exact hm

private theorem get?_patchMessage {name body : Text} {now : ℚ} {m : Message}
    (hm : (S.serve repr (.patchMessage name (some body) now)).messages.get? name = some m) :
    ∃ old, S.messages.get? name = some old ∧ m = { old with text := body, updateTime := now } := by
  rw [serve, patchMessage] at hm
  cases hold : S.messages.get? name with
  | none =>
      rw [hold] at hm
      cases hold.symm.trans hm
  | some old =>
      rw [hold] at hm
      exact ⟨old, rfl, Option.some.inj (hm.symm.trans Dict.get?_set_self)⟩

private theorem changes_eq_true {e : ChatEvent} {name : Text} (h : S.changes e name = true) :
    ∃ body now, e = .patchMessage name (some body) now := by
  unfold changes at h
  split at h
  · rename_i other body now
    obtain ⟨hname, -⟩ := Bool.and_eq_true_iff.mp h
    exact ⟨body, now, by rw [of_decide_eq_true hname]⟩
  · cases h

/-- A version that a patch leaves outdated. -/
theorem outdated_of_patch {name body : Text} {now : ℚ} {m : Message} {b : Bool}
    (hm : S.messages.get? name = some m)
    (h : (b || S.changes (.patchMessage name (some body) now) name) = true) :
    b = true ∨ m.text ≠ body := by
  rcases Bool.or_eq_true_iff.mp h with hb | hchanges
  · exact .inl hb
  · right
    simpa [changes, hm] using hchanges

private theorem Kept.step {x y : MockChatDriver × List Version} {e : ChatEvent} (h : Kept x)
    (hspaced : Spaced x e) (hstep : (Serves repr).monitored remember x e y) : Kept y := by
  obtain ⟨S, vs⟩ := x
  obtain ⟨T, ws⟩ := y
  obtain ⟨hT, hws⟩ := hstep
  change T = S.serve repr e at hT
  change ws = remember vs S e T at hws
  subst hT hws
  have hcounter := counter_le_serve repr S e
  have hgiven := given_serve repr h.given e
  refine ⟨hgiven, fun w hw => ?_, fun w hw houtdated m hm => ?_⟩
  · rcases List.mem_append.mp hw with hw | hw
    · obtain ⟨v, hv, rfl⟩ := List.mem_map.mp hw
      exact (h.remembered v hv).mono hcounter
    · obtain ⟨entry, hentry, rfl⟩ := List.mem_map.mp hw
      exact hgiven _ (List.mem_map.mpr ⟨entry, hentry, rfl⟩)
  · rcases List.mem_append.mp hw with hw | hw
    · obtain ⟨v, hv, rfl⟩ := List.mem_map.mp hw
      dsimp only at houtdated hm ⊢
      by_cases hpatch : ∃ body now, e = .patchMessage v.name (some body) now
      · obtain ⟨body, now, rfl⟩ := hpatch
        obtain ⟨old, hold, rfl⟩ := get?_patchMessage hm
        exact hspaced old hold v hv rfl (outdated_of_patch hold houtdated)
      · have hsame : S.messages.get? v.name = some m :=
          get?_of_get?_serve (h.remembered v hv) (fun body now he => hpatch ⟨body, now, he⟩) hm
        rcases Bool.or_eq_true_iff.mp houtdated with hold | hchanges
        · exact h.apart v hv hold m hsame
        · exact absurd (changes_eq_true hchanges) hpatch
    · obtain ⟨entry, -, rfl⟩ := List.mem_map.mp hw
      cases houtdated

private theorem Kept.quotesCurrent {x : MockChatDriver × List Version} (h : Kept x) :
    QuotesCurrent repr x.1 x.2 := by
  intro v hv space req now message hquote haccepted
  by_contra houtdated
  rw [Bool.not_eq_false] at houtdated
  obtain ⟨m, hm, htime⟩ := createMessage_time hquote haccepted
  exact absurd htime (not_le.mpr (h.apart v hv houtdated m hm))

private theorem kept_init {identity : Text} {spaces : List SeedSpace} {messages : List SeedMessage}
    (h : init identity spaces messages = some S) : Kept (S, S.current) := by
  have hgiven : ∀ name ∈ S.messages.keys, S.Given name := by
    refine init_induct (motive := fun S => ∀ name ∈ S.messages.keys, S.Given name) h nofun
      (fun _ _ hS => hS) fun S row hS name hname => ?_
    obtain ⟨n, message, hn, hnext, hnamed, hmessages, -⟩ :=
      insert_inserts (S := S) (spaceName row.space) row.sender row.text [] row.now [] none
    rw [hmessages, Dict.mem_keys_set] at hname
    rcases hname with hold | rfl
    · exact (hS name hold).mono (by rw [hnext]; exact Nat.le_succ_of_le hn)
    · exact ⟨_, n, hnamed, by rw [hnext]; exact Nat.lt_succ_self n⟩
  refine ⟨hgiven, fun v hv => ?_, fun v hv houtdated => ?_⟩
  · obtain ⟨entry, hentry, rfl⟩ := List.mem_map.mp hv
    exact hgiven _ (List.mem_map.mpr ⟨entry, hentry, rfl⟩)
  · obtain ⟨entry, -, rfl⟩ := List.mem_map.mp hv
    cases houtdated

/-! ### Runs -/

/-- In every run in which each patch gives its message a time more than a microsecond from the times
of the versions that it leaves outdated, a quote request is accepted only with the time of a version
that no patch has changed since. -/
theorem quotes_current {identity : Text} {spaces : List SeedSpace} {messages : List SeedMessage}
    {es : List ChatEvent} (hinit : init identity spaces messages = some S)
    (hrun : Run (((Serves repr).monitored remember).within Spaced) (S, S.current) es (T, vs)) :
    QuotesCurrent repr T vs := by
  have hkept : Kept (T, vs) := hrun.invariant Kept (kept_init hinit)
    fun _ _ _ hx hstep => hx.step hstep.1 hstep.2
  exact hkept.quotesCurrent

/-- A space with one message, of the time 1. -/
private def quotable : Option MockChatDriver :=
  init (text "users/me") [{ id := text "a" }] [{ space := text "a", text := text "hi", now := 1 }]

private def quotedName : Text := text "spaces/a/messages/m2"

/-- Its text is changed. -/
private def correction (now : ℚ) : ChatEvent := .patchMessage quotedName (some (text "ho")) now

/-- It is quoted with the time it was created at. -/
private def quotation : MessageCreate :=
  { text := text "see above", quote := some ⟨.str quotedName, 1⟩ }

private theorem run_correction (S : MockChatDriver) (now : ℚ) :
    Run ((Serves asciiRepr).monitored remember) (S, S.current) [correction now]
      (S.serve asciiRepr (correction now),
        remember S.current S (correction now) (S.serve asciiRepr (correction now))) :=
  .single ⟨rfl, rfl⟩

/-- A correction a second later outdates the first version. -/
theorem quotes_current_corrected : ∃ S T vs, quotable = some S ∧
    T = S.serve asciiRepr (correction 2) ∧ ⟨quotedName, 1, true⟩ ∈ vs ∧
      QuotesCurrent asciiRepr T vs := by
  obtain ⟨S, hS⟩ : ∃ S, quotable = some S := ⟨_, rfl⟩
  have hcurrent : S.current = [⟨quotedName, 1, false⟩] := by
    obtain rfl := Option.some.inj hS
    decide +kernel
  have hspaced : Spaced (S, S.current) (correction 2) := by
    intro m _ v hv _ _
    rw [hcurrent, List.mem_singleton] at hv
    subst hv
    rw [if_neg (by decide)]
    decide +kernel
  refine ⟨S, _, remember S.current S (correction 2) _, hS, rfl, ?_,
    quotes_current hS (.single ⟨hspaced, rfl, rfl⟩)⟩
  obtain rfl := Option.some.inj hS
  decide +kernel

/-- A message is changed a microsecond after it was created; a quote with the time of its creation
is accepted. -/
theorem not_quotes_current_adjacent : ¬ ∀ (repr : Repr) (identity : Text) (spaces : List SeedSpace)
    (messages : List SeedMessage) (S T : MockChatDriver) (es : List ChatEvent) (vs : List Version),
    init identity spaces messages = some S →
      Run ((Serves repr).monitored remember) (S, S.current) es (T, vs) →
        QuotesCurrent repr T vs := by
  intro h
  obtain ⟨S, hS⟩ : ∃ S, quotable = some S := ⟨_, rfl⟩
  have hquotes := h asciiRepr _ _ _ S _ _ _ hS (run_correction S (1 + 1 / 1000000))
  have hseen : ⟨quotedName, 1, true⟩ ∈ remember S.current S (correction (1 + 1 / 1000000))
      (S.serve asciiRepr (correction (1 + 1 / 1000000))) := by
    obtain rfl := Option.some.inj hS
    decide +kernel
  have haccepted : ((S.serve asciiRepr (correction (1 + 1 / 1000000))).createMessage asciiRepr
      (text "spaces/a") quotation 3).2.isOk = true := by
    obtain rfl := Option.some.inj hS
    decide +kernel
  cases hcreated : ((S.serve asciiRepr (correction (1 + 1 / 1000000))).createMessage asciiRepr
      (text "spaces/a") quotation 3).2 with
  | error e =>
      rw [hcreated] at haccepted
      cases haccepted
  | ok message => cases hquotes _ hseen _ _ _ _ rfl hcreated

end MockChatDriver

end Jetty.Chat
