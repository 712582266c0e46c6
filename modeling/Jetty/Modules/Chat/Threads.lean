import Jetty.Modules.Chat.Binding
import Jetty.Modules.Chat.Names

/-!
# Threads and their spaces

The threads of all spaces are one set. A reply that names a thread is put there if the thread is
known, in whatever space it was opened.
-/

namespace Jetty.Chat

open Python Transition

/-- The name of a thread ends in its number. -/
theorem threadName_eq (space : Text) (n : ℕ) : threadName space n =
    (space ++ Text.slash :: text "threads") ++ Text.slash :: (0x74 :: numeral n) := by
  have hmiddle : text "/threads/t" =
      Text.slash :: text "threads" ++ Text.slash :: [0x74] := by decide +kernel
  rw [threadName, hmiddle]
  simp only [List.append_assoc, List.cons_append, List.nil_append]

private theorem owner_threadName (space : Text) (n : ℕ) : owner (threadName space n) = space := by
  rw [owner, threadName_eq,
    Text.beforeLast_append _ (slash_not_mem_generated (by decide) n),
    Text.beforeLast_append space (by decide +kernel)]

/-- No thread has an empty name. -/
theorem threadName_ne_nil (space : Text) (n : ℕ) : threadName space n ≠ [] := by
  rw [threadName_eq]
  simp

namespace MockChatDriver

variable {S T : MockChatDriver} {repr : Repr} {space : Text} {req : MessageCreate}

/-- A known thread of the space. -/
def OwnThread (S : MockChatDriver) (space thread : Text) : Prop :=
  thread ∈ S.threads ∧ owner thread = space

/-- Messages and keys have threads of their own spaces. -/
structure Sorted (S : MockChatDriver) : Prop where
  opened : ∀ thread ∈ S.threads, ∃ space n, thread = threadName space n
  message : ∀ name message, S.messages.get? name = some message →
    S.OwnThread (owner name) message.thread
  key : ∀ entry ∈ S.threadKeys, S.OwnThread entry.1 entry.2.2

/-- The reply names a thread of another space. -/
def Strays (S : MockChatDriver) (space : Text) (req : MessageCreate) : Prop :=
  req.reply ≠ .new ∧
    ∃ thread, req.thread = .str thread ∧ thread ∈ S.threads ∧ owner thread ≠ space

/-- What happens to a reply that names a thread which is not there. -/
def Missing (repr : Repr) (S : MockChatDriver) (space : Text) (req : MessageCreate) : Prop :=
  S.resolveThread repr space req =
    (S, if req.reply = .orFail then .error (.threadNotFound (repr.str req.thread)) else .ok [])

private theorem knownThread_eq_some {v : Json} {thread : Text} (h : S.knownThread v = some thread) :
    v = .str thread ∧ thread ∈ S.threads := by
  cases v with
  | str s =>
      rw [knownThread] at h
      split at h
      · rename_i hmem
        obtain rfl := Option.some.inj h
        exact ⟨rfl, hmem⟩
      · cases h
  | _ => cases h

private theorem boundThread_eq_some {key : Json} {thread : Text}
    (h : S.boundThread space key = some thread) :
    ∃ entry ∈ S.threadKeys, entry.1 = space ∧ entry.2.2 = thread := by
  obtain ⟨entry, hentry, heq⟩ := Option.map_eq_some_iff.mp h
  have hkey := List.find?_some hentry
  rw [Bool.and_eq_true, decide_eq_true_eq] at hkey
  exact ⟨entry, List.mem_of_find?_eq_some hentry, hkey.1, heq⟩

/-- Where a resolved thread comes from, if it is not opened on the way. -/
theorem resolvedThread_cases {thread : Text}
    (h : S.resolveThread repr space req = (S, .ok thread)) :
    thread = [] ∨ (req.reply ≠ .new ∧ req.thread = .str thread ∧ thread ∈ S.threads) ∨
      ∃ entry ∈ S.threadKeys, entry.1 = space ∧ entry.2.2 = thread := by
  unfold resolveThread at h
  by_cases hnew : req.reply = .new ∨ ¬ (req.thread.truthy = true ∨ req.threadKey.truthy = true)
  · rw [if_pos hnew] at h
    cases h
    exact .inl rfl
  rw [if_neg hnew] at h
  have hreply : req.reply ≠ .new := fun hreply => hnew (.inl hreply)
  by_cases hthread : req.thread.truthy = true
  · rw [if_pos hthread] at h
    by_cases hhash : req.thread.hashable = true
    · rw [if_pos hhash] at h
      cases hknown : S.knownThread req.thread with
      | some known =>
          rw [hknown] at h
          cases h
          exact .inr (.inl ⟨hreply, knownThread_eq_some hknown⟩)
      | none =>
          rw [hknown] at h
          dsimp only at h
          split at h
          · cases h
          · cases h
            exact .inl rfl
    · rw [if_neg hhash] at h
      cases h
  rw [if_neg hthread] at h
  by_cases hhash : req.threadKey.hashable = true
  · rw [if_pos hhash] at h
    cases hbound : S.boundThread space req.threadKey with
    | some bound =>
        rw [hbound] at h
        cases h
        exact .inr (.inr (boundThread_eq_some hbound))
    | none =>
        rw [hbound] at h
        dsimp only at h
        split at h
        · cases h
        · have hcounter := congrArg (fun r => r.1.counter) h
          exact absurd hcounter (Nat.succ_ne_self _)
  · rw [if_neg hhash] at h
    cases h

/-- A thread that a message is resolved to is new or one of its own space. -/
theorem Sorted.resolveThread (h : S.Sorted) (hstrays : ¬ S.Strays space req) :
    (S.resolveThread repr space req).1.Sorted ∧
      ∀ thread, (S.resolveThread repr space req).2 = .ok thread →
        thread = [] ∨ (S.resolveThread repr space req).1.OwnThread space thread := by
  rcases resolveThread_cases (S := S) repr with
    ⟨-, result, hresolve⟩ | ⟨-, hresolve⟩
  · rw [hresolve]
    refine ⟨h, fun thread hthread => ?_⟩
    dsimp only at hthread
    rw [hthread] at hresolve
    rcases resolvedThread_cases hresolve with hnil | ⟨hreply, hname, hmem⟩ |
      ⟨entry, hentry, hspace, rfl⟩
    · exact .inl hnil
    · refine .inr ⟨hmem, ?_⟩
      by_contra howner
      exact hstrays ⟨hreply, thread, hname, hmem, howner⟩
    · exact .inr (hspace ▸ h.key entry hentry)
  · rw [hresolve]
    have hown : (S.bindKey space req.threadKey).OwnThread space (threadName space S.counter) :=
      ⟨List.mem_cons_self, owner_threadName _ _⟩
    refine ⟨⟨?_, fun name m hm => ?_, fun entry hentry => ?_⟩, fun thread hthread => ?_⟩
    · rintro thread (_ | ⟨_, hthread⟩)
      · exact ⟨space, S.counter, rfl⟩
      · exact h.opened thread hthread
    · obtain ⟨hmem, howner⟩ := h.message name m hm
      exact ⟨List.mem_cons_of_mem _ hmem, howner⟩
    · rcases List.mem_append.mp hentry with hentry | hentry
      · obtain ⟨hmem, howner⟩ := h.key entry hentry
        exact ⟨List.mem_cons_of_mem _ hmem, howner⟩
      · rw [List.mem_singleton.mp hentry]
        exact hown
    · obtain rfl := Except.ok.inj hthread
      exact .inr hown

/-- Messages may go, and one may be written with a thread of its space. -/
theorem Sorted.of_messages (h : S.Sorted) (hthreads : T.threads = S.threads)
    (hkeys : T.threadKeys = S.threadKeys)
    (hmessages : ∀ name m, T.messages.get? name = some m →
      S.messages.get? name = some m ∨ S.OwnThread (owner name) m.thread) : T.Sorted := by
  have hown {space thread : Text} (hthread : S.OwnThread space thread) :
      T.OwnThread space thread := ⟨hthreads ▸ hthread.1, hthread.2⟩
  refine ⟨fun thread hthread => h.opened thread (hthreads ▸ hthread), fun name m hm => ?_,
    fun entry hentry => hown (h.key entry (hkeys ▸ hentry))⟩
  rcases hmessages name m hm with hold | hnew
  · exact hown (h.message name m hold)
  · exact hown hnew

private theorem Sorted.newThread (h : S.Sorted) (space : Text) : (S.newThread space).1.Sorted ∧
    (S.newThread space).1.OwnThread space (S.newThread space).2 := by
  have hown {other thread : Text} (hthread : S.OwnThread other thread) :
      (S.newThread space).1.OwnThread other thread :=
    ⟨List.mem_cons_of_mem _ hthread.1, hthread.2⟩
  refine ⟨⟨?_, fun name m hm => hown (h.message name m hm), fun entry hentry =>
    hown (h.key entry hentry)⟩, List.mem_cons_self, owner_threadName _ _⟩
  rintro thread (_ | ⟨_, hthread⟩)
  · exact ⟨space, S.counter, rfl⟩
  · exact h.opened thread hthread

/-- A message in a new thread, or in one of its space. -/
theorem Sorted.insert (h : S.Sorted) {thread : Text}
    (hthread : thread = [] ∨ S.OwnThread space thread) (sender body : Text) (now : ℚ)
    (attachments : List Attachment) (quoted : Option Quote) :
    (S.insert space sender body thread now attachments quoted).1.Sorted := by
  have hset {S : MockChatDriver} (h : S.Sorted) {thread : Text} (hown : S.OwnThread space thread)
      {T : MockChatDriver} (hthreads : T.threads = S.threads) (hkeys : T.threadKeys = S.threadKeys)
      {m : Message} (hm : m.thread = thread)
      (hmessages : T.messages = S.messages.set (messageName space S.counter) m) : T.Sorted := by
    refine h.of_messages hthreads hkeys fun name m' hm' => ?_
    rw [hmessages] at hm'
    by_cases heq : name = messageName space S.counter
    · rw [heq, Dict.get?_set_self] at hm'
      obtain rfl := Option.some.inj hm'
      rw [heq, owner_messageName, hm]
      exact .inr hown
    · rw [Dict.get?_set_of_ne heq] at hm'
      exact .inl hm'
  unfold MockChatDriver.insert
  rcases hthread with rfl | hown
  · obtain ⟨hsorted, hnew⟩ := h.newThread space
    rw [if_pos rfl]
    exact hset hsorted hnew rfl rfl rfl rfl
  · have hne : thread ≠ [] := by
      rintro rfl
      obtain ⟨other, n, hn⟩ := h.opened [] hown.1
      exact threadName_ne_nil other n hn.symm
    rw [if_neg hne]
    exact hset h hown rfl rfl rfl rfl

/-! ### Steps and runs -/

/-- The step is no reply that names a thread of another space. -/
def StaysInSpace (S : MockChatDriver) : ChatEvent → Prop
  | .createMessage space req _ => ¬ S.Strays space req
  | _ => True

private theorem Sorted.createMessage (h : S.Sorted) (hstrays : ¬ S.Strays space req) (now : ℚ) :
    (S.createMessage repr space req now).1.Sorted := by
  obtain ⟨hsorted, hthread⟩ : (S.resolveThread repr space req).1.Sorted ∧ _ :=
    h.resolveThread hstrays
  unfold MockChatDriver.createMessage
  generalize S.resolveThread repr space req = resolved at hsorted hthread ⊢
  obtain ⟨T, e | thread⟩ := resolved
  · exact hsorted
  · dsimp only at hsorted hthread ⊢
    cases T.resolveRefs repr req thread with
    | error e => exact hsorted
    | ok refs => exact hsorted.insert (hthread thread rfl) _ _ _ _ _

private theorem Sorted.patchMessage (h : S.Sorted) (name : Text) (body : Option Text) (now : ℚ) :
    (S.patchMessage name body now).1.Sorted := by
  unfold MockChatDriver.patchMessage
  cases hmessage : S.messages.get? name with
  | none => exact h
  | some message =>
      cases body with
      | none => exact h
      | some body =>
          refine h.of_messages rfl rfl fun other m hm => ?_
          by_cases heq : other = name
          · subst heq
            obtain rfl := Option.some.inj (Dict.get?_set_self.symm.trans hm)
            exact .inr (h.message other message hmessage)
          · exact .inl ((Dict.get?_set_of_ne heq).symm.trans hm)

private theorem Sorted.deleteMessage (h : S.Sorted) (name : Text) :
    (S.deleteMessage name).1.Sorted := by
  have herase (other : Text) (m : Message) (hm : (S.messages.erase name).get? other = some m) :
      S.messages.get? other = some m := by
    have hne : other ≠ name := by
      rintro rfl
      cases Dict.get?_erase_self.symm.trans hm
    exact (Dict.get?_erase_of_ne hne).symm.trans hm
  unfold MockChatDriver.deleteMessage
  cases S.messages.get? name with
  | none => exact h
  | some message =>
      dsimp only
      cases S.order.get? (spaceOf name) with
      | none => exact h.of_messages rfl rfl fun other m hm => .inl (herase other m hm)
      | some names =>
          dsimp only
          split <;> exact h.of_messages rfl rfl fun other m hm => .inl (herase other m hm)

/-- One step. -/
theorem Sorted.serve {e : ChatEvent} (h : S.Sorted) (hstays : S.StaysInSpace e) :
    (S.serve repr e).Sorted := by
  cases e with
  | createSpace req => exact h.of_messages rfl rfl fun _ _ => .inl
  | createMessage space req now => exact h.createMessage hstays now
  | patchMessage name body now => exact h.patchMessage name body now
  | deleteMessage name => exact h.deleteMessage name
  | createReaction message emoji =>
      rw [MockChatDriver.serve]
      split
      · exact h.of_messages rfl rfl fun _ _ => .inl
      · exact h
  | deleteReaction name =>
      rw [MockChatDriver.serve, MockChatDriver.deleteReaction]
      split
      · exact h.of_messages rfl rfl fun _ _ => .inl
      · exact h
  | uploadAttachment space upload =>
      rw [MockChatDriver.serve, MockChatDriver.uploadAttachment]
      split
      · exact h.of_messages rfl rfl fun _ _ => .inl
      · exact h

private theorem sorted_blank (identity : Text) : (blank identity).Sorted :=
  ⟨nofun, nofun, nofun⟩

private theorem sorted_of_init {identity : Text} {spaces : List SeedSpace}
    {messages : List SeedMessage} (h : init identity spaces messages = some S) : S.Sorted :=
  init_induct h (sorted_blank identity) (fun _ _ hS => hS.of_messages rfl rfl fun _ _ => .inl)
    fun _ _ hS => hS.insert (.inl rfl) _ _ _ _ _

/-! ### Replies -/

/-- A reply that names a known thread is put there. -/
theorem resolveThread_known {thread : Text} (hreply : req.reply ≠ .new)
    (hname : req.thread = .str thread) (hne : thread ≠ []) (hmem : thread ∈ S.threads) :
    S.resolveThread repr space req = (S, .ok thread) := by
  have htruthy : req.thread.truthy = true := by
    rw [hname, Json.truthy, Bool.not_eq_true', List.isEmpty_eq_false_iff]
    exact hne
  have hhash : req.thread.hashable = true := by
    rw [hname]
    rfl
  unfold resolveThread
  rw [if_neg (fun h => h.elim hreply fun hnone => hnone (.inl htruthy)), if_pos htruthy,
    if_pos hhash, hname, knownThread, if_pos hmem]

/-- A reply that names a thread of another space is treated as if the thread were missing. -/
def RepliesApart (repr : Repr) (S : MockChatDriver) (space : Text) (req : MessageCreate) : Prop :=
  S.Strays space req → S.Missing repr space req

/-- No such reply is. -/
theorem Sorted.repliesApart_iff (h : S.Sorted) :
    S.RepliesApart repr space req ↔ ¬ S.Strays space req := by
  refine ⟨fun happart hstrays => ?_, fun hstrays h => absurd h hstrays⟩
  have hmissing := happart hstrays
  obtain ⟨hreply, thread, hname, hmem, -⟩ := hstrays
  have hne : thread ≠ [] := by
    rintro rfl
    obtain ⟨other, n, hn⟩ := h.opened [] hmem
    exact threadName_ne_nil other n hn.symm
  have hresult := congrArg Prod.snd
    ((resolveThread_known hreply hname hne hmem).symm.trans hmissing)
  dsimp only at hresult
  split at hresult
  · cases hresult
  · exact hne (Except.ok.inj hresult)

/-- In every run from the seeds without a reply that names a thread of another space, messages and
keys have threads of their own spaces; such a reply would be put into the thread that it names. -/
theorem sorted_of_run {identity : Text} {spaces : List SeedSpace} {messages : List SeedMessage}
    {es : List ChatEvent} (hinit : init identity spaces messages = some S)
    (hrun : Run ((Serves repr).within StaysInSpace) S es T) :
    T.Sorted ∧ ∀ space req, T.RepliesApart repr space req ↔ ¬ T.Strays space req := by
  have hT : T.Sorted := by
    refine hrun.invariant Sorted (sorted_of_init hinit) fun S e T hS hstep => ?_
    rw [hstep.2]
    exact hS.serve hstep.1
  exact ⟨hT, fun space req => hT.repliesApart_iff⟩

/-- Two spaces, and a message in one of them. -/
private def twoSpaces : Option MockChatDriver :=
  init (text "users/me") [{ id := text "a" }, { id := text "b" }]
    [{ space := text "a", text := text "hi", now := 0 }]

/-- A reply in a space to the first thread. -/
private def replyTo (space : Text) : ChatEvent :=
  .createMessage space
    { text := text "re", thread := .str (text "spaces/a/threads/t1"), reply := .fallback } 1

/-- A reply within its own space. -/
theorem sorted_of_reply : ∃ S₀ S, twoSpaces = some S₀ ∧
    S = S₀.serve asciiRepr (replyTo (text "spaces/a")) ∧ S.Sorted := by
  obtain ⟨S₀, hS₀⟩ : ∃ S₀, twoSpaces = some S₀ := ⟨_, rfl⟩
  have hstays : S₀.StaysInSpace (replyTo (text "spaces/a")) := by
    rintro ⟨-, thread, hthread, -, howner⟩
    obtain rfl := Json.str.inj hthread
    revert howner
    decide +kernel
  exact ⟨S₀, _, hS₀, rfl, (sorted_of_run hS₀ (.single ⟨hstays, rfl⟩)).1⟩

/-- A reply in one space to a thread of the other is put there. -/
theorem reply_strays : ¬ ∀ (repr : Repr) (S : MockChatDriver), Reachable repr S → S.Sorted := by
  intro h
  obtain ⟨S₀, hS₀⟩ : ∃ S₀, twoSpaces = some S₀ := ⟨_, rfl⟩
  have hsorted := h asciiRepr (S₀.serve asciiRepr (replyTo (text "spaces/b")))
    ⟨_, _, _, S₀, [replyTo (text "spaces/b")], hS₀, .single rfl⟩
  obtain ⟨message, hmessage, hthread⟩ : ∃ m,
      (S₀.serve asciiRepr (replyTo (text "spaces/b"))).messages.get?
        (text "spaces/b/messages/m3") = some m ∧ m.thread = text "spaces/a/threads/t1" := by
    obtain rfl := Option.some.inj hS₀
    exact ⟨_, rfl, rfl⟩
  have howner := (hsorted.message _ message hmessage).2
  rw [hthread] at howner
  revert howner
  decide +kernel

end MockChatDriver

end Jetty.Chat
