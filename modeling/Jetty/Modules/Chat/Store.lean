import Jetty.Modules.Chat.Binding
import Jetty.Modules.Chat.Names

/-!
# The message store

Four maps are kept in step: the messages, the order of each space, the reactions, and the counter
that names everything. Deleting a message looks its space up under the first two segments of its
name; where these are not the space it was created in, the message goes and its place in the order
stays.
-/

namespace Jetty.Chat

open Python Transition

namespace MockChatDriver

variable {S T U : MockChatDriver}

/-! ### What the operations write -/

/-- Messages, orders and reactions are left alone. -/
def Untouched (S T : MockChatDriver) : Prop :=
  T.messages = S.messages ∧ T.order = S.order ∧ T.reactions = S.reactions ∧
    S.counter ≤ T.counter

private theorem Untouched.refl : Untouched S S := ⟨rfl, rfl, rfl, Nat.le_refl _⟩

/-- A message is inserted under a new number. -/
def Inserts (space : Text) (S T : MockChatDriver) : Prop :=
  ∃ n message, S.counter ≤ n ∧ T.counter = n + 1 ∧ message.name = messageName space n ∧
    T.messages = S.messages.set message.name message ∧
    T.order = S.order.set space ((S.order.get? space).getD [] ++ [message.name]) ∧
    T.reactions = S.reactions

private theorem Inserts.of_untouched {space : Text} (h : Untouched S T) (h' : Inserts space T U) :
    Inserts space S U := by
  obtain ⟨hmessages, horder, hreactions, hcounter⟩ := h
  obtain ⟨n, message, hn, hnext, hname, hset, horders, hsame⟩ := h'
  refine ⟨n, message, hcounter.trans hn, hnext, hname, ?_, ?_, hsame.trans hreactions⟩
  · rw [hset, hmessages]
  · rw [horders, horder]

/-- `_insert` puts one message into its space. -/
theorem insert_inserts (space sender body thread : Text) (now : ℚ) (attachments : List Attachment)
    (quoted : Option Quote) :
    Inserts space S (S.insert space sender body thread now attachments quoted).1 := by
  unfold insert
  by_cases hthread : thread = []
  · rw [if_pos hthread]
    exact ⟨_, _, Nat.le_succ _, rfl, rfl, rfl, rfl, rfl⟩
  · rw [if_neg hthread]
    exact ⟨_, _, Nat.le_refl _, rfl, rfl, rfl, rfl, rfl⟩

/-- Resolving a thread touches no message. -/
theorem resolveThread_untouched (repr : Repr) (space : Text) (req : MessageCreate) :
    Untouched S (S.resolveThread repr space req).1 := by
  rcases resolveThread_cases (S := S) repr with
    ⟨-, result, hresolve⟩ | ⟨-, hresolve⟩
  · rw [hresolve]
    exact .refl
  · rw [hresolve]
    exact ⟨rfl, rfl, rfl, Nat.le_succ _⟩

/-- A message to create is inserted, or nothing is touched. -/
theorem createMessage_writes (repr : Repr) (space : Text) (req : MessageCreate) (now : ℚ) :
    Untouched S (S.createMessage repr space req now).1 ∨
      Inserts space S (S.createMessage repr space req now).1 := by
  have hresolve := resolveThread_untouched (S := S) repr space req
  unfold createMessage
  generalize S.resolveThread repr space req = resolved at hresolve ⊢
  obtain ⟨T, e | thread⟩ := resolved
  · exact .inl hresolve
  · dsimp only at hresolve ⊢
    cases T.resolveRefs repr req thread with
    | error e => exact .inl hresolve
    | ok refs => exact .inr (.of_untouched hresolve (insert_inserts _ _ _ _ _ _ _))

/-! ### The invariant -/

/-- The names of the reactions of all messages. -/
def reactionNames (S : MockChatDriver) : List Text :=
  (S.reactions.values.flatten).map Reaction.name

/-- The maps agree. -/
structure Consistent (S : MockChatDriver) : Prop where
  /-- A message is stored under its name. -/
  named : ∀ name message, S.messages.get? name = some message → message.name = name
  /-- Names are numbered by the counter, in the order of their creation. -/
  numbered : ∃ created : List (Text × ℕ),
    S.messages.keys = created.map (fun c => messageName c.1 c.2) ∧
      (created.map Prod.snd).Pairwise (· < ·) ∧ ∀ c ∈ created, c.2 < S.counter
  /-- Each space lists its messages, in the same order. -/
  listed : ∀ space, (S.order.get? space).getD [] =
    S.messages.keys.filter fun name => owner name = space
  /-- Reactions are those of messages that exist. -/
  reacted : ∀ name ∈ S.reactions.keys, name ∈ S.messages.keys
  /-- No two reactions have one name. -/
  distinct : S.reactionNames.Nodup
  /-- Reactions are numbered by the counter, too. -/
  reactionNumbers : ∀ name ∈ S.reactionNames, ∃ message n,
    name = reactionName message n ∧ n < S.counter

private theorem consistent_blank (identity : Text) : (blank identity).Consistent where
  named := nofun
  numbered := ⟨[], rfl, .nil, nofun⟩
  listed _ := rfl
  reacted _ h := absurd h List.not_mem_nil
  distinct := List.nodup_nil
  reactionNumbers _ h := absurd h List.not_mem_nil

private theorem Consistent.untouched (h : S.Consistent) (h' : Untouched S T) : T.Consistent := by
  obtain ⟨hmessages, horder, hreactions, hcounter⟩ := h'
  obtain ⟨created, hkeys, hincreasing, hbelow⟩ := h.numbered
  have hnames : T.reactionNames = S.reactionNames := by
    rw [reactionNames, reactionNames, hreactions]
  refine ⟨?_, ⟨created, ?_, hincreasing, fun c hc => (hbelow c hc).trans_le hcounter⟩, ?_, ?_, ?_,
    ?_⟩
  · rw [hmessages]
    exact h.named
  · rw [hmessages, hkeys]
  · rw [hmessages, horder]
    exact h.listed
  · rw [hmessages, hreactions]
    exact h.reacted
  · rw [hnames]
    exact h.distinct
  · rw [hnames]
    intro name hname
    obtain ⟨message, n, heq, hn⟩ := h.reactionNumbers name hname
    exact ⟨message, n, heq, hn.trans_le hcounter⟩

/-- A number that the counter has not reached names no message. -/
theorem Consistent.fresh (h : S.Consistent) {n : ℕ} (hn : S.counter ≤ n) (space : Text) :
    messageName space n ∉ S.messages.keys := by
  obtain ⟨created, hkeys, -, hbelow⟩ := h.numbered
  rw [hkeys]
  intro hmem
  obtain ⟨c, hc, heq⟩ := List.mem_map.mp hmem
  obtain rfl : c.2 = n := messageName_number heq
  exact absurd (hbelow c hc) (Nat.not_lt.mpr hn)

private theorem Consistent.inserts {space : Text} (h : S.Consistent) (h' : Inserts space S T) :
    T.Consistent := by
  obtain ⟨n, message, hn, hnext, hname, hmessages, horder, hreactions⟩ := h'
  have hfresh : message.name ∉ S.messages.keys := hname ▸ h.fresh hn space
  have hkeys : T.messages.keys = S.messages.keys ++ [message.name] := by
    rw [hmessages, Dict.keys_set, if_neg hfresh]
  have howner : owner message.name = space := by rw [hname, owner_messageName]
  have hnames : T.reactionNames = S.reactionNames := by
    rw [reactionNames, reactionNames, hreactions]
  refine ⟨?_, ?_, ?_, ?_, ?_, ?_⟩
  · intro name m hm
    rw [hmessages] at hm
    by_cases heq : name = message.name
    · rw [heq, Dict.get?_set_self] at hm
      rw [heq, Option.some.inj hm]
    · rw [Dict.get?_set_of_ne heq] at hm
      exact h.named name m hm
  · obtain ⟨created, hcreated, hincreasing, hbelow⟩ := h.numbered
    refine ⟨created ++ [(space, n)], ?_, ?_, ?_⟩
    · rw [hkeys, hcreated, List.map_append, List.map_singleton, hname]
    · rw [List.map_append, List.map_singleton, List.pairwise_append]
      refine ⟨hincreasing, List.pairwise_singleton _ _, fun a ha b hb => ?_⟩
      obtain ⟨c, hc, rfl⟩ := List.mem_map.mp ha
      rw [List.mem_singleton.mp hb]
      exact (hbelow c hc).trans_le hn
    · intro c hc
      rw [hnext]
      rcases List.mem_append.mp hc with hc | hc
      · exact ((hbelow c hc).trans_le hn).trans_le (Nat.le_succ n)
      · rw [List.mem_singleton.mp hc]
        exact Nat.lt_succ_self n
  · intro space'
    rw [hkeys, List.filter_append, horder]
    by_cases heq : space' = space
    · subst heq
      simp [h.listed, howner]
    · rw [Dict.get?_set_of_ne heq, h.listed]
      simp [howner, Ne.symm heq]
  · intro name hmem
    rw [hreactions] at hmem
    rw [hkeys]
    exact List.mem_append_left _ (h.reacted name hmem)
  · rw [hnames]
    exact h.distinct
  · rw [hnames, hnext]
    intro name hmem
    obtain ⟨m, k, heq, hk⟩ := h.reactionNumbers name hmem
    exact ⟨m, k, heq, (hk.trans_le hn).trans_le (Nat.le_succ n)⟩

private theorem Consistent.patchMessage (h : S.Consistent) (name : Text) (body : Option Text)
    (now : ℚ) : (S.patchMessage name body now).1.Consistent := by
  unfold MockChatDriver.patchMessage
  cases hmessage : S.messages.get? name with
  | none => exact h
  | some message =>
      cases body with
      | none => exact h
      | some body =>
          have hkeys (m : Message) : (S.messages.set name m).keys = S.messages.keys := by
            rw [Dict.keys_set, if_pos (Dict.mem_keys.mpr ⟨message, hmessage⟩)]
          refine ⟨?_, ?_, ?_, ?_, h.distinct, h.reactionNumbers⟩
          · intro other m hm
            by_cases heq : other = name
            · subst heq
              obtain rfl := Option.some.inj (Dict.get?_set_self.symm.trans hm)
              exact h.named other message hmessage
            · exact h.named other m ((Dict.get?_set_of_ne heq).symm.trans hm)
          · dsimp only
            rw [hkeys]
            exact h.numbered
          · dsimp only
            rw [hkeys]
            exact h.listed
          · dsimp only
            rw [hkeys]
            exact h.reacted

/-- The names of the reactions in a list of entries. -/
private def namesIn (entries : List (Text × List Reaction)) : List Text :=
  ((entries.map Prod.snd).flatten).map Reaction.name

private theorem namesIn_cons (message : Text) (rows : List Reaction)
    (entries : List (Text × List Reaction)) :
    namesIn ((message, rows) :: entries) = rows.map Reaction.name ++ namesIn entries := by
  simp [namesIn]

private theorem namesIn_perm {entries entries' : List (Text × List Reaction)}
    (h : entries.Perm entries') : (namesIn entries).Perm (namesIn entries') :=
  ((h.map Prod.snd).flatten).map Reaction.name

/-- The reactions of a message and those of the others. -/
theorem reactionNames_perm (S : MockChatDriver) (message : Text) :
    S.reactionNames.Perm (((S.reactions.get? message).getD []).map Reaction.name ++
      namesIn (S.reactions.erase message).entries) := by
  cases hrows : S.reactions.get? message with
  | none =>
      rw [Option.getD_none, List.map_nil, List.nil_append,
        Dict.erase_of_not_mem (Dict.get?_eq_none.mp hrows)]
      exact .refl _
  | some rows =>
      have hperm := namesIn_perm (Dict.entries_perm hrows)
      rwa [namesIn_cons] at hperm

/-- The reactions of a message are replaced by a part of them. -/
theorem reactionNames_set_perm (S : MockChatDriver) (message : Text) (rows : List Reaction) :
    (namesIn (S.reactions.set message rows).entries).Perm (rows.map Reaction.name ++
      namesIn (S.reactions.erase message).entries) := by
  have hperm := namesIn_perm
    (Dict.entries_set_perm (d := S.reactions) (k := message) (v := rows))
  rwa [namesIn_cons] at hperm

private theorem Consistent.createReaction (h : S.Consistent) {message : Text}
    (hmessage : message ∈ S.messages.keys) (emoji : Text) :
    (S.createReaction message emoji).1.Consistent := by
  have hbefore := S.reactionNames_perm message
  have hafter := S.reactionNames_set_perm message (((S.reactions.get? message).getD []) ++
    [⟨reactionName message S.counter, S.identity, emoji⟩])
  have hperm : (S.createReaction message emoji).1.reactionNames.Perm
      (reactionName message S.counter :: S.reactionNames) := by
    refine hafter.trans ?_
    rw [List.map_append, List.map_singleton, List.append_assoc, List.singleton_append]
    exact List.perm_middle.trans ((List.perm_cons _).mpr hbefore.symm)
  obtain ⟨created, hkeys, hincreasing, hbelow⟩ := h.numbered
  have hbelow' (c : Text × ℕ) (hc : c ∈ created) := (hbelow c hc).trans (Nat.lt_succ_self _)
  refine ⟨h.named, ⟨created, hkeys, hincreasing, hbelow'⟩, h.listed, ?_, ?_, ?_⟩
  · intro name hname
    rcases Dict.mem_keys_set.mp hname with hname | rfl
    · exact h.reacted name hname
    · exact hmessage
  · rw [hperm.nodup_iff]
    refine List.nodup_cons.mpr ⟨fun hmem => ?_, h.distinct⟩
    obtain ⟨other, n, heq, hn⟩ := h.reactionNumbers _ hmem
    rw [reactionName_number heq] at hn
    exact Nat.lt_irrefl _ hn
  · intro name hname
    rcases List.mem_cons.mp (hperm.mem_iff.mp hname) with rfl | hname
    · exact ⟨message, S.counter, rfl, Nat.lt_succ_self _⟩
    · obtain ⟨other, n, heq, hn⟩ := h.reactionNumbers name hname
      exact ⟨other, n, heq, hn.trans (Nat.lt_succ_self _)⟩

private theorem Consistent.deleteReaction (h : S.Consistent) (name : Text) :
    (S.deleteReaction name).1.Consistent := by
  unfold MockChatDriver.deleteReaction
  dsimp only
  split
  · rename_i hany
    have hbefore := S.reactionNames_perm (reactedMessage name)
    have hafter := S.reactionNames_set_perm (reactedMessage name)
      (((S.reactions.get? (reactedMessage name)).getD []).eraseP fun r => r.name = name)
    have hsub := ((List.eraseP_sublist (p := fun r => decide (r.name = name))
      (l := (S.reactions.get? (reactedMessage name)).getD [])).map Reaction.name).append_right
        (namesIn (S.reactions.erase (reactedMessage name)).entries)
    refine ⟨h.named, h.numbered, h.listed, ?_, ?_, ?_⟩
    · intro other hother
      rcases Dict.mem_keys_set.mp hother with hother | rfl
      · exact h.reacted other hother
      · refine h.reacted _ (Dict.mem_keys.mpr ?_)
        cases hrows : S.reactions.get? (reactedMessage name) with
        | none => simp [hrows] at hany
        | some rows => exact ⟨rows, rfl⟩
    · exact hafter.nodup_iff.mpr ((hbefore.nodup_iff.mp h.distinct).sublist hsub)
    · exact fun other hother => h.reactionNumbers other
        (hbefore.mem_iff.mpr (hsub.subset (hafter.mem_iff.mp hother)))
  · exact h

/-- The driver finds the space of the message. -/
def Placed (name : Text) : Prop := spaceOf name = owner name

private theorem deleteMessage_placed (h : S.Consistent) {name : Text} {message : Message}
    (hmessage : S.messages.get? name = some message) (hplaced : Placed name) :
    S.deleteMessage name = ({ S with
      messages := S.messages.erase name
      order := S.order.set (owner name) (((S.order.get? (owner name)).getD []).erase name)
      reactions := S.reactions.erase name }, .ok true) := by
  have hmem : name ∈ (S.order.get? (owner name)).getD [] := by
    rw [h.listed, List.mem_filter]
    exact ⟨Dict.mem_keys.mpr ⟨message, hmessage⟩, decide_eq_true rfl⟩
  unfold deleteMessage
  rw [hmessage, hplaced]
  dsimp only
  cases hnames : S.order.get? (owner name) with
  | none =>
      rw [hnames] at hmem
      cases hmem
  | some names =>
      rw [hnames] at hmem
      dsimp only [Option.getD_some] at hmem ⊢
      rw [if_pos hmem]

private theorem Consistent.erase (h : S.Consistent) {name : Text} :
    ({ S with
      messages := S.messages.erase name
      order := S.order.set (owner name) (((S.order.get? (owner name)).getD []).erase name)
      reactions := S.reactions.erase name } : MockChatDriver).Consistent := by
  obtain ⟨created, hkeys, hincreasing, hbelow⟩ := h.numbered
  have hnames := S.reactionNames_perm name
  have hnodup : S.messages.keys.Nodup := S.messages.nodup
  refine ⟨?_, ⟨created.filter fun c => messageName c.1 c.2 ≠ name, ?_, ?_, ?_⟩, ?_, ?_, ?_, ?_⟩
  · intro other m hm
    have hne : other ≠ name := by
      rintro rfl
      cases Dict.get?_erase_self.symm.trans hm
    exact h.named other m ((Dict.get?_erase_of_ne hne).symm.trans hm)
  · rw [Dict.keys_erase, hkeys, List.filter_map]
    rfl
  · exact hincreasing.sublist (List.filter_sublist.map Prod.snd)
  · exact fun c hc => hbelow c (List.mem_of_mem_filter hc)
  · intro space
    dsimp only
    rw [Dict.keys_erase, List.filter_filter]
    by_cases heq : space = owner name
    · subst heq
      rw [Dict.get?_set_self, Option.getD_some, h.listed,
        (hnodup.filter _).erase_eq_filter, List.filter_filter]
      refine List.filter_congr fun other _ => ?_
      rw [Bool.and_comm]
      by_cases hother : other = name <;> simp [hother]
    · rw [Dict.get?_set_of_ne heq, h.listed]
      refine List.filter_congr fun other _ => ?_
      by_cases hother : other = name
      · subst hother
        simp [Ne.symm heq]
      · simp [hother]
  · intro other hother
    obtain ⟨hmem, hne⟩ := Dict.mem_keys_erase.mp hother
    exact Dict.mem_keys_erase.mpr ⟨h.reacted other hmem, hne⟩
  · exact (hnames.nodup_iff.mp h.distinct).of_append_right
  · exact fun other hother => h.reactionNumbers other
      (hnames.mem_iff.mpr (List.mem_append_right _ hother))

/-! ### Steps and runs -/

/-- The step deletes no message whose space the driver mistakes. -/
def PlacedStep (S : MockChatDriver) : ChatEvent → Prop
  | .deleteMessage name => name ∈ S.messages.keys → Placed name
  | _ => True

private theorem uploadAttachment_untouched (repr : Repr) (space : Text) (upload : Upload) :
    Untouched S (S.uploadAttachment repr space upload).1 := by
  unfold uploadAttachment
  split
  · exact ⟨rfl, rfl, rfl, Nat.le_succ _⟩
  · exact .refl

/-- One step. -/
theorem Consistent.serve {repr : Repr} {e : ChatEvent} (h : S.Consistent)
    (hplaced : S.PlacedStep e) : (S.serve repr e).Consistent := by
  cases e with
  | createSpace req => exact h.untouched ⟨rfl, rfl, rfl, Nat.le_succ _⟩
  | createMessage space req now =>
      rcases createMessage_writes (S := S) repr space req now with hsame | hinserts
      · exact h.untouched hsame
      · exact h.inserts hinserts
  | patchMessage name body now => exact h.patchMessage name body now
  | deleteMessage name =>
      rw [MockChatDriver.serve]
      cases hmessage : S.messages.get? name with
      | none =>
          rw [deleteMessage, hmessage]
          exact h
      | some message =>
          rw [deleteMessage_placed h hmessage (hplaced (Dict.mem_keys.mpr ⟨message, hmessage⟩))]
          exact h.erase
  | createReaction message emoji =>
      rw [MockChatDriver.serve]
      split
      · rename_i hmessage
        exact h.createReaction hmessage emoji
      · exact h
  | deleteReaction name => exact h.deleteReaction name
  | uploadAttachment space upload => exact h.untouched (uploadAttachment_untouched _ _ _)

private theorem consistent_of_init {identity : Text} {spaces : List SeedSpace}
    {messages : List SeedMessage} (h : init identity spaces messages = some S) :
    S.Consistent :=
  init_induct h (consistent_blank identity)
    (fun _ _ hS => hS.untouched ⟨rfl, rfl, rfl, Nat.le_refl _⟩)
    fun _ _ hS => hS.inserts (insert_inserts _ _ _ _ _ _ _)

private theorem consistent_of_run {repr : Repr} {es : List ChatEvent} (h : S.Consistent)
    (hrun : Run ((Serves repr).within PlacedStep) S es T) : T.Consistent := by
  refine hrun.invariant Consistent h fun S e T hS hstep => ?_
  rw [hstep.2]
  exact hS.serve hstep.1

/-! ### One message at a time -/

/-- The message that a request is about. -/
def target : ChatEvent → Option Text
  | .patchMessage name _ _ | .deleteMessage name => some name
  | .createReaction message _ => some message
  | .deleteReaction name => some (reactedMessage name)
  | _ => none

/-- Only the message of that name and its reactions are changed. -/
def Local (name : Text) (S T : MockChatDriver) : Prop :=
  (∀ other ≠ name, T.messages.get? other = S.messages.get? other ∧
      T.reactions.get? other = S.reactions.get? other) ∧
    (∀ other ∈ T.messages.keys, other ∈ S.messages.keys) ∧ S.counter ≤ T.counter

private theorem Local.refl {name : Text} : Local name S S :=
  ⟨fun _ _ => ⟨rfl, rfl⟩, fun _ h => h, Nat.le_refl _⟩

private theorem patchMessage_local (name : Text) (body : Option Text) (now : ℚ) :
    Local name S (S.patchMessage name body now).1 := by
  unfold patchMessage
  cases hmessage : S.messages.get? name with
  | none => exact .refl
  | some message =>
      cases body with
      | none => exact .refl
      | some body =>
          refine ⟨fun other hne => ⟨Dict.get?_set_of_ne hne, rfl⟩, fun other hother => ?_,
            Nat.le_refl _⟩
          rcases Dict.mem_keys_set.mp hother with hother | rfl
          · exact hother
          · exact Dict.mem_keys.mpr ⟨message, hmessage⟩

/-- A deletion changes only the message of that name and its reactions. -/
theorem deleteMessage_local (name : Text) : Local name S (S.deleteMessage name).1 := by
  have hkeys (other : Text) (h : other ∈ (S.messages.erase name).keys) :
      other ∈ S.messages.keys := (Dict.mem_keys_erase.mp h).1
  unfold deleteMessage
  cases S.messages.get? name with
  | none => exact .refl
  | some message =>
      dsimp only
      cases S.order.get? (spaceOf name) with
      | none => exact ⟨fun other hne => ⟨Dict.get?_erase_of_ne hne, rfl⟩, hkeys, Nat.le_refl _⟩
      | some names =>
          dsimp only
          split
          · exact ⟨fun other hne => ⟨Dict.get?_erase_of_ne hne, Dict.get?_erase_of_ne hne⟩, hkeys,
              Nat.le_refl _⟩
          · exact ⟨fun other hne => ⟨Dict.get?_erase_of_ne hne, rfl⟩, hkeys, Nat.le_refl _⟩

/-- A step inserts a message, is local to the message it is about, or touches none. -/
theorem serve_cases (repr : Repr) (e : ChatEvent) :
    (target e = none ∧ ∃ space, Inserts space S (S.serve repr e)) ∨
      (∃ name, target e = some name ∧ Local name S (S.serve repr e)) ∨
      Untouched S (S.serve repr e) := by
  cases e with
  | createSpace req => exact .inr (.inr ⟨rfl, rfl, rfl, Nat.le_succ _⟩)
  | createMessage space req now =>
      rcases createMessage_writes (S := S) repr space req now with hsame | hinserts
      · exact .inr (.inr hsame)
      · exact .inl ⟨rfl, space, hinserts⟩
  | patchMessage name body now => exact .inr (.inl ⟨name, rfl, patchMessage_local name body now⟩)
  | deleteMessage name => exact .inr (.inl ⟨name, rfl, deleteMessage_local name⟩)
  | createReaction message emoji =>
      refine .inr (.inl ⟨message, rfl, ?_⟩)
      rw [serve]
      split
      · exact ⟨fun other hne => ⟨rfl, Dict.get?_set_of_ne hne⟩, fun _ h => h, Nat.le_succ _⟩
      · exact .refl
  | deleteReaction name =>
      refine .inr (.inl ⟨reactedMessage name, rfl, ?_⟩)
      rw [serve, deleteReaction]
      split
      · exact ⟨fun other hne => ⟨rfl, Dict.get?_set_of_ne hne⟩, fun _ h => h, Nat.le_refl _⟩
      · exact .refl
  | uploadAttachment space upload => exact .inr (.inr (uploadAttachment_untouched _ _ _))

/-- Messages that the request is not about stay as they are, and so do their reactions. -/
def Spares (S : MockChatDriver) (e : ChatEvent) (T : MockChatDriver) : Prop :=
  ∀ other ∈ S.messages.keys, target e ≠ some other →
    T.messages.get? other = S.messages.get? other ∧ T.reactions.get? other = S.reactions.get? other

private theorem Consistent.spares (h : S.Consistent) (repr : Repr) (e : ChatEvent) :
    S.Spares e (S.serve repr e) := by
  intro other hother htarget
  rcases serve_cases (S := S) repr e with ⟨-, space, hinserts⟩ | ⟨name, hname, hlocal⟩ |
    ⟨hmessages, -, hreactions, -⟩
  · obtain ⟨n, message, hn, -, hname, hmessages, -, hreactions⟩ := hinserts
    have hne : other ≠ message.name := by
      rintro rfl
      exact h.fresh hn space (hname ▸ hother)
    rw [hmessages, hreactions]
    exact ⟨Dict.get?_set_of_ne hne, rfl⟩
  · refine hlocal.1 other ?_
    rintro rfl
    exact htarget hname
  · rw [hmessages, hreactions]
    exact ⟨rfl, rfl⟩

/-! ### Deleted messages -/

/-- The number in the name has been given, and there is no message of that name. -/
def Retired (name : Text) (S : MockChatDriver) : Prop :=
  name ∉ S.messages.keys ∧ ∃ space n, name = messageName space n ∧ n < S.counter

private theorem Retired.serve {name : Text} (h : S.Retired name) (repr : Repr) (e : ChatEvent) :
    (S.serve repr e).Retired name := by
  obtain ⟨hmem, space, n, hname, hn⟩ := h
  rcases serve_cases (S := S) repr e with ⟨-, space', hinserts⟩ | ⟨other, -, -, hkeys, hcounter⟩ |
    ⟨hmessages, -, -, hcounter⟩
  · obtain ⟨k, message, hk, hnext, hmessage, hmessages, -⟩ := hinserts
    refine ⟨fun hnew => ?_, space, n, hname, ?_⟩
    · rw [hmessages, Dict.mem_keys_set] at hnew
      rcases hnew with hold | hnew
      · exact hmem hold
      · obtain rfl : n = k := messageName_number (hname.symm.trans (hnew.trans hmessage))
        exact absurd hn (Nat.not_lt.mpr hk)
    · rw [hnext]
      exact (hn.trans_le hk).trans (Nat.lt_succ_self k)
  · exact ⟨fun hnew => hmem (hkeys name hnew), space, n, hname, hn.trans_le hcounter⟩
  · exact ⟨fun hnew => hmem (hmessages ▸ hnew), space, n, hname, hn.trans_le hcounter⟩

/-- A message that has been deleted is not there, and its name will not be given again. -/
theorem Consistent.retired (h : S.Consistent) {name : Text}
    (hdeleted : (S.deleteMessage name).2 = .ok true) : (S.deleteMessage name).1.Retired name := by
  obtain ⟨created, hkeys, -, hbelow⟩ := h.numbered
  unfold deleteMessage at hdeleted ⊢
  cases hmessage : S.messages.get? name with
  | none =>
      rw [hmessage] at hdeleted
      cases hdeleted
  | some message =>
      rw [hmessage] at hdeleted
      have hmem : name ∈ S.messages.keys := Dict.mem_keys.mpr ⟨message, hmessage⟩
      rw [hkeys] at hmem
      obtain ⟨c, hc, rfl⟩ := List.mem_map.mp hmem
      dsimp only at hdeleted ⊢
      cases hnames : S.order.get? (spaceOf (messageName c.1 c.2)) with
      | none =>
          rw [hnames] at hdeleted
          cases hdeleted
      | some names =>
          dsimp only
          split <;> exact ⟨fun hnew => (Dict.mem_keys_erase.mp hnew).2 rfl, c.1, c.2, rfl,
            hbelow c hc⟩

/-- The name is neither got, nor listed, nor found. -/
def Gone (name : Text) (S : MockChatDriver) : Prop :=
  S.getMessage name = none ∧
    (∀ space query rows, S.listRows space query = some rows → ∀ m ∈ rows, m.name ≠ name) ∧
    ∀ lower req, ∀ m ∈ S.searchRows lower req, m.name ≠ name

/-- Only messages of the store are listed. -/
theorem listRows_mem {space : Text} {query : MessageQuery} {rows : List Message} {m : Message}
    (h : S.listRows space query = some rows) (hm : m ∈ rows) :
    ∃ name, S.messages.get? name = some m := by
  obtain ⟨all, hall, hrows⟩ := Option.bind_eq_some_iff.mp h
  have hsub : m ∈ all := by
    obtain rfl := Option.some.inj hrows
    rw [List.mem_mergeSort] at hm
    have hfilter {p : Prop} [Decidable p] {f : Message → Bool} {l : List Message}
        (h : m ∈ if p then l else l.filter f) : m ∈ l := by
      split at h
      · exact h
      · exact List.mem_of_mem_filter h
    exact hfilter (hfilter (hfilter hm))
  generalize (S.order.get? space).getD [] = names at hall
  clear hrows hm h
  induction names generalizing all with
  | nil =>
      obtain rfl := Option.some.inj hall
      cases hsub
  | cons name names ih =>
      rw [List.mapM_cons] at hall
      obtain ⟨first, hfirst, hall⟩ := Option.bind_eq_some_iff.mp hall
      obtain ⟨rest, hrest, hall⟩ := Option.bind_eq_some_iff.mp hall
      obtain rfl := Option.some.inj hall
      rcases List.mem_cons.mp hsub with rfl | hsub
      · exact ⟨name, hfirst⟩
      · exact ih _ hsub hrest

private theorem Consistent.gone (h : S.Consistent) {name : Text} (hmem : name ∉ S.messages.keys) :
    S.Gone name := by
  have hother {m : Message} (hm : ∃ other, S.messages.get? other = some m) : m.name ≠ name := by
    rintro rfl
    obtain ⟨other, hother⟩ := hm
    obtain rfl := h.named other m hother
    exact hmem (Dict.mem_keys.mpr ⟨m, hother⟩)
  refine ⟨Dict.get?_eq_none.mpr hmem, fun space query rows hrows m hm => ?_,
    fun lower req m hm => ?_⟩
  · exact hother (listRows_mem hrows hm)
  · rw [searchRows, List.mem_mergeSort, List.mem_filter] at hm
    obtain ⟨e, he, rfl⟩ := List.mem_map.mp hm.1
    exact hother ⟨e.1, Dict.get?_eq_some.mpr he⟩

/-- A deletion keeps the maps in step exactly if the driver finds the space of the message. -/
theorem Consistent.deleteMessage_iff (h : S.Consistent) {name : Text}
    (hmem : name ∈ S.messages.keys) : (S.deleteMessage name).1.Consistent ↔ Placed name := by
  obtain ⟨message, hmessage⟩ := Dict.mem_keys.mp hmem
  constructor
  · intro hafter
    by_contra hplaced
    have hnames : ∀ names, S.order.get? (spaceOf name) = some names → name ∉ names := by
      intro names hnames hname
      have hlisted := h.listed (spaceOf name)
      rw [hnames, Option.getD_some] at hlisted
      rw [hlisted, List.mem_filter] at hname
      exact hplaced (of_decide_eq_true hname.2).symm
    have hdeleted : (S.deleteMessage name).1 = { S with messages := S.messages.erase name } := by
      unfold deleteMessage
      rw [hmessage]
      dsimp only
      cases horder : S.order.get? (spaceOf name) with
      | none => rfl
      | some names =>
          dsimp only
          rw [if_neg (hnames names horder)]
    rw [hdeleted] at hafter
    have hlisted := (h.listed (owner name)).symm.trans (hafter.listed (owner name))
    have hbefore : name ∈ S.messages.keys.filter fun other => owner other = owner name :=
      List.mem_filter.mpr ⟨hmem, decide_eq_true rfl⟩
    rw [hlisted, List.mem_filter, Dict.mem_keys_erase] at hbefore
    exact hbefore.1.2 rfl
  · intro hplaced
    rw [deleteMessage_placed h hmessage hplaced]
    exact h.erase

/-- Only a message whose space the driver finds is deleted without an error. -/
theorem Consistent.placed_of_deleted (h : S.Consistent) {name : Text}
    (hdeleted : (S.deleteMessage name).2 = .ok true) : Placed name := by
  unfold deleteMessage at hdeleted
  cases hmessage : S.messages.get? name with
  | none =>
      rw [hmessage] at hdeleted
      cases hdeleted
  | some message =>
      rw [hmessage] at hdeleted
      dsimp only at hdeleted
      cases horder : S.order.get? (spaceOf name) with
      | none =>
          rw [horder] at hdeleted
          cases hdeleted
      | some names =>
          rw [horder] at hdeleted
          dsimp only at hdeleted
          have hname : name ∈ names := by
            by_contra hname
            rw [if_neg hname] at hdeleted
            cases hdeleted
          have hlisted := h.listed (spaceOf name)
          rw [horder, Option.getD_some] at hlisted
          rw [hlisted, List.mem_filter] at hname
          exact (of_decide_eq_true hname.2).symm

/-- In every run from the seeds in which the driver finds the space of each message it deletes, the
maps are in step, a request changes nothing about messages it is not about, and a message that has
been deleted is gone for good. -/
theorem store_consistent {repr : Repr} {identity : Text} {spaces : List SeedSpace}
    {messages : List SeedMessage} {es : List ChatEvent}
    (hinit : init identity spaces messages = some S)
    (hrun : Run ((Serves repr).within PlacedStep) S es T) :
    T.Consistent ∧ (∀ e, T.Spares e (T.serve repr e)) ∧
      ∀ name, (T.deleteMessage name).2 = .ok true → ∀ es' U,
        Run ((Serves repr).within PlacedStep) (T.deleteMessage name).1 es' U → U.Gone name := by
  have hT := consistent_of_run (consistent_of_init hinit) hrun
  refine ⟨hT, hT.spares repr, fun name hdeleted es' U hrun' => ?_⟩
  have hplaced : T.PlacedStep (.deleteMessage name) := fun _ => hT.placed_of_deleted hdeleted
  have hafter : (T.serve repr (.deleteMessage name)).Consistent := hT.serve hplaced
  refine (consistent_of_run hafter hrun').gone ?_
  refine (hrun'.invariant (Retired name) (hT.retired hdeleted) fun U e V hU hstep => ?_).1
  rw [hstep.2]
  exact hU.serve repr e

/-- A space with one message. -/
private def oneMessage (spaceId : Text) : Option MockChatDriver :=
  init (text "users/me") [{ id := spaceId }] [{ space := spaceId, text := text "hi", now := 0 }]

/-- The store of one message, which is deleted. -/
theorem store_consistent_deleted : ∃ S₀ S, oneMessage (text "a") = some S₀ ∧
    S = S₀.serve asciiRepr (.deleteMessage (text "spaces/a/messages/m2")) ∧ S.Consistent := by
  obtain ⟨S₀, hS₀⟩ : ∃ S₀, oneMessage (text "a") = some S₀ := ⟨_, rfl⟩
  have hplaced : S₀.PlacedStep (.deleteMessage (text "spaces/a/messages/m2")) := by
    intro _
    unfold Placed
    decide +kernel
  exact ⟨S₀, _, hS₀, rfl, (store_consistent hS₀ (.single ⟨hplaced, rfl⟩)).1⟩

/-- A message of a space whose name has three segments is deleted: it goes, and its place in the
order stays. -/
theorem misplaced_deletion : ¬ ∀ (repr : Repr) (S : MockChatDriver), Reachable repr S →
    S.Consistent := by
  intro h
  obtain ⟨S₀, hS₀⟩ : ∃ S₀, oneMessage (text "a/b") = some S₀ := ⟨_, rfl⟩
  have hS₀' := consistent_of_init hS₀
  have hmem : text "spaces/a/b/messages/m2" ∈ S₀.messages.keys := by
    obtain rfl := Option.some.inj hS₀
    decide +kernel
  have hafter := h asciiRepr (S₀.deleteMessage (text "spaces/a/b/messages/m2")).1
    ⟨_, _, _, S₀, [.deleteMessage (text "spaces/a/b/messages/m2")], hS₀, .single rfl⟩
  have hplaced := (hS₀'.deleteMessage_iff hmem).mp hafter
  revert hplaced
  unfold Placed
  decide +kernel

end MockChatDriver

end Jetty.Chat
