import Jetty.Core.Monitor
import Jetty.Modules.Chat.Store
import Jetty.Modules.Chat.Threads

/-!
# Fresh names

The counter gives each number once, and the last segment of a name that is made from it ends in the
number. The names of seeded spaces are chosen by the operator: they are the only ones that a new
name can meet.
-/

namespace Jetty.Chat

open Python Transition

/-! ### Names with numbers -/

/-- A character that no numeral has; the slash is none. -/
def isLetter (c : CodePoint) : Bool := decide (0x61 ≤ c.val)

/-- The last segment consists of letters and a number. -/
def Numbered (n : ℕ) (name : Text) : Prop :=
  ∃ c letters, (c :: letters).all isLetter = true ∧
    Text.afterLast Text.slash name = c :: letters ++ numeral n

private theorem isLetter_of_mem_numeral {n : ℕ} {c : CodePoint} (h : c ∈ numeral n) :
    isLetter c = false := by
  have hdigit := (digit_of_mem_numeral h).2
  rw [isLetter, decide_eq_false_iff_not]
  omega

/-- The number is read off the name. -/
theorem Numbered.unique {m n : ℕ} {name : Text} (hm : Numbered m name) (hn : Numbered n name) :
    m = n := by
  obtain ⟨c, letters, hletters, hname⟩ := hm
  obtain ⟨c', letters', hletters', hname'⟩ := hn
  have hdrop : ∀ (letters : Text) (k : ℕ), letters.all isLetter = true →
      (letters ++ numeral k).dropWhile isLetter = numeral k := by
    intro letters k h
    rw [List.dropWhile_append_of_pos fun d hd => List.all_eq_true.mp h d hd]
    cases hdigits : numeral k with
    | nil => rfl
    | cons d digits =>
        have hd := isLetter_of_mem_numeral (hdigits ▸ List.mem_cons_self : d ∈ numeral k)
        rw [List.dropWhile_cons_of_neg]
        rw [hd]
        exact Bool.false_ne_true
  have heq := hdrop (c :: letters) m hletters
  rw [← hname, hname', hdrop (c' :: letters') n hletters'] at heq
  exact (numeral_injective heq).symm

private theorem numbered_of_letters (front : Text) (c : CodePoint) (letters : Text) (n : ℕ)
    (h : (c :: letters).all isLetter = true) :
    Numbered n (front ++ Text.slash :: (c :: letters ++ numeral n)) := by
  refine ⟨c, letters, h, Text.afterLast_append front fun hslash => ?_⟩
  rcases List.mem_append.mp hslash with hslash | hslash
  · have hletter := List.all_eq_true.mp h _ hslash
    revert hletter
    decide
  · exact slash_not_mem_numeral n hslash

/-- `spaces/mock{n}`. -/
def mockName (n : ℕ) : Text := text "spaces/mock" ++ numeral n

private theorem numbered_mockName (n : ℕ) : Numbered n (mockName n) := by
  have hfront : text "spaces/mock" = text "spaces" ++ Text.slash :: text "mock" := by
    decide +kernel
  rw [mockName, hfront, List.append_assoc, List.cons_append]
  exact numbered_of_letters (text "spaces") 0x6D (text "ock") n (by decide +kernel)

private theorem numbered_threadName (space : Text) (n : ℕ) : Numbered n (threadName space n) := by
  rw [threadName_eq]
  exact numbered_of_letters _ 0x74 [] n (by decide)

private theorem numbered_messageName (space : Text) (n : ℕ) : Numbered n (messageName space n) := by
  rw [messageName_eq]
  exact numbered_of_letters _ 0x6D [] n (by decide)

private theorem numbered_reactionName (message : Text) (n : ℕ) : Numbered n
    (reactionName message n) := by
  rw [reactionName_eq]
  exact numbered_of_letters _ 0x72 [] n (by decide)

private theorem numbered_uploadName (space : Text) (n : ℕ) : Numbered n (uploadName space n) := by
  have hmiddle : text "/attachments/up" =
      Text.slash :: text "attachments" ++ Text.slash :: text "up" := by decide +kernel
  have hname : uploadName space n =
      (space ++ Text.slash :: text "attachments") ++ Text.slash :: (text "up" ++ numeral n) := by
    rw [uploadName, hmiddle]
    simp only [List.append_assoc, List.cons_append]
  rw [hname]
  exact numbered_of_letters _ 0x75 (text "p") n (by decide +kernel)

/-- The name of a member has no letters there. -/
theorem not_numbered_memberName (space : Text) (m n : ℕ) : ¬ Numbered n (memberName space m) := by
  rintro ⟨c, letters, hletters, hname⟩
  have hmiddle : text "/members/" = Text.slash :: text "members" ++ [Text.slash] := by
    decide +kernel
  have hmember : memberName space m =
      (space ++ Text.slash :: text "members") ++ Text.slash :: numeral m := by
    rw [memberName, hmiddle]
    simp only [List.append_assoc, List.cons_append, List.nil_append]
  rw [hmember, Text.afterLast_append _ (slash_not_mem_numeral m)] at hname
  have hdigit : c ∈ numeral m := hname ▸ List.mem_cons_self
  rw [List.all_cons, isLetter_of_mem_numeral hdigit] at hletters
  cases hletters

namespace MockChatDriver

variable {S T U : MockChatDriver} {repr : Repr} {names names' : List Text}

/-! ### What a step gives names to -/

/-- The names of everything there is. -/
def resources (S : MockChatDriver) : List Text :=
  S.spaces.keys ++ S.members.values.flatten.map Member.name ++ S.threads ++ S.messages.keys ++
    S.reactionNames ++ S.uploads.keys

instance (S : MockChatDriver) (space : Text) (req : MessageCreate) :
    Decidable (S.BindsKey space req) := by
  unfold BindsKey
  infer_instance

/-- The names that a request gives, in order, made from the counter as it finds it; those of members
go with their spaces. A message gets the next number but one where a thread is opened for it. -/
def gives (repr : Repr) (S : MockChatDriver) : ChatEvent → List Text
  | .createSpace _ => [mockName S.counter]
  | .createMessage space req _ =>
    match (S.resolveThread repr space req).2 with
    | .error _ => []
    | .ok thread =>
      match S.resolveRefs repr req thread with
      | .error _ => if S.BindsKey space req then [threadName space S.counter] else []
      | .ok _ =>
        if S.BindsKey space req ∨ thread = [] then
          [threadName space S.counter, messageName space (S.counter + 1)]
        else [messageName space S.counter]
  | .createReaction message _ =>
    if message ∈ S.messages.keys then [reactionName message S.counter] else []
  | .uploadAttachment space _ =>
    if space ∈ S.spaces.keys then [uploadName space S.counter] else []
  | .patchMessage .. | .deleteMessage _ | .deleteReaction _ => []

/-- The step adds the resources of these names, apart from members, with numbers of the counter. -/
structure Adds (S : MockChatDriver) (names : List Text) (T : MockChatDriver) : Prop where
  resources : ∀ name ∈ T.resources, name ∈ S.resources ∨ name ∈ names ∨
    ∃ space n, name = memberName space n
  given : ∀ name ∈ names, name ∈ T.resources
  numbers : ∃ ns : List ℕ, List.Forall₂ Numbered ns names ∧ ns.Pairwise (· < ·) ∧
    ∀ n ∈ ns, S.counter ≤ n ∧ n < T.counter
  counter : S.counter ≤ T.counter

private theorem Adds.trans (h : Adds S names T) (h' : Adds T names' U)
    (hkeep : ∀ name ∈ T.resources, name ∈ U.resources) : Adds S (names ++ names') U := by
  obtain ⟨ns, hns, hpairwise, hbounds⟩ := h.numbers
  obtain ⟨ns', hns', hpairwise', hbounds'⟩ := h'.numbers
  refine ⟨fun name hname => ?_, fun name hname => ?_,
    ⟨ns ++ ns', List.rel_append hns hns', ?_, fun n hn => ?_⟩, h.counter.trans h'.counter⟩
  · rcases h'.resources name hname with hold | hnew | hmember
    · rcases h.resources name hold with hold | hnew | hmember
      · exact .inl hold
      · exact .inr (.inl (List.mem_append_left _ hnew))
      · exact .inr (.inr hmember)
    · exact .inr (.inl (List.mem_append_right _ hnew))
    · exact .inr (.inr hmember)
  · rcases List.mem_append.mp hname with hname | hname
    · exact hkeep name (h.given name hname)
    · exact h'.given name hname
  · exact List.pairwise_append.mpr ⟨hpairwise, hpairwise', fun m hm n hn =>
      (hbounds m hm).2.trans_le (hbounds' n hn).1⟩
  · rcases List.mem_append.mp hn with hn | hn
    · exact ⟨(hbounds n hn).1, (hbounds n hn).2.trans_le h'.counter⟩
    · exact ⟨h.counter.trans (hbounds' n hn).1, (hbounds' n hn).2⟩

/-- Nothing is added. -/
theorem adds_nil (h : ∀ name ∈ T.resources, name ∈ S.resources) (hcounter : T.counter = S.counter) :
    Adds S [] T :=
  ⟨fun name hname => .inl (h name hname), nofun, ⟨[], .nil, .nil, nofun⟩, hcounter.ge⟩

/-- One resource is added, with the next number. -/
theorem adds_singleton {name : Text}
    (h : ∀ other ∈ T.resources, other ∈ S.resources ∨ other = name ∨
      ∃ space n, other = memberName space n)
    (hthere : name ∈ T.resources) (hname : Numbered S.counter name)
    (hcounter : T.counter = S.counter + 1) : Adds S [name] T := by
  refine ⟨fun other hother => ?_, fun other hother => List.mem_singleton.mp hother ▸ hthere,
    ⟨[S.counter], .cons hname .nil, List.pairwise_singleton _ _, ?_⟩,
    by rw [hcounter]; exact Nat.le_succ _⟩
  · rcases h other hother with hold | rfl | hmember
    · exact .inl hold
    · exact .inr (.inl List.mem_cons_self)
    · exact .inr (.inr hmember)
  · intro n hn
    rw [List.mem_singleton.mp hn, hcounter]
    exact ⟨Nat.le_refl _, Nat.lt_succ_self _⟩

private theorem exists_number {ns : List ℕ} (h : List.Forall₂ Numbered ns names) {name : Text}
    (hname : name ∈ names) : ∃ n ∈ ns, Numbered n name := by
  induction h with
  | nil => cases hname
  | cons hfirst hrest ih =>
      rcases List.mem_cons.mp hname with rfl | hname
      · exact ⟨_, List.mem_cons_self, hfirst⟩
      · obtain ⟨n, hn, hnumber⟩ := ih hname
        exact ⟨n, List.mem_cons_of_mem _ hn, hnumber⟩

/-- Names with increasing numbers differ from each other. -/
theorem nodup_of_numbers {ns : List ℕ} (h : List.Forall₂ Numbered ns names)
    (hpairwise : ns.Pairwise (· < ·)) : names.Nodup := by
  induction h with
  | nil => exact List.nodup_nil
  | cons hfirst hrest ih =>
      rw [List.pairwise_cons] at hpairwise
      refine List.nodup_cons.mpr ⟨fun hmem => ?_, ih hpairwise.2⟩
      obtain ⟨m, hm, hnumber⟩ := exists_number hrest hmem
      exact absurd (hfirst.unique hnumber) (Nat.ne_of_lt (hpairwise.1 m hm))

private theorem mem_resources {name : Text} : name ∈ S.resources ↔ name ∈ S.spaces.keys ∨
    (∃ m ∈ S.members.values.flatten, m.name = name) ∨ name ∈ S.threads ∨ name ∈ S.messages.keys ∨
      (∃ r ∈ S.reactions.values.flatten, r.name = name) ∨ name ∈ S.uploads.keys := by
  simp only [resources, reactionNames, List.mem_append, List.mem_map, or_assoc]

private theorem newThread_adds (space : Text) :
    Adds S [threadName space S.counter] (S.newThread space).1 := by
  refine adds_singleton (fun other hother => ?_) ?_ (numbered_threadName _ _) rfl
  · rw [mem_resources] at hother ⊢
    simp only [newThread, List.mem_cons] at hother
    grind
  · exact mem_resources.mpr (.inr (.inr (.inl List.mem_cons_self)))

private theorem bindKey_adds (space : Text) (key : Json) :
    Adds S [threadName space S.counter] (S.bindKey space key) := by
  refine adds_singleton (fun other hother => ?_) ?_ (numbered_threadName _ _) rfl
  · rw [mem_resources] at hother ⊢
    simp only [bindKey, List.mem_cons] at hother
    grind
  · exact mem_resources.mpr (.inr (.inr (.inl List.mem_cons_self)))

/-- A message in a thread that is there. -/
theorem insert_adds {thread : Text} (hthread : thread ≠ []) (space sender body : Text) (now : ℚ)
    (attachments : List Attachment) (quoted : Option Quote) :
    Adds S [messageName space S.counter]
      (S.insert space sender body thread now attachments quoted).1 := by
  unfold insert
  rw [if_neg hthread]
  refine adds_singleton (fun other hother => ?_) ?_ (numbered_messageName _ _) rfl
  · rw [mem_resources] at hother ⊢
    simp only [Dict.mem_keys_set] at hother
    grind
  · exact mem_resources.mpr (.inr (.inr (.inr (.inl (Dict.mem_keys_set.mpr (.inr rfl))))))

/-- The message leaves what there is. -/
theorem mem_resources_insert {thread : Text} (hthread : thread ≠ []) (space sender body : Text)
    (now : ℚ) (attachments : List Attachment) (quoted : Option Quote) (name : Text)
    (hname : name ∈ S.resources) :
    name ∈ (S.insert space sender body thread now attachments quoted).1.resources := by
  unfold insert
  rw [if_neg hthread]
  rw [mem_resources] at hname ⊢
  simp only [Dict.mem_keys_set]
  grind

/-- A message, and the thread that is opened for it. -/
theorem insert_adds_both (space sender body : Text) (now : ℚ) (attachments : List Attachment)
    (quoted : Option Quote) : Adds S [threadName space S.counter, messageName space (S.counter + 1)]
      (S.insert space sender body [] now attachments quoted).1 := by
  have hthread := newThread_adds (S := S) space
  have hmessage := insert_adds (S := (S.newThread space).1) (threadName_ne_nil space S.counter)
    space sender body now attachments quoted
  have hinsert : (S.insert space sender body [] now attachments quoted).1 =
      ((S.newThread space).1.insert space sender body (threadName space S.counter) now attachments
        quoted).1 := by
    unfold insert
    rw [if_pos rfl, if_neg (threadName_ne_nil space S.counter)]
    rfl
  rw [hinsert]
  exact hthread.trans hmessage
    (mem_resources_insert (threadName_ne_nil space S.counter) _ _ _ _ _ _)

private theorem createMessage_adds (space : Text) (req : MessageCreate) (now : ℚ) :
    Adds S (S.gives repr (.createMessage space req now))
      (S.createMessage repr space req now).1 := by
  rcases @resolveThread_cases S repr space req with
    ⟨hnot, result, hresolve⟩ | ⟨hbinds, hresolve⟩
  · simp only [gives, createMessage, hresolve]
    cases result with
    | error e => exact adds_nil (fun _ h => h) rfl
    | ok thread =>
        dsimp only
        cases S.resolveRefs repr req thread with
        | error e =>
            dsimp only
            rw [if_neg hnot]
            exact adds_nil (fun _ h => h) rfl
        | ok refs =>
            dsimp only
            by_cases hthread : thread = []
            · rw [if_pos (.inr hthread), hthread]
              exact insert_adds_both _ _ _ _ _ _
            · rw [if_neg (not_or.mpr ⟨hnot, hthread⟩)]
              exact insert_adds hthread _ _ _ _ _ _
  · have hrefs : (S.bindKey space req.threadKey).resolveRefs repr req
        (threadName space S.counter) = S.resolveRefs repr req (threadName space S.counter) := rfl
    simp only [gives, createMessage, hresolve, hrefs]
    have hbind := bindKey_adds (S := S) space req.threadKey
    cases S.resolveRefs repr req (threadName space S.counter) with
    | error e =>
        dsimp only
        rw [if_pos hbinds]
        exact hbind
    | ok refs =>
        dsimp only
        rw [if_pos (.inl hbinds)]
        exact hbind.trans (insert_adds (threadName_ne_nil space S.counter) _ _ _ _ _ _)
          (mem_resources_insert (threadName_ne_nil space S.counter) _ _ _ _ _ _)

/-- A space that is set, with its members. -/
theorem mem_resources_setSpace {key name : Text} {space : Space} {members : List Member}
    (h : name ∈ ({ S with
      spaces := S.spaces.set key space
      members := S.members.set key members } : MockChatDriver).resources) :
    name ∈ S.resources ∨ name = key ∨ ∃ m ∈ members, m.name = name := by
  rw [mem_resources] at h
  rw [mem_resources]
  rcases h with hspace | ⟨m, hm, hname⟩ | hrest
  · rcases Dict.mem_keys_set.mp hspace with hold | hnew
    · exact .inl (.inl hold)
    · exact .inr (.inl hnew)
  · obtain ⟨rows, hrows, hmem⟩ := List.mem_flatten.mp hm
    rcases Dict.mem_values_of_set hrows with rfl | hold
    · exact .inr (.inr ⟨m, hmem, hname⟩)
    · exact .inl (.inr (.inl ⟨m, List.mem_flatten.mpr ⟨rows, hold, hmem⟩, hname⟩))
  · exact .inl (.inr (.inr hrest))

private theorem createSpace_adds (req : SpaceCreate) :
    Adds S [mockName S.counter] (S.createSpace req).1 := by
  refine adds_singleton (fun other hother => ?_)
    (mem_resources.mpr (.inl (Dict.mem_keys_set.mpr (.inr rfl)))) (numbered_mockName _) rfl
  rcases mem_resources_setSpace (S := { S with counter := S.counter + 1 }) hother with
    hold | hnew | ⟨m, hm, hname⟩
  · exact .inl hold
  · exact .inr (.inl hnew)
  · rw [List.mem_singleton.mp hm] at hname
    exact .inr (.inr ⟨_, _, hname.symm⟩)

private theorem createReaction_adds (message emoji : Text) :
    Adds S [reactionName message S.counter] (S.createReaction message emoji).1 := by
  have hthere : (⟨reactionName message S.counter, S.identity, emoji⟩ : Reaction) ∈
      (S.createReaction message emoji).1.reactions.values.flatten :=
    List.mem_flatten.mpr ⟨_, Dict.mem_values.mpr ⟨message, Dict.get?_set_self⟩,
      List.mem_append_right _ List.mem_cons_self⟩
  refine adds_singleton (fun other hother => ?_)
    (mem_resources.mpr (.inr (.inr (.inr (.inr (.inl ⟨_, hthere, rfl⟩))))))
    (numbered_reactionName _ _) rfl
  rw [mem_resources] at hother ⊢
  rcases hother with hspace | hmember | hthread | hmessage | ⟨r, hr, hname⟩ | hupload
  · exact .inl (.inl hspace)
  · exact .inl (.inr (.inl hmember))
  · exact .inl (.inr (.inr (.inl hthread)))
  · exact .inl (.inr (.inr (.inr (.inl hmessage))))
  · obtain ⟨rows, hrows, hmem⟩ := List.mem_flatten.mp hr
    have hold : ∀ rows ∈ S.reactions.values, r ∈ rows →
        ∃ r' ∈ S.reactions.values.flatten, r'.name = other := fun rows hrows hmem =>
      ⟨r, List.mem_flatten.mpr ⟨rows, hrows, hmem⟩, hname⟩
    rcases Dict.mem_values_of_set hrows with rfl | hrows
    · rcases List.mem_append.mp hmem with hmem | hmem
      · cases hget : S.reactions.get? message with
        | none =>
            rw [hget] at hmem
            cases hmem
        | some rows =>
            rw [hget] at hmem
            exact .inl (.inr (.inr (.inr (.inr (.inl
              (hold rows (Dict.mem_values.mpr ⟨message, hget⟩) hmem))))))
      · rw [List.mem_singleton.mp hmem] at hname
        exact .inr (.inl hname.symm)
    · exact .inl (.inr (.inr (.inr (.inr (.inl (hold rows hrows hmem))))))
  · exact .inl (.inr (.inr (.inr (.inr (.inr hupload)))))

/-- Requests that create nothing leave no new names. -/
theorem resources_mono (hspaces : T.spaces = S.spaces) (hmembers : T.members = S.members)
    (hthreads : T.threads = S.threads) (hmessages : ∀ name ∈ T.messages.keys,
      name ∈ S.messages.keys) (huploads : T.uploads = S.uploads)
    (hreactions : ∀ rows ∈ T.reactions.values, ∀ r ∈ rows,
      ∃ rows' ∈ S.reactions.values, r ∈ rows') : ∀ name ∈ T.resources, name ∈ S.resources := by
  intro name hname
  rw [mem_resources] at hname ⊢
  rw [hspaces, hmembers, hthreads, huploads] at hname
  rcases hname with hspace | hmember | hthread | hmessage | ⟨r, hr, hname⟩ | hupload
  · exact .inl hspace
  · exact .inr (.inl hmember)
  · exact .inr (.inr (.inl hthread))
  · exact .inr (.inr (.inr (.inl (hmessages name hmessage))))
  · obtain ⟨rows, hrows, hmem⟩ := List.mem_flatten.mp hr
    obtain ⟨rows', hrows', hmem'⟩ := hreactions rows hrows r hmem
    exact .inr (.inr (.inr (.inr (.inl ⟨r, List.mem_flatten.mpr ⟨rows', hrows', hmem'⟩, hname⟩))))
  · exact .inr (.inr (.inr (.inr (.inr hupload))))

private theorem patchMessage_adds (name : Text) (body : Option Text) (now : ℚ) :
    Adds S [] (S.patchMessage name body now).1 := by
  unfold patchMessage
  cases hmessage : S.messages.get? name with
  | none => exact adds_nil (fun _ h => h) rfl
  | some message =>
      cases body with
      | none => exact adds_nil (fun _ h => h) rfl
      | some body =>
          refine adds_nil (resources_mono rfl rfl rfl (fun other hother => ?_) rfl
            fun rows hrows r hr => ⟨rows, hrows, hr⟩) rfl
          rcases Dict.mem_keys_set.mp hother with hold | rfl
          · exact hold
          · exact Dict.mem_keys.mpr ⟨message, hmessage⟩

private theorem deleteMessage_adds (name : Text) : Adds S [] (S.deleteMessage name).1 := by
  have herase : ∀ other ∈ (S.messages.erase name).keys, other ∈ S.messages.keys := by
    intro other hother
    rw [Dict.keys_erase] at hother
    exact (List.mem_filter.mp hother).1
  have hsame : ∀ rows ∈ S.reactions.values, ∀ r ∈ rows, ∃ rows' ∈ S.reactions.values, r ∈ rows' :=
    fun rows hrows r hr => ⟨rows, hrows, hr⟩
  unfold deleteMessage
  cases S.messages.get? name with
  | none => exact adds_nil (fun _ h => h) rfl
  | some message =>
      dsimp only
      cases S.order.get? (spaceOf name) with
      | none => exact adds_nil (resources_mono rfl rfl rfl herase rfl hsame) rfl
      | some names =>
          dsimp only
          by_cases hlisted : name ∈ names
          · rw [if_pos hlisted]
            exact adds_nil (resources_mono rfl rfl rfl herase rfl fun rows hrows r hr =>
              ⟨rows, Dict.mem_values_of_erase hrows, hr⟩) rfl
          · rw [if_neg hlisted]
            exact adds_nil (resources_mono rfl rfl rfl herase rfl hsame) rfl

private theorem deleteReaction_adds (name : Text) : Adds S [] (S.deleteReaction name).1 := by
  unfold deleteReaction
  dsimp only
  split
  · refine adds_nil (resources_mono rfl rfl rfl (fun _ h => h) rfl fun rows hrows r hr => ?_) rfl
    rcases Dict.mem_values_of_set hrows with rfl | hold
    · have hmem := List.mem_of_mem_eraseP hr
      cases hget : S.reactions.get? (reactedMessage name) with
      | none =>
          rw [hget] at hmem
          cases hmem
      | some old =>
          rw [hget] at hmem
          exact ⟨old, Dict.mem_values.mpr ⟨_, hget⟩, hmem⟩
    · exact ⟨rows, hold, hr⟩
  · exact adds_nil (fun _ h => h) rfl

private theorem uploadAttachment_adds {space : Text} (hspace : space ∈ S.spaces.keys)
    (upload : Upload) :
    Adds S [uploadName space S.counter] (S.uploadAttachment repr space upload).1 := by
  unfold uploadAttachment
  rw [if_pos hspace]
  refine adds_singleton (fun other hother => ?_)
    (mem_resources.mpr (.inr (.inr (.inr (.inr (.inr (Dict.mem_keys_set.mpr (.inr rfl))))))))
    (numbered_uploadName _ _) rfl
  rw [mem_resources] at hother ⊢
  simp only [Dict.mem_keys_set] at hother
  grind

/-- What a step adds has the names that it gives, with new numbers in order. -/
theorem serve_adds (repr : Repr) (S : MockChatDriver) (e : ChatEvent) :
    Adds S (S.gives repr e) (S.serve repr e) := by
  cases e with
  | createSpace req => exact createSpace_adds req
  | createMessage space req now => exact createMessage_adds space req now
  | patchMessage name body now => exact patchMessage_adds name body now
  | deleteMessage name => exact deleteMessage_adds name
  | createReaction message emoji =>
      rw [gives, serve]
      by_cases hmessage : message ∈ S.messages.keys
      · rw [if_pos hmessage, if_pos hmessage]
        exact createReaction_adds message emoji
      · rw [if_neg hmessage, if_neg hmessage]
        exact adds_nil (fun _ h => h) rfl
  | deleteReaction name => exact deleteReaction_adds name
  | uploadAttachment space upload =>
      rw [gives, serve]
      by_cases hspace : space ∈ S.spaces.keys
      · rw [if_pos hspace]
        exact uploadAttachment_adds hspace upload
      · rw [if_neg hspace, uploadAttachment, if_neg hspace]
        exact adds_nil (fun _ h => h) rfl

/-! ### What is known of the names of a run -/

/-- The spaces and the lists of members that there are stay as they are. -/
def Spared (S T : MockChatDriver) : Prop :=
  ∀ space ∈ S.spaces.keys, T.spaces.get? space = S.spaces.get? space ∧
    T.members.get? space = S.members.get? space

/-- The names that there have been, and whether each was new when it was given. -/
structure Ledger where
  known : List Text
  fresh : Prop

/-- The ledger of a driver that has served nothing. -/
def opened (S : MockChatDriver) : Ledger := ⟨S.resources, True⟩

def Ledger.next (repr : Repr) (L : Ledger) (S : MockChatDriver) (e : ChatEvent)
    (T : MockChatDriver) : Ledger where
  known := L.known ++ T.resources
  fresh := L.fresh ∧ (∀ name ∈ S.gives repr e, name ∉ L.known) ∧ (S.gives repr e).Nodup ∧
    Spared S T

/-- The names that the request makes from the counter are not those of seeded spaces. -/
def Clear (repr : Repr) (seeded : List SeedSpace) (x : MockChatDriver × Ledger) (e : ChatEvent) :
    Prop :=
  ∀ row ∈ seeded, spaceName row.id ∉ x.1.gives repr e

instance (repr : Repr) (seeded : List SeedSpace) (x : MockChatDriver × Ledger) (e : ChatEvent) :
    Decidable (Clear repr seeded x e) :=
  inferInstanceAs (Decidable (∀ row ∈ seeded, spaceName row.id ∉ x.1.gives repr e))

/-- Every name there has been is that of a seeded space, has a number the counter has left behind,
or is the name of a member. -/
structure Recorded (seeded : List SeedSpace) (x : MockChatDriver × Ledger) : Prop where
  seeds : ∀ row ∈ seeded, spaceName row.id ∈ x.2.known
  known : ∀ name ∈ x.2.known, (∃ row ∈ seeded, name = spaceName row.id) ∨
    (∃ n < x.1.counter, Numbered n name) ∨ ∃ space n, name = memberName space n
  resources : ∀ name ∈ x.1.resources, name ∈ x.2.known

private theorem Recorded.adds {seeded : List SeedSpace} {L : Ledger} (h : Recorded seeded (S, L))
    (hadds : Adds S names T) (p : Prop) : Recorded seeded (T, ⟨L.known ++ T.resources, p⟩) := by
  obtain ⟨ns, hns, -, hbounds⟩ := hadds.numbers
  refine ⟨fun row hrow => List.mem_append_left _ (h.seeds row hrow), fun name hname => ?_,
    fun name hname => List.mem_append_right _ hname⟩
  have hold : name ∈ L.known → (∃ row ∈ seeded, name = spaceName row.id) ∨
      (∃ n < T.counter, Numbered n name) ∨ ∃ space n, name = memberName space n := by
    intro hknown
    rcases h.known name hknown with hseed | ⟨n, hn, hnumber⟩ | hmember
    · exact .inl hseed
    · exact .inr (.inl ⟨n, hn.trans_le hadds.counter, hnumber⟩)
    · exact .inr (.inr hmember)
  rcases List.mem_append.mp hname with hknown | hthere
  · exact hold hknown
  · rcases hadds.resources name hthere with hknown | hgiven | hmember
    · exact hold (h.resources name hknown)
    · obtain ⟨n, hn, hnumber⟩ := exists_number hns hgiven
      exact .inr (.inl ⟨n, (hbounds n hn).2, hnumber⟩)
    · exact .inr (.inr hmember)

/-- A name that the counter gives is known only from a seed. -/
theorem Recorded.known_of_gives {seeded : List SeedSpace} {x : MockChatDriver × Ledger}
    (h : Recorded seeded x) {e : ChatEvent} {name : Text} (hname : name ∈ x.1.gives repr e)
    (hknown : name ∈ x.2.known) : ∃ row ∈ seeded, name = spaceName row.id := by
  obtain ⟨ns, hns, -, hbounds⟩ := (serve_adds repr x.1 e).numbers
  obtain ⟨n, hn, hnumber⟩ := exists_number hns hname
  rcases h.known name hknown with hseed | ⟨m, hm, hother⟩ | ⟨space, k, rfl⟩
  · exact hseed
  · obtain rfl := hnumber.unique hother
    exact absurd hm (Nat.not_lt.mpr (hbounds _ hn).1)
  · exact absurd hnumber (not_numbered_memberName space k n)

private theorem spaces_insert (space sender body thread : Text) (now : ℚ)
    (attachments : List Attachment) (quoted : Option Quote) :
    (S.insert space sender body thread now attachments quoted).1.spaces = S.spaces ∧
      (S.insert space sender body thread now attachments quoted).1.members = S.members := by
  unfold insert
  by_cases hthread : thread = []
  · rw [if_pos hthread]
    exact ⟨rfl, rfl⟩
  · rw [if_neg hthread]
    exact ⟨rfl, rfl⟩

private theorem spaces_createMessage (space : Text) (req : MessageCreate) (now : ℚ) :
    (S.createMessage repr space req now).1.spaces = S.spaces ∧
      (S.createMessage repr space req now).1.members = S.members := by
  rcases @resolveThread_cases S repr space req with
    ⟨-, result, hresolve⟩ | ⟨-, hresolve⟩
  · simp only [createMessage, hresolve]
    cases result with
    | error e => exact ⟨rfl, rfl⟩
    | ok thread =>
        dsimp only
        cases S.resolveRefs repr req thread with
        | error e => exact ⟨rfl, rfl⟩
        | ok refs => exact spaces_insert _ _ _ _ _ _ _
  · simp only [createMessage, hresolve]
    cases (S.bindKey space req.threadKey).resolveRefs repr req
        (threadName space S.counter) with
    | error e => exact ⟨rfl, rfl⟩
    | ok refs => exact spaces_insert (S := S.bindKey space req.threadKey) _ _ _ _ _ _ _

variable (repr) in
/-- Only the creation of a space writes spaces and members. -/
theorem spaces_serve {e : ChatEvent} (h : ∀ req, e ≠ .createSpace req) :
    (S.serve repr e).spaces = S.spaces ∧ (S.serve repr e).members = S.members := by
  cases e with
  | createSpace req => exact absurd rfl (h req)
  | createMessage space req now => exact spaces_createMessage space req now
  | patchMessage name body now =>
      rw [serve, patchMessage]
      cases S.messages.get? name with
      | none => exact ⟨rfl, rfl⟩
      | some message => cases body <;> exact ⟨rfl, rfl⟩
  | deleteMessage name =>
      rw [serve, deleteMessage]
      cases S.messages.get? name with
      | none => exact ⟨rfl, rfl⟩
      | some message =>
          dsimp only
          split
          · exact ⟨rfl, rfl⟩
          · split <;> exact ⟨rfl, rfl⟩
  | createReaction message emoji =>
      rw [serve]
      split <;> exact ⟨rfl, rfl⟩
  | deleteReaction name =>
      rw [serve, deleteReaction]
      split <;> exact ⟨rfl, rfl⟩
  | uploadAttachment space upload =>
      rw [serve, uploadAttachment]
      split <;> exact ⟨rfl, rfl⟩

/-- Only a space of a name that is taken replaces one. -/
theorem spared_serve {e : ChatEvent} (h : ∀ name ∈ S.gives repr e, name ∉ S.resources) :
    Spared S (S.serve repr e) := by
  intro space hspace
  by_cases hcreate : ∃ req, e = .createSpace req
  · obtain ⟨req, rfl⟩ := hcreate
    have hne : space ≠ mockName S.counter := by
      rintro rfl
      exact h _ List.mem_cons_self (mem_resources.mpr (.inl hspace))
    exact ⟨Dict.get?_set_of_ne hne, Dict.get?_set_of_ne hne⟩
  · obtain ⟨hspaces, hmembers⟩ := spaces_serve (S := S) repr
      fun req he => hcreate ⟨req, he⟩
    rw [hspaces, hmembers]
    exact ⟨rfl, rfl⟩

/-! ### Runs -/

private theorem mem_resources_seedSpace {row : SeedSpace} {name : Text}
    (h : name ∈ (S.seedSpace row).resources) :
    name ∈ S.resources ∨ name = spaceName row.id ∨ ∃ space n, name = memberName space n := by
  rcases mem_resources_setSpace h with hold | hnew | ⟨m, hm, hname⟩
  · exact .inl hold
  · exact .inr (.inl hnew)
  · obtain ⟨i, hi, rfl⟩ := List.mem_mapIdx.mp hm
    exact .inr (.inr ⟨_, _, hname.symm⟩)

private theorem mem_resources_seedSpaces {rows : List SeedSpace} {name : Text}
    (h : name ∈ (rows.foldl seedSpace S).resources) :
    name ∈ S.resources ∨ (∃ row ∈ rows, name = spaceName row.id) ∨
      ∃ space n, name = memberName space n := by
  induction rows generalizing S with
  | nil => exact .inl h
  | cons row rows ih =>
      rcases ih h with hfirst | ⟨row', hrow', hname⟩ | hmember
      · rcases mem_resources_seedSpace hfirst with hold | hnew | hmember
        · exact .inl hold
        · exact .inr (.inl ⟨row, List.mem_cons_self, hnew⟩)
        · exact .inr (.inr hmember)
      · exact .inr (.inl ⟨row', List.mem_cons_of_mem _ hrow', hname⟩)
      · exact .inr (.inr hmember)

private theorem mem_spaces_seedSpaces {rows : List SeedSpace} {name : Text}
    (h : name ∈ S.spaces.keys ∨ ∃ row ∈ rows, name = spaceName row.id) :
    name ∈ (rows.foldl seedSpace S).spaces.keys := by
  induction rows generalizing S with
  | nil =>
      rcases h with hold | ⟨row, hrow, -⟩
      · exact hold
      · cases hrow
  | cons row rows ih =>
      refine ih ?_
      rcases h with hold | ⟨row', hrow', rfl⟩
      · exact .inl (Dict.mem_keys_set.mpr (.inl hold))
      · rcases List.mem_cons.mp hrow' with rfl | hrow'
        · exact .inl (Dict.mem_keys_set.mpr (.inr rfl))
        · exact .inr ⟨row', hrow', rfl⟩

private theorem recorded_seedMessages {seeded : List SeedSpace} {rows : List SeedMessage}
    {L : Ledger} (h : Recorded seeded (S, L)) (hT : S.seedMessages rows = some T) :
    T.spaces = S.spaces ∧ ∃ L', Recorded seeded (T, L') := by
  refine seedMessages_induct
    (motive := fun T => T.spaces = S.spaces ∧ ∃ L', Recorded seeded (T, L')) hT ⟨rfl, L, h⟩
    fun U row hU => ?_
  obtain ⟨hspaces, L', hrecorded⟩ := hU
  exact ⟨(spaces_insert _ _ _ _ _ _ _).1.trans hspaces, _,
    hrecorded.adds (insert_adds_both (spaceName row.space) row.sender row.text row.now [] none)
      True⟩

private theorem recorded_init {identity : Text} {spaces : List SeedSpace}
    {messages : List SeedMessage}
    (h : init identity spaces messages = some S) : Recorded spaces (S, opened S) := by
  have hseeds : ∀ row ∈ spaces,
      spaceName row.id ∈ (spaces.foldl seedSpace (blank identity)).spaces.keys :=
    fun row hrow => mem_spaces_seedSpaces (.inr ⟨row, hrow, rfl⟩)
  have hspaces : Recorded spaces (spaces.foldl seedSpace (blank identity),
      opened (spaces.foldl seedSpace (blank identity))) := by
    refine ⟨fun row hrow => mem_resources.mpr (.inl (hseeds row hrow)), fun name hname => ?_,
      fun name hname => hname⟩
    rcases mem_resources_seedSpaces hname with hblank | hseed | hmember
    · exact absurd hblank List.not_mem_nil
    · exact .inl hseed
    · exact .inr (.inr hmember)
  obtain ⟨hsame, L, hrecorded⟩ := recorded_seedMessages hspaces h
  exact ⟨fun row hrow => mem_resources.mpr (.inl (hsame ▸ hseeds row hrow)),
    fun name hname => hrecorded.known name (hrecorded.resources name hname),
    fun name hname => hname⟩

/-- In a run every name given is new, and no space is replaced, exactly if no request gives a name
that a seeded space has. -/
theorem names_fresh_iff {identity : Text} {spaces : List SeedSpace} {messages : List SeedMessage}
    {es : List ChatEvent} {L : Ledger} (hinit : init identity spaces messages = some S)
    (hrun : Run ((Serves repr).monitored (Ledger.next repr)) (S, opened S) es (T, L)) :
    L.fresh ↔ Run (((Serves repr).monitored (Ledger.next repr)).within (Clear repr spaces))
      (S, opened S) es (T, L) := by
  refine hrun.iff_within (Recorded spaces) (fun x => x.2.fresh) (recorded_init hinit) trivial
    ?_ ?_ ?_
  · rintro ⟨S, L⟩ e ⟨T, L'⟩ hrecorded ⟨hT, hL⟩
    change T = S.serve repr e at hT
    change L' = L.next repr S e T at hL
    subst hT hL
    exact hrecorded.adds (serve_adds repr S e) _
  · rintro ⟨S, L⟩ e ⟨T, L'⟩ hrecorded hfresh ⟨hT, hL⟩
    change T = S.serve repr e at hT
    change L' = L.next repr S e T at hL
    subst hT hL
    constructor
    · rintro ⟨-, hnew, -⟩ row hrow hgiven
      exact hnew _ hgiven (hrecorded.seeds row hrow)
    · intro hclear
      have hnew : ∀ name ∈ S.gives repr e, name ∉ L.known := by
        intro name hname hknown
        obtain ⟨row, hrow, rfl⟩ := hrecorded.known_of_gives hname hknown
        exact hclear row hrow hname
      obtain ⟨ns, hns, hpairwise, -⟩ := (serve_adds repr S e).numbers
      exact ⟨hfresh, hnew, nodup_of_numbers hns hpairwise,
        spared_serve fun name hname hthere => hnew name hname (hrecorded.resources name hthere)⟩
  · rintro ⟨S, L⟩ e ⟨T, L'⟩ ⟨hT, hL⟩ hfresh
    change L' = L.next repr S e T at hL
    subst hL
    exact hfresh.1

/-- One space, whose identifier the operator has chosen. -/
private def seeded (id : Text) : Option MockChatDriver :=
  init (text "users/me") [{ id := id, members := [text "users/a"] }] []

/-- A space whose identifier no name of the counter has. -/
private def general : MockChatDriver :=
  (blank (text "users/me")).seedSpace { id := text "general", members := [text "users/a"] }

private def founding : ChatEvent := .createSpace { displayName := .str (text "new") }

private theorem run_founding (S : MockChatDriver) :
    Run ((Serves asciiRepr).monitored (Ledger.next asciiRepr)) (S, opened S) [founding]
      (S.serve asciiRepr founding,
        (opened S).next asciiRepr S founding (S.serve asciiRepr founding)) :=
  .single ⟨rfl, rfl⟩

/-- A space is created, and in it a reply under a key, which opens a thread, and a reaction. -/
private def conversation : List ChatEvent :=
  [founding,
    .createMessage (mockName 1) { text := text "hello", threadKey := .str (text "k"),
                                  reply := .fallback } 1,
    .createReaction (messageName (mockName 1) 3) (text "+1")]

/-- The counter has named a space, a thread, a message and a reaction. -/
theorem names_fresh_conversation : ∃ S T L, seeded (text "general") = some S ∧
    Run ((Serves asciiRepr).monitored (Ledger.next asciiRepr)) (S, opened S) conversation (T, L) ∧
      (∀ name ∈ [mockName 1, threadName (mockName 1) 2, messageName (mockName 1) 3,
        reactionName (messageName (mockName 1) 3) 4], name ∈ L.known) ∧ L.fresh := by
  obtain ⟨⟨T, L⟩, hclear, hknown⟩ := exists_run_of_execWithin
    (monitorStep (fun S e => some (S.serve asciiRepr e)) (Ledger.next asciiRepr))
    (Clear asciiRepr [{ id := text "general", members := [text "users/a"] }])
    (general, opened general) conversation
    (fun x => [mockName 1, threadName (mockName 1) 2, messageName (mockName 1) 3,
      reactionName (messageName (mockName 1) 3) 4].all fun name => decide (name ∈ x.2.known))
    (by decide +kernel)
  have hclear : Run (((Serves asciiRepr).monitored (Ledger.next asciiRepr)).within
      (Clear asciiRepr [{ id := text "general", members := [text "users/a"] }]))
      (general, opened general) conversation (T, L) := by
    rw [ofPartial_monitorStep] at hclear
    exact hclear.mono fun x e y ⟨hx, hserve, hledger⟩ =>
      ⟨hx, (Option.some.inj hserve).symm, hledger⟩
  have hrun := hclear.mono fun x e y hstep => hstep.2
  have hinit : seeded (text "general") = some general := rfl
  refine ⟨general, T, L, hinit, hrun, fun name hname => ?_,
    (names_fresh_iff hinit hrun).mpr hclear⟩
  exact of_decide_eq_true (List.all_eq_true.mp hknown name hname)

/-- The first space that is created replaces a seeded one with the identifier `mock1`. -/
theorem not_names_fresh_mock : ¬ ∀ (repr : Repr) (identity : Text) (spaces : List SeedSpace)
    (messages : List SeedMessage) (S T : MockChatDriver) (es : List ChatEvent) (L : Ledger),
    init identity spaces messages = some S →
      Run ((Serves repr).monitored (Ledger.next repr)) (S, opened S) es (T, L) → L.fresh := by
  intro h
  obtain ⟨S, hS⟩ : ∃ S, seeded (text "mock1") = some S := ⟨_, rfl⟩
  have hcounter : S.counter = 1 := by
    obtain rfl := Option.some.inj hS
    rfl
  have hthere : mockName 1 ∈ S.spaces.keys := by
    obtain rfl := Option.some.inj hS
    decide +kernel
  obtain ⟨-, hnew, -⟩ := h asciiRepr _ _ _ S _ _ _ hS (run_founding S)
  refine hnew (mockName 1) ?_ (mem_resources.mpr (.inl hthere))
  rw [← hcounter]
  exact List.mem_cons_self

end MockChatDriver

end Jetty.Chat
