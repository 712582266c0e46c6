import Jetty.Core.Transition
import Jetty.Modules.Chat.Driver

/-!
# Runs of the mock chat driver

The driver is built from the seeds of the configuration and then serves requests one after the
other: none of its methods waits for anything.
-/

namespace Jetty.Chat

open Python Transition

/-- What the driver is asked to do; `now` is the clock. -/
inductive ChatEvent
  | createSpace (req : SpaceCreate)
  | createMessage (space : Text) (req : MessageCreate) (now : ℚ)
  | patchMessage (name : Text) (body : Option Text) (now : ℚ)
  | deleteMessage (name : Text)
  /-- The route looks the message up first. -/
  | createReaction (message emoji : Text)
  | deleteReaction (name : Text)
  | uploadAttachment (space : Text) (upload : Upload)

namespace MockChatDriver

/-- The loop of `__init__` over `seed_messages`. -/
def seedMessages (S : MockChatDriver) (rows : List SeedMessage) : Option MockChatDriver :=
  rows.foldlM seedMessage S

/-- `__init__`; nothing where it raises. -/
def init (identity : Text) (spaces : List SeedSpace) (messages : List SeedMessage) :
    Option MockChatDriver :=
  (spaces.foldl seedSpace (blank identity)).seedMessages messages

/-- What the insertion of each seeded message preserves holds after all of them. -/
theorem seedMessages_induct {motive : MockChatDriver → Prop} {S T : MockChatDriver}
    {rows : List SeedMessage} (h : S.seedMessages rows = some T) (hS : motive S)
    (hmessage : ∀ (S : MockChatDriver) (row : SeedMessage), motive S →
      motive (S.insert (spaceName row.space) row.sender row.text [] row.now).1) : motive T := by
  induction rows generalizing S with
  | nil =>
      obtain rfl := Option.some.inj h
      exact hS
  | cons row rows ih =>
      obtain ⟨U, hU, hrest⟩ := Option.bind_eq_some_iff.mp h
      refine ih hrest ?_
      unfold seedMessage at hU
      split at hU
      · obtain rfl := Option.some.inj hU
        exact hmessage S row hS
      · cases hU

/-- What holds of an empty driver and is kept with each seed holds of a driver that has been
built. -/
theorem init_induct {motive : MockChatDriver → Prop} {S : MockChatDriver} {identity : Text}
    {spaces : List SeedSpace} {messages : List SeedMessage}
    (h : init identity spaces messages = some S) (hblank : motive (blank identity))
    (hspace : ∀ (S : MockChatDriver) (row : SeedSpace), motive S → motive (S.seedSpace row))
    (hmessage : ∀ (S : MockChatDriver) (row : SeedMessage), motive S →
      motive (S.insert (spaceName row.space) row.sender row.text [] row.now).1) : motive S := by
  refine seedMessages_induct h ?_ hmessage
  generalize blank identity = S₀ at hblank
  clear h
  induction spaces generalizing S₀ with
  | nil => exact hblank
  | cons row rows ih => exact ih (S₀.seedSpace row) (hspace S₀ row hblank)

/-- The driver after a request, whether it is refused or not. -/
def serve (repr : Repr) (S : MockChatDriver) : ChatEvent → MockChatDriver
  | .createSpace req => (S.createSpace req).1
  | .createMessage space req now => (S.createMessage repr space req now).1
  | .patchMessage name body now => (S.patchMessage name body now).1
  | .deleteMessage name => (S.deleteMessage name).1
  | .createReaction message emoji =>
    if message ∈ S.messages.keys then (S.createReaction message emoji).1 else S
  | .deleteReaction name => (S.deleteReaction name).1
  | .uploadAttachment space upload => (S.uploadAttachment repr space upload).1

/-- The steps of a driver. -/
def Serves (repr : Repr) : Transition.Rel MockChatDriver ChatEvent :=
  fun S e T => T = S.serve repr e

/-- The driver has been built from seeds and has served requests. -/
def Reachable (repr : Repr) (S : MockChatDriver) : Prop :=
  ∃ identity spaces messages S₀ es, init identity spaces messages = some S₀ ∧
    Run (Serves repr) S₀ es S

end MockChatDriver

/-- `repr` of a text of ASCII characters that need no escape; other values are abridged. -/
def asciiRepr : Repr where
  toText v := (match v with
    | .str s => text "'" ++ s ++ text "'"
    | _ => text "...").filter fun c => decide (c.val < 0x80)
  encodes v := by
    refine Text.encode_isSome_of_ascii fun c hc => ?_
    exact of_decide_eq_true (List.mem_filter.mp hc).2

end Jetty.Chat
