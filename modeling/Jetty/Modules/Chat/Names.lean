import Jetty.Modules.Chat.Runs

/-!
# Resource names

The names of messages and reactions end in a number that the driver's counter gives once. What
stands before the last two segments of a message's name is the space it was created in; the driver
itself takes the first two segments.
-/

namespace Jetty.Chat

open Python MockChatDriver

/-- What a resource's name says about its space: all but the last two segments. -/
def owner (name : Text) : Text := Text.beforeLast Text.slash (Text.beforeLast Text.slash name)

/-- A number has no slash in it. -/
theorem slash_not_mem_numeral (n : ℕ) : Text.slash ∉ numeral n := by
  intro h
  have hdigit := digit_of_mem_numeral h
  revert hdigit
  decide

/-- The last segment of a generated name. -/
theorem slash_not_mem_generated {letter : CodePoint} (h : letter ≠ Text.slash) (n : ℕ) :
    Text.slash ∉ letter :: numeral n := by
  rintro (_ | ⟨_, hmem⟩)
  · exact h rfl
  · exact slash_not_mem_numeral n hmem

/-- The name of a message ends in its number. -/
theorem messageName_eq (space : Text) (n : ℕ) : messageName space n =
    (space ++ Text.slash :: text "messages") ++ Text.slash :: (0x6D :: numeral n) := by
  have hmiddle : text "/messages/m" =
      Text.slash :: text "messages" ++ Text.slash :: [0x6D] := by decide +kernel
  rw [messageName, hmiddle]
  simp only [List.append_assoc, List.cons_append, List.nil_append]

/-- The name of a reaction ends in its number. -/
theorem reactionName_eq (message : Text) (n : ℕ) : reactionName message n =
    (message ++ Text.slash :: text "reactions") ++ Text.slash :: (0x72 :: numeral n) := by
  have hmiddle : text "/reactions/r" =
      Text.slash :: text "reactions" ++ Text.slash :: [0x72] := by decide +kernel
  rw [reactionName, hmiddle]
  simp only [List.append_assoc, List.cons_append, List.nil_append]

/-- The owner of a message is the space it was named in. -/
theorem owner_messageName (space : Text) (n : ℕ) : owner (messageName space n) = space := by
  rw [owner, messageName_eq,
    Text.beforeLast_append _ (slash_not_mem_generated (by decide) n),
    Text.beforeLast_append space (by decide +kernel)]

/-- Messages with one name have one number. -/
theorem messageName_number {space space' : Text} {n n' : ℕ}
    (h : messageName space n = messageName space' n') : n = n' := by
  have hlast := congrArg (Text.afterLast Text.slash) h
  rw [messageName_eq, messageName_eq,
    Text.afterLast_append _ (slash_not_mem_generated (by decide) n),
    Text.afterLast_append _ (slash_not_mem_generated (by decide) n')] at hlast
  exact numeral_injective (List.cons.inj hlast).2

/-- Reactions with one name have one number. -/
theorem reactionName_number {message message' : Text} {n n' : ℕ}
    (h : reactionName message n = reactionName message' n') : n = n' := by
  have hlast := congrArg (Text.afterLast Text.slash) h
  rw [reactionName_eq, reactionName_eq,
    Text.afterLast_append _ (slash_not_mem_generated (by decide) n),
    Text.afterLast_append _ (slash_not_mem_generated (by decide) n')] at hlast
  exact numeral_injective (List.cons.inj hlast).2

/-- A space's name of two segments is what the driver takes for the space. -/
theorem spaceOf_append {kind id rest : Text} (hkind : Text.slash ∉ kind) (hid : Text.slash ∉ id) :
    spaceOf (kind ++ Text.slash :: (id ++ Text.slash :: rest)) = kind ++ Text.slash :: id := by
  unfold spaceOf
  rw [Text.partition_append hkind]
  dsimp only
  rw [Text.partition_append hid, if_pos (List.mem_append_right _ List.mem_cons_self)]

/-- On the names that the routes build, with identifiers that are one segment of a path, the two
notions agree. -/
theorem spaceOf_route {spaceId messageId : Text} (hspace : Text.slash ∉ spaceId)
    (hmessage : Text.slash ∉ messageId) :
    spaceOf (spaceName spaceId ++ text "/messages/" ++ messageId) =
      owner (spaceName spaceId ++ text "/messages/" ++ messageId) := by
  have hname : spaceName spaceId ++ text "/messages/" ++ messageId =
      (text "spaces" ++ Text.slash :: (spaceId ++ Text.slash :: text "messages")) ++
        Text.slash :: messageId := by
    have hfront : text "spaces/" = text "spaces" ++ [Text.slash] := by decide +kernel
    have hmiddle : text "/messages/" = Text.slash :: text "messages" ++ [Text.slash] := by
      decide +kernel
    rw [spaceName, hfront, hmiddle]
    simp only [List.append_assoc, List.cons_append, List.nil_append]
  have hfront : text "spaces" ++ Text.slash :: (spaceId ++ Text.slash :: text "messages") =
      (text "spaces" ++ Text.slash :: spaceId) ++ Text.slash :: text "messages" := by
    simp only [List.append_assoc, List.cons_append]
  rw [hname, owner, Text.beforeLast_append _ hmessage, hfront,
    Text.beforeLast_append _ (by decide +kernel), ← hfront]
  simp only [List.append_assoc, List.cons_append]
  exact spaceOf_append (by decide +kernel) hspace

end Jetty.Chat
