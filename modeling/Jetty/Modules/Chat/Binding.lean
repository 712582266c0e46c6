import Jetty.Modules.Chat.Driver

/-!
# Binding a key

Resolving the thread of a message to create changes the driver in one case: a reply under a key that
has no thread yet opens one and binds the key to it.
-/

namespace Jetty.Chat

open Python

namespace MockChatDriver

variable (S : MockChatDriver) (repr : Repr) (space : Text) (req : MessageCreate)

/-- The request asks for a new thread under a key that has none. -/
def BindsKey : Prop :=
  req.reply = .fallback ∧ req.thread.truthy = false ∧ req.threadKey.truthy = true ∧
    req.threadKey.hashable = true ∧ S.boundThread space req.threadKey = none

/-- A new thread under a key. -/
def bindKey (key : Json) : MockChatDriver :=
  { S with
    counter := S.counter + 1
    threads := threadName space S.counter :: S.threads
    threadKeys := S.threadKeys ++ [(space, key, threadName space S.counter)] }

variable {S space req}

/-- Resolving the thread changes nothing, except for a request that binds a key. -/
theorem resolveThread_cases :
    (¬ S.BindsKey space req ∧ ∃ result, S.resolveThread repr space req = (S, result)) ∨
      S.BindsKey space req ∧ S.resolveThread repr space req =
        (S.bindKey space req.threadKey, .ok (threadName space S.counter)) := by
  unfold resolveThread BindsKey
  by_cases hnew : req.reply = .new ∨ ¬ (req.thread.truthy = true ∨ req.threadKey.truthy = true)
  · rw [if_pos hnew]
    refine .inl ⟨?_, _, rfl⟩
    rintro ⟨hfallback, hthread, hkey, -⟩
    rcases hnew with hnew | hnone
    · rw [hfallback] at hnew
      cases hnew
    · exact hnone (.inr hkey)
  rw [if_neg hnew]
  by_cases hthread : req.thread.truthy = true
  · rw [if_pos hthread]
    refine .inl ⟨fun h => by simp [hthread] at h, ?_⟩
    split
    · split
      · exact ⟨_, rfl⟩
      · split
        · exact ⟨_, rfl⟩
        · exact ⟨_, rfl⟩
    · exact ⟨_, rfl⟩
  rw [if_neg hthread]
  by_cases hhash : req.threadKey.hashable = true
  · rw [if_pos hhash]
    cases hbound : S.boundThread space req.threadKey with
    | some thread => exact .inl ⟨fun h => by simp at h, _, rfl⟩
    | none =>
        by_cases hfail : req.reply = .orFail
        · simp only [if_pos hfail]
          refine .inl ⟨fun h => ?_, _, rfl⟩
          rw [hfail] at h
          cases h.1
        · simp only [if_neg hfail]
          have hreply : req.reply = .fallback := by
            cases hr : req.reply with
            | new => exact absurd (.inl hr) hnew
            | fallback => rfl
            | orFail => exact absurd hr hfail
          have hkey : req.threadKey.truthy = true := by
            by_contra hkey
            exact hnew (.inr fun h => h.elim hthread hkey)
          exact .inr ⟨⟨hreply, by simpa using hthread, hkey, hhash, trivial⟩, rfl⟩
  · rw [if_neg hhash]
    exact .inl ⟨fun h => hhash h.2.2.2.1, _, rfl⟩

end MockChatDriver

end Jetty.Chat
