import Jetty.Modules.Chat.Binding
import Jetty.Modules.Chat.References
import Jetty.Modules.Chat.Runs

/-!
# Refused messages

`create_message` resolves the thread, then the quote, then the attachments. The first of these
may already bind a key to a new thread; a request that is refused afterwards leaves the binding
behind.
-/

namespace Jetty.Chat

open Python

namespace MockChatDriver

variable (S : MockChatDriver) (repr : Repr) (space : Text) (req : MessageCreate)

/-- A request that is refused leaves the driver as it was. -/
def Unharmed (now : ℚ) : Prop :=
  ∀ e, (S.createMessage repr space req now).2 = .error e → e.typed = true →
    (S.createMessage repr space req now).1 = S

variable {S space req}

/-- A refused request leaves the driver as it was, exactly unless it binds a key and refers to
something that can be looked up and is not there. -/
theorem unharmed_iff (now : ℚ) : S.Unharmed repr space req now ↔
    ¬ (S.BindsKey space req ∧ S.Dangles req true (threadName space S.counter)) := by
  rw [← resolveRefs_error_iff repr]
  unfold Unharmed createMessage
  rcases resolveThread_cases (S := S) repr with
    ⟨hnot, result, hresolve⟩ | ⟨hbinds, hresolve⟩
  · rw [hresolve]
    refine iff_of_true (fun e he _ => ?_) fun h => hnot h.1
    cases result with
    | error e' => rfl
    | ok thread =>
        dsimp only at he ⊢
        cases hrefs : S.resolveRefs repr req thread with
        | error e' => rfl
        | ok refs =>
            rw [hrefs] at he
            cases he
  · have hrefs_eq : (S.bindKey space req.threadKey).resolveRefs repr req
        (threadName space S.counter) = S.resolveRefs repr req (threadName space S.counter) := rfl
    rw [hresolve]
    dsimp only
    rw [hrefs_eq]
    constructor
    · rintro h ⟨-, e, he, htyped⟩
      rw [he] at h
      have hkeys := congrArg (fun T => T.threadKeys.length) (h e rfl htyped)
      simp [bindKey] at hkeys
    · intro h e he htyped
      cases hrefs : S.resolveRefs repr req (threadName space S.counter) with
      | error e' =>
          rw [hrefs] at he
          cases he
          exact absurd ⟨hbinds, e, hrefs, htyped⟩ h
      | ok refs =>
          rw [hrefs] at he
          cases he

/-- One space without messages. -/
private def oneSpace : MockChatDriver := (blank (text "users/me")).seedSpace { id := text "a" }

private def unknownUpload : MessageCreate :=
  { text := text "hi", threadKey := .str (text "k"), reply := .fallback
    attachments := [.str (text "nope")] }

/-- A reply under a new key whose attachment does not exist is refused, and the key stays bound: a
later reply under it finds a thread. -/
theorem refused_and_bound : ¬ ∀ (repr : Repr) (S : MockChatDriver), Reachable repr S →
    ∀ space req now, S.Unharmed repr space req now := by
  intro h
  have hreach : Reachable asciiRepr oneSpace := ⟨_, [{ id := text "a" }], [], _, [], rfl, .nil⟩
  have hsame := h asciiRepr oneSpace hreach (text "spaces/a") unknownUpload 0
    (.rejects (text "attachmentDataRef: no such upload 'nope'")) (by decide +kernel) rfl
  have hkeys := congrArg (fun T => T.threadKeys.length) hsame
  revert hkeys
  decide +kernel

end MockChatDriver

end Jetty.Chat
