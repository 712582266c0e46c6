import Jetty.Core.Failure
import Jetty.Listener

/-!
# The settings of the proxy

The proxy binds a listener of its own. Its settings and the command line read the address with the
same function.
-/

namespace Jetty.Llmproxy

open Python Failure

/-- `_SHIPPED`. -/
def shipped : List (Text × Text) := [(text "gemini", text "/genai")]

/-- `_KNOWN_SURFACES`. -/
def knownSurfaces : List Text := ["gemini", "openai", "anthropic"].map text

/-- `str.isdigit`. -/
def isDigits (s : Text) : Bool :=
  s ≠ [] && s.all fun c => (decimalOf c).isSome ||
    otherDigits.any fun r => decide (r.1 ≤ c.val) && decide (c.val ≤ r.2)

/-- What the settings raise. -/
inductive SettingsError
  /-- `ValueError` with a message of the module. -/
  | invalid (message : Text)
  /-- `ValueError` of `int`. -/
  | digits (port : Text)
deriving DecidableEq

inductive SurfaceMode
  | passthrough
  | mock
deriving DecidableEq

structure SurfaceSettings where
  mode : SurfaceMode := .passthrough
  apiKey : Text := []

structure LlmProxySettings where
  listener : Text := text "127.0.0.1:7242"
  allowRemote : Bool := false
  surfaces : List (Text × SurfaceSettings) := []

section Check

variable (repr : Text → Text)

/-- `_parse_bind`. -/
def parseBind (listener : Text) : Except SettingsError (Text × ℤ) :=
  let malformed : Except SettingsError (Text × ℤ) :=
    .error (.invalid (text "llmproxy.listener must be host:port, not " ++ repr listener))
  let host := stripBrackets (Text.beforeLast colon listener)
  let port := Text.afterLast colon listener
  if colon ∉ listener ∨ isDigits port = false then malformed
  else
    match intOfText port with
    | none => .error (.digits port)
    | some n =>
      if 1 ≤ n ∧ n ≤ 65535 then .ok (if host = [] then text "127.0.0.1" else host, n)
      else malformed

/-- One round of the loop over the surfaces. -/
def checkSurface (entry : Text × SurfaceSettings) : Except SettingsError Unit :=
  let name := text "llmproxy.surfaces." ++ entry.1
  if entry.1 ∉ knownSurfaces then .error (.invalid (name ++ text ": not a surface"))
  else if entry.1 ∉ shipped.map Prod.fst then
    .error (.invalid (name ++ text ": not available; this build ships: " ++
      (text ", ").intercalate ((shipped.map Prod.fst).mergeSort fun a b => decide (a ≤ b))))
  else if entry.2.mode = .passthrough ∧ entry.2.apiKey = [] then
    .error (.invalid (name ++ text ".api_key is required in passthrough mode"))
  else .ok ()

/-- The host is taken for a loopback host. -/
def countsAsLoopback (host : Text) : Prop :=
  host = text "::1" ∨ host = text "localhost" ∨ text "127." <+: host

instance (host : Text) : Decidable (countsAsLoopback host) := by
  unfold countsAsLoopback
  infer_instance

namespace LlmProxySettings

variable (p : LlmProxySettings)

/-- `_check`. -/
def check : Except SettingsError Unit :=
  if p.surfaces = [] then
    .error (.invalid (text "llmproxy.surfaces must configure at least one surface"))
  else do
    p.surfaces.forM checkSurface
    let (host, _) ← parseBind repr p.listener
    if ¬ countsAsLoopback host ∧ p.allowRemote = false then
      .error (.invalid (text "llmproxy.listener binds non-loopback host " ++ repr host ++
        text ("; the surfaces carry no transport authentication — set llmproxy.allow_remote = " ++
          "true to confirm this is intended")))
    else .ok ()

/-- `listener_bind`. -/
def listenerBind : Except SettingsError (Text × ℤ) := parseBind repr p.listener

end LlmProxySettings

end Check

/-! ### What is bound -/

/-- The host is an address of the loopback block, or the loopback address of the other family. -/
def IsLoopback (host : Text) : Prop :=
  host = text "::1" ∨ ∃ n, inetAton host = some n ∧ n / 256 ^ 3 = 127

namespace LlmProxySettings

variable (repr : Text → Text) (p : LlmProxySettings)

/-- What is bound is what the settings ask for. -/
def Matches : Prop :=
  ∃ host port, p.listenerBind repr = .ok (host, port) ∧ 1 ≤ port ∧ port ≤ 65535 ∧
    (p.allowRemote = false → IsLoopback host ∨ host = text "localhost")

/-- A host that begins like an address of the loopback block is an address. -/
def Sound : Prop :=
  p.allowRemote = false →
    text "127." <+: stripBrackets (Text.beforeLast colon p.listener) →
      (inetAton (stripBrackets (Text.beforeLast colon p.listener))).isSome

variable {repr p}

private theorem isLoopback_of_inetAton {host : Text} (hblock : text "127." <+: host)
    (h : (inetAton host).isSome) : IsLoopback host := by
  obtain ⟨n, hn⟩ := Option.isSome_iff_exists.mp h
  obtain ⟨rest, rfl⟩ := hblock
  refine .inr ⟨n, hn, ?_⟩
  have hfirst : addressNumber (text "127") = some 127 := by decide +kernel
  exact block_of_inetAton (by decide +kernel) hfirst hn

private theorem parseBind_eq_ok {listener host : Text} {port : ℤ}
    (h : parseBind repr listener = .ok (host, port)) : 1 ≤ port ∧ port ≤ 65535 ∧
      host = if stripBrackets (Text.beforeLast colon listener) = [] then text "127.0.0.1"
        else stripBrackets (Text.beforeLast colon listener) := by
  unfold parseBind at h
  dsimp only at h
  split at h
  · cases h
  · split at h
    · cases h
    · split at h
      · rename_i hport
        obtain ⟨rfl, rfl⟩ := Prod.mk.inj (Except.ok.inj h)
        exact ⟨hport.1, hport.2, rfl⟩
      · cases h

/-- Accepted settings have an address that the command line reads, too. -/
theorem bind_of_check (h : p.check repr = .ok ()) : ∃ host port,
    p.listenerBind repr = .ok (host, port) ∧ (p.allowRemote = false → countsAsLoopback host) := by
  unfold check at h
  split at h
  · cases h
  · obtain ⟨-, -, h⟩ := bind_eq_ok.mp h
    obtain ⟨⟨host, port⟩, hbind, h⟩ := bind_eq_ok.mp h
    dsimp only at h
    split at h
    · cases h
    · rename_i hloopback
      refine ⟨host, port, hbind, fun hremote => ?_⟩
      by_contra hnot
      exact hloopback ⟨hnot, hremote⟩

private theorem isLoopback_default : IsLoopback (text "127.0.0.1") :=
  isLoopback_of_inetAton (by decide +kernel) (by decide +kernel)

/-- An accepted listener of the proxy is bound as the settings ask for exactly if a host that begins
like an address of the loopback block is an address. -/
theorem matches_iff_sound (h : p.check repr = .ok ()) : p.Matches repr ↔ p.Sound := by
  obtain ⟨host, port, hbind, hloopback⟩ := bind_of_check h
  obtain ⟨hlow, hhigh, hhost⟩ := parseBind_eq_ok hbind
  constructor
  · rintro ⟨host', port', hbind', -, -, hmatches⟩ hremote hblock
    obtain ⟨rfl, rfl⟩ := Prod.mk.inj (Except.ok.inj (hbind.symm.trans hbind'))
    have hne : stripBrackets (Text.beforeLast colon p.listener) ≠ [] := by
      intro hnil
      rw [hnil] at hblock
      exact absurd hblock (by decide +kernel)
    rw [if_neg hne] at hhost
    rw [← hhost] at hblock ⊢
    rcases hmatches hremote with (rfl | ⟨n, hn, -⟩) | rfl
    · exact absurd hblock (by decide +kernel)
    · exact Option.isSome_of_eq_some hn
    · exact absurd hblock (by decide +kernel)
  · intro hsound
    refine ⟨host, port, hbind, hlow, hhigh, fun hremote => ?_⟩
    rcases hloopback hremote with rfl | rfl | hblock
    · exact .inl (.inl rfl)
    · exact .inr rfl
    · left
      split at hhost
      · rw [hhost]
        exact isLoopback_default
      · unfold Sound at hsound
        rw [← hhost] at hsound
        exact isLoopback_of_inetAton hblock (hsound hremote hblock)

end LlmProxySettings

/-- Both listeners are bound as they are configured exactly if the port of the one can be bound, or
its mode has no bits but those for reading and writing, and a host of the other that begins like an
address of the loopback block is an address. -/
theorem listeners_match_iff {repr : Text → Text} {c : ListenerConfig} {p : LlmProxySettings}
    (hc : c.check repr = .ok ()) (hp : p.check repr = .ok ()) :
    (c.Matches ↔ c.Sound) ∧ (p.Matches repr ↔ p.Sound) :=
  ⟨c.matches_iff_sound hc, p.matches_iff_sound hp⟩

private def onTcp (tcp : Text) : ListenerConfig := { uds := none, tcp := some tcp }

private def mocked (listener : Text) : LlmProxySettings :=
  { listener, surfaces := [(text "gemini", { mode := .mock })] }

/-- The loopback addresses `[::1]` and `127.1`, each with a port. -/
theorem listeners_match_local :
    ((onTcp (text "[::1]:7241")).Matches ↔ (onTcp (text "[::1]:7241")).Sound) ∧
      ((mocked (text "127.1:7242")).Matches id ↔ (mocked (text "127.1:7242")).Sound) :=
  @listeners_match_iff id (onTcp (text "[::1]:7241")) (mocked (text "127.1:7242"))
    (by decide +kernel) (by decide +kernel)

/-- A host without a port is accepted, and a name that begins like an address, too. -/
theorem not_listeners_match : ¬ ∀ (repr : Text → Text) (c : ListenerConfig) (p : LlmProxySettings),
    c.check repr = .ok () → p.check repr = .ok () → c.Matches ∧ p.Matches repr := by
  intro h
  obtain ⟨hmatches, -⟩ := h id (onTcp (text "localhost")) (mocked (text "127.0.0.1:7242"))
    (by decide +kernel) (by decide +kernel)
  have hnone : (onTcp (text "localhost")).bound.isNone = true := by decide +kernel
  unfold ListenerConfig.Matches at hmatches
  rw [Option.isNone_iff_eq_none.mp hnone] at hmatches
  exact hmatches

end Jetty.Llmproxy
