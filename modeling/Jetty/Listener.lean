import Jetty.Core.Python.Addresses
import Jetty.Core.Python.Segments
import Jetty.Core.Python.Words
import Mathlib.Algebra.Group.Int.Defs

/-!
# The control listener

What the configuration accepts as a listener, and what the command line makes of it. Both take the
address apart, each in its own way.
-/

namespace Jetty

open Python

def colon : CodePoint := 0x3A

/-- `strip("[]")`. -/
def stripBrackets (s : Text) : Text :=
  let bracket (c : CodePoint) : Bool := c = 0x5B ∨ c = 0x5D
  ((s.dropWhile bracket).reverse.dropWhile bracket).reverse

/-! ### The configuration -/

structure ListenerConfig where
  uds : Option Text := some (text "/tmp/jetty/jetty.sock")
  tcp : Option Text := none
  udsMode : ℤ := 0o660
  /-- Refuse to bind a non-loopback address unless this is explicit. -/
  allowRemote : Bool := false

/-- The hosts that count as loopback. -/
def loopbackHosts : List Text := [text "127.0.0.1", text "::1", text "localhost"]

/-- `tcp.rsplit(":", 1)[0].strip("[]")`. -/
def validatedHost (tcp : Text) : Text :=
  stripBrackets (if colon ∈ tcp then Text.beforeLast colon tcp else tcp)

/-- The last bits of an integer in two's complement. -/
def lastBits (n : ℤ) (k : ℕ) : ℕ := (n % 2 ^ k).toNat

/-- `#o`. -/
def octal (n : ℤ) : Text :=
  text ((if n < 0 then "-0o" else "0o") ++ String.ofList (Nat.toDigits 8 n.natAbs))

namespace ListenerConfig

variable (c : ListenerConfig)

/-- `_check`, with the message of what it raises. -/
def check (repr : Text → Text) : Except Text Unit :=
  let uds := c.uds.getD []
  let tcp := c.tcp.getD []
  if uds ≠ [] ↔ tcp ≠ [] then
    .error (text "configure exactly one of listener.uds or listener.tcp")
  else if tcp ≠ [] ∧ validatedHost tcp ∉ loopbackHosts ∧ c.allowRemote = false then
    .error (text "listener.tcp binds non-loopback host " ++ repr (validatedHost tcp) ++
      text "; set listener.allow_remote = true to confirm this is intended")
  else if tcp ≠ [] ∧ c.udsMode ≠ 0o660 then
    .error (text "listener.uds_mode is meaningless with a TCP listener")
  else if uds ≠ [] ∧ lastBits c.udsMode 3 ≠ 0 then
    .error (text "listener.uds_mode " ++ octal c.udsMode ++
      text " grants access to other users; SPEC.md §1.5 requires 0660 or tighter")
  else .ok ()

/-! ### The command line -/

/-- What is bound. -/
inductive Bound
  | uds (path : Text) (mode : ℕ)
  | tcp (host : Text) (port : ℤ)

/-- The mode that `os.chmod` leaves a socket with; nothing where it raises `OverflowError`. -/
def chmodded (mode : ℤ) : Option ℕ :=
  if -2 ^ 31 ≤ mode ∧ mode < 2 ^ 31 then some (lastBits mode 12) else none

/-- The host and the port of `main`; nothing where `int` raises `ValueError`. -/
def hostPort (tcp : Text) : Option (Text × ℤ) :=
  let host := stripBrackets (Text.beforeLast colon tcp)
  (intOfText (Text.afterLast colon tcp)).map fun port =>
    (if host = [] then text "127.0.0.1" else host, port)

/-- What `main` binds; nothing where an exception ends it. -/
def bound : Option Bound :=
  let uds := c.uds.getD []
  if uds ≠ [] then (chmodded c.udsMode).map (.uds uds)
  else (hostPort (c.tcp.getD [])).map fun (host, port) => .tcp host port

/-! ### What is asked of it -/

/-- What is bound is what the configuration asks for. -/
def Matches : Prop :=
  match c.bound with
  | none => False
  | some (.uds _ mode) => mode &&& 0o660 = mode
  | some (.tcp host port) => 1 ≤ port ∧ port ≤ 65535 ∧
    (c.allowRemote = false → host ∈ loopbackHosts)

/-- The port can be bound, or the mode has no more than the bits for reading and writing. -/
def Sound : Prop :=
  if c.uds.getD [] ≠ [] then
    -2 ^ 31 ≤ c.udsMode ∧ c.udsMode < 2 ^ 31 ∧ lastBits c.udsMode 12 &&& 0o7110 = 0
  else
    ∃ port, intOfText (Text.afterLast colon (c.tcp.getD [])) = some port ∧
      1 ≤ port ∧ port ≤ 65535

/-! ### What an accepted configuration comes to -/

section Accepted

variable {c} {repr : Text → Text}

/-- An accepted configuration names one listener, and has passed what is checked about it. -/
theorem accepted_of_check (h : c.check repr = .ok ()) :
    (c.uds.getD [] ≠ [] ∧ lastBits c.udsMode 3 = 0) ∨
      (c.uds.getD [] = [] ∧
        (c.allowRemote = false → validatedHost (c.tcp.getD []) ∈ loopbackHosts)) := by
  unfold check at h
  dsimp only at h
  split_ifs at h with hone hhost hmeaningless hmode
  by_cases huds : c.uds.getD [] = []
  · have htcp : c.tcp.getD [] ≠ [] := by
      intro htcp
      exact hone (iff_of_false (not_not.mpr huds) (not_not.mpr htcp))
    refine .inr ⟨huds, fun hremote => ?_⟩
    by_contra hnot
    exact hhost ⟨htcp, hnot, hremote⟩
  · refine .inl ⟨huds, ?_⟩
    by_contra hbits
    exact hmode ⟨huds, hbits⟩

/-- With no bit for other users, a mode has no more than the bits for reading and writing if it has
none of the others. -/
theorem mode_iff {mode : ℕ} (hmode : mode < 2 ^ 12) (hothers : mode % 2 ^ 3 = 0) :
    mode &&& 0o660 = mode ↔ mode &&& 0o7110 = 0 := by
  have hlow : mode &&& 0o7 = 0 := (Nat.and_two_pow_sub_one_eq_mod mode 3).trans hothers
  have hall : mode &&& (0o660 ||| (0o7110 ||| 0o7)) = mode :=
    (Nat.and_two_pow_sub_one_eq_mod mode 12).trans (Nat.mod_eq_of_lt hmode)
  rw [Nat.and_or_distrib_left, Nat.and_or_distrib_left, hlow, Nat.or_zero] at hall
  constructor
  · intro h
    rw [← h, Nat.and_assoc]
    exact Nat.and_zero mode
  · intro h
    rwa [h, Nat.or_zero] at hall

private theorem lastBits_lt (n : ℤ) (k : ℕ) : lastBits n k < 2 ^ k := by
  have hpos : (0 : ℤ) < 2 ^ k := Int.pow_pos (by decide)
  have hlt := Int.emod_lt_of_pos n hpos
  have hnonneg := Int.emod_nonneg n (Int.ne_of_gt hpos)
  unfold lastBits
  rw [Int.toNat_lt hnonneg]
  exact_mod_cast hlt

private theorem lastBits_mod (n : ℤ) : lastBits n 12 % 2 ^ 3 = lastBits n 3 := by
  unfold lastBits
  omega

private theorem mem_of_mem_stripBrackets {s : Text} {d : CodePoint} (h : d ∈ stripBrackets s) :
    d ∈ s := by
  unfold stripBrackets at h
  have hback := (List.dropWhile_sublist _).subset (List.mem_reverse.mp h)
  exact (List.dropWhile_sublist _).subset (List.mem_reverse.mp hback)

/-- What reads as a number is a loopback host only if there is a colon in it. -/
theorem colon_mem_of_port {tcp : Text} {port : ℤ} (hport : intOfText tcp = some port)
    (hhost : stripBrackets tcp ∈ loopbackHosts) : colon ∈ tcp := by
  have hfalse {d : CodePoint} (hd : d ∈ stripBrackets tcp) (hlow : d.val < 0x7F)
      (hspace : isAsciiSpace d = false) (hsign : d.val ≠ 0x2D ∧ d.val ≠ 0x2B)
      (hdigit : ¬ (d.val = 0x5F ∨ 0x30 ≤ d.val ∧ d.val ≤ 0x39)) : False := by
    rw [intOfText_eq_none (mem_of_mem_stripBrackets hd) hlow hspace hsign hdigit] at hport
    cases hport
  simp only [loopbackHosts, List.mem_cons, List.not_mem_nil, or_false] at hhost
  rcases hhost with hhost | hhost | hhost
  · exact (hfalse (d := 0x2E) (by rw [hhost]; decide +kernel) (by decide) (by decide) (by decide)
      (by decide)).elim
  · exact mem_of_mem_stripBrackets (by rw [hhost]; decide +kernel)
  · exact (hfalse (d := 0x6C) (by rw [hhost]; decide +kernel) (by decide) (by decide) (by decide)
      (by decide)).elim

private theorem afterLast_of_not_mem {d : CodePoint} {s : Text} (h : d ∉ s) :
    Text.afterLast d s = s := by
  have hall : s.reverse.takeWhile (· ≠ d) = s.reverse := by
    rw [List.takeWhile_eq_self_iff]
    exact fun e he => decide_eq_true fun heq => h (heq ▸ List.mem_reverse.mp he)
  rw [Text.afterLast, hall, List.reverse_reverse]

/-- The host that is bound is the host that was looked at. -/
theorem host_mem_loopbackHosts {tcp : Text} {port : ℤ}
    (hport : intOfText (Text.afterLast colon tcp) = some port)
    (hhost : validatedHost tcp ∈ loopbackHosts) :
    stripBrackets (Text.beforeLast colon tcp) ∈ loopbackHosts := by
  unfold validatedHost at hhost
  split at hhost
  · exact hhost
  · rename_i hcolon
    rw [afterLast_of_not_mem hcolon] at hport
    exact absurd (colon_mem_of_port hport hhost) hcolon

/-- What the command line binds for an accepted configuration is what it asks for exactly if the
port can be bound, or the mode has no bits but those for reading and writing. -/
theorem matches_iff_sound (h : c.check repr = .ok ()) : c.Matches ↔ c.Sound := by
  unfold Matches Sound bound
  rcases accepted_of_check h with ⟨huds, hbits⟩ | ⟨huds, hhost⟩
  · rw [if_pos huds, if_pos huds]
    unfold chmodded
    have hiff := mode_iff (lastBits_lt c.udsMode 12) ((lastBits_mod c.udsMode).trans hbits)
    split_ifs with hrange
    · exact hiff.trans ⟨fun hmode => ⟨hrange.1, hrange.2, hmode⟩, fun hsound => hsound.2.2⟩
    · exact iff_of_false id fun hsound => hrange ⟨hsound.1, hsound.2.1⟩
  · rw [if_neg (not_not.mpr huds), if_neg (not_not.mpr huds)]
    unfold hostPort
    cases hport : intOfText (Text.afterLast colon (c.tcp.getD [])) with
    | none => exact iff_of_false id fun ⟨_, hnone, _⟩ => by cases hnone
    | some port =>
        constructor
        · rintro ⟨hlow, hhigh, -⟩
          exact ⟨port, rfl, hlow, hhigh⟩
        · rintro ⟨port', hsame, hlow, hhigh⟩
          obtain rfl := Option.some.inj hsame
          refine ⟨hlow, hhigh, fun hremote => ?_⟩
          have hloopback := host_mem_loopbackHosts hport (hhost hremote)
          have hne : stripBrackets (Text.beforeLast colon (c.tcp.getD [])) ≠ [] := by
            intro hnil
            rw [hnil] at hloopback
            exact absurd hloopback (by decide +kernel)
          rwa [if_neg hne]

end Accepted

end ListenerConfig

end Jetty
