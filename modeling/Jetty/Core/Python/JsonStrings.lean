import Jetty.Core.Python.Text
import Mathlib.Data.List.Chain

/-!
# Strings in JSON

How a string is quoted, for ASCII only or not, and how a quoted string is read. What the escapes
of a high and of a low surrogate name is one code point, also where they were two.
-/

namespace Python

namespace Json

def quote : CodePoint := 0x22

def backslash : CodePoint := 0x5C

/-- The letter of an escape `\u`. -/
def letterU : CodePoint := 0x75

/-- A hexadecimal digit, in lower case. -/
def hexDigit (n : ℕ) : CodePoint :=
  if n < 10 then Fin.ofNat _ (0x30 + n) else Fin.ofNat _ (0x57 + n)

/-- `'{0:04x}'.format(n)`. -/
def hex4 (n : ℕ) : Text :=
  [hexDigit (n / 0x1000 % 16), hexDigit (n / 0x100 % 16), hexDigit (n / 16 % 16), hexDigit (n % 16)]

/-- The escape of a code unit. -/
def escapeUnit (n : ℕ) : Text := backslash :: letterU :: hex4 n

/-- `ESCAPE_DCT`, as far as it has no hexadecimal digits. -/
def shortEscape (c : CodePoint) : Option CodePoint :=
  if c.val = 0x22 then some 0x22
  else if c.val = 0x5C then some 0x5C
  else if c.val = 0x0A then some 0x6E
  else if c.val = 0x0D then some 0x72
  else if c.val = 0x09 then some 0x74
  else if c.val = 0x0C then some 0x66
  else if c.val = 0x08 then some 0x62
  else none

/-- The escape that two code units make, or one. -/
def escapeUnits (n : ℕ) : Text :=
  if n < 0x10000 then escapeUnit n
  else escapeUnit (0xD800 + (n - 0x10000) / 0x400) ++ escapeUnit (0xDC00 + (n - 0x10000) % 0x400)

/-- A character, as it stands in a string; with `ensure_ascii`, or without. -/
def escapePoint (ascii : Bool) (c : CodePoint) : Text :=
  match shortEscape c with
  | some e => [backslash, e]
  | none =>
    if c.val < 0x20 ∨ ascii = true ∧ 0x7E < c.val then escapeUnits c.val else [c]

/-- `py_encode_basestring_ascii` and `py_encode_basestring`. -/
def encodeString (ascii : Bool) (s : Text) : Text :=
  quote :: s.flatMap (escapePoint ascii) ++ [quote]

/-- The value of a hexadecimal digit. -/
def hexValue (c : CodePoint) : Option ℕ :=
  if 0x30 ≤ c.val ∧ c.val ≤ 0x39 then some (c.val - 0x30)
  else if 0x61 ≤ c.val ∧ c.val ≤ 0x66 then some (c.val - 0x57)
  else if 0x41 ≤ c.val ∧ c.val ≤ 0x46 then some (c.val - 0x37)
  else none

/-- `_decode_uXXXX`, and what stands behind the digits. -/
def decodeHex4 : Text → Option (ℕ × Text)
  | a :: b :: c :: d :: rest => do
    let a ← hexValue a
    let b ← hexValue b
    let c ← hexValue c
    let d ← hexValue d
    return (((a * 16 + b) * 16 + c) * 16 + d, rest)
  | _ => none

/-- `BACKSLASH`. -/
def unescape (e : CodePoint) : Option CodePoint :=
  if e.val = 0x22 then some 0x22
  else if e.val = 0x5C then some 0x5C
  else if e.val = 0x2F then some 0x2F
  else if e.val = 0x62 then some 0x08
  else if e.val = 0x66 then some 0x0C
  else if e.val = 0x6E then some 0x0A
  else if e.val = 0x72 then some 0x0D
  else if e.val = 0x74 then some 0x09
  else none

def isHigh (n : ℕ) : Bool := decide (0xD800 ≤ n) && decide (n ≤ 0xDBFF)

def isLow (n : ℕ) : Bool := decide (0xDC00 ≤ n) && decide (n ≤ 0xDFFF)

/-- The escape of a low surrogate, and what stands behind it. -/
def lowSurrogate : Text → Option (ℕ × Text)
  | b :: u :: rest =>
    if b = backslash ∧ u = letterU then (decodeHex4 rest).filter fun p => isLow p.1 else none
  | _ => none

/-- What an escape with the code unit `n` names, and what stands behind it. -/
def joinUnits (n : ℕ) (rest : Text) : CodePoint × Text :=
  if isHigh n then
    match lowSurrogate rest with
    | some (low, rest) => (Fin.ofNat _ (0x10000 + (n - 0xD800) * 0x400 + (low - 0xDC00)), rest)
    | none => (Fin.ofNat _ n, rest)
  else (Fin.ofNat _ n, rest)

/-- One character of a string, and what stands behind it. -/
def scanPoint : Text → Option (CodePoint × Text)
  | [] => none
  | c :: rest =>
    if c.val < 0x20 then none
    else if c ≠ backslash then some (c, rest)
    else
      match rest with
      | [] => none
      | e :: rest =>
        if e = letterU then (decodeHex4 rest).map fun p => joinUnits p.1 p.2
        else (unescape e).map fun c => (c, rest)

/-- `scanstring`: a string from behind its opening quote, and what stands behind the closing one. -/
def scanString : ℕ → Text → Option (Text × Text)
  | _, [] => none
  | 0, _ :: _ => none
  | fuel + 1, c :: rest =>
    if c = quote then some ([], rest)
    else do
      let (p, rest) ← scanPoint (c :: rest)
      let (s, rest) ← scanString fuel rest
      return (p :: s, rest)

/-- Nowhere in the text does a low surrogate follow a high one. -/
def Joined (s : Text) : Prop :=
  List.IsChain (fun c d : CodePoint => ¬ (isHigh c.val = true ∧ isLow d.val = true)) s

instance (s : Text) : Decidable (Joined s) := by
  unfold Joined
  infer_instance

/-! ### Hexadecimal digits -/

private theorem hexValue_hexDigit {n : ℕ} (h : n < 16) : hexValue (hexDigit n) = some n := by
  have hall : ∀ n < 16, hexValue (hexDigit n) = some n := by decide
  exact hall n h

private theorem decodeHex4_hex4 {n : ℕ} (h : n < 0x10000) (rest : Text) :
    decodeHex4 (hex4 n ++ rest) = some (n, rest) := by
  have hdigit (m : ℕ) : hexValue (hexDigit (m % 16)) = some (m % 16) :=
    hexValue_hexDigit (Nat.mod_lt m (by decide))
  simp only [hex4, List.cons_append, List.nil_append, decodeHex4, hdigit, Option.bind_eq_bind,
    Option.bind_some, Option.pure_def, Option.some.injEq, Prod.mk.injEq, and_true]
  omega

/-! ### One character -/

private theorem ofNat_val (c : CodePoint) : (Fin.ofNat 0x110000 c.val : CodePoint) = c :=
  Fin.ext (Nat.mod_eq_of_lt c.isLt)

private theorem unescape_shortEscape {c e : CodePoint} (h : shortEscape c = some e) :
    unescape e = some c ∧ e ≠ letterU := by
  unfold shortEscape at h
  split_ifs at h with h₁ h₂ h₃ h₄ h₅ h₆ h₇
  all_goals
    obtain rfl := (Option.some.inj h).symm
    refine ⟨?_, by decide⟩
  · exact congrArg some (Fin.ext h₁.symm)
  · exact congrArg some (Fin.ext h₂.symm)
  · exact congrArg some (Fin.ext h₃.symm)
  · exact congrArg some (Fin.ext h₄.symm)
  · exact congrArg some (Fin.ext h₅.symm)
  · exact congrArg some (Fin.ext h₆.symm)
  · exact congrArg some (Fin.ext h₇.symm)

private theorem ne_of_shortEscape {c : CodePoint} (h : shortEscape c = none) :
    c ≠ quote ∧ c ≠ backslash := by
  constructor
  · rintro rfl
    exact absurd h (by decide)
  · rintro rfl
    exact absurd h (by decide)

private theorem scanPoint_escapeUnit {n : ℕ} (h : n < 0x10000) (rest : Text) :
    scanPoint (escapeUnit n ++ rest) = some (joinUnits n rest) := by
  have hshape : escapeUnit n ++ rest = backslash :: letterU :: (hex4 n ++ rest) := rfl
  have hhigh : ¬ backslash.val < 0x20 := by decide
  rw [hshape, scanPoint, if_neg hhigh, if_neg (not_not.mpr rfl)]
  simp only [if_true, decodeHex4_hex4 h, Option.map_some]

private theorem lowSurrogate_escapeUnit {n : ℕ} (h : n < 0x10000) (rest : Text) :
    lowSurrogate (escapeUnit n ++ rest) = if isLow n then some (n, rest) else none := by
  have hshape : escapeUnit n ++ rest = backslash :: letterU :: (hex4 n ++ rest) := rfl
  rw [hshape, lowSurrogate, if_pos ⟨rfl, rfl⟩, decodeHex4_hex4 h, Option.filter_some]

private theorem lowSurrogate_of_ne {c : CodePoint} (h : c ≠ backslash) (rest : Text) :
    lowSurrogate (c :: rest) = none := by
  cases rest with
  | nil => rfl
  | cons u rest => rw [lowSurrogate, if_neg fun hc => h hc.1]

/-- What is no low surrogate is not taken for one. -/
theorem lowSurrogate_escapePoint {ascii : Bool} {c : CodePoint} (h : isLow c.val = false)
    (rest : Text) : lowSurrogate (escapePoint ascii c ++ rest) = none := by
  have hlt := c.isLt
  unfold escapePoint
  cases hshort : shortEscape c with
  | some e =>
      have hne : ¬ (backslash = backslash ∧ e = letterU) :=
        fun hc => (unescape_shortEscape hshort).2 hc.2
      show lowSurrogate (backslash :: e :: rest) = none
      rw [lowSurrogate, if_neg hne]
  | none =>
      dsimp only
      split_ifs with hescape
      · unfold escapeUnits
        split_ifs with hunit
        · rw [lowSurrogate_escapeUnit hunit, h]
          rfl
        · have hhigh : isLow (0xD800 + (c.val - 0x10000) / 0x400) = false := by
            unfold isLow
            rw [Bool.and_eq_false_iff]
            exact .inl (decide_eq_false (by omega))
          rw [List.append_assoc, lowSurrogate_escapeUnit (by omega), hhigh]
          rfl
      · exact lowSurrogate_of_ne (ne_of_shortEscape hshort).2 _

private theorem scanPoint_of_ne {c : CodePoint} (hcontrol : ¬ c.val < 0x20) (h : c ≠ backslash)
    (rest : Text) : scanPoint (c :: rest) = some (c, rest) := by
  unfold scanPoint
  dsimp only
  rw [if_neg hcontrol, if_pos h]

/-- A character is read back, unless it is a high surrogate that is joined with what follows. -/
theorem scanPoint_escapePoint {ascii : Bool} {c : CodePoint} {rest : Text}
    (h : ascii = true → isHigh c.val = true → lowSurrogate rest = none) :
    scanPoint (escapePoint ascii c ++ rest) = some (c, rest) := by
  have hlt := c.isLt
  have hcontrol : ¬ backslash.val < 0x20 := by decide
  unfold escapePoint
  cases hshort : shortEscape c with
  | some e =>
      obtain ⟨hback, hne⟩ := unescape_shortEscape hshort
      show scanPoint (backslash :: e :: rest) = some (c, rest)
      rw [scanPoint, if_neg hcontrol, if_neg (not_not.mpr rfl)]
      simp only [if_neg hne, hback, Option.map_some]
  | none =>
      dsimp only
      split_ifs with hescape
      · unfold escapeUnits
        split_ifs with hunit
        · rw [scanPoint_escapeUnit hunit, joinUnits]
          split_ifs with hhigh
          · have hge : 0xD800 ≤ c.val :=
              of_decide_eq_true (Bool.and_eq_true _ _ ▸ hhigh : _ ∧ _).1
            rw [h (hescape.resolve_left (by omega)).1 hhigh]
            exact congrArg some (Prod.ext (ofNat_val c) rfl)
          · exact congrArg some (Prod.ext (ofNat_val c) rfl)
        · have hhigh : isHigh (0xD800 + (c.val - 0x10000) / 0x400) = true := by
            unfold isHigh
            rw [Bool.and_eq_true, decide_eq_true_iff, decide_eq_true_iff]
            omega
          have hlow : isLow (0xDC00 + (c.val - 0x10000) % 0x400) = true := by
            unfold isLow
            rw [Bool.and_eq_true, decide_eq_true_iff, decide_eq_true_iff]
            omega
          rw [List.append_assoc, scanPoint_escapeUnit (by omega), joinUnits, if_pos hhigh,
            lowSurrogate_escapeUnit (by omega), if_pos hlow]
          have hvalue : 0x10000 + (0xD800 + (c.val - 0x10000) / 0x400 - 0xD800) * 0x400 +
              (0xDC00 + (c.val - 0x10000) % 0x400 - 0xDC00) = c.val := by omega
          exact congrArg some (Prod.ext ((congrArg (Fin.ofNat _) hvalue).trans (ofNat_val c)) rfl)
      · have hge : ¬ c.val < 0x20 := fun hc => hescape (.inl hc)
        exact scanPoint_of_ne hge (ne_of_shortEscape hshort).2 rest

/-! ### A string -/

private theorem escapePoint_ne_nil (ascii : Bool) (c : CodePoint) : escapePoint ascii c ≠ [] := by
  unfold escapePoint escapeUnits escapeUnit
  cases shortEscape c with
  | some e => exact List.cons_ne_nil _ _
  | none =>
      dsimp only
      split_ifs <;> exact List.cons_ne_nil _ _

/-- No character is printed as a quote. -/
theorem head_escapePoint (ascii : Bool) (c : CodePoint) :
    ∃ d more, escapePoint ascii c = d :: more ∧ d ≠ quote := by
  unfold escapePoint escapeUnits escapeUnit
  have hne : backslash ≠ quote := by decide
  cases hshort : shortEscape c with
  | some e => exact ⟨_, _, rfl, hne⟩
  | none =>
      dsimp only
      split_ifs
      · exact ⟨_, _, rfl, hne⟩
      · exact ⟨_, _, rfl, hne⟩
      · exact ⟨_, _, rfl, (ne_of_shortEscape hshort).1⟩

/-- An escaped text is no shorter than the text. -/
theorem length_le_flatMap (ascii : Bool) (s : Text) :
    s.length ≤ (s.flatMap (escapePoint ascii)).length := by
  induction s with
  | nil => exact Nat.le_refl _
  | cons c s ih =>
      have hpos := List.length_pos_iff.mpr (escapePoint_ne_nil ascii c)
      rw [List.flatMap_cons, List.length_append, List.length_cons]
      omega

/-- A string is read back from its quoted form: with `ensure_ascii` unless a low surrogate follows
a high one in it. -/
theorem scanString_flatMap {ascii : Bool} {s : Text} (hjoined : ascii = true → Joined s)
    (rest : Text) {fuel : ℕ} (hfuel : s.length < fuel) :
    scanString fuel (s.flatMap (escapePoint ascii) ++ quote :: rest) = some (s, rest) := by
  induction s generalizing fuel with
  | nil =>
      obtain ⟨fuel, rfl⟩ := Nat.exists_eq_add_of_lt hfuel
      show scanString (0 + fuel + 1) (quote :: rest) = some ([], rest)
      rw [scanString, if_pos rfl]
  | cons c s ih =>
      obtain ⟨fuel, rfl⟩ : ∃ k, fuel = k + 1 := ⟨fuel - 1, by omega⟩
      have hrest := ih (fun hascii => (List.isChain_cons.mp (hjoined hascii)).2)
        (Nat.lt_of_succ_lt_succ (by rwa [List.length_cons] at hfuel))
      have hpoint : scanPoint (escapePoint ascii c ++
          (s.flatMap (escapePoint ascii) ++ quote :: rest)) =
          some (c, s.flatMap (escapePoint ascii) ++ quote :: rest) := by
        refine scanPoint_escapePoint fun hascii hhigh => ?_
        cases s with
        | nil => exact lowSurrogate_of_ne (by decide) rest
        | cons d s =>
            have hlow : isLow d.val = false := by
              have hpair := (List.isChain_cons_cons.mp (hjoined hascii)).1
              exact Bool.eq_false_iff.mpr fun hlow => hpair ⟨hhigh, hlow⟩
            rw [List.flatMap_cons, List.append_assoc]
            exact lowSurrogate_escapePoint hlow _
      obtain ⟨d, more, hd, hne⟩ := head_escapePoint ascii c
      rw [List.flatMap_cons, List.append_assoc]
      rw [hd, List.cons_append] at hpoint ⊢
      rw [scanString, if_neg hne, hpoint]
      simp only [Option.bind_eq_bind, Option.bind_some, hrest, Option.pure_def]

end Json

/-- Where there are no surrogates none are joined. -/
theorem Text.Plain.joined {s : Text} (h : s.Plain) : Json.Joined s := by
  induction s with
  | nil => exact .nil
  | cons c s ih =>
      obtain ⟨hc, hs⟩ := List.forall_mem_cons.mp h
      refine List.isChain_cons.mpr ⟨fun d _ hpair => ?_, ih hs⟩
      have hhigh := hpair.1
      rw [Json.isHigh, Bool.and_eq_true, decide_eq_true_iff, decide_eq_true_iff] at hhigh
      rw [isSurrogate, decide_eq_true hhigh.1, decide_eq_true (by omega)] at hc
      exact absurd hc (by decide)

end Python
