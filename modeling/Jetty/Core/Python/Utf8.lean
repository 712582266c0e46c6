import Jetty.Core.Python.Text

/-!
# Decoding UTF-8

`bytes.decode("utf-8")`: the lead byte says which code point to try, and the bytes are accepted
if they are those of that code point.
-/

namespace Python

namespace Text

/-- The code point that the lead byte announces, and how many bytes it takes. -/
def candidate (bytes : List ℕ) : CodePoint × ℕ :=
  let byte (i : ℕ) := bytes.getD i 0
  let tail (i : ℕ) := byte i - 0x80
  if byte 0 < 0x80 then (Fin.ofNat _ (byte 0), 1)
  else if byte 0 < 0xE0 then (Fin.ofNat _ ((byte 0 - 0xC0) * 0x40 + tail 1), 2)
  else if byte 0 < 0xF0 then
    (Fin.ofNat _ ((byte 0 - 0xE0) * 0x1000 + tail 1 * 0x40 + tail 2), 3)
  else (Fin.ofNat _ ((byte 0 - 0xF0) * 0x40000 + tail 1 * 0x1000 + tail 2 * 0x40 + tail 3), 4)

/-- The first code point, and the bytes after it. -/
def decodePoint (bytes : List ℕ) : Option (CodePoint × List ℕ) :=
  let (c, k) := candidate bytes
  if encodePoint c = some (bytes.take k) then some (c, bytes.drop k) else none

def decodeFuel : ℕ → List ℕ → Option Text
  | _, [] => some []
  | 0, _ :: _ => none
  | fuel + 1, b :: bytes =>
    (decodePoint (b :: bytes)).bind fun p => (decodeFuel fuel p.2).map (p.1 :: ·)

/-- `bytes.decode("utf-8")`; nothing where it raises `UnicodeDecodeError`. -/
def decode (bytes : List ℕ) : Option Text := decodeFuel bytes.length bytes

/-- The lead byte announces the code point that the bytes encode. -/
theorem candidate_encodePoint {c : CodePoint} {bytes : List ℕ} (h : encodePoint c = some bytes)
    (rest : List ℕ) : candidate (bytes ++ rest) = (c, bytes.length) := by
  have hc : c.val < 0x110000 := c.isLt
  have hpoint (n k : ℕ) (hn : n = c.val) : ((Fin.ofNat 0x110000 n : CodePoint), k) = (c, k) := by
    rw [hn]
    exact Prod.ext (Fin.ext (Nat.mod_eq_of_lt hc)) rfl
  unfold encodePoint at h
  split_ifs at h with hsurrogate hone htwo hthree
  · obtain rfl := (Option.some.inj h).symm
    simp only [candidate, List.cons_append, List.getD_cons_zero]
    rw [if_pos hone]
    exact hpoint _ _ rfl
  · obtain rfl := (Option.some.inj h).symm
    simp only [candidate, List.cons_append, List.getD_cons_zero, List.getD_cons_succ]
    rw [if_neg (by omega), if_pos (by omega)]
    exact hpoint _ _ (by omega)
  · obtain rfl := (Option.some.inj h).symm
    simp only [candidate, List.cons_append, List.getD_cons_zero, List.getD_cons_succ]
    rw [if_neg (by omega), if_neg (by omega), if_pos (by omega)]
    exact hpoint _ _ (by omega)
  · obtain rfl := (Option.some.inj h).symm
    simp only [candidate, List.cons_append, List.getD_cons_zero, List.getD_cons_succ]
    rw [if_neg (by omega), if_neg (by omega), if_neg (by omega)]
    exact hpoint _ _ (by omega)

/-- An encoded character is decoded, whatever comes after it. -/
theorem decodePoint_encodePoint {c : CodePoint} {bytes : List ℕ} (h : encodePoint c = some bytes)
    (rest : List ℕ) : decodePoint (bytes ++ rest) = some (c, rest) := by
  simp only [decodePoint, candidate_encodePoint h, List.take_left, List.drop_left, h, if_true]

/-- What is decoded is the encoding of a character. -/
theorem decodePoint_eq_some {c : CodePoint} {bytes rest : List ℕ}
    (h : decodePoint bytes = some (c, rest)) :
    ∃ front, encodePoint c = some front ∧ bytes = front ++ rest := by
  unfold decodePoint at h
  dsimp only at h
  split_ifs at h with henc
  cases h
  exact ⟨_, henc, (List.take_append_drop _ _).symm⟩

/-- A text is encoded character by character. -/
theorem encode_cons (c : CodePoint) (t : Text) :
    encode (c :: t) = (encodePoint c).bind fun front => (encode t).map (front ++ ·) := by
  rw [← List.singleton_append, encode_append, encode_singleton]

private theorem encode_of_decodeFuel {fuel : ℕ} {bytes : List ℕ} {t : Text}
    (h : decodeFuel fuel bytes = some t) : encode t = some bytes := by
  induction fuel generalizing bytes t with
  | zero =>
      cases bytes with
      | nil =>
          cases h
          rfl
      | cons b bytes => cases h
  | succ fuel ih =>
      cases bytes with
      | nil =>
          cases h
          rfl
      | cons b bytes =>
          rw [decodeFuel] at h
          obtain ⟨⟨c, rest⟩, hpoint, h⟩ := Option.bind_eq_some_iff.mp h
          obtain ⟨t, hrest, rfl⟩ := Option.map_eq_some_iff.mp h
          obtain ⟨front, hfront, heq⟩ := decodePoint_eq_some hpoint
          rw [encode_cons, hfront, ih hrest, heq]
          rfl

private theorem decodeFuel_of_encode {fuel : ℕ} {bytes : List ℕ} {t : Text}
    (h : encode t = some bytes) (hfuel : bytes.length ≤ fuel) : decodeFuel fuel bytes = some t := by
  induction t generalizing fuel bytes with
  | nil =>
      cases h
      cases fuel <;> rfl
  | cons c t ih =>
      rw [encode_cons] at h
      obtain ⟨front, hfront, h⟩ := Option.bind_eq_some_iff.mp h
      obtain ⟨rest, hrest, rfl⟩ := Option.map_eq_some_iff.mp h
      cases front with
      | nil => exact absurd hfront encodePoint_ne_nil
      | cons b front =>
          rw [List.cons_append, List.length_cons, List.length_append] at hfuel
          obtain ⟨fuel, rfl⟩ : ∃ n, fuel = n + 1 := ⟨fuel - 1, by omega⟩
          have hpoint := decodePoint_encodePoint hfront rest
          rw [List.cons_append] at hpoint ⊢
          rw [decodeFuel, hpoint, Option.bind_some, ih hrest (by omega), Option.map_some]

/-- Decoding is the inverse of encoding. -/
theorem decode_eq_some {bytes : List ℕ} {t : Text} :
    decode bytes = some t ↔ encode t = some bytes :=
  ⟨encode_of_decodeFuel, fun h => decodeFuel_of_encode h (Nat.le_refl _)⟩

end Text

end Python
