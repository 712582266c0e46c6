import Jetty.Core.Python.Utf8

/-!
# Decoding with replacement

`bytes.decode("utf-8", errors="replace")`: bytes that are no character are replaced, as many of
them at once as could have begun one. An ASCII byte is never among them, so that a text can be
decoded from one ASCII byte to the next.
-/

namespace Python

namespace Text

/-- How many bytes a lead byte announces. -/
def announced (lead : ℕ) : ℕ :=
  if lead < 0xC2 then 1
  else if lead < 0xE0 then 2
  else if lead < 0xF0 then 3
  else if lead < 0xF5 then 4
  else 1

def isTail (b : ℕ) : Bool := decide (0x80 ≤ b) && decide (b < 0xC0)

/-- The byte can come second: no overlong form, no surrogate and no number past the last one. -/
def comesSecond (lead b : ℕ) : Bool :=
  isTail b && !(decide (lead = 0xE0) && decide (b < 0xA0)) &&
    !(decide (lead = 0xED) && decide (0xA0 ≤ b)) &&
    !(decide (lead = 0xF0) && decide (b < 0x90)) &&
    !(decide (lead = 0xF4) && decide (0x90 ≤ b))

/-- How many bytes after a lead byte are replaced together with it. -/
def broken (lead : ℕ) : List ℕ → ℕ
  | [] => 0
  | second :: rest =>
    if 2 < announced lead ∧ comesSecond lead second = true then
      match rest with
      | [] => 1
      | third :: _ => if announced lead = 4 ∧ isTail third = true then 2 else 1
    else 0

/-- `U+FFFD`. -/
def replacement : CodePoint := 0xFFFD

def replacingFuel : ℕ → List ℕ → Text
  | _, [] => []
  | 0, _ :: _ => []
  | fuel + 1, b :: bytes =>
    match decodePoint (b :: bytes) with
    | some (c, rest) => c :: replacingFuel fuel rest
    | none => replacement :: replacingFuel fuel (bytes.drop (broken b bytes))

/-- `bytes.decode("utf-8", errors="replace")`. -/
def decodeReplacing (bytes : List ℕ) : Text := replacingFuel bytes.length bytes

section Bytes

variable {c : CodePoint} {a b lead : ℕ} {bytes rest front : List ℕ}

/-- All bytes but the first are tails. -/
theorem tail_of_encodePoint (h : encodePoint c = some (b :: rest)) : ∀ x ∈ rest, 0x80 ≤ x := by
  have hc : c.val < 0x110000 := c.isLt
  unfold encodePoint at h
  split_ifs at h
  all_goals
    obtain ⟨-, rfl⟩ := List.cons.inj (Option.some.inj h)
    simp only [List.mem_cons, List.not_mem_nil, or_false, forall_eq_or_imp, forall_eq,
      IsEmpty.forall_iff, implies_true]
    try omega

private theorem encodePoint_ascii (ha : a < 0x80) : encodePoint (Fin.ofNat _ a) = some [a] := by
  have hval : (Fin.ofNat 0x110000 a : CodePoint).val = a := Nat.mod_eq_of_lt (by omega)
  unfold encodePoint isSurrogate
  rw [hval, if_neg, if_pos ha]
  simp only [Bool.and_eq_true, decide_eq_true_iff]
  omega

private theorem broken_le : broken lead bytes ≤ bytes.length := by
  unfold broken
  split
  · exact Nat.le_refl 0
  · split
    · split
      · exact Nat.le_refl 1
      · split <;> simp
    · exact Nat.zero_le _

/-- An ASCII byte ends what is replaced. -/
theorem broken_append (ha : a < 0x80) :
    broken lead (bytes ++ a :: rest) = broken lead bytes := by
  have hascii : isTail a = false := by
    unfold isTail
    rw [decide_eq_false (by omega), Bool.false_and]
  have hsecond : comesSecond lead a = false := by
    unfold comesSecond
    simp only [hascii, Bool.false_and]
  match bytes with
  | [] => simp only [List.nil_append, broken, hsecond, Bool.false_eq_true, and_false, if_false]
  | [second] =>
      simp only [List.cons_append, List.nil_append, broken, hascii, Bool.false_eq_true, and_false,
        if_false]
  | second :: third :: bytes => rfl

end Bytes

section Replacing

variable {c : CodePoint} {a b fuel : ℕ} {bytes rest xs ys : List ℕ}

private theorem length_of_decodePoint (h : decodePoint bytes = some (c, rest)) :
    rest.length < bytes.length := by
  obtain ⟨front, hfront, rfl⟩ := decodePoint_eq_some h
  have hpos : 0 < front.length := List.length_pos_iff.mpr fun hnil =>
    encodePoint_ne_nil (hnil ▸ hfront)
  rw [List.length_append]
  omega

/-- Fuel for all the bytes is enough. -/
theorem replacingFuel_congr (h : bytes.length ≤ fuel) {fuel' : ℕ} (h' : bytes.length ≤ fuel') :
    replacingFuel fuel bytes = replacingFuel fuel' bytes := by
  induction fuel generalizing bytes fuel' with
  | zero =>
      obtain rfl := List.length_eq_zero_iff.mp (Nat.le_zero.mp h)
      cases fuel' <;> rfl
  | succ fuel ih =>
      cases bytes with
      | nil => cases fuel' <;> rfl
      | cons b bytes =>
          rw [List.length_cons] at h h'
          obtain ⟨fuel', rfl⟩ : ∃ n, fuel' = n + 1 := ⟨fuel' - 1, by omega⟩
          unfold replacingFuel
          split
          · rename_i c rest hpoint
            have hlength := length_of_decodePoint hpoint
            rw [List.length_cons] at hlength
            rw [@ih rest (by omega) fuel' (by omega)]
          · have hdrop : (bytes.drop (broken b bytes)).length ≤ bytes.length := by
              rw [List.length_drop]
              exact Nat.sub_le _ _
            rw [@ih (bytes.drop (broken b bytes)) (by omega) fuel' (by omega)]

/-- No bytes decode to the empty text. -/
theorem decodeReplacing_nil : decodeReplacing [] = [] := rfl

private theorem decodeReplacing_of_some (h : decodePoint bytes = some (c, rest)) :
    decodeReplacing bytes = c :: decodeReplacing rest := by
  have hlength := length_of_decodePoint h
  unfold decodeReplacing
  cases bytes with
  | nil => cases hlength
  | cons b bytes =>
      rw [List.length_cons] at hlength ⊢
      rw [replacingFuel, h]
      exact congrArg (c :: ·) (replacingFuel_congr (Nat.le_of_lt_succ hlength) (Nat.le_refl _))

private theorem decodeReplacing_of_none (h : decodePoint (b :: bytes) = none) :
    decodeReplacing (b :: bytes) =
      replacement :: decodeReplacing (bytes.drop (broken b bytes)) := by
  unfold decodeReplacing
  rw [List.length_cons, replacingFuel, h]
  refine congrArg (replacement :: ·) (replacingFuel_congr ?_ (Nat.le_refl _))
  rw [List.length_drop]
  exact Nat.sub_le _ _

/-- What a run of replacements and characters keeps, all of it keeps. -/
theorem decodeReplacing_induction {motive : List ℕ → Prop} (nil : motive [])
    (point : ∀ bytes c rest, decodePoint bytes = some (c, rest) → motive rest → motive bytes)
    (replaced : ∀ b bytes, decodePoint (b :: bytes) = none →
      motive (bytes.drop (broken b bytes)) → motive (b :: bytes)) (bytes : List ℕ) :
    motive bytes := by
  induction hn : bytes.length using Nat.strongRecOn generalizing bytes with
  | _ n ih =>
      cases bytes with
      | nil => exact nil
      | cons b bytes =>
          rw [List.length_cons] at hn
          rcases hpoint : decodePoint (b :: bytes) with - | ⟨c, rest⟩
          · refine replaced b bytes hpoint (ih _ ?_ _ rfl)
            rw [List.length_drop]
            omega
          · have hlength := length_of_decodePoint hpoint
            rw [List.length_cons] at hlength
            exact point _ c rest hpoint (ih _ (by omega) _ rfl)

/-- Only no bytes decode to the empty text. -/
theorem decodeReplacing_eq_nil : decodeReplacing bytes = [] ↔ bytes = [] := by
  constructor
  · intro h
    cases bytes with
    | nil => rfl
    | cons b bytes =>
        rcases hpoint : decodePoint (b :: bytes) with - | ⟨c, rest⟩
        · rw [decodeReplacing_of_none hpoint] at h
          cases h
        · rw [decodeReplacing_of_some hpoint] at h
          cases h
  · rintro rfl
    rfl

/-- Bytes are decoded from one ASCII byte to the next. -/
theorem decodeReplacing_append (ha : a < 0x80) : decodeReplacing (xs ++ a :: ys) =
    decodeReplacing xs ++ Fin.ofNat _ a :: decodeReplacing ys := by
  induction xs using decodeReplacing_induction with
  | nil =>
      have hpoint := decodePoint_encodePoint (encodePoint_ascii ha) ys
      rw [List.singleton_append] at hpoint
      rw [List.nil_append, decodeReplacing_of_some hpoint]
      rfl
  | point xs c rest hpoint ih =>
      obtain ⟨front, hfront, rfl⟩ := decodePoint_eq_some hpoint
      have hlonger := decodePoint_encodePoint hfront (rest ++ a :: ys)
      rw [← List.append_assoc] at hlonger
      rw [decodeReplacing_of_some hlonger, decodeReplacing_of_some hpoint, ih, List.cons_append]
  | replaced b xs hpoint ih =>
      have hlonger : decodePoint (b :: xs ++ a :: ys) = none := by
        rcases hsome : decodePoint (b :: xs ++ a :: ys) with - | ⟨c, rest⟩
        · rfl
        · obtain ⟨front, hfront, heq⟩ := decodePoint_eq_some hsome
          rcases List.append_eq_append_iff.mp heq with ⟨m, rfl, hm⟩ | ⟨m, hxs, -⟩
          · -- Behind its first byte no character has an ASCII byte.
            cases m with
            | nil =>
                rw [List.append_nil] at hfront
                have hpoint' := decodePoint_encodePoint hfront []
                rw [List.append_nil, hpoint] at hpoint'
                cases hpoint'
            | cons x m =>
                obtain ⟨rfl, -⟩ := List.cons.inj hm
                have hx := tail_of_encodePoint hfront a (by simp)
                omega
          · have hpoint' := decodePoint_encodePoint hfront m
            rw [← hxs, hpoint] at hpoint'
            cases hpoint'
      rw [List.cons_append] at hlonger ⊢
      rw [decodeReplacing_of_none hlonger, decodeReplacing_of_none hpoint, broken_append ha,
        List.drop_append_of_le_length broken_le, ih, List.cons_append]

private theorem replacement_ne (ha : a < 0x80) : replacement ≠ Fin.ofNat _ a := by
  intro h
  have hval : (Fin.ofNat 0x110000 a : CodePoint).val = a := Nat.mod_eq_of_lt (by omega)
  have hbig : 0xFFFD = a := (congrArg Fin.val h).trans hval
  omega

/-- An ASCII character comes from its own byte. -/
theorem mem_of_mem_decodeReplacing (ha : a < 0x80)
    (h : Fin.ofNat _ a ∈ decodeReplacing bytes) : a ∈ bytes := by
  induction bytes using decodeReplacing_induction with
  | nil => cases h
  | point bytes c rest hpoint ih =>
      rw [decodeReplacing_of_some hpoint] at h
      obtain ⟨front, hfront, rfl⟩ := decodePoint_eq_some hpoint
      rcases List.mem_cons.mp h with rfl | h
      · rw [encodePoint_ascii ha] at hfront
        obtain rfl := Option.some.inj hfront
        exact List.mem_cons_self
      · exact List.mem_append_right _ (ih h)
  | replaced b bytes hpoint ih =>
      rw [decodeReplacing_of_none hpoint] at h
      rcases List.mem_cons.mp h with heq | h
      · exact absurd heq.symm (replacement_ne ha)
      · exact List.mem_cons_of_mem _ (List.mem_of_mem_drop (ih h))

/-- Where all characters are one that is ASCII, all bytes are. -/
theorem forall_of_forall_decodeReplacing (ha : a < 0x80)
    (h : ∀ c ∈ decodeReplacing bytes, c = Fin.ofNat _ a) : ∀ b ∈ bytes, b = a := by
  induction bytes using decodeReplacing_induction with
  | nil => exact List.forall_mem_nil _
  | point bytes c rest hpoint ih =>
      rw [decodeReplacing_of_some hpoint, List.forall_mem_cons] at h
      obtain ⟨front, hfront, rfl⟩ := decodePoint_eq_some hpoint
      rw [h.1, encodePoint_ascii ha] at hfront
      obtain rfl := Option.some.inj hfront
      rw [List.singleton_append, List.forall_mem_cons]
      exact ⟨rfl, ih h.2⟩
  | replaced b bytes hpoint ih =>
      rw [decodeReplacing_of_none hpoint, List.forall_mem_cons] at h
      exact absurd h.1 (replacement_ne ha)

end Replacing

end Text

end Python
