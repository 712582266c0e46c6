import Mathlib.Algebra.GroupWithZero.Nat
import Mathlib.Data.List.Induction
import Mathlib.Tactic.SplitIfs

/-!
# Text as Python has it

A text is a list of code points, lone surrogates included; UTF-8 has no bytes for those.
-/

namespace Python

abbrev CodePoint := Fin 0x110000

abbrev Text := List CodePoint

/-- Every number names a code point. -/
instance neZero_codePoints : NeZero 0x110000 := ⟨by decide⟩

/-- Texts are compared code point by code point. -/
instance : LE Text := List.instLE

instance : LawfulBEq CodePoint := inferInstance

instance : LawfulBEq Text := inferInstance

/-- The text of a literal. -/
def text (s : String) : Text := s.toList.map fun c => Fin.ofNat _ c.toNat

namespace Text

def isSurrogate (c : CodePoint) : Bool := decide (0xD800 ≤ c.val) && decide (c.val ≤ 0xDFFF)

/-- The bytes of one code point. -/
def encodePoint (c : CodePoint) : Option (List ℕ) :=
  if isSurrogate c then none
  else if c.val < 0x80 then some [c.val]
  else if c.val < 0x800 then some [0xC0 + c.val / 0x40, 0x80 + c.val % 0x40]
  else if c.val < 0x10000 then
    some [0xE0 + c.val / 0x1000, 0x80 + c.val / 0x40 % 0x40, 0x80 + c.val % 0x40]
  else
    some [0xF0 + c.val / 0x40000, 0x80 + c.val / 0x1000 % 0x40, 0x80 + c.val / 0x40 % 0x40,
      0x80 + c.val % 0x40]

/-- `str.encode("utf-8")`; nothing where it raises `UnicodeEncodeError`. -/
def encode (s : Text) : Option (List ℕ) := (s.mapM encodePoint).map List.flatten

/-- `str.isspace` of one character, the `\s` of a pattern. -/
def isSpace (c : CodePoint) : Bool :=
  decide (c.val ∈ [0x20, 0x85, 0xA0, 0x1680, 0x2028, 0x2029, 0x202F, 0x205F, 0x3000]) ||
    (decide (0x9 ≤ c.val) && decide (c.val ≤ 0xD)) ||
    (decide (0x1C ≤ c.val) && decide (c.val ≤ 0x1F)) ||
    (decide (0x2000 ≤ c.val) && decide (c.val ≤ 0x200A))

/-- What stands before and after the first `c`, as `str.partition` has it. -/
def partition (c : CodePoint) (s : Text) : Text × Text :=
  (s.takeWhile (· ≠ c), (s.dropWhile (· ≠ c)).tail)

/-- `str.lower`, as far as it yields ASCII: the capitals, and the Kelvin sign. -/
def lowerPoint (c : CodePoint) : CodePoint :=
  if 0x41 ≤ c.val ∧ c.val ≤ 0x5A then Fin.ofNat _ (c.val + 0x20)
  else if c.val = 0x212A then 0x6B
  else c

def lower (s : Text) : Text := s.map lowerPoint

/-- `str.encode("latin-1")`; nothing where it raises `UnicodeEncodeError`. -/
def latin1 (s : Text) : Option (List ℕ) :=
  if s.all fun c => decide (c.val < 0x100) then some (s.map Fin.val) else none

/-- The last part of `str.rpartition`. -/
def afterLast (c : CodePoint) (s : Text) : Text := (s.reverse.takeWhile (· ≠ c)).reverse

/-- `partition` finds the first occurrence. -/
theorem partition_append {c : CodePoint} {s : Text} (h : c ∉ s) (t : Text) :
    partition c (s ++ c :: t) = (s, t) := by
  induction s with
  | nil => simp [partition]
  | cons d s ih =>
      obtain ⟨hd, hs⟩ := List.ne_and_not_mem_of_not_mem_cons h
      have hcons := ih hs
      simp only [partition, Prod.mk.injEq] at hcons ⊢
      simp only [List.cons_append, List.takeWhile_cons, List.dropWhile_cons, ne_eq, hd.symm,
        not_false_eq_true, decide_true, if_true]
      exact ⟨congrArg (d :: ·) hcons.1, hcons.2⟩

section Encode

/-- A text is encoded part by part. -/
theorem encode_append (s t : Text) :
    encode (s ++ t) = (encode s).bind fun bytes => (encode t).map (bytes ++ ·) := by
  simp only [encode, List.mapM_append]
  cases s.mapM encodePoint with
  | none => rfl
  | some a =>
      cases t.mapM encodePoint with
      | none => rfl
      | some b => simp

/-- A text of one character is encoded like it. -/
theorem encode_singleton (c : CodePoint) : encode [c] = encodePoint c := by
  simp only [encode, List.mapM_cons, List.mapM_nil]
  cases encodePoint c <;> simp

/-- The bytes of two texts one after the other are those of the whole. -/
theorem encode_append_of_eq {s t : Text} {a b : List ℕ} (hs : encode s = some a)
    (ht : encode t = some b) : encode (s ++ t) = some (a ++ b) := by
  rw [encode_append, hs, ht]
  rfl

/-- A text can be encoded exactly if both its parts can. -/
theorem encode_append_isSome {s t : Text} :
    (encode (s ++ t)).isSome ↔ (encode s).isSome ∧ (encode t).isSome := by
  rw [encode_append]
  cases encode s <;> cases encode t <;> simp

/-- A text of ASCII can be encoded. -/
theorem encode_isSome_of_ascii {s : Text} (h : ∀ c ∈ s, c.val < 0x80) : (encode s).isSome := by
  induction s with
  | nil => rfl
  | cons c s ih =>
      have hc := h c List.mem_cons_self
      have hpoint : encodePoint c = some [c.val] := by
        have hlow : isSurrogate c = false := by
          simp only [isSurrogate, Bool.and_eq_false_iff, decide_eq_false_iff_not]
          omega
        simp only [encodePoint, hlow, Bool.false_eq_true, if_false, if_pos hc]
      rw [← List.singleton_append, encode_append_isSome, encode_singleton, hpoint]
      exact ⟨rfl, ih fun d hd => h d (List.mem_cons_of_mem c hd)⟩

private theorem isSurrogate_ofNat (c : Char) : isSurrogate
    (Fin.ofNat 0x110000 c.toNat) = false := by
  have hvalid : c.toNat < 0xD800 ∨ 0xDFFF < c.toNat ∧ c.toNat < 0x110000 := c.valid
  have hval : (Fin.ofNat 0x110000 c.toNat).val = c.toNat := Nat.mod_eq_of_lt (by omega)
  rw [isSurrogate, hval, Bool.and_eq_false_iff, decide_eq_false_iff_not, decide_eq_false_iff_not]
  omega

/-- No character of the text is a surrogate: UTF-8 has bytes for all of it. -/
def Plain (s : Text) : Prop := ∀ c ∈ s, isSurrogate c = false

/-- A text can be encoded exactly if it has no surrogate. -/
theorem encode_isSome_iff {s : Text} : (encode s).isSome ↔ Plain s := by
  induction s with
  | nil => exact ⟨fun _ _ hc => absurd hc List.not_mem_nil, fun _ => rfl⟩
  | cons c s ih =>
      have hpoint : (encode [c]).isSome ↔ isSurrogate c = false := by
        rw [encode_singleton, encodePoint]
        cases hsurrogate : isSurrogate c with
        | true => simp only [if_true, Option.isSome_none, Bool.false_eq_true, Bool.true_eq_false]
        | false =>
            rw [if_neg Bool.false_ne_true]
            split_ifs <;> simp only [Option.isSome_some]
      have hcons : Plain ([c] ++ s) ↔ isSurrogate c = false ∧ Plain s := List.forall_mem_cons
      rw [← List.singleton_append, encode_append_isSome, hpoint, ih, hcons]

/-- No character of ASCII is a surrogate. -/
theorem isSurrogate_of_lt {c : CodePoint} (h : c.val < 0x80) : isSurrogate c = false := by
  rw [isSurrogate, Bool.and_eq_false_iff, decide_eq_false_iff_not]
  exact .inl (by omega)

/-- A text of ASCII has no surrogate. -/
theorem plain_of_ascii {s : Text} (h : ∀ c ∈ s, c.val < 0x80) : Plain s :=
  fun c hc => isSurrogate_of_lt (h c hc)

/-- A text has no surrogate exactly if neither of its parts has. -/
theorem plain_append {s t : Text} : Plain (s ++ t) ↔ Plain s ∧ Plain t := List.forall_mem_append

/-- A literal has no lone surrogates. -/
theorem encode_text (s : String) : (encode (text s)).isSome := by
  rw [text]
  induction s.toList with
  | nil => rfl
  | cons c l ih =>
      rw [List.map_cons, ← List.singleton_append, encode_append_isSome, encode_singleton]
      refine ⟨?_, ih⟩
      rw [encodePoint, isSurrogate_ofNat, if_neg Bool.false_ne_true]
      split_ifs <;> rfl

/-- An ASCII byte at the end is an ASCII character. -/
theorem encodePoint_concat {c : CodePoint} {bytes : List ℕ} {b : ℕ}
    (h : encodePoint c = some (bytes ++ [b])) (hb : b < 0x80) : bytes = [] ∧ c.val = b := by
  have hlast (front : List ℕ) (b' : ℕ) (heq : front ++ [b'] = bytes ++ [b]) :
      front = bytes ∧ b' = b := by
    obtain ⟨hfront, hb'⟩ := List.append_inj' heq rfl
    exact ⟨hfront, List.head_eq_of_cons_eq hb'⟩
  unfold encodePoint at h
  split_ifs at h
  · obtain ⟨hfront, rfl⟩ := hlast [] _ (Option.some.inj h)
    exact ⟨hfront.symm, rfl⟩
  · have hbyte := (hlast [0xC0 + c.val / 0x40] _ (Option.some.inj h)).2
    omega
  · have hbyte := (hlast [0xE0 + c.val / 0x1000, 0x80 + c.val / 0x40 % 0x40] _
      (Option.some.inj h)).2
    omega
  · have hbyte := (hlast [0xF0 + c.val / 0x40000, 0x80 + c.val / 0x1000 % 0x40,
      0x80 + c.val / 0x40 % 0x40] _ (Option.some.inj h)).2
    omega

/-- No character is encoded as nothing. -/
theorem encodePoint_ne_nil {c : CodePoint} : encodePoint c ≠ some [] := by
  unfold encodePoint
  split_ifs <;> simp

/-- ASCII bytes at the end are ASCII characters at the end. -/
theorem suffix_of_encode {t s : Text} {bytes : List ℕ} (hs : ∀ c ∈ s, c.val < 0x80)
    (h : encode t = some (bytes ++ s.map Fin.val)) : s <:+ t := by
  induction s using List.reverseRec generalizing t with
  | nil => exact List.nil_suffix
  | append_singleton s c ih =>
      rw [List.map_append, List.map_singleton, ← List.append_assoc] at h
      rcases List.eq_nil_or_concat t with rfl | ⟨t, d, rfl⟩
      · simp [encode] at h
      · rw [List.concat_eq_append, encode_append, encode_singleton] at h
        obtain ⟨front, hfront, h⟩ := Option.bind_eq_some_iff.mp h
        obtain ⟨back, hback, heq⟩ := Option.map_eq_some_iff.mp h
        rcases List.eq_nil_or_concat back with rfl | ⟨init, b, rfl⟩
        · exact absurd hback encodePoint_ne_nil
        · rw [List.concat_eq_append, ← List.append_assoc] at heq
          obtain ⟨hinit, hb⟩ := List.append_inj' heq rfl
          rw [List.concat_eq_append] at hback
          obtain rfl : b = c.val := List.head_eq_of_cons_eq hb
          have hc := hs c (List.mem_append_right _ (List.mem_singleton_self c))
          obtain ⟨rfl, hd⟩ := encodePoint_concat hback hc
          obtain rfl : d = c := Fin.ext hd
          rw [List.append_nil] at hinit
          rw [hinit] at hfront
          have hsuffix := ih (fun c hc => hs c (List.mem_append_left _ hc)) hfront
          obtain ⟨u, rfl⟩ := hsuffix
          exact ⟨u, by simp⟩

end Encode

end Text

end Python
