import Jetty.Core.Python.Unicode
import Mathlib.Data.Nat.Digits.Defs

/-!
# Numerals

Texts of ASCII digits. On them the test and the conversion of Python are the usual ones, up
to the number of digits that the conversion refuses.
-/

namespace Python

/-- The value of an ASCII digit. -/
def digitValue (c : Char) : ℕ := c.toNat - '0'.toNat

/-- A text of ASCII digits, the first one the most significant. -/
structure Numeral (s : List Char) (n : ℕ) : Prop where
  ne_nil : s ≠ []
  digits : ∀ c ∈ s, c.isDigit = true
  value : Nat.ofDigits 10 (s.reverse.map digitValue) = n

/-- If the text is one of digits, they are ASCII, and the conversion takes as many. -/
def Plain (s : List Char) : Prop :=
  isDigit s = true → (∀ c ∈ s, c.isDigit = true) ∧ s.length ≤ 4300

private theorem decimal_of_isDigit {c : Char} (h : c.isDigit = true) : decimal c = some
    (digitValue c) := by
  obtain ⟨hlow, hhigh⟩ := Char.isDigit_iff_toNat.mp h
  have hfirst : (decide (0x30 ≤ c.toNat) && decide (c.toNat < 0x30 + 10)) = true := by
    rw [Bool.and_eq_true, decide_eq_true_eq, decide_eq_true_eq]
    exact ⟨hlow, Nat.lt_succ_of_le hhigh⟩
  unfold decimal decimalBlocks
  rw [List.find?_cons_of_pos (p := fun b => decide (b ≤ c.toNat) && decide (c.toNat < b + 10))
    hfirst]
  rfl

private theorem isDigitChar_of_isDigit {c : Char} (h : c.isDigit = true) :
    isDigitChar c = true := by
  rw [isDigitChar, decimal_of_isDigit h, Option.isSome_some, Bool.true_or]

private theorem isDigit_of_ascii {s : List Char} (hne : s ≠ []) (h : ∀ c ∈ s, c.isDigit = true) :
    isDigit s = true := by
  rw [isDigit, Bool.and_eq_true, Bool.not_eq_true', List.isEmpty_eq_false_iff, List.all_eq_true]
  exact ⟨hne, fun c hc => isDigitChar_of_isDigit (h c hc)⟩

private theorem ne_nil_of_isDigit {s : List Char} (h : isDigit s = true) : s ≠ [] := by
  rintro rfl
  exact absurd h Bool.false_ne_true

/-- The characters of digits are digits. -/
theorem isDigitChar_of_mem {s : List Char} (h : isDigit s = true) {c : Char} (hc : c ∈ s) :
    isDigitChar c = true := by
  rw [isDigit, Bool.and_eq_true, List.all_eq_true] at h
  exact h.2 c hc

private theorem foldlM_decimal {s : List Char} (h : ∀ c ∈ s, c.isDigit = true) (n : ℕ) :
    s.foldlM (fun n c => (decimal c).map (n * 10 + ·)) n =
      some (n * 10 ^ s.length + Nat.ofDigits 10 (s.reverse.map digitValue)) := by
  induction s generalizing n with
  | nil => simp
  | cons c s ih =>
      rw [List.forall_mem_cons] at h
      rw [List.foldlM_cons, decimal_of_isDigit h.1, Option.map_some, Option.bind_eq_bind,
        Option.bind_some, ih h.2, List.reverse_cons, List.map_append, Nat.ofDigits_append,
        List.length_cons, List.length_map, List.length_reverse, List.map_singleton,
        Nat.ofDigits_singleton]
      congr 1
      ring

/-- The conversion of ASCII digits. -/
theorem toInt_of_ascii {s : List Char} (h : ∀ c ∈ s, c.isDigit = true) (hs : s.length ≤ 4300) :
    toInt s = some (Nat.ofDigits 10 (s.reverse.map digitValue)) := by
  rw [toInt, if_neg hs.not_gt, foldlM_decimal h, Nat.zero_mul, Nat.zero_add]

/-- Where only plain digits are about, a text of digits is a numeral, of the value that the
conversion gives. -/
theorem Plain.toInt_eq {s : List Char} (h : Plain s) (hs : isDigit s = true) :
    ∃ n, toInt s = some n ∧ Numeral s n := by
  obtain ⟨hdigits, hlength⟩ := h hs
  exact ⟨_, toInt_of_ascii hdigits hlength, ne_nil_of_isDigit hs, hdigits, rfl⟩

/-- A numeral has digits only. -/
theorem Numeral.isDigit {s : List Char} {n : ℕ} (h : Numeral s n) : isDigit s = true :=
  isDigit_of_ascii h.ne_nil h.digits

/-- A numeral denotes one number. -/
theorem Numeral.unique {s : List Char} {m n : ℕ} (hm : Numeral s m) (hn : Numeral s n) : m = n :=
  hm.value.symm.trans hn.value

/-- The text of a number is a numeral for it. -/
theorem numeral_toString (n : ℕ) : Numeral (toString n).toList n := by
  rw [Nat.toString_eq_ofList_toDigits, String.toList_ofList]
  refine ⟨Nat.toDigits_ne_nil, fun c hc => ?_, ?_⟩
  · exact Nat.isDigit_of_mem_toDigits (by decide) (Nat.le_refl 10) hc
  · have hvalue := Nat.ofDigitChars_ten_toDigits (n := n)
    rw [Nat.ofDigitChars_eq_foldl] at hvalue
    rw [Nat.ofDigits_eq_foldr, List.foldr_map, List.foldr_reverse]
    refine Eq.trans ?_ hvalue
    exact List.foldl_ext _ _ _ fun m c _ => Nat.add_comm _ _

/-- A number below a power of ten has no more digits than the exponent. -/
theorem length_toString_le {n k : ℕ} (hk : 0 < k) (h : n < 10 ^ k) :
    (toString n).toList.length ≤ k := by
  rw [Nat.toString_eq_ofList_toDigits, String.toList_ofList]
  exact (Nat.length_toDigits_le_iff (by decide) hk).mpr h

/-- A number of at most 4300 digits is read back. -/
theorem toInt_toString {n : ℕ} (h : (toString n).toList.length ≤ 4300) :
    toInt (toString n).toList = some n := by
  rw [toInt_of_ascii (numeral_toString n).digits h, (numeral_toString n).value]

/-- ASCII digits at any place, and few of them, are plain. -/
theorem plain_of_ascii {s : List Char} (h : ∀ c ∈ s, isDigitChar c = true → c.isDigit = true)
    (hs : s.length ≤ 4300) : Plain s :=
  fun hdigit => ⟨fun c hc => h c hc (isDigitChar_of_mem hdigit hc), hs⟩

end Python
