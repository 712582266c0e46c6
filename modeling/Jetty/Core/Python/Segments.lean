import Jetty.Core.Python.Text
import Mathlib.Data.List.Basic

/-!
# Names made of segments

Paths of resource names: what stands before the last slash, and the decimal numerals that end a
generated name.
-/

namespace Python

private theorem text_injective : Function.Injective text := by
  intro s s' h
  have hchar : Function.Injective fun c : Char => (Fin.ofNat _ c.toNat : CodePoint) := by
    intro c c' hc
    have hlt (c : Char) : c.toNat < 0x110000 := by
      rcases c.valid with hc | hc
      · exact Nat.lt_trans hc (by decide)
      · exact hc.2
    have hval := congrArg Fin.val hc
    simp only [Fin.val_ofNat, Nat.mod_eq_of_lt (hlt _)] at hval
    exact Char.toNat_inj.mp hval
  exact String.toList_inj.mp (List.map_injective_iff.mpr hchar h)

/-- The text of a number. -/
def numeral (n : ℕ) : Text := text (toString n)

/-- Different numbers have different numerals. -/
theorem numeral_injective : Function.Injective numeral := by
  intro n m h
  have hdigits : Nat.toDigits 10 n = Nat.toDigits 10 m := by
    have hrepr := congrArg String.toList (text_injective h)
    rwa [Nat.toString_eq_ofList_toDigits, Nat.toString_eq_ofList_toDigits, String.toList_ofList,
      String.toList_ofList] at hrepr
  have hvalue := congrArg (Nat.ofDigitChars 10 · 0) hdigits
  simpa only [Nat.ofDigitChars_ten_toDigits] using hvalue

/-- A numeral consists of digits. -/
theorem digit_of_mem_numeral {n : ℕ} {c : CodePoint} (h : c ∈ numeral n) :
    0x30 ≤ c.val ∧ c.val ≤ 0x39 := by
  rw [numeral, text, Nat.toString_eq_ofList_toDigits, String.toList_ofList] at h
  obtain ⟨d, hd, rfl⟩ := List.mem_map.mp h
  have hdigit := Nat.isDigit_of_mem_toDigits (by decide) (Nat.le_refl 10) hd
  simp only [Char.isDigit, Bool.and_eq_true, decide_eq_true_eq, UInt32.le_iff_toNat_le] at hdigit
  obtain ⟨hlow, hhigh⟩ := hdigit
  have hmod : d.toNat % 0x110000 = d.toNat :=
    Nat.mod_eq_of_lt (Nat.lt_of_le_of_lt hhigh (by decide))
  rw [Fin.val_ofNat, hmod]
  exact ⟨hlow, hhigh⟩

/-- A numeral can be written. -/
theorem numeral_encodes (n : ℕ) : (Text.encode (numeral n)).isSome :=
  Text.encode_isSome_of_ascii fun _ hc => Nat.lt_of_le_of_lt (digit_of_mem_numeral hc).2 (by decide)

namespace Text

def slash : CodePoint := 0x2F

/-- What stands before the last `c`; nothing where there is none. -/
def beforeLast (c : CodePoint) (s : Text) : Text := (s.reverse.dropWhile (· ≠ c)).tail.reverse

/-- What comes before the last occurrence of a character. -/
theorem beforeLast_append {c : CodePoint} (s : Text) {t : Text} (h : c ∉ t) :
    beforeLast c (s ++ c :: t) = s := by
  have hdrop : (t.reverse ++ c :: s.reverse).dropWhile (· ≠ c) = c :: s.reverse := by
    rw [List.dropWhile_append_of_pos]
    · simp
    · intro d hd
      have hne : d ≠ c := fun heq => h (heq ▸ List.mem_reverse.mp hd)
      simpa using hne
  rw [beforeLast, List.reverse_append, List.reverse_cons, List.append_assoc, List.singleton_append,
    hdrop, List.tail_cons, List.reverse_reverse]

/-- What comes after the last occurrence of a character. -/
theorem afterLast_append {c : CodePoint} (s : Text) {t : Text} (h : c ∉ t) :
    afterLast c (s ++ c :: t) = t := by
  have htake : (t.reverse ++ c :: s.reverse).takeWhile (· ≠ c) = t.reverse := by
    rw [List.takeWhile_append_of_pos]
    · simp
    · intro d hd
      have hne : d ≠ c := fun heq => h (heq ▸ List.mem_reverse.mp hd)
      simpa using hne
  rw [afterLast, List.reverse_append, List.reverse_cons, List.append_assoc, List.singleton_append,
    htake, List.reverse_reverse]

end Text

end Python
