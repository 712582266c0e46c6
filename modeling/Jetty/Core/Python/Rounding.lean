import Mathlib.Algebra.Order.Field.Basic
import Mathlib.Data.Rat.Floor
import Mathlib.Tactic.Linarith

/-!
# Rounding

Python rounds to the nearest number of the given digits, and a tie to the even one. Instants that
are whole microseconds are rounded to themselves, so what tells them apart survives rounding.
-/

namespace Python

/-- `round` without digits. -/
def roundHalfEven (q : ℚ) : ℤ :=
  let rest := q - ⌊q⌋
  if rest < 1 / 2 then ⌊q⌋
  else if 1 / 2 < rest then ⌊q⌋ + 1
  else if ⌊q⌋ % 2 = 0 then ⌊q⌋
  else ⌊q⌋ + 1

private theorem roundHalfEven_intCast (n : ℤ) : roundHalfEven n = n := by
  have hrest : (n : ℚ) - ⌊(n : ℚ)⌋ < 1 / 2 := by
    rw [Int.floor_intCast, sub_self]
    decide +kernel
  rw [roundHalfEven, if_pos hrest, Int.floor_intCast]

/-- The microseconds in a number of seconds. -/
def microseconds (t : ℚ) : ℤ := roundHalfEven (t * 1000000)

/-- `round(t, 6)`. -/
def round6 (t : ℚ) : ℚ := microseconds t / 1000000

/-- The instant is a whole number of microseconds. -/
def Ticked (t : ℚ) : Prop := ∃ n : ℤ, t = n / 1000000

/-- The instant is later, also once both are rounded to the microsecond. -/
def Later (s t : ℚ) : Prop := s < t ∧ microseconds s < microseconds t

/-- A time that is rounded to microseconds is a number of them. -/
theorem ticked_round6 (t : ℚ) : Ticked (round6 t) := ⟨microseconds t, rfl⟩

/-- So is the next microsecond. -/
theorem Ticked.next {t : ℚ} (h : Ticked t) : Ticked (t + 1 / 1000000) := by
  obtain ⟨n, rfl⟩ := h
  refine ⟨n + 1, ?_⟩
  rw [Int.cast_add, Int.cast_one, add_div]

/-- So is the later of two. -/
theorem Ticked.max {s t : ℚ} (hs : Ticked s) (ht : Ticked t) : Ticked (max s t) := by
  rcases max_choice s t with h | h
  · rwa [h]
  · rwa [h]

private theorem microseconds_tick (n : ℤ) : microseconds (n / 1000000) = n := by
  rw [microseconds, div_mul_cancel₀ _ (by decide +kernel), roundHalfEven_intCast]

/-- Of two numbers of microseconds the greater is later by one at least. -/
theorem later_of_lt {s t : ℚ} (hs : Ticked s) (ht : Ticked t) (hlt : s < t) : Later s t := by
  refine ⟨hlt, ?_⟩
  obtain ⟨m, rfl⟩ := hs
  obtain ⟨n, rfl⟩ := ht
  rw [microseconds_tick, microseconds_tick]
  have hcast := (div_lt_div_iff_of_pos_right (by decide +kernel : (0 : ℚ) < 1000000)).mp hlt
  exact Int.cast_lt.mp hcast

end Python
