import Mathlib.Data.List.Basic

/-!
# Patterns between anchors

A pattern between `^` and `$`, as `match` of a compiled pattern sees it: without `MULTILINE`, `$`
also stands in front of a newline at the end of the text.
-/

namespace Python

variable {α ε : Type*}

section Anchored

variable [DecidableEq α] (newline : α) (full : List α → Bool)

/-- The pattern matches the text, or what comes before a final newline. -/
def anchored (s : List α) : Bool := full s || (s.getLast? == some newline && full s.dropLast)

/-- A text of the pattern with a newline behind it. -/
def Trails (s : List α) : Prop := ∃ t, s = t ++ [newline] ∧ full t = true

variable {newline full}

private theorem anchored_iff {s : List α} :
    anchored newline full s = true ↔ full s = true ∨ Trails newline full s := by
  unfold anchored Trails
  rw [Bool.or_eq_true, Bool.and_eq_true, beq_iff_eq]
  refine or_congr_right ⟨?_, ?_⟩
  · rintro ⟨hlast, hfull⟩
    exact ⟨s.dropLast, (List.dropLast_append_getLast? _ hlast).symm, hfull⟩
  · rintro ⟨t, rfl, hfull⟩
    rw [List.getLast?_append, List.getLast?_singleton, Option.some_or, List.dropLast_concat]
    exact ⟨rfl, hfull⟩

end Anchored

/-! ### Gates -/

/-- The text is made of the characters, and its length lies between the bounds. -/
def InCharset (charset : α → Bool) (low high : ℕ) (s : List α) : Prop :=
  (∀ c ∈ s, charset c = true) ∧ low ≤ s.length ∧ s.length ≤ high

/-- The answer of a gate to a text: it passes and is in the charset, or it is refused with the error
of the gate. -/
def Guards (answer : Except ε Unit) (error : ε) (charset : α → Bool) (low high : ℕ)
    (s : List α) : Prop :=
  answer = .ok () ∧ InCharset charset low high s ∨ answer = .error error

variable [DecidableEq α] {newline : α} {full : List α → Bool} {charset : α → Bool} {low high : ℕ}

/-- An anchored pattern admits only its charset, apart from a newline at the end. -/
theorem guards_iff (hfull : ∀ t, full t = true → InCharset charset low high t)
    (hnewline : charset newline = false) (error : ε) (s : List α) :
    Guards (if anchored newline full s then .ok () else .error error) error charset low high s ↔
      ¬ Trails newline full s := by
  unfold Guards
  constructor
  · rintro (⟨-, hchars, -⟩ | herror) ⟨t, rfl, ht⟩
    · have hlast := hchars newline (List.mem_append_right t (List.mem_singleton_self newline))
      rw [hnewline] at hlast
      cases hlast
    · rw [if_pos (anchored_iff.mpr (.inr ⟨t, rfl, ht⟩))] at herror
      cases herror
  · intro hnot
    by_cases hs : anchored newline full s = true
    · rw [if_pos hs]
      exact .inl ⟨rfl, hfull s ((anchored_iff.mp hs).resolve_right hnot)⟩
    · rw [if_neg hs]
      exact .inr rfl

/-- A text that the pattern admits is in the charset exactly if no newline trails. -/
theorem inCharset_iff (hfull : ∀ t, full t = true → InCharset charset low high t)
    (hnewline : charset newline = false) {s : List α} (hs : anchored newline full s = true) :
    InCharset charset low high s ↔ ¬ Trails newline full s := by
  have hiff := guards_iff hfull hnewline () s
  rw [if_pos hs] at hiff
  rw [← hiff]
  exact ⟨fun h => .inl ⟨rfl, h⟩, fun h => h.elim And.right fun h => by cases h⟩

end Python
