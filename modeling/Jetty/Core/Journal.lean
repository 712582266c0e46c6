import Mathlib.Data.List.Basic

/-!
# Journals

Edits that say what they change. A journal is good for a state if its changes, replayed in order
over an earlier state, lead to it.
-/

namespace Journal

variable {σ γ ι ε : Type*}

/-- A state, and the changes that led to it, the first one first. -/
abbrev Edited (σ γ : Type*) := σ × List γ

/-- Apply the edits of a list until one is refused; what has been done by then stays. -/
def editAll (edit : σ → ι → Except ε (Edited σ γ)) (s : σ) :
    List ι → Edited σ γ × Option ε
  | [] => ((s, []), none)
  | i :: is =>
    match edit s i with
    | .error e => ((s, []), some e)
    | .ok (t, changes) =>
      let ((u, rest), refusal) := editAll edit t is
      ((u, changes ++ rest), refusal)

/-- The changes lead from one state to the other. -/
def Explains (apply : σ → γ → σ) (s : σ) (changes : List γ) (t : σ) : Prop :=
  changes.foldl apply s = t

section Explains

variable {apply : σ → γ → σ} {s t u : σ} {changes rest : List γ}

/-- Nothing explains no change. -/
theorem Explains.refl : Explains apply s [] s := rfl

/-- Explanations compose. -/
theorem Explains.trans (h : Explains apply s changes t) (h' : Explains apply t rest u) :
    Explains apply s (changes ++ rest) u := by
  rw [Explains, List.foldl_append, h, h']

end Explains

variable {τ : Type*} {apply : τ → γ → τ} {edit : σ → ι → Except ε (Edited σ γ)}

/-- Edits that explain themselves do so one after the other. -/
theorem editAll_explains (view : σ → τ) (hedit : ∀ s i t changes, edit s i = .ok (t, changes) →
    Explains apply (view s) changes (view t)) (s : σ) (is : List ι) :
    Explains apply (view s) (editAll edit s is).1.2 (view (editAll edit s is).1.1) := by
  induction is generalizing s with
  | nil => exact .refl
  | cons i is ih =>
      rw [editAll]
      cases h : edit s i with
      | error e => exact .refl
      | ok r => exact (hedit s i r.1 r.2 h).trans (ih r.1)

/-- A property that every edit keeps is kept up to the refusal. -/
theorem editAll_preserves {Inv : σ → Prop} (hedit : ∀ s i t changes, Inv s →
    edit s i = .ok (t, changes) → Inv t) (s : σ) (is : List ι) (hs : Inv s) :
    Inv (editAll edit s is).1.1 := by
  induction is generalizing s with
  | nil => exact hs
  | cons i is ih =>
      rw [editAll]
      cases h : edit s i with
      | error e => exact hs
      | ok r => exact ih r.1 (hedit s i r.1 r.2 hs h)

/-- Whether an edit is refused may depend on the edit alone; then so does the refusal of all. -/
theorem editAll_refusal (known : ι → Bool)
    (hknown : ∀ s i, known i = true ↔ ∃ r, edit s i = .ok r) (s : σ) (is : List ι) :
    (editAll edit s is).2 = none ↔ ∀ i ∈ is, known i = true := by
  induction is generalizing s with
  | nil => exact iff_of_true rfl (by simp)
  | cons i is ih =>
      rw [editAll, List.forall_mem_cons, hknown s i]
      cases h : edit s i with
      | error e => simp
      | ok r => simpa using ih r.1

/-- Edits that find nothing to change up to the refusal change nothing. -/
theorem editAll_quiet (known : ι → Bool) (hknown : ∀ s i, known i = true ↔ ∃ r, edit s i = .ok r)
    {s : σ} {is : List ι} (hquiet : ∀ i ∈ is.takeWhile known, edit s i = .ok (s, [])) :
    (editAll edit s is).1 = (s, []) := by
  induction is with
  | nil => rfl
  | cons i is ih =>
      rw [editAll]
      cases h : edit s i with
      | error e => rfl
      | ok r =>
          have hi : known i = true := (hknown s i).mpr ⟨r, h⟩
          rw [List.takeWhile_cons_of_pos hi, List.forall_mem_cons] at hquiet
          cases h.symm.trans hquiet.1
          simp [ih hquiet.2]

/-- Edits none of which is refused lead where their effects lead. -/
theorem editAll_eq_foldl {effect : σ → ι → σ} {is : List ι}
    (h : ∀ i ∈ is, ∀ s, ∃ changes, edit s i = .ok (effect s i, changes)) (s : σ) :
    (editAll edit s is).1.1 = is.foldl effect s := by
  induction is generalizing s with
  | nil => rfl
  | cons i is ih =>
      obtain ⟨changes, hedit⟩ := h i List.mem_cons_self s
      rw [editAll, hedit]
      exact ih (fun j hj => h j (List.mem_cons_of_mem i hj)) (effect s i)

end Journal
