import Jetty.Core.Listing.Cursor
import Mathlib.Logic.Relation

/-!
# Ancestors in a history

Revisions are numbered so that parents come first. The ancestors of a revision are listed by
going down from it and marking parents. Nothing here depends on a particular program.
-/

namespace Listing

/-- A history: the parents of a revision have smaller numbers. -/
structure History where
  parents : ℕ → List ℕ
  older : ∀ r, ∀ p ∈ parents r, p < r

namespace History

variable (g : History)

/-- The second is an ancestor of the first, or the same. -/
def Ancestor : ℕ → ℕ → Prop := Relation.ReflTransGen fun r p => p ∈ g.parents r

/-- The ancestors below a bound of the marked revisions, newest first. -/
def descend : ℕ → List ℕ → List ℕ
  | 0, _ => []
  | r + 1, marked =>
    if r ∈ marked then r :: descend r (g.parents r ++ marked) else descend r marked

/-- The ancestors of a revision, itself included, newest first. -/
def ancestors (r : ℕ) : List ℕ := g.descend (r + 1) [r]

variable {g}

private theorem Ancestor.le {r a : ℕ} (h : g.Ancestor r a) : a ≤ r := by
  induction h with
  | refl => exact le_rfl
  | tail _ hparent ih => exact (g.older _ _ hparent).le.trans ih

private theorem lt_of_mem_descend {k a : ℕ} {marked : List ℕ} (h : a ∈ g.descend k marked) :
    a < k := by
  induction k generalizing marked with
  | zero => cases h
  | succ k ih =>
      rw [descend] at h
      split at h
      · rcases List.mem_cons.mp h with rfl | h
        · exact Nat.lt_succ_self _
        · exact (ih h).trans (Nat.lt_succ_self _)
      · exact (ih h).trans (Nat.lt_succ_self _)

private theorem descending_descend (k : ℕ) (marked : List ℕ) :
    (g.descend k marked).Pairwise (· > ·) := by
  induction k generalizing marked with
  | zero => exact .nil
  | succ k ih =>
      rw [descend]
      split
      · exact List.pairwise_cons.mpr ⟨fun a ha => lt_of_mem_descend ha, ih _⟩
      · exact ih _

private theorem mem_descend {k a : ℕ} {marked : List ℕ} :
    a ∈ g.descend k marked ↔ ∃ m ∈ marked, m < k ∧ g.Ancestor m a := by
  induction k generalizing marked with
  | zero => simp [descend]
  | succ k ih =>
      rw [descend]
      split
      · rename_i hk
        rw [List.mem_cons, ih]
        constructor
        · rintro (rfl | ⟨m, hm, hlt, hanc⟩)
          · exact ⟨a, hk, Nat.lt_succ_self _, .refl⟩
          · rcases List.mem_append.mp hm with hm | hm
            · exact ⟨k, hk, Nat.lt_succ_self _, .head hm hanc⟩
            · exact ⟨m, hm, hlt.trans (Nat.lt_succ_self _), hanc⟩
        · rintro ⟨m, hm, hlt, hanc⟩
          rcases Nat.lt_succ_iff_lt_or_eq.mp hlt with hlt | rfl
          · exact .inr ⟨m, List.mem_append_right _ hm, hlt, hanc⟩
          · rcases hanc.cases_head with rfl | ⟨p, hp, hanc⟩
            · exact .inl rfl
            · exact .inr ⟨p, List.mem_append_left _ hp, g.older _ _ hp, hanc⟩
      · rename_i hk
        rw [ih]
        constructor
        · rintro ⟨m, hm, hlt, hanc⟩
          exact ⟨m, hm, hlt.trans (Nat.lt_succ_self _), hanc⟩
        · rintro ⟨m, hm, hlt, hanc⟩
          refine ⟨m, hm, lt_of_le_of_ne (Nat.lt_succ_iff.mp hlt) ?_, hanc⟩
          rintro rfl
          exact hk hm

/-- The ancestors of a revision are what its parents lead to. -/
theorem mem_ancestors {r a : ℕ} : a ∈ g.ancestors r ↔ g.Ancestor r a := by
  rw [ancestors, mem_descend]
  simp

variable (g)

/-- The ancestors that meet a condition, as lists with cursors. -/
def cursors (p : ℕ → Bool) : Cursors ℕ where
  list r := (g.ancestors r).filter p
  descending r := (descending_descend _ _).filter _
  le r a ha := (mem_ancestors.mp (List.mem_of_mem_filter ha)).le
  closed r a b ha hb := by
    rw [List.mem_filter, mem_ancestors] at ha hb ⊢
    exact ⟨ha.1.trans hb.1, hb.2⟩

end History

end Listing
