import Mathlib.Data.List.Perm.Basic

/-!
# Sorting by several keys

A stable sort leaves what it cannot tell apart in the order of before. Sorting by one key after the
other, the least significant first, sorts by all of them.
-/

namespace Sorting

variable {α κ : Type*} {R : α → α → Prop} {le : α → α → Bool}

/-- A stable sort refines the order of its input. -/
theorem pairwise_mergeSort_stable (htrans : ∀ a b c, le a b = true → le b c = true → le a c = true)
    (htotal : ∀ a b, (le a b || le b a) = true) {l : List α} (h : l.Pairwise R) :
    (l.mergeSort le).Pairwise fun a b => le a b = true ∧ (le b a = true → R a b) := by
  have hsorted := List.pairwise_mergeSort (List.zipIdxLE_trans htrans) (List.zipIdxLE_total htotal)
    l.zipIdx
  have hperm := List.mergeSort_perm l.zipIdx (List.zipIdxLE le)
  have hindices : ((l.zipIdx.mergeSort (List.zipIdxLE le)).map Prod.snd).Nodup := by
    rw [(hperm.map Prod.snd).nodup_iff, List.zipIdx_map_snd]
    exact List.nodup_range'
  rw [← List.mergeSort_zipIdx, List.pairwise_map]
  refine (hsorted.and (List.pairwise_map.mp hindices)).imp_of_mem ?_
  rintro ⟨a, i⟩ ⟨b, j⟩ ha hb ⟨hle, hne⟩
  obtain ⟨hi, hgeta⟩ := List.mem_zipIdx' (hperm.mem_iff.mp ha)
  obtain ⟨hj, hgetb⟩ := List.mem_zipIdx' (hperm.mem_iff.mp hb)
  unfold List.zipIdxLE at hle
  split at hle
  · rename_i hab
    refine ⟨hab, fun hba => ?_⟩
    rw [if_pos hba] at hle
    have hlt : i < j := Nat.lt_of_le_of_ne (of_decide_eq_true hle) hne
    rw [hgeta, hgetb]
    exact List.pairwise_iff_getElem.mp h i j hi hj hlt
  · cases hle

section Keys

variable {le : κ → α → α → Bool}

/-- By the first key, then by the others, and at last by `base`. -/
def Lex (le : κ → α → α → Bool) (base : α → α → Prop) : List κ → α → α → Prop
  | [] => base
  | key :: keys => fun a b => le key a b = true ∧ (le key b a = true → Lex le base keys a b)

/-- Sorted by the last key first. -/
theorem pairwise_foldr_mergeSort {keys : List κ}
    (htrans : ∀ key a b c, le key a b = true → le key b c = true → le key a c = true)
    (htotal : ∀ key a b, (le key a b || le key b a) = true) {l : List α} (h : l.Pairwise R) :
    (keys.foldr (fun key l => l.mergeSort (le key)) l).Pairwise (Lex le R keys) := by
  induction keys with
  | nil => exact h
  | cons key keys ih => exact pairwise_mergeSort_stable (htrans key) (htotal key) ih

/-- Sorting by one key after the other permutes the list. -/
theorem foldr_mergeSort_perm (keys : List κ) (l : List α) :
    (keys.foldr (fun key l => l.mergeSort (le key)) l).Perm l := by
  induction keys with
  | nil => exact .refl l
  | cons key keys ih => exact (List.mergeSort_perm _ _).trans ih

end Keys

end Sorting
