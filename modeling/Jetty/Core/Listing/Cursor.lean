import Mathlib.Order.WellFounded
import Mathlib.Data.List.Sort

/-!
# Paging with an element as cursor

Every element names a descending list, and a page of such a list ends with the element whose
own list is read next. The pages end, and together they are a part of the first list. They are
all of it exactly if the list of every cursor is what was left. Nothing here depends on a
particular program.
-/

namespace Listing

variable {ι : Type*} [LinearOrder ι]

/-- Descending lists that are closed under going on from one of their elements. -/
structure Cursors (ι : Type*) [LinearOrder ι] where
  list : ι → List ι
  descending : ∀ x, (list x).Pairwise (· > ·)
  le : ∀ x y, y ∈ list x → y ≤ x
  closed : ∀ x y z, y ∈ list x → z ∈ list y → z ∈ list x

namespace Cursors

variable (L : Cursors ι) (limit : ℕ)

/-- The pages from `x` on, put together. -/
inductive Follows : ι → List ι → Prop
  | last {x : ι} : (L.list x)[limit]? = none → Follows x ((L.list x).take limit)
  | more {x y : ι} {rest : List ι} : (L.list x)[limit]? = some y → Follows y rest →
      Follows x ((L.list x).take limit ++ rest)

variable {L limit}

/-- A cursor is followed in one way. -/
theorem Follows.unique {x : ι} {l l' : List ι} (h : L.Follows limit x l)
    (h' : L.Follows limit x l') : l = l' := by
  induction h generalizing l' with
  | last hnone =>
      cases h' with
      | last => rfl
      | more hsome =>
          rw [hnone] at hsome
          cases hsome
  | more hsome _ ih =>
      cases h' with
      | last hnone =>
          rw [hsome] at hnone
          cases hnone
      | more hsome' hrest =>
          rw [hsome] at hsome'
          cases hsome'
          rw [ih hrest]

/-- A cursor is less than what named its list. -/
theorem lt_of_getElem? (hlimit : 1 ≤ limit) {x y : ι} (h : (L.list x)[limit]? = some y) :
    y < x := by
  obtain ⟨hlength, rfl⟩ := List.getElem?_eq_some_iff.mp h
  have hfirst := List.pairwise_iff_getElem.mp (L.descending x) 0 limit (by omega) hlength (by omega)
  exact hfirst.trans_le (L.le x _ (List.getElem_mem _))

/-- The pages end. -/
theorem exists_follows [WellFoundedLT ι] (hlimit : 1 ≤ limit) (x : ι) :
    ∃ l, L.Follows limit x l := by
  induction x using WellFoundedLT.induction with
  | ind x ih =>
      cases hcursor : (L.list x)[limit]? with
      | none => exact ⟨_, .last hcursor⟩
      | some y =>
          obtain ⟨rest, hrest⟩ := ih y (lt_of_getElem? hlimit hcursor)
          exact ⟨_, .more hcursor hrest⟩

/-- What follows an element, itself included, is what is not greater. -/
theorem mem_drop {x y z : ι} {i : ℕ} (h : (L.list x)[i]? = some y) :
    z ∈ (L.list x).drop i ↔ z ∈ L.list x ∧ z ≤ y := by
  obtain ⟨hlength, rfl⟩ := List.getElem?_eq_some_iff.mp h
  have hdescending := List.pairwise_iff_getElem.mp (L.descending x)
  constructor
  · intro hz
    obtain ⟨j, hj, rfl⟩ := List.mem_iff_getElem.mp hz
    rw [List.length_drop] at hj
    rw [List.getElem_drop]
    refine ⟨List.getElem_mem _, ?_⟩
    rcases Nat.eq_zero_or_pos j with rfl | hpos
    · exact le_rfl
    · exact (hdescending i (i + j) hlength (by omega) (by omega)).le
  · rintro ⟨hz, hle⟩
    obtain ⟨j, hj, rfl⟩ := List.mem_iff_getElem.mp hz
    have hij : i ≤ j := by
      by_contra hlt
      exact absurd (hdescending j i hj hlength (by omega)) (not_lt.mpr hle)
    refine List.mem_iff_getElem.mpr ⟨j - i, by rw [List.length_drop]; omega, ?_⟩
    rw [List.getElem_drop]
    congr 1
    omega

/-- No item is listed twice. -/
theorem nodup_list (x : ι) : (L.list x).Nodup := (L.descending x).imp fun h => h.ne'

/-- The list of an element is a part of what follows the element. -/
theorem list_sublist_drop {x y : ι} {i : ℕ} (h : (L.list x)[i]? = some y) :
    (L.list y).Sublist ((L.list x).drop i) := by
  have hy : y ∈ L.list x := List.mem_of_getElem? h
  have hsubset : L.list y ⊆ (L.list x).drop i := fun z hz =>
    (mem_drop h).mpr ⟨L.closed x y z hy hz, L.le y z hz⟩
  have hsubperm := List.subperm_of_subset (nodup_list y) hsubset
  exact List.sublist_of_subperm_of_pairwise hsubperm (L.descending y)
    ((L.descending x).sublist (List.drop_sublist _ _))

/-- The pages are a part of the list. -/
theorem Follows.sublist {x : ι} {l : List ι} (h : L.Follows limit x l) : l.Sublist (L.list x) := by
  induction h with
  | last => exact List.take_sublist _ _
  | @more x y rest hcursor _ ih =>
      conv_rhs => rw [← List.take_append_drop limit (L.list x)]
      exact (List.Sublist.refl _).append (ih.trans (list_sublist_drop hcursor))

/-- The list of every cursor is what is left. -/
def Unbroken (L : Cursors ι) (limit : ℕ) (x : ι) : Prop :=
  ∀ k y, 1 ≤ k → (L.list x)[k * limit]? = some y →
    ∀ z ∈ L.list x, z ≤ y → z ∈ L.list y

private theorem list_eq_drop_iff {x y : ι} {i : ℕ} (h : (L.list x)[i]? = some y) :
    L.list y = (L.list x).drop i ↔ ∀ z ∈ L.list x, z ≤ y → z ∈ L.list y := by
  constructor
  · intro heq z hz hle
    rw [heq]
    exact (mem_drop h).mpr ⟨hz, hle⟩
  · intro hall
    have hsubset : (L.list x).drop i ⊆ L.list y := fun z hz =>
      hall z ((mem_drop h).mp hz).1 ((mem_drop h).mp hz).2
    have hnodup : ((L.list x).drop i).Nodup := (nodup_list x).sublist (List.drop_sublist _ _)
    have hdrop := List.sublist_of_subperm_of_pairwise (List.subperm_of_subset hnodup hsubset)
      ((L.descending x).sublist (List.drop_sublist _ _)) (L.descending y)
    exact (list_sublist_drop h).antisymm hdrop

/-- With the second page being what is left, the later cursors are those of the second list. -/
theorem getElem?_of_eq_drop {x y : ι} (h : L.list y = (L.list x).drop limit) (k : ℕ) :
    (L.list y)[k * limit]? = (L.list x)[(k + 1) * limit]? := by
  rw [h, List.getElem?_drop, Nat.succ_mul, Nat.add_comm]

private theorem unbroken_iff {x y : ι} (hcursor : (L.list x)[limit]? = some y) :
    L.Unbroken limit x ↔ L.list y = (L.list x).drop limit ∧ L.Unbroken limit y := by
  constructor
  · intro h
    have hdrop : L.list y = (L.list x).drop limit :=
      (list_eq_drop_iff hcursor).mpr (h 1 y le_rfl (by rwa [Nat.one_mul]))
    refine ⟨hdrop, fun k y' hk hy' z hz hle => ?_⟩
    rw [getElem?_of_eq_drop hdrop] at hy'
    exact h (k + 1) y' (by omega) hy' z
      (L.closed x y z (List.mem_of_getElem? hcursor) hz) hle
  · rintro ⟨hdrop, h⟩ k y' hk hy' z hz hle
    obtain ⟨k, rfl⟩ : ∃ j, k = j + 1 := ⟨k - 1, by omega⟩
    rcases Nat.eq_zero_or_pos k with rfl | hpos
    · rw [Nat.zero_add, Nat.one_mul, hcursor] at hy'
      cases hy'
      exact (list_eq_drop_iff hcursor).mp hdrop z hz hle
    · rw [← getElem?_of_eq_drop hdrop] at hy'
      have hy'y : y' ≤ y := L.le y y' (List.mem_of_getElem? hy')
      exact h k y' hpos hy' z ((list_eq_drop_iff hcursor).mp hdrop z hz (hle.trans hy'y)) hle

/-- The pages are the whole list exactly if no cursor loses anything. -/
theorem Follows.eq_list_iff {x : ι} {l : List ι} (h : L.Follows limit x l) :
    l = L.list x ↔ L.Unbroken limit x := by
  induction h with
  | @last x hnone =>
      rw [List.getElem?_eq_none_iff] at hnone
      refine iff_of_true (List.take_of_length_le hnone) fun k y hk hy => ?_
      have hlength := (List.getElem?_eq_some_iff.mp hy).1
      have hmul : limit ≤ k * limit := Nat.le_mul_of_pos_left limit hk
      omega
  | @more x y rest hcursor hrest ih =>
      rw [unbroken_iff hcursor, ← ih]
      constructor
      · intro hall
        have hdrop : rest = (L.list x).drop limit := by
          refine @List.append_cancel_left _ ((L.list x).take limit) _ _ ?_
          rw [hall, List.take_append_drop]
        have hle : (L.list y).Sublist rest := hdrop ▸ list_sublist_drop hcursor
        have heq : rest = L.list y := hrest.sublist.antisymm hle
        exact ⟨heq ▸ hdrop, heq⟩
      · rintro ⟨hdrop, rfl⟩
        rw [hdrop, List.take_append_drop]

end Cursors

end Listing
