import Mathlib.Data.List.Basic

/-!
# Pages of a list

A listing is asked for pages by tokens: each answer has some rows and, unless it is the last, the
token of the next one. Where the tokens stand for offsets and can be read back, the pages that are
handed out one after the other partition the list.
-/

namespace Pagination

variable {α τ : Type*}

/-- What a listing answers to a token: rows, and the next token. -/
abbrev Answer (α τ : Type*) := τ → Option (List α × Option τ)

/-- The pages that a client gets who sends each token back, up to an answer without one. -/
inductive Walk (answer : Answer α τ) : τ → List (List α) → Prop
  | last {t : τ} {page : List α} (h : answer t = some (page, none)) : Walk answer t [page]
  | more {t next : τ} {page : List α} {pages : List (List α)}
      (h : answer t = some (page, some next)) (hrest : Walk answer next pages) :
      Walk answer t (page :: pages)

/-- The walk ends, in one way only; its pages are the rows in order, and all but the last are
full. -/
def Partitions (answer : Answer α τ) (start : τ) (rows : List α) (size : ℕ) : Prop :=
  ∃ pages, (∀ other, Walk answer start other ↔ other = pages) ∧ pages.flatten = rows ∧
    ∀ page ∈ pages.dropLast, page.length = size

private theorem Walk.unique {answer : Answer α τ} {t : τ} {pages other : List (List α)}
    (h : Walk answer t pages) (h' : Walk answer t other) : other = pages := by
  induction h generalizing other with
  | last hanswer =>
      cases h' with
      | last hanswer' =>
          obtain ⟨rfl, -⟩ := Prod.mk.inj (Option.some.inj (hanswer'.symm.trans hanswer))
          rfl
      | more hanswer' _ => cases hanswer'.symm.trans hanswer
  | more hanswer _ ih =>
      cases h' with
      | last hanswer' => cases hanswer'.symm.trans hanswer
      | more hanswer' hrest' =>
          obtain ⟨rfl, hnext⟩ := Prod.mk.inj (Option.some.inj (hanswer'.symm.trans hanswer))
          obtain rfl := Option.some.inj hnext
          rw [ih hrest']

section Offsets

variable {answer : Answer α τ} {read : τ → Option ℕ} {write : ℕ → τ} {rows : List α} {size : ℕ}

/-- Tokens stand for offsets. -/
structure Offsets (answer : Answer α τ) (read : τ → Option ℕ) (write : ℕ → τ) (rows : List α)
    (size : ℕ) : Prop where
  answer_eq : ∀ t, answer t = (read t).map fun offset =>
    ((rows.drop offset).take size,
      if offset + size < rows.length then some (write (offset + size)) else none)
  size_pos : 0 < size
  /-- A token that can be read stands for the offset it was made from. -/
  read_write : ∀ n, read (write n) = some n ∨ read (write n) = none

/-- The tokens on the way from an offset to the end can be read. -/
def Readable (read : τ → Option ℕ) (write : ℕ → τ) (size offset length : ℕ) : Prop :=
  ∀ k, 0 < k → offset + k * size < length →
      read (write (offset + k * size)) = some (offset + k * size)

private theorem Offsets.answer_last (h : Offsets answer read write rows size) {t : τ} {offset : ℕ}
    (ht : read t = some offset) (hlast : ¬ offset + size < rows.length) :
    answer t = some (rows.drop offset, none) := by
  rw [h.answer_eq, ht, Option.map_some, if_neg hlast, List.take_of_length_le]
  rw [List.length_drop]
  omega

private theorem Offsets.answer_more (h : Offsets answer read write rows size) {t : τ} {offset : ℕ}
    (ht : read t = some offset) (hmore : offset + size < rows.length) :
    answer t = some ((rows.drop offset).take size, some (write (offset + size))) := by
  rw [h.answer_eq, ht, Option.map_some, if_pos hmore]

private theorem Readable.next {offset length : ℕ} (h : Readable read write size offset length) :
    Readable read write size (offset + size) length := by
  intro k hk hlt
  have hshift : offset + size + k * size = offset + (k + 1) * size := by
    rw [Nat.add_mul, Nat.one_mul]
    omega
  rw [hshift] at hlt ⊢
  exact h (k + 1) (Nat.succ_pos k) hlt

private theorem Readable.first {offset length : ℕ} (h : Readable read write size offset length)
    (hmore : offset + size < length) : read (write (offset + size)) = some (offset + size) := by
  have hone := h 1 Nat.one_pos
  rw [Nat.one_mul] at hone
  exact hone hmore

/-- From an offset whose tokens can be read, the pages are the rest of the rows. -/
theorem Offsets.exists_walk (h : Offsets answer read write rows size) {t : τ} {offset : ℕ}
    (ht : read t = some offset) (hread : Readable read write size offset rows.length) :
    ∃ pages, Walk answer t pages ∧ pages.flatten = rows.drop offset ∧
      ∀ page ∈ pages.dropLast, page.length = size := by
  induction hn : rows.length - offset using Nat.strongRecOn generalizing t offset with
  | ind n ih =>
      by_cases hmore : offset + size < rows.length
      · have hpos := h.size_pos
        obtain ⟨pages, hwalk, hflat, hfull⟩ :=
          ih (rows.length - (offset + size)) (by omega) (hread.first hmore) hread.next rfl
        refine ⟨_, .more (h.answer_more ht hmore) hwalk, ?_, ?_⟩
        · rw [List.flatten_cons, hflat, ← List.drop_drop, List.take_append_drop]
        · have hne : pages ≠ [] := by
            rintro rfl
            cases hwalk
          rw [List.dropLast_cons_of_ne_nil hne, List.forall_mem_cons]
          refine ⟨?_, hfull⟩
          rw [List.length_take, List.length_drop]
          omega
      · exact ⟨_, .last (h.answer_last ht hmore), List.append_nil _, nofun⟩

/-- A walk that ends has read every token on its way. -/
theorem Offsets.readable_of_walk (h : Offsets answer read write rows size) {t : τ} {offset : ℕ}
    {pages : List (List α)} (ht : read t = some offset) (hwalk : Walk answer t pages) :
    Readable read write size offset rows.length := by
  have hpos := h.size_pos
  induction hwalk generalizing offset with
  | last hanswer =>
      intro k hk hlt
      have hmore : ¬ offset + size < rows.length := by
        intro hmore
        cases (h.answer_more ht hmore).symm.trans hanswer
      have hle : size ≤ k * size := Nat.le_mul_of_pos_left size hk
      omega
  | @more t next page pages hanswer hrest ih =>
      by_cases hmore : offset + size < rows.length
      · have heq := (h.answer_more ht hmore).symm.trans hanswer
        obtain ⟨-, hnext⟩ := Prod.mk.inj (Option.some.inj heq)
        obtain rfl := Option.some.inj hnext
        have hfirst : read (write (offset + size)) = some (offset + size) := by
          refine (h.read_write _).resolve_right fun hnone => ?_
          cases hrest with
          | last hanswer =>
              rw [h.answer_eq, hnone] at hanswer
              cases hanswer
          | more hanswer _ =>
              rw [h.answer_eq, hnone] at hanswer
              cases hanswer
        have hrest := ih hfirst
        intro k hk hlt
        obtain ⟨k, rfl⟩ : ∃ j, k = j + 1 := ⟨k - 1, by omega⟩
        have hshift : offset + (k + 1) * size = offset + size + k * size := by
          rw [Nat.add_mul, Nat.one_mul]
          omega
        rw [hshift] at hlt ⊢
        rcases Nat.eq_zero_or_pos k with rfl | hk
        · rw [Nat.zero_mul, Nat.add_zero]
          exact hfirst
        · exact hrest k hk hlt
      · cases (h.answer_last ht hmore).symm.trans hanswer

/-- The pages partition the rows exactly if the tokens can be read. -/
theorem Offsets.partitions_iff (h : Offsets answer read write rows size) {start : τ}
    (hstart : read start = some 0) :
    Partitions answer start rows size ↔ Readable read write size 0 rows.length := by
  constructor
  · rintro ⟨pages, hwalk, -⟩
    exact h.readable_of_walk hstart ((hwalk pages).mpr rfl)
  · intro hread
    obtain ⟨pages, hwalk, hflat, hfull⟩ := h.exists_walk hstart hread
    refine ⟨pages, fun other => ⟨hwalk.unique, ?_⟩, hflat, hfull⟩
    rintro rfl
    exact hwalk

end Offsets

end Pagination
