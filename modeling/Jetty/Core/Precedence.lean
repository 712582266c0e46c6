import Mathlib.Data.Fintype.Card
import Mathlib.Data.Set.Finite.List
import Mathlib.Order.WellFounded
import Mathlib.Logic.Relation

/-!
# Precedence relations

`r y x` reads: `y` is due before `x`. Orders in which everything comes after what is due
before it, and the sets that taking whole waves of such an order produces. Nothing here
depends on a particular program.
-/

namespace Precedence

open Relation

variable {α : Type*} {r : α → α → Prop}

/-- Something is due before itself. -/
def Cyclic (r : α → α → Prop) : Prop := ∃ x, TransGen r x x

/-- Each element of the list comes after everything that is due before it. -/
def Respects (r : α → α → Prop) (l : List α) : Prop :=
  ∀ before x after, l = before ++ x :: after → ∀ y, r y x → y ∈ before

/-- Everything that is due before a member is a member. -/
def Closed (r : α → α → Prop) (l : List α) : Prop := ∀ x ∈ l, ∀ y, r y x → y ∈ l

/-- A relation has a cycle exactly if its converse has one. -/
theorem cyclic_flip : Cyclic (flip r) ↔ Cyclic r := by
  constructor
  · rintro ⟨x, h⟩
    exact ⟨x, transGen_swap.mp h⟩
  · rintro ⟨x, h⟩
    exact ⟨x, transGen_swap.mpr h⟩

/-- Without a cycle, something in a nonempty list has nothing of the list due before it. -/
theorem exists_first (h : ¬ Cyclic r) {l : List α} (hl : l ≠ []) :
    ∃ x ∈ l, ∀ y ∈ l, ¬ r y x := by
  have hfinite : Finite {x // x ∈ l} := l.finite_toSet
  let before (x y : {x // x ∈ l}) : Prop := TransGen r x.1 y.1
  have htrans : IsTrans _ before := ⟨fun _ _ _ => TransGen.trans⟩
  have hirrefl : Std.Irrefl before := ⟨fun x hx => h ⟨x.1, hx⟩⟩
  have hwf : WellFounded before := Finite.wellFounded_of_trans_of_irrefl before
  obtain ⟨a, ha⟩ := List.exists_mem_of_ne_nil l hl
  obtain ⟨x, -, hx⟩ := hwf.has_min Set.univ ⟨⟨a, ha⟩, trivial⟩
  exact ⟨x.1, x.2, fun y hy hr => hx ⟨y, hy⟩ trivial (.single hr)⟩

/-! ### Orders -/

/-- The empty order respects every relation. -/
theorem respects_nil : Respects r [] := by
  intro before x after h
  simp at h

/-- A wave may follow once everything due before its members is in the list. -/
theorem Respects.append {l wave : List α} (h : Respects r l)
    (hwave : ∀ x ∈ wave, ∀ y, r y x → y ∈ l) : Respects r (l ++ wave) := by
  intro before x after heq y hy
  rcases List.append_eq_append_iff.mp heq with ⟨mid, rfl, hmid⟩ | ⟨mid, rfl, hmid⟩
  · have hx : x ∈ wave := by rw [hmid]; simp
    exact List.mem_append_left _ (hwave x hx y hy)
  · cases mid with
    | nil =>
        have hx : x ∈ wave := by simp only [List.nil_append] at hmid; rw [← hmid]; simp
        simpa using hwave x hx y hy
    | cons z mid =>
        obtain ⟨rfl, -⟩ := List.cons.inj hmid
        exact h before x mid rfl y hy

/-- In such an order an element also comes after everything that is indirectly due before
it. -/
theorem Respects.transGen {l : List α} (h : Respects r l) {x y : α} (hxy : TransGen r y x)
    {before after : List α} (heq : l = before ++ x :: after) : y ∈ before := by
  induction hxy generalizing before after with
  | single hr => exact h _ _ _ heq _ hr
  | tail _ hr ih =>
      obtain ⟨before', mid, rfl⟩ := List.append_of_mem (h _ _ _ heq _ hr)
      have hy := ih (heq.trans (List.append_assoc before' (_ :: mid) (_ :: after)))
      exact List.mem_append_left _ hy

/-- A relation with such an order of all it relates has no cycle. -/
theorem Respects.not_cyclic {l : List α} (h : Respects r l) (hl : ∀ x y, r y x → x ∈ l) :
    ¬ Cyclic r := by
  rintro ⟨x, hx⟩
  obtain ⟨z, -, hz⟩ := TransGen.tail'_iff.mp hx
  obtain ⟨before, after, heq, hnot⟩ := List.eq_append_cons_of_mem (hl x z hz)
  exact hnot (h.transGen hx heq)

/-! ### Waves -/

/-- The empty order is closed. -/
theorem closed_nil : Closed r [] := by
  intro x hx
  cases hx

/-- A closed order stays closed under a wave of what has nothing left to wait for. -/
theorem Closed.append {l wave : List α} (h : Closed r l)
    (hwave : ∀ x ∈ wave, ∀ y, r y x → y ∈ l) : Closed r (l ++ wave) := by
  intro x hx y hy
  rcases List.mem_append.mp hx with hx | hx
  · exact List.mem_append_left _ (h x hx y hy)
  · exact List.mem_append_left _ (hwave x hx y hy)

/-- What is indirectly due before the next wave is in the list as well. -/
theorem Closed.transGen {l : List α} (h : Closed r l) {x y : α} (hxy : TransGen r y x)
    (hx : ∀ z, r z x → z ∈ l) : y ∈ l := by
  induction hxy with
  | single hr => exact hx _ hr
  | tail _ hr ih => exact ih fun z hz => h _ (hx _ hr) z hz

end Precedence
