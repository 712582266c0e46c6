import Mathlib.Data.List.Forall2
import Mathlib.Logic.Basic

/-!
# Computations that may fail

Three ways to speak of a computation in `Except` piece by piece: what its success entails,
which errors it cannot raise, and how another computation that goes the same way may part
from it. Nothing here depends on a particular program.
-/

namespace Failure

variable {ε ζ α β γ δ : Type}

/-- Whenever the computation succeeds, `P` holds. -/
def Needs (a : Except ε α) (P : Prop) : Prop := ∀ v, a = .ok v → P

/-- The computation raises no bad error. -/
def Spares (bad : ε → Prop) (a : Except ε α) : Prop := ∀ e, a = .error e → ¬ bad e

/-- Where `a` succeeds, `b` succeeds with a related value if `P` holds, and raises a bad error
if it does not. -/
def Follows (bad : ε → Prop) (R : α → β → Prop) (P : Prop) (a : Except ε α) (b : Except ε β) :
    Prop :=
  ∀ v, a = .ok v → (P → ∃ w, b = .ok w ∧ R v w) ∧ (¬ P → ∃ e, b = .error e ∧ bad e)

/-- A sequence succeeds exactly if both parts do. -/
theorem bind_eq_ok {a : Except ε α} {f : α → Except ε β} {w : β} :
    a >>= f = .ok w ↔ ∃ v, a = .ok v ∧ f v = .ok w := by
  cases a with
  | error e => exact ⟨nofun, by rintro ⟨v, hv, -⟩; cases hv⟩
  | ok v => exact ⟨fun h => ⟨v, rfl, h⟩, by rintro ⟨u, hu, h⟩; cases hu; exact h⟩

/-- A mapped computation succeeds exactly if it does. -/
theorem map_eq_ok {a : Except ε α} {f : α → β} {w : β} :
    a.map f = .ok w ↔ ∃ v, a = .ok v ∧ f v = w := by
  cases a with
  | error e => exact ⟨nofun, by rintro ⟨v, hv, -⟩; cases hv⟩
  | ok v =>
      constructor
      · intro h
        exact ⟨v, rfl, Except.ok.inj h⟩
      · rintro ⟨u, hu, rfl⟩
        cases hu
        rfl

/-- A mapped computation raises what it raises. -/
theorem map_eq_error {a : Except ε α} {f : α → β} {e : ε} : a.map f = .error e ↔ a = .error e := by
  cases a with
  | error d =>
      exact ⟨fun h => congrArg _ (Except.error.inj h), fun h => congrArg _ (Except.error.inj h)⟩
  | ok v => exact ⟨nofun, nofun⟩

private theorem map_eq_bind {a : Except ε α} {f : α → β} : a.map f = a >>= fun v => .ok (f v) := by
  cases a <;> rfl

/-- Another error is still no success. -/
theorem mapError_eq_ok {a : Except ε α} {f : ε → ζ} {v : α} :
    a.mapError f = .ok v ↔ a = .ok v := by
  cases a with
  | error e => exact ⟨nofun, nofun⟩
  | ok u => exact ⟨fun h => congrArg _ (Except.ok.inj h), fun h => congrArg _ (Except.ok.inj h)⟩

/-- A loop of checks succeeds exactly if each of them does. -/
theorem forM_eq_ok {f : α → Except ε Unit} {l : List α} :
    l.forM f = .ok () ↔ ∀ x ∈ l, f x = .ok () := by
  induction l with
  | nil => exact ⟨fun _ => List.forall_mem_nil _, fun _ => rfl⟩
  | cons x l ih =>
      have hcons : (x :: l).forM f = f x >>= fun _ => l.forM f := rfl
      rw [hcons, bind_eq_ok, List.forall_mem_cons, ← ih]
      exact ⟨fun ⟨_, hx, hl⟩ => ⟨hx, hl⟩, fun ⟨hx, hl⟩ => ⟨(), hx, hl⟩⟩

/-- A loop raises what the first element that fails raises. -/
theorem mapM_eq_error {f : α → Except ε β} {l : List α} {e : ε} :
    l.mapM f = .error e ↔ ∃ front x back, l = front ++ x :: back ∧
      (∀ y ∈ front, ∃ z, f y = .ok z) ∧ f x = .error e := by
  induction l with
  | nil => exact ⟨nofun, fun ⟨front, x, back, h, _⟩ => by simp at h⟩
  | cons a l ih =>
      rw [List.mapM_cons]
      cases ha : f a with
      | error d =>
          constructor
          · intro h
            obtain rfl := Except.error.inj h
            exact ⟨[], a, l, rfl, List.forall_mem_nil _, ha⟩
          · rintro ⟨front, x, back, hl, hfront, hx⟩
            cases front with
            | nil =>
                obtain rfl : a = x := (List.cons.inj hl).1
                obtain rfl := Except.error.inj (ha.symm.trans hx)
                rfl
            | cons y front =>
                obtain rfl : a = y := (List.cons.inj hl).1
                obtain ⟨z, hz⟩ := hfront a List.mem_cons_self
                rw [ha] at hz
                cases hz
      | ok z =>
          have hrest : (Except.ok z >>= fun z => l.mapM f >>= fun zs => pure (z :: zs)) =
              (.error e : Except ε (List β)) ↔ l.mapM f = .error e := by
            cases l.mapM f with
            | error d =>
                exact ⟨fun h => congrArg _ (Except.error.inj h),
                  fun h => congrArg _ (Except.error.inj h)⟩
            | ok zs => exact ⟨nofun, nofun⟩
          rw [hrest, ih]
          constructor
          · rintro ⟨front, x, back, rfl, hfront, hx⟩
            exact ⟨a :: front, x, back, rfl,
              List.forall_mem_cons.mpr ⟨⟨z, ha⟩, hfront⟩, hx⟩
          · rintro ⟨front, x, back, hl, hfront, hx⟩
            cases front with
            | nil =>
                obtain rfl : a = x := (List.cons.inj hl).1
                rw [ha] at hx
                cases hx
            | cons y front =>
                exact ⟨front, x, back, (List.cons.inj hl).2,
                  (List.forall_mem_cons.mp hfront).2, hx⟩

/-- What a loop returns comes from its elements, and from each of them. -/
theorem mem_of_mapM {f : α → Except ε β} {l : List α} {ys : List β} (h : l.mapM f = .ok ys) :
    (∀ x ∈ l, ∃ y ∈ ys, f x = .ok y) ∧ ∀ y ∈ ys, ∃ x ∈ l, f x = .ok y := by
  induction l generalizing ys with
  | nil =>
      obtain rfl := Except.ok.inj h
      exact ⟨List.forall_mem_nil _, List.forall_mem_nil _⟩
  | cons a l ih =>
      rw [List.mapM_cons] at h
      obtain ⟨y, hy, h⟩ := bind_eq_ok.mp h
      obtain ⟨rest, hrest, h⟩ := bind_eq_ok.mp h
      obtain rfl := Except.ok.inj h
      obtain ⟨hleft, hright⟩ := ih hrest
      refine ⟨List.forall_mem_cons.mpr ⟨⟨y, List.mem_cons_self, hy⟩, fun x hx => ?_⟩,
        List.forall_mem_cons.mpr ⟨⟨a, List.mem_cons_self, hy⟩, fun z hz => ?_⟩⟩
      · obtain ⟨z, hz, hxz⟩ := hleft x hx
        exact ⟨z, List.mem_cons_of_mem y hz, hxz⟩
      · obtain ⟨x, hx, hxz⟩ := hright z hz
        exact ⟨x, List.mem_cons_of_mem a hx, hxz⟩

/-- What holds at first, and after each round of what has been gone through, holds at the end. -/
theorem foldlM_invariant {f : β → α → Except ε β} {Inv : List α → β → Prop} {l : List α} {b b' : β}
    (hinit : Inv [] b) (hstep : ∀ done x c c', Inv done c → f c x = .ok c' → Inv (done ++ [x]) c')
    (h : l.foldlM f b = .ok b') : Inv l b' := by
  have hfrom : ∀ (l done : List α) (c : β), Inv done c → l.foldlM f c = .ok b' →
      Inv (done ++ l) b' := by
    intro l
    induction l with
    | nil =>
        intro done c hc h
        obtain rfl := Except.ok.inj h
        rwa [List.append_nil]
    | cons x l ih =>
        intro done c hc h
        rw [List.foldlM_cons] at h
        obtain ⟨c', hc', h⟩ := bind_eq_ok.mp h
        have hrest := ih (done ++ [x]) c' (hstep done x c c' hc hc') h
        rwa [List.append_assoc] at hrest
  exact hfrom l [] b hinit h

section Needs

/-- What is needed may be weakened. -/
theorem Needs.mono {a : Except ε α} {P Q : Prop} (h : Needs a P) (hPQ : P → Q) : Needs a Q :=
  fun v hv => hPQ (h v hv)

/-- A sequence needs what both parts need. -/
theorem Needs.bind {a : Except ε α} {f : α → Except ε β} {P Q : Prop} (ha : Needs a P)
    (hf : ∀ v, Needs (f v) Q) : Needs (a >>= f) (P ∧ Q) := by
  intro w hw
  obtain ⟨v, hv, hfv⟩ := bind_eq_ok.mp hw
  exact ⟨ha v hv, hf v w hfv⟩

/-- A sequence needs what its first part needs. -/
theorem Needs.bind_left {a : Except ε α} {f : α → Except ε β} {P : Prop} (ha : Needs a P) :
    Needs (a >>= f) P := by
  intro w hw
  obtain ⟨v, hv, -⟩ := bind_eq_ok.mp hw
  exact ha v hv

/-- A mapped computation needs what it needs. -/
theorem Needs.map {a : Except ε α} {f : α → β} {P : Prop} (ha : Needs a P) :
    Needs (a.map f) P := by
  intro w hw
  obtain ⟨v, hv, -⟩ := map_eq_ok.mp hw
  exact ha v hv

/-- A loop needs what each of its rounds needs. -/
theorem Needs.mapM {f : α → Except ε β} {P : α → Prop} {l : List α}
    (hf : ∀ x ∈ l, Needs (f x) (P x)) : Needs (l.mapM f) (∀ x ∈ l, P x) := by
  induction l with
  | nil => exact fun _ _ => List.forall_mem_nil _
  | cons x l ih =>
      rw [List.forall_mem_cons, List.mapM_cons]
      exact (hf x List.mem_cons_self).bind fun _ =>
        (ih fun y hy => hf y (List.mem_cons_of_mem x hy)).bind_left

end Needs

section Spares

variable {bad : ε → Prop}

/-- A success raises nothing. -/
theorem spares_ok (v : α) : Spares bad (.ok v) := nofun

/-- A sequence of harmless parts is harmless. -/
theorem Spares.bind {a : Except ε α} {f : α → Except ε β} (ha : Spares bad a)
    (hf : ∀ v, Spares bad (f v)) : Spares bad (a >>= f) := by
  cases a with
  | error e =>
      intro d hd
      exact ha d (congrArg _ (Except.error.inj hd))
  | ok v => exact hf v

/-- A sequence spares what both of its parts spare. -/
theorem spares_bind_iff {a : Except ε α} {f : α → Except ε β} :
    Spares bad (a >>= f) ↔ Spares bad a ∧ ∀ v, a = .ok v → Spares bad (f v) := by
  cases a with
  | error e =>
      refine ⟨fun h => ⟨fun d hd => ?_, nofun⟩, fun h d hd => ?_⟩
      · exact h d (congrArg _ (Except.error.inj hd))
      · exact h.1 d (congrArg _ (Except.error.inj hd))
  | ok v =>
      refine ⟨fun h => ⟨spares_ok v, fun u hu => ?_⟩, fun h => h.2 v rfl⟩
      obtain rfl := Except.ok.inj hu
      exact h

/-- A mapped computation is as harmless as it is. -/
theorem spares_map_iff {a : Except ε α} {f : α → β} : Spares bad (a.map f) ↔ Spares bad a := by
  rw [map_eq_bind, spares_bind_iff]
  exact and_iff_left fun v _ => spares_ok (f v)

/-- An error is harmless exactly if it is not bad. -/
theorem spares_error_iff {e : ε} : Spares bad (.error e : Except ε α) ↔ ¬ bad e := by
  refine ⟨fun h => h e rfl, fun h d hd => ?_⟩
  obtain rfl := Except.error.inj hd
  exact h

/-- A loop spares what its elements raise up to the first one that fails. -/
theorem spares_mapM_iff {f : α → Except ε β} {l : List α} :
    Spares bad (l.mapM f) ↔ ∀ front x back, l = front ++ x :: back →
      (∀ y ∈ front, ∃ z, f y = .ok z) → Spares bad (f x) := by
  constructor
  · rintro h front x back hl hfront e he
    exact h e (mapM_eq_error.mpr ⟨front, x, back, hl, hfront, he⟩)
  · intro h e he
    obtain ⟨front, x, back, hl, hfront, hx⟩ := mapM_eq_error.mp he
    exact h front x back hl hfront e hx

/-- The same for a loop that carries a value. -/
theorem spares_foldlM_iff {f : β → α → Except ε β} {l : List α} {s : β} :
    Spares bad (l.foldlM f s) ↔ ∀ front x back t, l = front ++ x :: back →
      front.foldlM f s = .ok t → Spares bad (f t x) := by
  induction l generalizing s with
  | nil =>
      refine iff_of_true (spares_ok s) fun front x back t hl => ?_
      simp at hl
  | cons a l ih =>
      rw [List.foldlM_cons, spares_bind_iff]
      constructor
      · rintro ⟨ha, hrest⟩ front x back t hl hfront
        cases front with
        | nil =>
            obtain rfl : a = x := (List.cons.inj hl).1
            obtain rfl := Except.ok.inj hfront
            exact ha
        | cons y front =>
            obtain rfl : a = y := (List.cons.inj hl).1
            rw [List.foldlM_cons] at hfront
            obtain ⟨u, hu, hfront⟩ := bind_eq_ok.mp hfront
            exact ih.mp (hrest u hu) front x back t (List.cons.inj hl).2 hfront
      · intro h
        refine ⟨h [] a l s rfl rfl, fun u hu => ih.mpr fun front x back t hl hfront => ?_⟩
        refine h (a :: front) x back t (congrArg (a :: ·) hl) ?_
        rw [List.foldlM_cons]
        exact bind_eq_ok.mpr ⟨u, hu, hfront⟩

/-- A mapped computation stays harmless. -/
theorem Spares.map {a : Except ε α} {f : α → β} (ha : Spares bad a) : Spares bad (a.map f) := by
  cases a with
  | error e =>
      intro d hd
      exact ha d (congrArg _ (Except.error.inj hd))
  | ok v => exact spares_ok (f v)

/-- A computation is harmless if its errors are turned into harmless ones. -/
theorem Spares.mapError {a : Except ζ α} {f : ζ → ε} (ha : ∀ e, a = .error e → ¬ bad (f e)) :
    Spares bad (a.mapError f) := by
  cases a with
  | error e =>
      intro d hd
      obtain rfl := Except.error.inj hd
      exact ha e rfl
  | ok v => exact spares_ok v

/-- A loop of harmless rounds is harmless. -/
theorem Spares.mapM {f : α → Except ε β} {l : List α} (hf : ∀ x ∈ l, Spares bad (f x)) :
    Spares bad (l.mapM f) := by
  induction l with
  | nil => exact spares_ok []
  | cons x l ih =>
      rw [List.mapM_cons]
      refine (hf x List.mem_cons_self).bind fun y => ?_
      exact (ih fun z hz => hf z (List.mem_cons_of_mem x hz)).bind fun _ => spares_ok _

end Spares

section Follows

variable {bad : ε → Prop} {R : α → β → Prop} {S : γ → δ → Prop} {P Q : Prop}

/-- What follows a success and raises no bad error has not parted from it. -/
theorem Follows.holds {a : Except ε α} {b : Except ε β} (h : Follows bad R P a b) {v : α}
    (ha : a = .ok v) (hb : Spares bad b) : P ∧ ∃ w, b = .ok w ∧ R v w := by
  obtain ⟨hsame, hpart⟩ := h v ha
  by_cases hP : P
  · exact ⟨hP, hsame hP⟩
  · obtain ⟨e, he, hbad⟩ := hpart hP
    exact absurd hbad (hb e he)

/-- The condition may be replaced by an equivalent one. -/
theorem Follows.congr {a : Except ε α} {b : Except ε β} (h : Follows bad R P a b) (hPQ : P ↔ Q) :
    Follows bad R Q a b := by
  intro v hv
  rw [← hPQ]
  exact h v hv

/-- The relation of the values may be weakened. -/
theorem Follows.mono {R' : α → β → Prop} {a : Except ε α} {b : Except ε β}
    (h : Follows bad R P a b) (hR : ∀ v w, R v w → R' v w) : Follows bad R' P a b := by
  intro v hv
  refine ⟨fun hP => ?_, (h v hv).2⟩
  obtain ⟨w, hw, hvw⟩ := (h v hv).1 hP
  exact ⟨w, hw, hR v w hvw⟩

/-- A success follows a related one. -/
theorem follows_ok {v : α} {w : β} (h : R v w) : Follows bad R True (.ok v) (.ok w) := by
  intro u hu
  obtain rfl := Except.ok.inj hu
  exact ⟨fun _ => ⟨w, rfl, h⟩, fun hn => absurd trivial hn⟩

/-- A computation that does not depend on where it runs. -/
theorem follows_refl (a : Except ε α) : Follows bad Eq True a a := by
  intro v hv
  exact ⟨fun _ => ⟨v, hv, rfl⟩, fun hn => absurd trivial hn⟩

/-- A computation that cannot succeed is followed by any other. -/
theorem follows_of_error {a : Except ε α} {b : Except ε β} (h : ∀ v, a ≠ .ok v) :
    Follows bad R P a b :=
  fun v hv => absurd hv (h v)

/-- A sequence follows another part by part. -/
theorem Follows.bind {a : Except ε α} {b : Except ε β} {f : α → Except ε γ} {g : β → Except ε δ}
    (hab : Follows bad R P a b) (hfg : ∀ v w, R v w → Follows bad S Q (f v) (g w)) :
    Follows bad S (P ∧ Q) (a >>= f) (b >>= g) := by
  intro u hu
  obtain ⟨v, hv, hfv⟩ := bind_eq_ok.mp hu
  obtain ⟨hsame, hpart⟩ := hab v hv
  by_cases hP : P
  · obtain ⟨w, hw, hvw⟩ := hsame hP
    obtain ⟨hsame', hpart'⟩ := hfg v w hvw u hfv
    rw [hw]
    exact ⟨fun h => hsame' h.2, fun h => hpart' fun hQ => h ⟨hP, hQ⟩⟩
  · obtain ⟨e, he, hbad⟩ := hpart hP
    rw [he]
    exact ⟨fun h => absurd h.1 hP, fun _ => ⟨e, rfl, hbad⟩⟩

/-- Mapped computations follow each other. -/
theorem Follows.map {a : Except ε α} {b : Except ε β} {f : α → γ} {g : β → δ}
    (hab : Follows bad R P a b) (hfg : ∀ v w, R v w → S (f v) (g w)) :
    Follows bad S P (a.map f) (b.map g) := by
  intro u hu
  obtain ⟨v, hv, rfl⟩ := map_eq_ok.mp hu
  refine ⟨fun hP => ?_, fun hP => ?_⟩
  · obtain ⟨w, hw, hvw⟩ := (hab v hv).1 hP
    exact ⟨g w, map_eq_ok.mpr ⟨w, hw, rfl⟩, hfg v w hvw⟩
  · obtain ⟨e, he, hbad⟩ := (hab v hv).2 hP
    rw [he]
    exact ⟨e, rfl, hbad⟩

/-- The value that follows may be mapped, if nothing is asked of it. -/
theorem Follows.map_right {a : Except ε α} {b : Except ε β} {g : β → δ}
    (hab : Follows bad R P a b) : Follows bad (fun _ _ => True) P a (b.map g) := by
  intro v hv
  refine ⟨fun hP => ?_, fun hP => ?_⟩
  · obtain ⟨w, hw, -⟩ := (hab v hv).1 hP
    exact ⟨g w, map_eq_ok.mpr ⟨w, hw, rfl⟩, trivial⟩
  · obtain ⟨e, he, hbad⟩ := (hab v hv).2 hP
    rw [he]
    exact ⟨e, rfl, hbad⟩

/-- A success may come after what follows, if nothing is asked of its value. -/
theorem Follows.bind_right {a : Except ε α} {b : Except ε β} {g : β → δ}
    (hab : Follows bad R P a b) : Follows bad (fun _ _ => True) P a (b >>= fun w => .ok (g w)) := by
  rw [← map_eq_bind]
  exact hab.map_right

/-- Errors may be mapped, if bad ones stay bad. -/
theorem Follows.mapError {bad' : ζ → Prop} {a : Except ε α} {b : Except ε β} {f : ε → ζ}
    (hab : Follows bad R P a b) (hbad : ∀ e, bad e → bad' (f e)) :
    Follows bad' R P (a.mapError f) (b.mapError f) := by
  intro v hv
  obtain ⟨hsame, hpart⟩ := hab v (mapError_eq_ok.mp hv)
  refine ⟨fun hP => ?_, fun hP => ?_⟩
  · obtain ⟨w, hw, hvw⟩ := hsame hP
    exact ⟨w, mapError_eq_ok.mpr hw, hvw⟩
  · obtain ⟨e, he, he'⟩ := hpart hP
    rw [he]
    exact ⟨f e, rfl, hbad e he'⟩

/-- A loop follows another round by round. -/
theorem Follows.mapM {f : γ → Except ε α} {g : γ → Except ε β} {T : γ → Prop} {l : List γ}
    (hfg : ∀ x ∈ l, Follows bad R (T x) (f x) (g x)) :
    Follows bad (List.Forall₂ R) (∀ x ∈ l, T x) (l.mapM f) (l.mapM g) := by
  induction l with
  | nil => exact (follows_ok .nil).congr (by simp)
  | cons x l ih =>
      rw [List.forall_mem_cons, List.mapM_cons, List.mapM_cons]
      refine (hfg x List.mem_cons_self).bind fun v w hvw => ?_
      have htail := ih fun y hy => hfg y (List.mem_cons_of_mem x hy)
      exact (htail.bind fun vs ws hs => follows_ok (.cons hvw hs)).congr (and_iff_left trivial)

/-- The same for equal values. -/
theorem Follows.mapM_eq {f g : γ → Except ε α} {T : γ → Prop} {l : List γ}
    (hfg : ∀ x ∈ l, Follows bad Eq (T x) (f x) (g x)) :
    Follows bad Eq (∀ x ∈ l, T x) (l.mapM f) (l.mapM g) :=
  (Follows.mapM hfg).mono fun _ _ h => List.forall₂_eq_eq_eq ▸ h

end Follows

end Failure
