import Mathlib.Data.List.Basic

/-!
# Programs with a state that survives their failure

A program changes a state and returns or fails; the state reached is there in both cases.
`wp x Q E s` says that the program, begun in the state, returns as `Q` says or fails as `E`
says.
-/

namespace Jetty.Effects

variable {ε σ α β γ : Type}

/-- A program that may fail, on a state that is not rolled back when it does. -/
abbrev Program (ε σ α : Type) := ExceptT ε (StateM σ) α

/-- The outcome of a program, with the state it ends in. -/
def outcome (x : Program ε σ α) (s : σ) : Except ε α × σ := x.run s

/-- Every outcome is as one of the two postconditions says. -/
def wp (x : Program ε σ α) (Q : α → σ → Prop) (E : ε → σ → Prop) (s : σ) : Prop :=
  match outcome x s with
  | (.ok a, s') => Q a s'
  | (.error e, s') => E e s'

/-- `try … finally …`: the second program is run however the first one ends. -/
def ensure (x : Program ε σ α) (last : σ → σ) : Program ε σ α :=
  ExceptT.mk fun s => ((outcome x s).1, last (outcome x s).2)

/-- `try … except …`: the handler goes on from the state that the failure left. -/
def rescue {ζ : Type} (x : Program ζ σ α) (handler : ζ → Program ε σ α) : Program ε σ α :=
  ExceptT.mk fun s =>
    match outcome x s with
    | (.ok a, s') => (.ok a, s')
    | (.error e, s') => outcome (handler e) s'

variable {Q Q' : α → σ → Prop} {E E' : ε → σ → Prop} {s s' : σ}

@[simp] theorem wp_pure (a : α) : wp (pure a : Program ε σ α) Q E s ↔ Q a s := Iff.rfl

@[simp] theorem wp_throw (e : ε) : wp (throw e : Program ε σ α) Q E s ↔ E e s := Iff.rfl

@[simp] theorem wp_get {Q : σ → σ → Prop} : wp (get : Program ε σ σ) Q E s ↔ Q s s := Iff.rfl

@[simp] theorem wp_set {Q : Unit → σ → Prop} (s' : σ) :
    wp (set s' : Program ε σ Unit) Q E s ↔ Q () s' := Iff.rfl

@[simp] theorem wp_modify {Q : Unit → σ → Prop} (f : σ → σ) :
    wp (modify f : Program ε σ Unit) Q E s ↔ Q () (f s) := Iff.rfl

/-- A sequence runs its second part on what the first one returns. -/
theorem outcome_bind (x : Program ε σ α) (f : α → Program ε σ β) (s : σ) :
    outcome (x >>= f) s =
      match outcome x s with
      | (.ok a, s') => outcome (f a) s'
      | (.error e, s') => (.error e, s') := by
  change (ExceptT.bindCont f (outcome x s).1) (outcome x s).2 = _
  rcases outcome x s with ⟨_ | _, _⟩ <;> rfl

/-- The last step is taken whatever the program ends with. -/
theorem outcome_ensure (x : Program ε σ α) (last : σ → σ) (s : σ) :
    outcome (ensure x last) s = ((outcome x s).1, last (outcome x s).2) := rfl

@[simp] theorem wp_bind (x : Program ε σ α) (f : α → Program ε σ β) {Q : β → σ → Prop} :
    wp (x >>= f) Q E s ↔ wp x (fun a => wp (f a) Q E) E s := by
  unfold wp
  rw [outcome_bind]
  rcases outcome x s with ⟨_ | _, _⟩ <;> rfl

@[simp] theorem wp_map (x : Program ε σ α) (f : α → β) {Q : β → σ → Prop} :
    wp (f <$> x) Q E s ↔ wp x (fun a => Q (f a)) E s := by
  rw [map_eq_pure_bind, wp_bind]
  rfl

@[simp] theorem wp_ensure (x : Program ε σ α) (last : σ → σ) :
    wp (ensure x last) Q E s ↔ wp x (fun a s => Q a (last s)) (fun e s => E e (last s)) s := by
  unfold wp
  rw [outcome_ensure]
  rcases outcome x s with ⟨_ | _, _⟩ <;> rfl

@[simp] theorem wp_rescue {ζ : Type} (x : Program ζ σ α) (handler : ζ → Program ε σ α) :
    wp (rescue x handler) Q E s ↔ wp x Q (fun e s => wp (handler e) Q E s) s := by
  have houtcome : outcome (rescue x handler) s =
      match outcome x s with
      | (.ok a, s') => (.ok a, s')
      | (.error e, s') => outcome (handler e) s' := rfl
  unfold wp
  rw [houtcome]
  rcases outcome x s with ⟨_ | _, _⟩ <;> rfl

/-- The consequence rule. -/
theorem wp_mono {x : Program ε σ α} (h : wp x Q E s) (hQ : ∀ a s', Q a s' → Q' a s')
    (hE : ∀ e s', E e s' → E' e s') : wp x Q' E' s := by
  unfold wp at h ⊢
  rcases hx : outcome x s with ⟨_ | _, _⟩ <;> rw [hx] at h
  · exact hE _ _ h
  · exact hQ _ _ h

/-- The conjunction rule. -/
theorem wp_and {x : Program ε σ α} (h : wp x Q E s) (h' : wp x Q' E' s) :
    wp x (fun a t => Q a t ∧ Q' a t) (fun e t => E e t ∧ E' e t) s := by
  unfold wp at h h' ⊢
  rcases hx : outcome x s with ⟨_ | _, _⟩ <;> rw [hx] at h h' <;> exact ⟨h, h'⟩

/-- A postcondition may use which outcome it is about. -/
theorem wp_outcome {x : Program ε σ α} (h : wp x Q E s) :
    wp x (fun a s' => outcome x s = (.ok a, s') ∧ Q a s')
      (fun e s' => outcome x s = (.error e, s') ∧ E e s') s := by
  unfold wp at h ⊢
  rcases hx : outcome x s with ⟨_ | _, _⟩ <;> rw [hx] at h <;> exact ⟨rfl, h⟩

/-- What holds of every result holds of the one returned. -/
theorem of_wp_ok {x : Program ε σ α} {a : α} (h : wp x Q E s) (hx : outcome x s = (.ok a, s')) :
    Q a s' := by
  rwa [wp, hx] at h

/-- What holds of every error holds of the one raised. -/
theorem of_wp_error {x : Program ε σ α} {e : ε} (h : wp x Q E s)
    (hx : outcome x s = (.error e, s')) : E e s' := by
  rwa [wp, hx] at h

/-- A program that succeeds returns a result. -/
theorem exists_ok_of_isOk {x : Program ε σ α} (h : (outcome x s).1.isOk = true) :
    ∃ a t, outcome x s = (.ok a, t) := by
  rcases hx : outcome x s with ⟨_ | a, t⟩
  · rw [hx] at h
    cases h
  · exact ⟨a, t, rfl⟩

/-- A loop keeps what each of its rounds keeps; a round that fails ends it. The invariant may
depend on the elements already passed. -/
theorem wp_foldlM {f : β → α → Program ε σ β} {inv : List α → β → σ → Prop}
    (hstep : ∀ before a b s, inv before b s → wp (f b a) (inv (before ++ [a])) E s)
    {l before : List α} {b : β} (h : inv before b s) :
    wp (l.foldlM f b) (inv (before ++ l)) E s := by
  induction l generalizing before b s with
  | nil =>
      rw [List.append_nil]
      exact h
  | cons a l ih =>
      rw [List.foldlM_cons, wp_bind]
      refine wp_mono (hstep before a b s h) (fun b' s' h' => ?_) fun _ _ he => he
      rw [List.append_cons]
      exact ih h'

/-- A loop that fails does so in one of its rounds, the rounds before it done. -/
theorem foldlM_error_split {f : β → α → Program ε σ β} {l : List α} {b : β} {e : ε}
    (h : outcome (l.foldlM f b) s = (.error e, s')) :
    ∃ before a after b₁ s₁, l = before ++ a :: after ∧
      outcome (before.foldlM f b) s = (.ok b₁, s₁) ∧ outcome (f b₁ a) s₁ = (.error e, s') := by
  induction l generalizing b s with
  | nil => cases h
  | cons a l ih =>
      rw [List.foldlM_cons, outcome_bind] at h
      rcases ha : outcome (f b a) s with ⟨r | b₁, s₁⟩ <;> rw [ha] at h
      · obtain ⟨rfl, rfl⟩ : r = e ∧ s₁ = s' := by simpa using h
        exact ⟨[], a, l, b, s, rfl, rfl, ha⟩
      · obtain ⟨before, a', after, b₂, s₂, rfl, hbefore, herror⟩ := ih h
        refine ⟨a :: before, a', after, b₂, s₂, rfl, ?_, herror⟩
        rw [List.foldlM_cons, outcome_bind, ha]
        exact hbefore

/-- A loop raises what one of its rounds raises. -/
theorem foldlM_error_of_split {f : β → α → Program ε σ β} {before after : List α} {a : α}
    {b b₁ : β} {e : ε} {s₁ : σ} (hbefore : outcome (before.foldlM f b) s = (.ok b₁, s₁))
    (h : outcome (f b₁ a) s₁ = (.error e, s')) :
    outcome ((before ++ a :: after).foldlM f b) s = (.error e, s') := by
  rw [List.foldlM_append, outcome_bind, hbefore]
  change outcome ((a :: after).foldlM f b₁) s₁ = _
  rw [List.foldlM_cons, outcome_bind, h]

end Jetty.Effects
