import Mathlib.Order.Basic
import Mathlib.Data.List.Basic

/-!
# A log that forgets what is no longer recent

Each entry is the time it was made. Where what is recent at a time was recent at every earlier one,
a log that drops its old entries whenever a new one is made shows the same recent entries as the
log that drops nothing.
-/

namespace Window

variable {τ : Type*} [Preorder τ] (recent : τ → τ → Prop) [∀ now t, Decidable (recent now t)]

/-- Entries only grow old. -/
def Ages : Prop := ∀ ⦃now later t : τ⦄, now ≤ later → recent later t → recent now t

/-- What of the log is recent. -/
def shown (log : List τ) (now : τ) : List τ := log.filter fun t => recent now t

/-- A new entry, and the old ones that are recent then. -/
def record (log : List τ) (now : τ) : List τ := shown recent log now ++ [now]

/-- Two logs show the same from now on, where `past` are the times before now. -/
def Agree (past log log' : List τ) : Prop :=
  ∀ now, (∀ t ∈ past, t ≤ now) → shown recent log now = shown recent log' now

variable {recent}

/-- A log agrees with itself. -/
theorem Agree.refl (past log : List τ) : Agree recent past log log := fun _ _ => rfl

/-- Logs that agree agree about a longer past. -/
theorem Agree.mono {past past' log log' : List τ} (h : Agree recent past log log')
    (hpast : past ⊆ past') : Agree recent past' log log' :=
  fun now hnow => h now fun t ht => hnow t (hpast ht)

omit [Preorder τ] in
private theorem shown_append (log rest : List τ) (now : τ) :
    shown recent (log ++ rest) now = shown recent log now ++ shown recent rest now :=
  List.filter_append ..

/-- Dropping what is old now drops nothing that is recent later. -/
theorem shown_shown (hages : Ages recent) {now later : τ} (hle : now ≤ later) (log : List τ) :
    shown recent (shown recent log now) later = shown recent log later := by
  unfold shown
  rw [List.filter_filter]
  refine List.filter_congr fun t _ => ?_
  by_cases hlater : recent later t
  · simp [hlater, hages hle hlater]
  · simp [hlater]

/-- Logs that agree still do after the next entry, which prunes the one of them. -/
theorem Agree.record (hages : Ages recent) {past log log' : List τ} {now : τ}
    (h : Agree recent past log log') (hpast : ∀ t ∈ past, t ≤ now) :
    Agree recent (past ++ [now]) (record recent log now) (log' ++ [now]) := by
  intro later hlater
  have hnow : now ≤ later := hlater now (List.mem_append_right _ (List.mem_singleton.mpr rfl))
  unfold Window.record
  rw [shown_append, shown_append, shown_shown hages hnow,
    h later fun t ht => (hpast t ht).trans hnow]

/-- The pruned log is as long as what the full one shows. -/
theorem Agree.length_record {past log log' : List τ} {now : τ}
    (h : Agree recent past log log') (hpast : ∀ t ∈ past, t ≤ now) (hnow : recent now now) :
    (Window.record recent log now).length = (shown recent (log' ++ [now]) now).length := by
  unfold Window.record
  rw [shown_append, h now hpast]
  simp [shown, hnow]

end Window
