import Jetty.Orchestrator.Registry.Step
import Mathlib.Data.List.Basic

/-!
# Exclusion by the registry

`up` checks the record long before it writes its own, and `kill` removes the record by its
name once the supervisor it looked at is gone. Along runs in which no `up` passes the check on
a record that is out of date or inside the window of another one, and no first record appears
while a `kill` is under way, there is at most one supervisor of the name, and its record
stays.
-/

namespace Jetty.Orchestrator

open Transition

/-- The process has published a record of its own, unless it has ended. -/
def CommandPc.published : CommandPc → Bool
  | .writing false | .supervising | .writingLast | .exiting | .dead => true
  | _ => false

/-- The record in the file is the process's own. -/
def CommandPc.recorded : CommandPc → Bool
  | .writing false | .supervising | .writingLast => true
  | _ => false

namespace Registry

/-- The step races: the liveness check of an `up` passes although the file by now names a live
supervisor, or although another process holds the name without a record in the file; or a
first record appears while a `kill` is between its load and its removal. -/
def Races (S : Registry) (e : ℕ × RegistryEvent) : Prop :=
  match S.pc e.1, e.2 with
  | .upCheck r, .check =>
    r.any S.supervisorAlive = false ∧
      (S.record.any S.supervisorAlive = true ∨ ∃ q ∈ S.started, (S.pc q).unrecorded = true)
  | .writing true, .replace => ∃ q ∈ S.started, (S.pc q).killing = true
  | _, _ => False

instance (S : Registry) (e : ℕ × RegistryEvent) : Decidable (S.Races e) := by
  unfold Races
  split <;> infer_instance

/-- The invariant of runs without races. -/
structure Exclusive (S : Registry) : Prop where
  started : ∀ p, (S.pc p).alive = true → p ∈ S.started
  unique : ∀ p q, (S.pc p).holds = true → (S.pc q).holds = true → p = q
  recorded : ∀ p, (S.pc p).recorded = true → S.record = some ⟨p⟩
  owner : ∀ p, S.record = some ⟨p⟩ → (S.pc p).published = true
  tmp : ∀ p, (∃ first, S.pc p = .writing first) ∨ S.pc p = .writingLast → S.tmp = some ⟨p⟩
  kills : ∀ k q, (S.pc k).killing = true → S.record = some ⟨q⟩ → (S.pc q).supervises = true →
    S.pc k = .killCheck ⟨q⟩ ∨ S.pc k = .killPoll ⟨q⟩

private theorem exclusive_init : Exclusive init where
  started p h := by cases h
  unique p q h := by cases h
  recorded p h := by cases h
  owner p h := by cases h
  tmp p h := by rcases h with ⟨first, h⟩ | h <;> cases h
  kills k q h := by cases h

variable {S T : Registry} {e : ℕ × RegistryEvent}

private theorem CommandPc.alive_of_holds {pc : CommandPc} (h : pc.holds = true) :
    pc.alive = true := by
  cases pc <;> simp_all [CommandPc.holds, CommandPc.supervises, CommandPc.alive]

private theorem CommandPc.holds_of_supervises {pc : CommandPc} (h : pc.supervises = true) :
    pc.holds = true := by
  cases pc <;> simp_all [CommandPc.holds, CommandPc.supervises]

/-- Whoever holds the name either is recorded or shows that it is not. -/
theorem CommandPc.recorded_or_unrecorded {pc : CommandPc} (h : pc.holds = true) :
    pc.recorded = true ∨ pc.unrecorded = true := by
  cases pc with
  | writing first => cases first <;> simp [CommandPc.recorded, CommandPc.unrecorded]
  | _ => simp_all [CommandPc.holds, CommandPc.supervises, CommandPc.recorded,
      CommandPc.unrecorded]

/-- A process that has published nothing owns no record. -/
theorem Exclusive.record_ne (h : Exclusive S) {p : ℕ} (hp : (S.pc p).published = false) :
    S.record ≠ some ⟨p⟩ := by
  intro hrec
  rw [h.owner p hrec] at hp
  cases hp

/-- A process that leaves the name and its kill behind. -/
theorem Exclusive.leave (h : Exclusive S) (p : ℕ) (pc : CommandPc) (started : List ℕ)
    (hstarted : ∀ q ∈ S.started, q ∈ started) (hp : pc.alive = true → p ∈ started)
    (hpublished : (S.pc p).published = true → pc.published = true)
    (hpc : pc = .upLoad ∨ (∃ r, pc = .upCheck r) ∨ pc = .killLoad ∨ pc = .dead) :
    Exclusive { S.goto p pc with started := started } := by
  have hnot : pc.holds = false ∧ pc.supervises = false ∧ pc.recorded = false ∧
      pc.killing = false ∧ (∀ first, pc ≠ .writing first) ∧ pc ≠ .writingLast := by
    rcases hpc with rfl | ⟨r, rfl⟩ | rfl | rfl <;> simp [CommandPc.holds, CommandPc.supervises,
      CommandPc.recorded, CommandPc.killing]
  obtain ⟨hhold, hsup, hrec, hkill, hwriting, hlast⟩ := hnot
  constructor
  all_goals simp only [goto, Function.update_apply]
  · grind [h.started]
  · grind [h.unique]
  · grind [h.recorded]
  · grind [h.owner]
  · grind [h.tmp]
  · grind [h.kills]

/-- A liveness check that does not race passes only where nobody holds the name. -/
theorem Exclusive.check (h : Exclusive S) {p : ℕ} {r : Option Record}
    (hpc : S.pc p = .upCheck r) (hdead : r.any S.supervisorAlive = false)
    (hp : ¬ S.Races (p, .check)) : Exclusive (S.goto p .upAcquire) := by
  simp only [Races, hpc, hdead, true_and, not_or, not_exists, not_and] at hp
  obtain ⟨hfile, hwindow⟩ := hp
  have hnone : ∀ q, (S.pc q).holds = false := by
    intro q
    by_contra hs
    rw [Bool.not_eq_false] at hs
    have halive := CommandPc.alive_of_holds hs
    rcases CommandPc.recorded_or_unrecorded hs with hr | hu
    · exact hfile (by simp only [h.recorded q hr, Option.any_some, supervisorAlive, halive])
    · exact hwindow q (h.started q halive) hu
  have hsup : ∀ q, (S.pc q).supervises = false := by
    intro q
    by_contra hs
    have hh := CommandPc.holds_of_supervises (by simpa using hs)
    rw [hnone q] at hh
    cases hh
  have hmem : p ∈ S.started := h.started p (by rw [hpc]; rfl)
  have hown : S.record ≠ some ⟨p⟩ := h.record_ne (by rw [hpc]; rfl)
  constructor
  all_goals simp only [goto, Function.update_apply]
  · grind [h.started]
  · grind
  · grind [h.recorded, CommandPc.recorded]
  · grind [h.owner]
  · grind [h.tmp]
  · grind [CommandPc.supervises]

/-- Nobody else supervises, writes or is recorded where `p` holds the name. -/
theorem Exclusive.alone (h : Exclusive S) {p q : ℕ} (hp : (S.pc p).holds = true) (hq : q ≠ p) :
    (S.pc q).holds = false ∧ (S.pc q).supervises = false ∧ (S.pc q).recorded = false ∧
      (∀ first, S.pc q ≠ .writing first) ∧ S.pc q ≠ .writingLast := by
  have hhold : (S.pc q).holds = false := by
    by_contra hs
    exact hq (h.unique q p (by simpa using hs) hp)
  cases hqpc : S.pc q <;>
    simp_all [CommandPc.holds, CommandPc.supervises, CommandPc.recorded]

/-- The `up` that holds the name turns into a supervisor, which writes its first temporary
file. -/
theorem Exclusive.start (h : Exclusive S) {p : ℕ} {pc : CommandPc} {tmp : Option Record}
    (hpc : S.pc p = .upAcquire ∧ pc = .starting ∧ tmp = S.tmp ∨
      S.pc p = .starting ∧ pc = .writing true ∧ tmp = some ⟨p⟩) :
    Exclusive { S.goto p pc with tmp := tmp } := by
  have hholds : (S.pc p).holds = true ∧ pc.supervises = true ∧ pc.recorded = false ∧
      pc.killing = false ∧ (S.pc p).published = false := by
    rcases hpc with ⟨h, rfl, -⟩ | ⟨h, rfl, -⟩ <;> simp [h, CommandPc.holds,
      CommandPc.supervises, CommandPc.recorded, CommandPc.killing, CommandPc.published]
  obtain ⟨hholds, hpsup, hprec, hpkill, hpub⟩ := hholds
  have halone := fun q (hq : q ≠ p) => h.alone hholds hq
  have hmem : p ∈ S.started := h.started p (CommandPc.alive_of_holds hholds)
  have hown : S.record ≠ some ⟨p⟩ := h.record_ne hpub
  constructor
  all_goals simp only [goto, Function.update_apply]
  · grind [h.started]
  · grind
  · grind [h.recorded]
  · grind [h.owner]
  · grind
  · grind [h.kills]

/-- Only the supervisor itself writes, replaces and removes its record. -/
theorem Exclusive.rewrite (h : Exclusive S) {p : ℕ} {pc : CommandPc} {record tmp : Option Record}
    (hsup : (S.pc p).supervises = true) (hpsup : pc.supervises = true)
    (hpkill : pc.killing = false)
    (hrecord : record = some ⟨p⟩ ∧ pc.published = true ∨ record = none ∧ pc = .exiting)
    (htmp : (∃ first, pc = .writing first) ∨ pc = .writingLast → tmp = some ⟨p⟩)
    (hkills : record = some ⟨p⟩ → ∀ k, (S.pc k).killing = true →
      S.pc k = .killCheck ⟨p⟩ ∨ S.pc k = .killPoll ⟨p⟩) :
    Exclusive { S.goto p pc with record := record, tmp := tmp } := by
  have hholds := CommandPc.holds_of_supervises hsup
  have halone := fun q (hq : q ≠ p) => h.alone hholds hq
  have hexit : pc = .exiting → pc.recorded = false := by
    rintro rfl
    rfl
  have hmem : p ∈ S.started := h.started p (CommandPc.alive_of_holds hholds)
  constructor
  all_goals simp only [goto, Function.update_apply]
  · grind [h.started]
  · grind
  · grind
  · grind
  · grind
  · grind

/-- A `kill` goes on against the supervisor that is alive, or against nobody. -/
theorem Exclusive.kill (h : Exclusive S) {p : ℕ} {pc : CommandPc}
    (hpc : S.pc p = .killLoad ∨ (S.pc p).killing = true) (hkill : pc.killing = true)
    (htarget : ∀ q, S.record = some ⟨q⟩ → (S.pc q).supervises = true →
      pc = .killCheck ⟨q⟩ ∨ pc = .killPoll ⟨q⟩) : Exclusive (S.goto p pc) := by
  have hp : (S.pc p).alive = true ∧ (S.pc p).published = false := by
    rcases hpc with hpc | hpc
    · rw [hpc]
      exact ⟨rfl, rfl⟩
    · cases hq : S.pc p <;> simp_all [CommandPc.killing, CommandPc.alive, CommandPc.published]
  have hnot : pc.holds = false ∧ pc.supervises = false ∧ pc.recorded = false ∧
      (∀ first, pc ≠ .writing first) ∧ pc ≠ .writingLast := by
    cases pc <;> simp_all [CommandPc.killing, CommandPc.holds, CommandPc.supervises,
      CommandPc.recorded]
  obtain ⟨hhold, hsup, hrec, hwriting, hlast⟩ := hnot
  have hmem : p ∈ S.started := h.started p hp.1
  have hown : S.record ≠ some ⟨p⟩ := h.record_ne hp.2
  constructor
  all_goals simp only [goto, Function.update_apply]
  · grind [h.started]
  · grind [h.unique]
  · grind [h.recorded]
  · grind [h.owner]
  · grind [h.tmp]
  · grind [h.kills]

/-- A `kill` removes no record of a supervisor that is alive. -/
theorem Exclusive.unlink (h : Exclusive S) {p : ℕ}
    (hpc : S.pc p = .killStale ∨ S.pc p = .killRemove) :
    Exclusive { S.goto p .dead with record := none } := by
  have hkill : (S.pc p).killing = true := by rcases hpc with hpc | hpc <;> rw [hpc] <;> rfl
  have hnone : ∀ q, (S.pc q).recorded = false := by
    intro q
    by_contra hr
    rw [Bool.not_eq_false] at hr
    have hsup : (S.pc q).supervises = true := by
      cases hq : S.pc q <;> simp_all [CommandPc.recorded, CommandPc.supervises]
    rcases h.kills p q hkill (h.recorded q hr) hsup with hk | hk <;>
      rcases hpc with hpc | hpc <;> simp [hpc] at hk
  have hleft := h.leave p .dead S.started (fun _ hq => hq) nofun
    (fun _ => rfl) (.inr (.inr (.inr rfl)))
  have hrecorded : ∀ q, ((S.goto p .dead).pc q).recorded = false := by
    intro q
    simp only [goto, Function.update_apply]
    split
    · rfl
    · exact hnone q
  refine { hleft with
    recorded := fun q hq => ?_
    owner := fun q hq => ?_
    kills := fun k q _ hq => ?_ }
  · rw [hrecorded q] at hq
    cases hq
  · cases hq
  · cases hq

/-- A process that has published nothing goes back to the start of a command, or ends. -/
theorem Exclusive.stay (h : Exclusive S) {p : ℕ} {pc : CommandPc}
    (halive : (S.pc p).alive = true) (hpub : (S.pc p).published = false ∨ pc = .dead)
    (hpc : pc = .upLoad ∨ (∃ r, pc = .upCheck r) ∨ pc = .killLoad ∨ pc = .dead) :
    Exclusive (S.goto p pc) := by
  refine h.leave p pc S.started (fun _ hq => hq) (fun _ => h.started p halive) ?_ hpc
  rcases hpub with hpub | rfl
  · simp [hpub]
  · exact fun _ => rfl

private theorem Exclusive.die (h : Exclusive S) {p : ℕ} (halive : (S.pc p).alive = true) :
    Exclusive (S.goto p .dead) :=
  h.stay halive (.inr rfl) (.inr (.inr (.inr rfl)))

/-- A process that does not exist yet begins a command. -/
theorem Exclusive.born (h : Exclusive S) {p : ℕ} {pc : CommandPc} (hpc : S.pc p = .unborn)
    (hnew : pc = .upLoad ∨ (∃ r, pc = .upCheck r) ∨ pc = .killLoad ∨ pc = .dead) :
    Exclusive { S.goto p pc with started := p :: S.started } :=
  h.leave p pc _ (fun _ hq => List.mem_cons_of_mem p hq) (fun _ => List.mem_cons_self)
    (by simp [hpc, CommandPc.published]) hnew

/-- A running supervisor writes the next temporary file. -/
theorem Exclusive.write (h : Exclusive S) {p : ℕ} (hpc : S.pc p = .supervising) (last : Bool) :
    Exclusive { S.goto p (if last then .writingLast else .writing false) with
      tmp := some ⟨p⟩ } := by
  have hsup : (S.pc p).supervises = true := by rw [hpc]; rfl
  have hrec := h.recorded p (by rw [hpc]; rfl)
  have hkills := fun k hk => h.kills k p hk hrec hsup
  cases last with
  | true => exact h.rewrite hsup rfl rfl (.inl ⟨hrec, rfl⟩) (fun _ => rfl) fun _ => hkills
  | false => exact h.rewrite hsup rfl rfl (.inl ⟨hrec, rfl⟩) (fun _ => rfl) fun _ => hkills

/-- The first record comes while no `kill` is on its way, a later one replaces the supervisor's
own. -/
theorem Exclusive.publish (h : Exclusive S) {p : ℕ} {first : Bool} {raised : CommandPc}
    (hpc : S.pc p = .writing first) (hp : ¬ S.Races (p, .replace)) :
    Exclusive (S.replace p .supervising raised) := by
  have hsup : (S.pc p).supervises = true := by rw [hpc]; rfl
  have htmp := h.tmp p (.inl ⟨first, hpc⟩)
  simp only [Registry.replace, htmp]
  refine h.rewrite hsup rfl rfl (.inl ⟨rfl, rfl⟩) (by simp) fun _ k hk => ?_
  cases first with
  | true =>
      simp only [Races, hpc, not_exists, not_and] at hp
      refine absurd hk (hp k (h.started k ?_))
      cases hk' : S.pc k <;> simp_all [CommandPc.killing, CommandPc.alive]
  | false => exact h.kills k p hk (h.recorded p (by rw [hpc]; rfl)) hsup

/-- The record of the post-mortem replaces the supervisor's own. -/
theorem Exclusive.publishLast (h : Exclusive S) {p : ℕ} {raised : CommandPc}
    (hpc : S.pc p = .writingLast) : Exclusive (S.replace p .exiting raised) := by
  have hsup : (S.pc p).supervises = true := by rw [hpc]; rfl
  have htmp := h.tmp p (.inr hpc)
  simp only [Registry.replace, htmp]
  exact h.rewrite hsup rfl rfl (.inl ⟨rfl, rfl⟩) (by simp)
    fun _ k hk => h.kills k p hk (h.recorded p (by rw [hpc]; rfl)) hsup

/-- A `kill` that has got past its liveness check is after the supervisor on record. -/
theorem Exclusive.target (h : Exclusive S) {p q : ℕ} {r : Record}
    (hpc : S.pc p = .killCheck r ∨ S.pc p = .killPoll r) (hq : S.record = some ⟨q⟩)
    (hsup : (S.pc q).supervises = true) : r = ⟨q⟩ ∧ S.supervisorAlive r = true := by
  have hkill : (S.pc p).killing = true := by rcases hpc with hpc | hpc <;> rw [hpc] <;> rfl
  have htarget : r = ⟨q⟩ := by
    rcases hpc with hpc | hpc <;> simpa [hpc] using h.kills p q hkill hq hsup
  refine ⟨htarget, ?_⟩
  rw [htarget]
  exact CommandPc.alive_of_holds (CommandPc.holds_of_supervises hsup)

/-- A `kill` loads the record that is there. -/
theorem Exclusive.killLoad (h : Exclusive S) {p : ℕ} (hpc : S.pc p = .killLoad)
    (unreadable : Bool) :
    Exclusive (S.goto p ((S.load unreadable).elim .dead .killCheck)) := by
  cases hload : S.load unreadable with
  | none => exact h.die (by rw [hpc]; rfl)
  | some r =>
      refine h.kill (.inl hpc) rfl fun q hq _ => .inl ?_
      have hr : S.record = some r := by
        unfold Registry.load at hload
        split at hload
        · cases hload
        · exact hload
      rw [hq] at hr
      obtain rfl := Option.some.inj hr
      rfl

private theorem Exclusive.killCheck (h : Exclusive S) {p : ℕ} {r : Record}
    (hpc : S.pc p = .killCheck r) :
    Exclusive (S.goto p (if S.supervisorAlive r then .killPoll r else .killStale)) := by
  refine h.kill (.inr (by rw [hpc]; rfl)) (by split <;> rfl) fun q hq hsup => .inr ?_
  obtain ⟨htarget, halive⟩ := h.target (.inl hpc) hq hsup
  rw [if_pos halive, htarget]

/-- The poll of a `kill` goes on as long as the supervisor is alive. -/
theorem Exclusive.killPoll (h : Exclusive S) {p : ℕ} {r : Record} (hpc : S.pc p = .killPoll r) :
    Exclusive (if S.supervisorAlive r then S else S.goto p .killReload) := by
  split
  · exact h
  · rename_i hgone
    exact h.kill (.inr (by rw [hpc]; rfl)) rfl fun q hq hsup =>
      absurd (h.target (.inr hpc) hq hsup).2 hgone

private theorem Exclusive.killReload (h : Exclusive S) {p : ℕ} (hpc : S.pc p = .killReload)
    (unreadable : Bool) :
    Exclusive (S.goto p ((S.load unreadable).elim .dead fun _ => .killRemove)) := by
  have hkill : (S.pc p).killing = true := by rw [hpc]; rfl
  cases hload : S.load unreadable with
  | none => exact h.die (by rw [hpc]; rfl)
  | some r =>
      refine h.kill (.inr hkill) rfl fun q hq hsup => ?_
      simpa [hpc] using h.kills p q hkill hq hsup

/-- Every step that does not race keeps the commands exclusive. -/
theorem Exclusive.step (h : Exclusive S) (hst : S.step e = some T) (hp : ¬ S.Races e) :
    Exclusive T := by
  obtain ⟨p, e⟩ := e
  simp only [Registry.step] at hst
  split at hst
  all_goals rename_i hpc
  case h_19 => cases hst
  case h_18 =>
    simp only [Option.ite_none_right_eq_some, Option.some.injEq] at hst
    obtain ⟨halive, rfl⟩ := hst
    exact h.die halive
  all_goals obtain rfl := Option.some.inj hst
  case h_1 => exact h.born hpc (.inl rfl)
  case h_2 => exact h.born hpc (.inr (.inr (.inl rfl)))
  case h_3 => exact h.stay (by rw [hpc]; rfl) (.inl (by rw [hpc]; rfl)) (.inr (.inl ⟨_, rfl⟩))
  case h_4 r =>
    split
    · exact h.die (by rw [hpc]; rfl)
    · rename_i hdead
      exact h.check hpc (by simpa using hdead) hp
  case h_5 => exact h.stay (by rw [hpc]; rfl) (.inl (by rw [hpc]; rfl)) (.inl rfl)
  case h_6 => exact h.start (.inl ⟨hpc, rfl, rfl⟩)
  case h_7 => exact h.start (.inr ⟨hpc, rfl, rfl⟩)
  case h_8 last => exact h.write hpc last
  case h_9 first => exact h.publish hpc hp
  case h_10 => exact h.publishLast hpc
  case h_11 => exact h.rewrite (by rw [hpc]; rfl) rfl rfl (.inr ⟨rfl, rfl⟩) (by simp) nofun
  case h_12 unreadable => exact h.killLoad hpc unreadable
  case h_13 r => exact h.killCheck hpc
  case h_14 => exact h.unlink (.inl hpc)
  case h_15 r => exact h.killPoll hpc
  case h_16 unreadable => exact h.killReload hpc unreadable
  case h_17 => exact h.unlink (.inr hpc)

/-- No step of another process takes the record of a live supervisor away. -/
theorem Exclusive.record_kept (h : Exclusive S) {p : ℕ} (hsup : (S.pc p).supervises = true)
    (hrec : S.record = some ⟨p⟩) (hst : S.step e = some T) (he : e.1 ≠ p) :
    T.record = some ⟨p⟩ := by
  obtain ⟨q, e⟩ := e
  have hother : (S.pc q).supervises = false := by
    by_contra hq
    exact he (h.unique q p (CommandPc.holds_of_supervises (by simpa using hq))
      (CommandPc.holds_of_supervises hsup))
  have hkill : S.pc q ≠ .killStale ∧ S.pc q ≠ .killRemove := by
    constructor <;> intro hq <;> rcases h.kills q p (by rw [hq]; rfl) hrec hsup with hk | hk <;>
      simp [hq] at hk
  simp only [Registry.step] at hst
  split at hst
  all_goals rename_i hpc
  case h_8 | h_9 | h_10 | h_11 => simp [hpc, CommandPc.supervises] at hother
  case h_14 => exact absurd hpc hkill.1
  case h_17 => exact absurd hpc hkill.2
  case h_15 =>
    obtain rfl := Option.some.inj hst
    split <;> exact hrec
  case h_18 =>
    simp only [Option.ite_none_right_eq_some, Option.some.injEq] at hst
    obtain ⟨-, rfl⟩ := hst
    exact hrec
  case h_19 => cases hst
  all_goals
    obtain rfl := Option.some.inj hst
    exact hrec

private theorem exclusive_run {es : List (ℕ × RegistryEvent)}
    (h : Run (Steps.within fun S e => ¬ S.Races e) init es S) : Exclusive S :=
  h.invariant Exclusive exclusive_init fun _ _ _ hinv hst => hinv.step hst.2 hst.1

/-- As long as no step races, there is at most one supervisor of the name, and no other process
removes or overwrites the record of a supervisor that is alive. -/
theorem registry_exclusion {es : List (ℕ × RegistryEvent)}
    (h : Run (Steps.within fun S e => ¬ S.Races e) init es S) :
    (∀ p q, (S.pc p).supervises = true → (S.pc q).supervises = true → p = q) ∧
      ∀ p, (S.pc p).supervises = true → S.record = some ⟨p⟩ →
        ∀ e T, Steps S e T → e.1 ≠ p → T.record = some ⟨p⟩ := by
  have hinv := exclusive_run h
  refine ⟨fun p q hp hq => ?_, fun p hp hrec e T hst he => hinv.record_kept hp hrec hst he⟩
  exact hinv.unique p q (CommandPc.holds_of_supervises hp) (CommandPc.holds_of_supervises hq)

/-- The process `p` starts as `up` and reaches the containment. -/
private def entering (p : ℕ) : List (ℕ × RegistryEvent) :=
  [(p, .up), (p, .load false), (p, .check), (p, .acquire)]

/-- One `up` comes up while a second one is refused, and a `kill` polls for its end. -/
def orderlyCommands : List (ℕ × RegistryEvent) :=
  entering 1 ++ [(1, .write false), (1, .replace), (2, .up), (2, .load false), (2, .check),
    (3, .kill), (3, .load false), (3, .check), (3, .check)]

/-- The supervisor keeps its record while the `kill` polls. -/
theorem registry_exclusion_polled :
    ∃ S : Registry, Run (Steps.within fun S e => ¬ S.Races e) init orderlyCommands S ∧
      (∀ q, (S.pc q).supervises = true → q = 1) ∧
      ∀ T, Steps S (3, .check) T → T.record = some ⟨1⟩ := by
  obtain ⟨S, hrun, hS⟩ := exists_run_of_execWithin step (fun S e => ¬ S.Races e) init
    orderlyCommands (fun S => (S.pc 1).supervises && decide (S.record = some ⟨1⟩))
    (by decide +kernel)
  simp only [Bool.and_eq_true, decide_eq_true_eq] at hS
  obtain ⟨hsup, hrec⟩ := hS
  have hex := registry_exclusion hrun
  exact ⟨S, hrun, fun q hq => hex.1 q 1 hq hsup,
    fun T hT => hex.2 1 hsup hrec (3, .check) T hT (by decide)⟩

/-- Two `up` of one name load the registry before either of them has written its record, and
both become supervisors. -/
theorem not_registry_exclusion :
    ¬ ∀ (es : List (ℕ × RegistryEvent)) (S : Registry), Run Steps init es S →
      (∀ p q, (S.pc p).supervises = true → (S.pc q).supervises = true → p = q) ∧
        ∀ p, (S.pc p).supervises = true → S.record = some ⟨p⟩ →
          ∀ e T, Steps S e T → e.1 ≠ p → T.record = some ⟨p⟩ := by
  intro h
  obtain ⟨S, hrun, hS⟩ := exists_run_of_exec step init
    [(1, .up), (2, .up), (1, .load false), (2, .load false), (1, .check), (2, .check),
      (1, .acquire), (2, .acquire)]
    (fun S => (S.pc 1).supervises && (S.pc 2).supervises) (by decide +kernel)
  simp only [Bool.and_eq_true] at hS
  exact absurd ((h _ S hrun).1 1 2 hS.1 hS.2) (by decide)

end Registry

end Jetty.Orchestrator
