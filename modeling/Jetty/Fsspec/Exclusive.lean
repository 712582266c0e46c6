import Jetty.Core.Monitor
import Mathlib.Logic.Function.Basic

/-!
# Exclusive creation through the sidecar

Any number of clients have one path open. In the mode `xb` the client asks whether the path exists
and uploads its buffer when the file is closed, and the upload replaces whatever is there by then.
An exclusive creation is one, and spares what the others wrote, exactly where it meets no file.
-/

namespace Jetty.Fsspec

open Transition

/-! ### Clients of one path -/

/-- The modes in which a file is uploaded; `pipe_file` is `wb` too. -/
inductive Mode
  | xb
  | wb
deriving DecidableEq, Repr

/-- How it ends. -/
inductive Outcome
  | stored
  /-- `FileExistsError`. -/
  | taken
  /-- Any other exception. -/
  | failed
deriving DecidableEq, Repr

/-- Where a client is between `open` and the return of `close`. -/
inductive Stage
  | idle
  /-- `_open`: the stat is on its way. -/
  | probing
  /-- A `_JettyFile` with its buffer. -/
  | holding (buffer : List ℕ)
  /-- `pipe_file`: the upload is on its way. -/
  | uploading (buffer : List ℕ)
  /-- `_replace` has looked at the path; whether there was nothing. -/
  | replacing (buffer : List ℕ) (created : Bool)
  | ended (outcome : Outcome)
deriving DecidableEq, Repr

structure Client where
  mode : Mode := .wb
  stage : Stage := .idle
  /-- When the path was found free; nothing reads it. -/
  opened : ℕ := 0

/-- What is at the path. -/
structure Stored where
  content : List ℕ
  /-- The client whose upload it is; nothing reads it. -/
  author : Option ℕ
  /-- When it was put there; nothing reads it. -/
  stamp : ℕ

structure State where
  file : Option Stored
  client : ℕ → Client
  /-- The steps so far. -/
  clock : ℕ

inductive Event
  | open_ (i : ℕ) (mode : Mode)
  /-- The driver answers the stat. -/
  | probe (i : ℕ) (fails : Bool)
  | edit (i : ℕ) (buffer : List ℕ)
  | close (i : ℕ)
  /-- `_stat_regular` of an upload. -/
  | look (i : ℕ) (fails : Bool)
  /-- `rename(2)` of an upload; whether the answer arrives. -/
  | rename (i : ℕ) (answered : Bool)
  /-- An upload fails before the rename. -/
  | fail (i : ℕ)
  /-- Any other request: a removal, a rename, a copy, or a write of another kind. -/
  | other (content : Option (List ℕ))
deriving Repr

namespace State

/-- Nobody has opened the path. -/
def start (content : Option (List ℕ)) : State where
  file := content.map fun c => ⟨c, none, 0⟩
  client _ := {}
  clock := 0

/-- The client moves on. -/
def goto (S : State) (i : ℕ) (stage : Stage) : State :=
  { S with client := Function.update S.client i { S.client i with stage }, clock := S.clock + 1 }

/-- One step. -/
def step (S : State) : Event → Option State
  | .open_ i mode =>
    if (S.client i).stage = .idle then
      some { S with
        client := Function.update S.client i
          { mode, stage := if mode = .xb then .probing else .holding [] }
        clock := S.clock + 1 }
    else none
  | .probe i fails =>
    if (S.client i).stage = .probing then
      if fails then some (S.goto i (.ended .failed))
      else if S.file.isSome then some (S.goto i (.ended .taken))
      else some { S with
        client := Function.update S.client i
          { S.client i with stage := .holding [], opened := S.clock }
        clock := S.clock + 1 }
    else none
  | .edit i buffer =>
    match (S.client i).stage with
    | .holding _ => some (S.goto i (.holding buffer))
    | _ => none
  | .close i =>
    match (S.client i).stage with
    | .holding buffer => some (S.goto i (.uploading buffer))
    | _ => none
  | .look i fails =>
    match (S.client i).stage with
    | .uploading buffer =>
      some (S.goto i (if fails then .ended .failed else .replacing buffer S.file.isNone))
    | _ => none
  | .rename i answered =>
    match (S.client i).stage with
    | .replacing buffer _ =>
      some { S.goto i (.ended (if answered then .stored else .failed)) with
        file := some ⟨buffer, some i, S.clock + 1⟩ }
    | _ => none
  | .fail i =>
    match (S.client i).stage with
    | .replacing _ _ => some (S.goto i (.ended .failed))
    | _ => none
  | .other content =>
    some { S with
      file := content.map fun c => ⟨c, none, S.clock + 1⟩
      clock := S.clock + 1 }

/-- Every interleaving. -/
abbrev Steps : Transition.Rel State Event := ofPartial step

/-- The step ends the exclusive creation of a client with success. -/
def Creates (S : State) : Event → Prop
  | .rename i answered => (S.client i).mode = .xb ∧ answered = true
  | _ => False

instance (S : State) : (e : Event) → Decidable (S.Creates e)
  | .rename i answered => inferInstanceAs (Decidable ((S.client i).mode = .xb ∧ answered = true))
  | .open_ .. | .probe .. | .edit .. | .close .. | .look .. | .fail .. | .other .. =>
    inferInstanceAs (Decidable False)

/-- The upload replaces what another client has put there since the path was found free. -/
def Harms (S : State) : Event → Prop
  | .rename i _ => S.file.any (fun f => f.author ≠ some i ∧ (S.client i).opened < f.stamp) = true
  | _ => False

instance (S : State) : (e : Event) → Decidable (S.Harms e)
  | .rename .. => inferInstanceAs (Decidable (Option.any _ _ = true))
  | .open_ .. | .probe .. | .edit .. | .close .. | .look .. | .fail .. | .other .. =>
    inferInstanceAs (Decidable False)

/-- What has been seen of the exclusive creations. -/
structure Audit where
  /-- How many have succeeded since the path was free. -/
  creations : ℕ := 0
  /-- There were two in one absence of the file. -/
  twice : Bool := false
  /-- One has replaced what another client had put there in the meantime. -/
  harmed : Bool := false

/-- The audit of a step. -/
def audit (a : Audit) (S : State) (e : Event) (T : State) : Audit :=
  let creations := if T.file = none then 0 else a.creations + if S.Creates e then 1 else 0
  { creations
    twice := a.twice || decide (2 ≤ creations)
    harmed := a.harmed || decide (S.Creates e ∧ S.Harms e) }

/-- Nothing has gone wrong. -/
def Audit.Clean (a : Audit) : Prop := a.twice = false ∧ a.harmed = false

/-- An exclusive creation meets no file. -/
def Meets (S : State) (e : Event) : Prop := S.Creates e → S.file = none

/-! ### What a step does -/

/-- The client has found the path free and has not finished its upload. -/
def Engaged (c : Client) : Prop :=
  c.mode = .xb ∧ ((∃ b, c.stage = .holding b) ∨ (∃ b, c.stage = .uploading b) ∨
    ∃ b created, c.stage = .replacing b created)

/-- A step of one client leaves the file alone, finds the path free or puts a file there; any other
request changes the file only. -/
inductive Effect (S : State) : Event → State → Prop
  | quiet {e : Event} {T : State} (i : ℕ) (c : Client) (hfile : T.file = S.file)
    (hne : ¬ S.Creates e) (hclient : T.client = Function.update S.client i c)
    (hengaged : Engaged c → Engaged (S.client i) ∧ c.opened = (S.client i).opened) : Effect S e T
  | found {e : Event} {T : State} (i : ℕ) (c : Client) (hfree : S.file = none)
    (hfile : T.file = none) (hne : ¬ S.Creates e)
    (hclient : T.client = Function.update S.client i c) (hopened : c.opened = S.clock) :
    Effect S e T
  | puts {T : State} (i : ℕ) (answered : Bool) (c : Client)
    (hfile : ∃ b, T.file = some ⟨b, some i, S.clock + 1⟩)
    (hclient : T.client = Function.update S.client i c) (hdone : ¬ Engaged c)
    (hstage : ∃ b created, (S.client i).stage = .replacing b created) :
    Effect S (.rename i answered) T
  | other {e : Event} {T : State} (hne : ¬ S.Creates e) (hclient : T.client = S.client)
    (hfile : ∀ f, T.file = some f → f.author = none ∧ f.stamp = S.clock + 1) : Effect S e T

private theorem not_engaged_ended (c : Client) (o : Outcome) : ¬ Engaged
    { c with stage := .ended o } := by
  rintro ⟨-, ⟨b, h⟩ | ⟨b, h⟩ | ⟨b, created, h⟩⟩ <;> cases h

private theorem effect_goto {S : State} {e : Event} {i : ℕ} {stage : Stage} (hne : ¬ S.Creates e)
    (hengaged : Engaged { S.client i with stage } → Engaged (S.client i)) :
    Effect S e (S.goto i stage) :=
  .quiet i _ rfl hne rfl fun h => ⟨hengaged h, rfl⟩

private theorem step_effect {S T : State} {e : Event} (h : S.step e = some T) :
    T.clock = S.clock + 1 ∧ Effect S e T := by
  cases e with
  | open_ i mode =>
      simp only [step] at h
      split at h
      · obtain rfl := Option.some.inj h
        refine ⟨rfl, .quiet i _ rfl nofun rfl ?_⟩
        rintro ⟨hmode, hstage⟩
        obtain rfl : mode = .xb := hmode
        rcases hstage with ⟨b, h⟩ | ⟨b, h⟩ | ⟨b, created, h⟩ <;> cases h
      · cases h
  | probe i fails =>
      simp only [step] at h
      split at h
      · split at h
        · obtain rfl := Option.some.inj h
          exact ⟨rfl, effect_goto nofun fun h => absurd h (not_engaged_ended _ _)⟩
        · split at h
          · obtain rfl := Option.some.inj h
            exact ⟨rfl, effect_goto nofun fun h => absurd h (not_engaged_ended _ _)⟩
          · rename_i hfree
            obtain rfl := Option.some.inj h
            have hnone : S.file = none := Option.not_isSome_iff_eq_none.mp hfree
            exact ⟨rfl, .found i _ hnone hnone nofun rfl rfl⟩
      · cases h
  | edit i buffer =>
      simp only [step] at h
      split at h
      · rename_i b hstage
        obtain rfl := Option.some.inj h
        exact ⟨rfl, effect_goto nofun fun h => ⟨h.1, .inl ⟨b, hstage⟩⟩⟩
      · cases h
  | close i =>
      simp only [step] at h
      split at h
      · rename_i b hstage
        obtain rfl := Option.some.inj h
        exact ⟨rfl, effect_goto nofun fun h => ⟨h.1, .inl ⟨b, hstage⟩⟩⟩
      · cases h
  | look i fails =>
      simp only [step] at h
      split at h
      · rename_i b hstage
        obtain rfl := Option.some.inj h
        exact ⟨rfl, effect_goto nofun fun h => ⟨h.1, .inr (.inl ⟨b, hstage⟩)⟩⟩
      · cases h
  | rename i answered =>
      simp only [step] at h
      split at h
      · rename_i b created hstage
        obtain rfl := Option.some.inj h
        exact ⟨rfl, .puts i answered _ ⟨b, rfl⟩ rfl (not_engaged_ended _ _) ⟨b, created, hstage⟩⟩
      · cases h
  | fail i =>
      simp only [step] at h
      split at h
      · obtain rfl := Option.some.inj h
        exact ⟨rfl, effect_goto nofun fun h => absurd h (not_engaged_ended _ _)⟩
      · cases h
  | other content =>
      obtain rfl := Option.some.inj h
      refine ⟨rfl, .other nofun rfl fun f hf => ?_⟩
      obtain ⟨c, -, rfl⟩ := Option.map_eq_some_iff.mp hf
      exact ⟨rfl, rfl⟩

/-! ### What holds in every state -/

/-- What is at the path came from others, after the client had found it free. -/
structure Late (S : State) (i : ℕ) : Prop where
  opened : (S.client i).opened ≤ S.clock
  file : ∀ f, S.file = some f → f.author ≠ some i ∧ (S.client i).opened < f.stamp

/-- What holds of the clients and of the audit. -/
structure Kept (x : State × Audit) : Prop where
  late : ∀ i, Engaged (x.1.client i) → Late x.1 i
  fresh : x.1.file = none → x.2.creations = 0

private theorem kept_start (content : Option (List ℕ)) : Kept (start content, {}) where
  late i h := by
    rcases h with ⟨-, ⟨b, h⟩ | ⟨b, h⟩ | ⟨b, created, h⟩⟩ <;> cases h
  fresh _ := rfl

private theorem Late.step {S T : State} {e : Event} {j : ℕ}
    (hlate : ∀ i, Engaged (S.client i) → Late S i)
    (hclock : T.clock = S.clock + 1) (heffect : Effect S e T) (hj : Engaged (T.client j)) :
    Late T j := by
  cases heffect with
  | quiet i c hfile hne hclient hengaged =>
      rw [hclient] at hj
      have hsame : Engaged (S.client j) ∧ (T.client j).opened = (S.client j).opened := by
        rw [hclient]
        by_cases hji : j = i
        · subst hji
          rw [Function.update_self] at hj ⊢
          exact hengaged hj
        · rw [Function.update_of_ne hji] at hj ⊢
          exact ⟨hj, rfl⟩
      obtain ⟨hopened, hf⟩ := hlate j hsame.1
      refine ⟨?_, ?_⟩
      · rw [hsame.2, hclock]
        exact Nat.le_succ_of_le hopened
      · rw [hfile, hsame.2]
        exact hf
  | found i c hfree hfile hne hclient hopened =>
      refine ⟨?_, fun f hf => ?_⟩
      · rw [hclock, hclient]
        rw [hclient] at hj
        by_cases hji : j = i
        · subst hji
          rw [Function.update_self, hopened]
          exact Nat.le_succ _
        · rw [Function.update_of_ne hji] at hj ⊢
          exact Nat.le_succ_of_le (hlate j hj).opened
      · rw [hfile] at hf
        cases hf
  | puts i answered c hfile hclient hdone hstage =>
      rw [hclient] at hj
      have hji : j ≠ i := by
        rintro rfl
        rw [Function.update_self] at hj
        exact hdone hj
      rw [Function.update_of_ne hji] at hj
      have hopened := (hlate j hj).opened
      obtain ⟨b, hfile⟩ := hfile
      refine ⟨?_, fun f hf => ?_⟩
      · rw [hclock, hclient, Function.update_of_ne hji]
        exact Nat.le_succ_of_le hopened
      · rw [hfile] at hf
        obtain rfl := Option.some.inj hf
        rw [hclient, Function.update_of_ne hji]
        exact ⟨fun h => hji (Option.some.inj h).symm, Nat.lt_succ_of_le hopened⟩
  | other hne hclient hfile =>
      rw [hclient] at hj
      have hopened := (hlate j hj).opened
      refine ⟨?_, fun f hf => ?_⟩
      · rw [hclock, hclient]
        exact Nat.le_succ_of_le hopened
      · obtain ⟨hauthor, hstamp⟩ := hfile f hf
        rw [hclient, hauthor, hstamp]
        exact ⟨nofun, Nat.lt_succ_of_le hopened⟩

private theorem Kept.step {x y : State × Audit} {e : Event} (h : Kept x)
    (hstep : Steps.monitored audit x e y) : Kept y := by
  obtain ⟨hnext, haudit⟩ := hstep
  obtain ⟨hclock, heffect⟩ := step_effect hnext
  refine ⟨fun j hj => Late.step h.late hclock heffect hj, fun hfree => ?_⟩
  rw [haudit, audit, if_pos hfree]

/-- An exclusive creation that meets a file harms it. -/
theorem Kept.meets_of_spared {x : State × Audit} {e : Event} {T : State} (h : Kept x)
    (hstep : x.1.step e = some T) (hspared : ¬ (x.1.Creates e ∧ x.1.Harms e)) : x.1.Meets e := by
  intro hcreates
  by_contra hfile
  obtain ⟨f, hf⟩ := Option.ne_none_iff_exists'.mp hfile
  refine hspared ⟨hcreates, ?_⟩
  obtain ⟨-, heffect⟩ := step_effect hstep
  cases heffect with
  | quiet _ _ _ hne => exact absurd hcreates hne
  | found _ _ _ _ hne => exact absurd hcreates hne
  | other hne => exact absurd hcreates hne
  | puts i answered c hputs hclient hdone hstage =>
      obtain ⟨b, created, hstage⟩ := hstage
      have hlate := h.late i ⟨hcreates.1, .inr (.inr ⟨b, created, hstage⟩)⟩
      change x.1.file.any _ = true
      rw [hf, Option.any_some, decide_eq_true_iff]
      exact hlate.file f hf

/-- One that meets none harms none and is the first since the path was free. -/
theorem Kept.clean_of_meets {x y : State × Audit} {e : Event} (h : Kept x) (hclean : x.2.Clean)
    (hcreations : x.2.creations ≤ 1) (hmeets : x.1.Meets e)
    (hstep : Steps.monitored audit x e y) : y.2.Clean ∧ y.2.creations ≤ 1 := by
  obtain ⟨-, haudit⟩ := hstep
  have hle : y.2.creations ≤ 1 := by
    rw [haudit]
    simp only [audit]
    by_cases hcreates : x.1.Creates e
    · rw [h.fresh (hmeets hcreates), if_pos hcreates]
      split <;> omega
    · rw [if_neg hcreates]
      split <;> omega
  have hspared : ¬ (x.1.Creates e ∧ x.1.Harms e) := by
    rintro ⟨hcreates, hharms⟩
    cases e with
    | rename i answered =>
        change x.1.file.any _ = true at hharms
        rw [hmeets hcreates, Option.any_none] at hharms
        cases hharms
    | _ => exact hharms
  refine ⟨⟨?_, ?_⟩, hle⟩
  · have htwice : y.2.twice = (x.2.twice || decide (2 ≤ y.2.creations)) := by
      rw [haudit, audit]
    rw [htwice, hclean.1, Bool.false_or, decide_eq_false_iff_not]
    omega
  · rw [haudit]
    simp only [audit, hclean.2, Bool.false_or, decide_eq_false_iff_not]
    exact hspared

/-- What has gone wrong stays in the record. -/
theorem Audit.Clean.of_audit {a : Audit} {S T : State} {e : Event}
    (h : (audit a S e T).Clean) : a.Clean ∧ ¬ (S.Creates e ∧ S.Harms e) := by
  obtain ⟨htwice, hharmed⟩ := h
  simp only [audit, Bool.or_eq_false_iff, decide_eq_false_iff_not] at htwice hharmed
  exact ⟨⟨htwice.1, hharmed.1⟩, hharmed.2⟩

/-! ### Exclusive creations -/

/-- In every interleaving of any number of clients, at most one exclusive creation succeeds for each
absence of the file and none replaces what another client has put there in the meantime exactly
where each of them meets no file when its upload is renamed to the path. -/
theorem exclusive_iff {content : Option (List ℕ)} {es : List Event} {S : State} {a : Audit}
    (h : Run (Steps.monitored audit) (start content, {}) es (S, a)) :
    a.Clean ↔
      Run ((Steps.monitored audit).within fun x e => x.1.Meets e) (start content, {}) es
        (S, a) := by
  refine h.iff_within (fun x => Kept x ∧ (x.2.Clean → x.2.creations ≤ 1)) (fun x => x.2.Clean)
    ⟨kept_start content, fun _ => Nat.zero_le 1⟩ ⟨rfl, rfl⟩ ?_ ?_ ?_
  · rintro x e y ⟨hx, hle⟩ hstep
    refine ⟨hx.step hstep, fun hclean => ?_⟩
    rw [hstep.2] at hclean
    obtain ⟨hbefore, hspared⟩ := hclean.of_audit
    have hmeets := hx.meets_of_spared hstep.1 hspared
    exact (hx.clean_of_meets hbefore (hle hbefore) hmeets hstep).2
  · rintro x e y ⟨hx, hle⟩ hbefore hstep
    constructor
    · intro hclean
      rw [hstep.2] at hclean
      exact hx.meets_of_spared hstep.1 hclean.of_audit.2
    · intro hmeets
      exact (hx.clean_of_meets hbefore (hle hbefore) hmeets hstep).1
  · intro x e y hstep hclean
    rw [hstep.2] at hclean
    exact hclean.of_audit.1

/-- Clients that open the path before either has closed it. -/
def opened (modes : List Mode) : List Event :=
  modes.zipIdx.flatMap fun (mode, i) =>
    if mode = .xb then [.open_ i mode, .probe i false] else [.open_ i mode]

/-- A client closes its file, and the upload succeeds. -/
def closed (i : ℕ) : List Event := [.close i, .look i false, .rename i true]

/-- One exclusive creation that nobody disturbs. -/
theorem exclusive_iff_alone :
    ∃ (S : State) (a : Audit),
      Run (Steps.monitored audit) (start none, {}) (opened [.xb] ++ closed 0) (S, a) ∧
        (S.file.isSome = true ∧ a.creations = 1) ∧
        (a.Clean ↔ Run ((Steps.monitored audit).within fun x e => x.1.Meets e) (start none, {})
          (opened [.xb] ++ closed 0) (S, a)) := by
  obtain ⟨x, hrun, hx⟩ := exists_run_of_exec (monitorStep step audit) (start none, {})
    (opened [.xb] ++ closed 0)
    (fun x => x.1.file.isSome && decide (x.2.creations = 1)) (by decide)
  rw [ofPartial_monitorStep] at hrun
  rw [Bool.and_eq_true, decide_eq_true_iff] at hx
  exact ⟨x.1, x.2, hrun, hx, exclusive_iff hrun⟩

/-- Two clients find the path free; both are told that their creation succeeded, and the second
upload has replaced the first. -/
theorem not_exclusive_two :
    ¬ ∀ (content : Option (List ℕ)) (es : List Event) (S : State) (a : Audit),
      Run (Steps.monitored audit) (start content, {}) es (S, a) → a.Clean := by
  intro h
  obtain ⟨x, hrun, hx⟩ := exists_run_of_exec (monitorStep step audit) (start none, {})
    (opened [.xb, .xb] ++ closed 0 ++ closed 1) (fun x => x.2.twice && x.2.harmed) (by decide)
  rw [ofPartial_monitorStep] at hrun
  rw [Bool.and_eq_true] at hx
  have hclean := (h none _ x.1 x.2 hrun).1
  rw [hx.1] at hclean
  cases hclean

end State

end Jetty.Fsspec
