import Jetty.Core.Monitor
import Jetty.Core.Window
import Jetty.Orchestrator.Service.Tasks
import Jetty.Orchestrator.Service.Turns

/-!
# The restart budget is a sliding window

Beside a run, the times of all exits charged since the last entry into `blocked` are written down.
The history that the service itself keeps and prunes shows the same of them at every charge, so the
budget is exceeded exactly when more charged exits than allowed lie within the window.
-/

namespace Jetty.Orchestrator

open Transition Window

/-- What the clock shows in a step of the run loop. -/
def RunEvent.clock : RunEvent → Option ℚ
  | .gates _ now | .rendered _ now | .connected _ _ now | .joined now | .drained _ now => some now
  | _ => none

def Event.clock : Event → Option ℚ
  | .run e _ => e.clock
  | _ => none

/-- A step of anything that neither is the run loop nor stops it. -/
def Event.beside : Event → Bool
  | .run .. | .stop _ | .cancel => false
  | _ => true

namespace Service

/-- A charged exit counts as long as it lies less than the window back. -/
def Recent (c : ServiceSetup) (now t : ℚ) : Prop :=
  ((now - t : ℚ) : Duration) < c.restart.windowSeconds

instance (c : ServiceSetup) (now t : ℚ) : Decidable (Recent c now t) :=
  inferInstanceAs (Decidable (_ < _))

/-- The times of the exits that have been charged since the last entry into `blocked`. -/
def tally (c : ServiceSetup) (times : List ℚ) (s : Service) (e : Event) (_ : Service) : List ℚ :=
  match e with
  | .run e _ =>
    if s.blocksAt e then [] else times ++ ((s.chargedAt c e).map Prod.snd).toList
  | _ => times

/-- The steps of a service beside which charged exits are written down. -/
abbrev Tallied (c : ServiceSetup) : Transition.Rel (Service × List ℚ) Event :=
  (Steps c).monitored (tally c)

/-- The instance has failed because the budget was exceeded. -/
def OutOfBudget (t : Service) : Prop :=
  t.run = .returned ∧ ∃ n span limit window code, t.failed = some (.budget n span limit window code)

/-- When the delay is over, the next round begins, whatever the other tasks have done meanwhile. -/
def GoesOn (c : ServiceSetup) (t : Service) : Prop :=
  ∀ es u, Run (Steps c) t es u → (∀ e ∈ es, e.beside = true) → ∀ late,
    ∃ v, Steps c u (.run (.slept late) none) v ∧ Loops c v.run

variable {c : ServiceSetup} {φ : Option Fault} {s t u : Service} {e : RunEvent}

private theorem recent_ages : Ages (Recent c) := by
  intro now later t hle hlater
  refine lt_of_le_of_lt ?_ hlater
  exact WithTop.coe_le_coe.mpr (sub_le_sub_right hle t)

private theorem recent_self (hwindow : ((0 : ℚ) : Duration) < c.restart.windowSeconds) (now : ℚ) :
    Recent c now now := by
  unfold Recent
  rw [sub_self]
  exact hwindow

private theorem charged_eq_record (now : ℚ) : s.charged c now = record
    (Recent c) s.failTimes now := rfl

/-! ### What is charged -/

private theorem exitAt_of_classifiedAt {x : ℤ × ℚ} (h : s.classifiedAt e = some x) :
    s.exitAt e = some x := by
  unfold classifiedAt at h
  split at h
  · split at h
    · cases h
    · exact h
  · exact h

private theorem exitAt_clock {x : ℤ × ℚ} (h : s.exitAt e = some x) : e.clock = some x.2 := by
  unfold exitAt at h
  split at h
  all_goals first
    | (obtain rfl := Option.some.inj h; rfl)
    | (split at h
       · cases h
       · obtain rfl := Option.some.inj h
         rfl)
    | cases h

private theorem chargedAt_clock {x : ℤ × ℚ} (h : s.chargedAt c e = some x) :
    e.clock = some x.2 := by
  unfold chargedAt at h
  split at h
  · rename_i y hy
    split at h
    · obtain rfl := Option.some.inj h
      exact exitAt_clock (exitAt_of_classifiedAt hy)
    · cases h
  · unfold chargeAt at h
    split at h
    · obtain rfl := Option.some.inj h
      rfl
    · cases h

/-- Where an exit is charged or classified no block begins. -/
theorem blocksAt_of_clocked {x : ℤ × ℚ} (h : s.classifiedAt e = some x ∨ s.chargedAt c e = some x) :
    s.blocksAt e = false := by
  unfold blocksAt
  split
  · rename_i hrun
    simp [chargedAt, classifiedAt, exitAt, chargeAt, hrun] at h
  · rfl

/-- A turn keeps the history, charges one exit to it or clears it. -/
theorem Turn.failTimes (h : Turn c s e t) : t.failed = s.failed ∧
    (s.blocksAt e = true ∧ t.failTimes = [] ∨
      s.blocksAt e = false ∧ (s.chargedAt c e = none ∧ t.failTimes = s.failTimes ∨
        ∃ x, s.chargedAt c e = some x ∧ t.failTimes = s.charged c x.2)) := by
  have hkept (hs : SameBudget s t) (hb : s.blocksAt e = false) (hx : s.chargedAt c e = none) :
      t.failed = s.failed ∧
        (s.blocksAt e = true ∧ t.failTimes = [] ∨
          s.blocksAt e = false ∧ (s.chargedAt c e = none ∧ t.failTimes = s.failTimes ∨
            ∃ x, s.chargedAt c e = some x ∧ t.failTimes = s.charged c x.2)) :=
    ⟨hs.failed, .inr ⟨hb, .inl ⟨hx, hs.failTimes⟩⟩⟩
  cases h with
  | waits hrun _ hs =>
      rcases hrun with hrun | ⟨i, hrun⟩
      · exact hkept hs (by simp [blocksAt, hrun])
          (by simp [chargedAt, classifiedAt, exitAt, chargeAt, hrun])
      · exact hkept hs (by simp [blocksAt, hrun])
          (by simp [chargedAt, classifiedAt, exitAt, chargeAt, hrun])
  | blocks hrun _ htimes hfailed =>
      exact ⟨hfailed, .inl ⟨by simp [blocksAt, hrun], htimes⟩⟩
  | opens hrun _ hs | rechecks hrun _ _ hs | staysBlocked hrun _ hs | unblocks hrun _ hs
  | excuses hrun _ hs | resumes hrun _ _ hs =>
      exact hkept hs (by simp [blocksAt, hrun])
        (by simp [chargedAt, classifiedAt, exitAt, chargeAt, hrun])
  | goesOn hrun _ hx hs =>
      have hplace : s.blocksAt e = false ∧ s.chargeAt e = none := by
        cases hpc : s.run with
        | gateCheck | exitGate code => simp [hpc, RunPc.within] at hrun
        | _ => simp [blocksAt, chargeAt, hpc]
      exact hkept hs hplace.1 (by simp only [chargedAt, hx, hplace.2])
  | requested hx hv _ hs =>
      refine hkept hs (blocksAt_of_clocked (c := c) (.inl hx)) ?_
      rcases hv with hv | hv <;> simp [chargedAt, hx, hv]
  | asks hx hv _ hs =>
      exact hkept hs (blocksAt_of_clocked (c := c) (.inl hx)) (by simp [chargedAt, hx, hv])
  | charged hx _ htimes hfailed =>
      exact ⟨hfailed, .inr ⟨blocksAt_of_clocked (.inr hx), .inr ⟨_, hx, htimes⟩⟩⟩

/-! ### The history and the tally agree -/

/-- While the run loop goes on, nothing has failed, and the history shows what the tally shows. -/
def Accounts (c : ServiceSetup) (es : List Event) (s : Service) (times : List ℚ) : Prop :=
  s.run.over = false → s.failed = none ∧
    Agree (Recent c) (es.filterMap Event.clock) s.failTimes times

private theorem accounts_init : Accounts c [] init [] := fun _ => ⟨rfl, .refl _ _⟩

private theorem Accounts.step {es : List Event} {e : Event} {times : List ℚ}
    (h : Accounts c es s times)
    (hclock : ((es ++ [e]).filterMap Event.clock).Pairwise (· ≤ ·)) (hst : Steps c s e t) :
    Accounts c (es ++ [e]) t (tally c times s e t) := by
  intro hover
  have hmono : es.filterMap Event.clock ⊆ (es ++ [e]).filterMap Event.clock := by
    rw [List.filterMap_append]
    exact List.subset_append_left _ _
  cases e with
  | run e φ =>
      obtain ⟨hnone, hagree⟩ := h (by
        by_contra hs
        have hst : runStep c φ s e = some t := hst
        rw [runStep_over c φ (by simpa using hs)] at hst
        cases hst)
      rcases runStep_turn hst with ht | hturn
      · rw [ht] at hover
        cases hover
      obtain ⟨hfailed, hcase⟩ := hturn.failTimes
      refine ⟨hfailed.trans hnone, ?_⟩
      rcases hcase with ⟨hb, htimes⟩ | ⟨hb, ⟨hx, htimes⟩ | ⟨x, hx, htimes⟩⟩
      · simp only [tally, hb, if_true, htimes]
        exact .refl _ _
      · simp only [tally, hb, Bool.false_eq_true, if_false, hx, htimes, Option.map_none,
          Option.toList_none, List.append_nil]
        exact hagree.mono hmono
      · have hnow := chargedAt_clock hx
        simp only [tally, hb, Bool.false_eq_true, if_false, hx, htimes, Option.map_some,
          Option.toList_some, charged_eq_record]
        rw [List.filterMap_append] at hclock ⊢
        have hlast : [Event.run e φ].filterMap Event.clock = [x.2] := by
          simp [Event.clock, hnow]
        rw [hlast] at hclock ⊢
        refine hagree.record recent_ages fun t ht => ?_
        exact (List.pairwise_append.mp hclock).2.2 t ht x.2 (List.mem_singleton.mpr rfl)
  | _ =>
      have haside := step_aside hst (by simp)
      have hs : s.run.over = false := by
        rcases haside.run with hrun | ⟨-, hrun, -⟩
        · rwa [← hrun]
        · rw [hrun] at hover
          cases hover
      obtain ⟨hnone, hagree⟩ := h hs
      refine ⟨haside.failed.trans hnone, ?_⟩
      rw [haside.failTimes]
      exact hagree.mono hmono

private theorem accounts_run {es : List Event} {x : Service × List ℚ}
    (h : Run (Tallied c) (init, []) es x)
    (hclock : (es.filterMap Event.clock).Pairwise (· ≤ ·)) : Accounts c es x.1 x.2 := by
  induction h with
  | nil => exact accounts_init
  | @snoc es e x y hrun hlast ih =>
      have hbefore := ih ((List.filterMap_append ▸ hclock).sublist (List.sublist_append_left _ _))
      have hstep := hbefore.step hclock hlast.1
      rwa [← hlast.2] at hstep

/-! ### One exit -/

private theorem setState_none (st : ServiceState) (s : Service) :
    ∃ n, setState none st s = .ok { s with state := st, notified := n } :=
  (setState_cases none st s).resolve_right nofun

/-- What charging an exit comes to where nothing raises. -/
theorem settle_charge_none (now : ℚ) (code : ℤ) (s : Service) :
    (s.exhausted c now → OutOfBudget (settle (charge c none now code s))) ∧
    (¬ s.exhausted c now → ¬ backoffOverflows (s.charged c now).length →
      (settle (charge c none now code s)).run =
          .backoff (backoffDelay c (s.charged c now).length) ∧
        (settle (charge c none now code s)).stopEvent = s.stopEvent) := by
  unfold charge exhausted
  dsimp only
  constructor
  · intro hexhausted
    rw [if_pos hexhausted, fail]
    obtain ⟨n, hn⟩ := setState_none .failed
      { s with failTimes := s.charged c now, restarts := s.restarts + 1 }
    rw [hn]
    exact ⟨rfl, _, _, _, _, _, rfl⟩
  · intro hexhausted hoverflow
    rw [if_neg hexhausted, if_neg hoverflow]
    have hrest (u : Service) (delay : Duration) :
        (settle (do
          let u ← logNote none u
          let u ← setState none .backoff u
          return { u with run := .backoff delay })).run = .backoff delay ∧
        (settle (do
          let u ← logNote none u
          let u ← setState none .backoff u
          return { u with run := .backoff delay })).stopEvent = u.stopEvent := by
      obtain ⟨n, hn⟩ := setState_none .backoff u
      rw [(logNote_cases none u).resolve_right (by simp)]
      simp only [bind, Except.bind, hn]
      exact ⟨rfl, rfl⟩
    exact hrest _ _

/-- Where nothing raises, an exit that is charged is left to `charge`. -/
theorem chargedAt_eq {now : ℚ} {code : ℤ} (h : runStep c none s e = some t)
    (hx : s.chargedAt c e = some (code, now)) :
    ∃ u, SameBudget s u ∧ u.stopEvent = s.stopEvent ∧ t = settle (charge c none now code u) := by
  unfold chargedAt at hx
  split at hx
  · rename_i y hy
    split at hx
    · rename_i hv
      obtain rfl := Option.some.inj hx
      obtain ⟨f, hf, -⟩ | ⟨u, hu, rfl⟩ := classifiedAt_eq h hy
      · cases hf
      · rw [← hu.classify] at hv
        refine ⟨{ u with lastExit := some code }, ⟨hu.failTimes, hu.failed⟩, hu.stopEvent, ?_⟩
        simp only [afterExit, hv]
    · cases hx
  · unfold chargeAt at hx
    split at hx
    · rename_i hrun _
      obtain ⟨rfl, rfl⟩ := Prod.mk.inj (Option.some.inj hx)
      rw [runStep, hrun] at h
      exact ⟨s, ⟨rfl, rfl⟩, rfl, (Option.some.inj h).symm⟩
    · cases hx

/-- Where nothing raises, an exit with a `no_restart_exit` code that nobody asked for fails the
instance. -/
theorem noRestart_fails {x : ℤ × ℚ} (h : runStep c none s e = some t)
    (hx : s.classifiedAt e = some x) (hv : s.classify c x.1 = .noRestart) :
    t.run = .returned ∧ t.failed = some (.noRestartExit x.1) := by
  obtain ⟨f, hf, -⟩ | ⟨u, hu, rfl⟩ := classifiedAt_eq h hx
  · cases hf
  rw [← hu.classify] at hv
  obtain ⟨n, hn⟩ := setState_none .failed { u with lastExit := some x.1 }
  simp only [afterExit, hv, fail, hn, bind, Except.bind]
  exact ⟨rfl, rfl⟩

/-- The instance fails for its budget only where an exit is charged to an exhausted one. -/
theorem exhausted_of_outOfBudget (h : runStep c none s e = some t) (hnone : s.failed = none)
    (ht : OutOfBudget t) : ∃ x, s.chargedAt c e = some x ∧ s.exhausted c x.2 := by
  obtain ⟨hreturned, n, span, limit, window, code, hfailed⟩ := ht
  have hfails : s.Fails c e := by
    refine (runStep_effect h).failed.resolve_left fun hsame => ?_
    rw [hsame, hnone] at hfailed
    cases hfailed
  cases hx : s.classifiedAt e with
  | some x =>
      have hexit := exitAt_of_classifiedAt hx
      rcases hfails with ⟨y, hy, hv | ⟨hv, hexhausted⟩⟩ | ⟨y, hy, -⟩
      · obtain rfl := Option.some.inj (hexit.symm.trans hy)
        rw [(noRestart_fails h hx hv).2] at hfailed
        cases hfailed
      · obtain rfl := Option.some.inj (hexit.symm.trans hy)
        exact ⟨x, by simp only [chargedAt, hx, hv, if_true], hexhausted⟩
      · unfold chargeAt at hy
        split at hy
        · rename_i hrun
          simp [exitAt, hrun] at hexit
        · cases hy
  | none =>
      rcases hfails with ⟨y, hy, -⟩ | ⟨y, hy, hexhausted⟩
      · unfold classifiedAt at hx
        split at hx
        · rename_i r hrun
          split at hx
          · rename_i hpath
            rw [runStep, hrun] at h
            cases e <;> simp only [resume, reduceCtorEq, Option.some.injEq] at h
            simp only [leaveFinally, hpath, if_true] at h
            subst h
            cases hreturned
          · rw [hx] at hy
            cases hy
        · rw [hx] at hy
          cases hy
      · exact ⟨y, by simp only [chargedAt, hx]; exact hy, hexhausted⟩

/-- From its top the loop goes on to the gates or to a spawn. -/
theorem loops_loopTop (hstop : s.stopEvent = false) :
    Loops c (settle (loopTop c none s)).run := by
  unfold loopTop Loops
  rw [if_neg (by simp [hstop])]
  by_cases hnil : c.requires = []
  · simp only [hnil, ne_eq, not_true_eq_false, if_false, if_true]
    obtain ⟨n, hn⟩ := setState_none .starting s
    simp only [beginSpawn, hn, bind, Except.bind]
    rfl
  · simp only [ne_eq, hnil, not_false_eq_true, if_true, if_false]
    rfl

private theorem goesOn_of_backoff {delay : Duration} (hrun : s.run = .backoff delay)
    (hstop : s.stopEvent = false) : GoesOn c s := by
  intro es u hu hes late
  have hwaits : u.run = .backoff delay ∧ u.stopEvent = false := by
    induction hu with
    | nil => exact ⟨hrun, hstop⟩
    | @snoc es e t u _ hlast ih =>
        obtain ⟨ihrun, ihstop⟩ := ih fun e he => hes e (List.mem_append_left _ he)
        have hbeside := hes e (List.mem_append_right _ (List.mem_singleton.mpr rfl))
        have haside := step_aside hlast (by rintro e' φ rfl; cases hbeside)
        constructor
        · rcases haside.run with hsame | ⟨rfl, -⟩
          · exact hsame.trans ihrun
          · cases hbeside
        · rcases haside.stopEvent with hsame | ⟨-, φ, rfl⟩
          · exact hsame.trans ihstop
          · cases hbeside
  refine ⟨settle (loopTop c none u), ?_, loops_loopTop hwaits.2⟩
  change resume c none u u.run (.slept late) = _
  rw [hwaits.1]
  rfl

/-! ### The budget -/

/-- In every run whose clock does not go back and every step of its run loop in which nothing
raises and no stop has been requested: the instance fails for its budget exactly if an exit is
charged and more exits than allowed, this one included, have been charged since the last entry into
`blocked` and lie less than the window back; an exit with a `no_restart_exit` code that was neither
bounced nor gate-stopped fails it at once; and after every other charged exit the next round begins
when a delay is over that is no longer than the longest one. -/
theorem budget_is_sliding_window {es : List Event} {times : List ℚ}
    (h : Run (Tallied c) (init, []) es (s, times))
    (hclock : ((es ++ [Event.run e none]).filterMap Event.clock).Pairwise (· ≤ ·))
    (hwindow : ((0 : ℚ) : Duration) < c.restart.windowSeconds)
    (hmax : c.restart.maxRestarts ≤ 1024) (hstop : s.stopEvent = false)
    (hst : Steps c s (.run e none) t) :
    (OutOfBudget t ↔ ∃ x, s.chargedAt c e = some x ∧
      c.restart.maxRestarts < (shown (Recent c) (times ++ [x.2]) x.2).length) ∧
    (∀ x, s.classifiedAt e = some x → s.gateStop = false → s.bounceRequested = false →
      x.1 ∈ c.restart.noRestartExit → t.run = .returned ∧ t.failed = some (.noRestartExit x.1)) ∧
    ∀ x, s.chargedAt c e = some x → ¬ OutOfBudget t →
      ∃ delay, t.run = .backoff delay ∧ delay ≤ c.restart.backoffMaxSeconds ∧ GoesOn c t := by
  have hrun : runStep c none s e = some t := hst
  have haccounts := accounts_run h (by
    rw [List.filterMap_append] at hclock
    exact hclock.sublist (List.sublist_append_left _ _))
  have hover : s.run.over = false := by
    by_contra hs
    rw [runStep_over c none (by simpa using hs)] at hrun
    cases hrun
  obtain ⟨hnone, hagree⟩ := haccounts hover
  have hcount {x : ℤ × ℚ} (hx : s.chargedAt c e = some x) : s.exhausted c x.2 ↔
      c.restart.maxRestarts < (shown (Recent c) (times ++ [x.2]) x.2).length := by
    have hlast : [Event.run e none].filterMap Event.clock = [x.2] := by
      simp [Event.clock, chargedAt_clock hx]
    rw [List.filterMap_append, hlast] at hclock
    have hpast : ∀ t ∈ es.filterMap Event.clock, t ≤ x.2 := fun t ht =>
      (List.pairwise_append.mp hclock).2.2 t ht x.2 (List.mem_singleton.mpr rfl)
    rw [exhausted, charged_eq_record, hagree.length_record hpast (recent_self hwindow x.2)]
  refine ⟨⟨fun ht => ?_, ?_⟩, fun x hx hgate hbounce hcode => ?_, fun x hx ht => ?_⟩
  · obtain ⟨x, hx, hexhausted⟩ := exhausted_of_outOfBudget hrun hnone ht
    exact ⟨x, hx, (hcount hx).mp hexhausted⟩
  · rintro ⟨x, hx, hlt⟩
    obtain ⟨u, hu, -, rfl⟩ := chargedAt_eq hrun hx
    refine (settle_charge_none x.2 x.1 u).1 ?_
    have hexhausted := (hcount hx).mpr hlt
    unfold exhausted Service.charged at hexhausted ⊢
    rwa [hu.failTimes]
  · refine noRestart_fails hrun hx ?_
    simp [Service.classify, hstop, hgate, hbounce, hcode]
  · obtain ⟨u, hu, hustop, rfl⟩ := chargedAt_eq hrun hx
    have hfits : ¬ u.exhausted c x.2 := fun hexhausted =>
      ht ((settle_charge_none x.2 x.1 u).1 hexhausted)
    have hoverflow : ¬ backoffOverflows (u.charged c x.2).length := by
      unfold exhausted at hfits
      unfold backoffOverflows
      omega
    obtain ⟨hbackoff, hsame⟩ := (settle_charge_none x.2 x.1 u).2 hfits hoverflow
    exact ⟨_, hbackoff, min_le_right _ _, goesOn_of_backoff hbackoff (hsame.trans
      (hustop.trans hstop))⟩

/-- One restart a minute is allowed. -/
def oneRestart : ServiceSetup := { restart := { maxRestarts := 1 } }

/-- The first attempt fails, and its delay is waited. -/
def failedOnce : List Event :=
  [.run .begin none, .run (.rendered .prepFailed 0) none, .run (.slept false) none]

/-- The second attempt fails ten seconds after the first one, and that is one too many. -/
theorem budget_is_sliding_window_exceeded : ∃ s t, Run (Tallied oneRestart) (init, []) failedOnce
    (s, [0]) ∧ Steps oneRestart s (.run (.rendered .prepFailed 10) none) t ∧ OutOfBudget t := by
  let last : RunEvent := .rendered .prepFailed 10
  obtain ⟨⟨s, times⟩, hrun, hs⟩ := exists_run_of_exec (monitorStep (step oneRestart)
    (tally oneRestart)) (init, []) failedOnce (fun x => decide (x.2 = [0]) && !x.1.stopEvent &&
      decide (x.1.chargedAt oneRestart last = some (127, 10)) &&
      (step oneRestart x.1 (.run last none)).isSome) (by decide +kernel)
  rw [ofPartial_monitorStep] at hrun
  simp only [Bool.and_eq_true, decide_eq_true_eq, Bool.not_eq_true'] at hs
  obtain ⟨⟨⟨rfl, hstop⟩, hcharged⟩, hnext⟩ := hs
  obtain ⟨t, ht⟩ := Option.isSome_iff_exists.mp hnext
  refine ⟨s, t, hrun, ht, ?_⟩
  exact (budget_is_sliding_window hrun (by decide +kernel) (by decide +kernel) (by decide) hstop
    ht).1.mpr ⟨_, hcharged, by decide +kernel⟩

end Service

end Jetty.Orchestrator
