import Jetty.Core.Monitor
import Jetty.Orchestrator.Service.Requests
import Jetty.Orchestrator.Service.Turns

/-!
# What comes between two spawns

A charged exit is followed by its delay, a requested one by nothing, and a block by the wait for its
next check. An exit that is excused is none of these: the service only blocks if the gates are still
found failing at the top of the loop, and a check whose result has been replaced meanwhile may say
that they pass. Nor is an exit that a request excuses which was made against an earlier incarnation.
-/

namespace Jetty.Orchestrator

open Transition

/-- What has happened to a service since its last spawn. -/
structure Pace where
  /-- There has been a spawn. -/
  spawned : Bool := false
  /-- A watcher or `restart` has asked for a stop. -/
  asked : Bool := false
  /-- An exit has been charged to the budget. -/
  charged : Bool := false
  /-- A backoff delay has been waited. -/
  delayed : Bool := false
  /-- The service has entered `blocked`. -/
  blocked : Bool := false
  /-- A recheck interval has been waited there. -/
  waited : Bool := false
  /-- An exit has been excused because a gate was failing. -/
  excused : Bool := false
  /-- And the service has not entered `blocked` since. -/
  pending : Bool := false
deriving DecidableEq

namespace Service

/-- The step raises a stop request. -/
def asks (s t : Service) : Bool :=
  (t.bounceRequested && !s.bounceRequested) || (t.gateStop && !s.gateStop)

/-- `_spawn` begins. -/
def spawnsAt (e : Event) (t : Service) : Bool :=
  match e with
  | .run .. => decide (t.run = .rendering)
  | _ => false

end Service

namespace Pace

open Service

/-- A step of the run loop is noted. -/
def turn (c : ServiceSetup) (p : Pace) (s : Service) (e : RunEvent) : Pace where
  spawned := p.spawned
  asked := p.asked
  charged := p.charged || (s.chargedAt c e).isSome
  delayed := p.delayed || s.delayedAt e
  blocked := p.blocked || s.blocksAt e
  waited := p.waited || s.waitedAt e
  excused := p.excused || s.excusesAt e
  pending := (p.pending || s.excusesAt e) && !s.blocksAt e

/-- A step is noted. -/
def mark (c : ServiceSetup) (p : Pace) (s : Service) (e : Event) (t : Service) : Pace :=
  let p := { p with asked := p.asked || s.asks t }
  match e with
  | .run e _ => p.turn c s e
  | _ => p

/-- A spawn begins a new page. -/
def next (c : ServiceSetup) (p : Pace) (s : Service) (e : Event) (t : Service) : Pace :=
  if spawnsAt e t then { spawned := true } else p.mark c s e t

/-- The exit was charged and its delay waited, or it was asked for, or the service entered `blocked`
and waited there. -/
def Paced (p : Pace) : Prop :=
  (p.charged = true ∧ p.delayed = true) ∨ p.asked = true ∨ (p.blocked = true ∧ p.waited = true)

instance (p : Pace) : Decidable p.Paced := inferInstanceAs (Decidable (_ ∨ _))

end Pace

namespace Service

/-- The steps of a service beside which its pace is noted. -/
abbrev Watched (c : ServiceSetup) : Transition.Rel (Service × Pace) Event :=
  (Steps c).monitored (Pace.next c)

/-- No exit is classified with both kinds of request outstanding, and the gates do not pass at the
check that follows an excused exit. -/
def Fair (x : Service × Pace) (e : Event) : Prop :=
  Unmixed x.1 e ∧ match e with
    | .run e _ => x.2.pending = true → ¬ x.1.Opens e
    | _ => True

instance (x : Service × Pace) (e : Event) : Decidable (Fair x e) := by
  unfold Fair
  rcases e <;> infer_instance

/-- What has been noted by the time the run loop is suspended somewhere. -/
def Place (c : ServiceSetup) (s : Service) (p : Pace) : Prop :=
  match s.run with
  | .created | .depWait _ => p.spawned = false ∧ p.excused = false ∧ p.pending = false
  | .gateCheck => p.pending = true ∨ p.pending = false ∧ (p.spawned = true → p.Paced) ∧
      (p.excused = true → p.blocked = true ∧ p.waited = true ∧ s.failTimes = [])
  | .blockSleep => p.blocked = true ∧ p.pending = false ∧ s.failTimes = []
  | .blockCheck => p.blocked = true ∧ p.waited = true ∧ p.pending = false ∧ s.failTimes = []
  | .exitGate _ => c.requires ≠ [] ∧ p.excused = false ∧ p.pending = false
  | .backoff _ => p.charged = true ∧ p.excused = false ∧ p.pending = false
  | .returned | .raised _ | .cancelled => True
  | _ => p.excused = false ∧ p.pending = false

/-- Every outstanding request has been noted. -/
def Noted (s : Service) (p : Pace) : Prop :=
  s.bounceRequested = true ∨ s.gateStop = true → p.asked = true

/-- What a spawn has to find noted. -/
def SpawnOk (p : Pace) (t : Service) : Prop :=
  (p.spawned = true → p.Paced) ∧
    (p.excused = true → p.blocked = true ∧ p.waited = true ∧ t.failTimes = [])

variable {c : ServiceSetup} {φ : Option Fault} {s t : Service} {p : Pace}

/-- What holds where the loop comes to its top: for the gates there, or for the spawn. -/
theorem place_of_loops (hloops : Loops c t.run) (hp : p.pending = false) (hok : SpawnOk p t) :
    (t.run = .rendering → SpawnOk p t) ∧ (t.run ≠ .rendering → Place c t p) := by
  refine ⟨fun _ => hok, fun hne => ?_⟩
  unfold Loops at hloops
  split at hloops
  · exact absurd hloops hne
  · simp only [Place, hloops]
    exact .inr ⟨hp, hok⟩

/-- A turn at which nothing is noted. -/
theorem turn_eq_self {e : RunEvent} (hcharged : s.chargedAt c e = none)
    (hdelayed : s.delayedAt e = false) (hblocks : s.blocksAt e = false)
    (hwaited : s.waitedAt e = false) (hexcuses : s.excusesAt e = false) : p.turn c s e = p := by
  simp [Pace.turn, hcharged, hdelayed, hblocks, hwaited, hexcuses]

/-- Where an exit is classified or charged, none has been excused since the last spawn. -/
theorem clocked_place {e : RunEvent} {x : ℤ × ℚ}
    (h : s.classifiedAt e = some x ∨ s.chargedAt c e = some x) (hs : Place c s p) :
    p.excused = false ∧ p.pending = false ∧ s.excusesAt e = false := by
  cases hrun : s.run with
  | exitGate code =>
      simp only [chargedAt, classifiedAt, exitAt, hrun, reduceCtorEq, false_or] at h
      simp only [Place, hrun] at hs
      unfold chargeAt at h
      split at h
      · exact ⟨hs.2.1, hs.2.2, by simp [excusesAt]⟩
      · cases h
  | rendering | creating i | joinPath r | drain code =>
      simp only [Place, hrun] at hs
      exact ⟨hs.1, hs.2, by simp [excusesAt, hrun]⟩
  | _ => simp [chargedAt, classifiedAt, exitAt, chargeAt, hrun] at h

/-- One turn of the run loop: what a spawn finds noted, and what is noted where there is none. -/
theorem Turn.place {e : RunEvent} (h : Turn c s e t) (hs : Place c s p) (hnoted : Noted s p)
    (hfair : p.pending = true → ¬ s.Opens e) :
    (t.run = .rendering → SpawnOk (p.turn c s e) t) ∧
      (t.run ≠ .rendering → Place c t (p.turn c s e)) := by
  cases h with
  | waits hrun hnext hsame =>
      have hplace : p.spawned = false ∧ p.excused = false ∧ p.pending = false := by
        rcases hrun with hrun | ⟨i, hrun⟩ <;> simpa only [Place, hrun] using hs
      have hq : p.turn c s e = p := by
        rcases hrun with hrun | ⟨i, hrun⟩ <;>
          exact turn_eq_self (by simp [chargedAt, classifiedAt, exitAt, chargeAt, hrun])
            (by simp [delayedAt, hrun]) (by simp [blocksAt, hrun]) (by simp [waitedAt, hrun])
            (by simp [excusesAt, hrun])
      obtain ⟨hspawned, hexcused, hpending⟩ := hplace
      rw [hq]
      rcases hnext with ⟨j, ht⟩ | hloops
      · refine ⟨fun h => absurd (ht.symm.trans h) (by simp), fun _ => ?_⟩
        simp only [Place, ht]
        exact ⟨hspawned, hexcused, hpending⟩
      · exact place_of_loops hloops hpending
          ⟨fun h => by simp [hspawned] at h, fun h => by simp [hexcused] at h⟩
  | @opens now t hrun ht hsame =>
      have hq : p.turn c s (.gates .ok now) = p := turn_eq_self
        (by simp [chargedAt, classifiedAt, exitAt, chargeAt, hrun]) (by simp [delayedAt, hrun])
        (by simp [blocksAt, hrun]) (by simp [waitedAt, hrun]) (by simp [excusesAt, hrun])
      rw [hq]
      refine ⟨fun _ => ?_, fun hne => absurd ht hne⟩
      simp only [Place, hrun] at hs
      rcases hs with hpending | ⟨-, hpaced, hexcused⟩
      · exact absurd (by simp [Opens, hrun]) (hfair hpending)
      · refine ⟨hpaced, fun hx => ?_⟩
        rw [hsame.failTimes]
        exact hexcused hx
  | blocks hrun ht htimes hfailed =>
      refine ⟨fun h => absurd (ht.symm.trans h) (by simp), fun _ => ?_⟩
      simp [Place, ht, Pace.turn, blocksAt, hrun, htimes]
  | rechecks hrun hstop ht hsame =>
      refine ⟨fun h => absurd (ht.symm.trans h) (by simp), fun _ => ?_⟩
      simp only [Place, hrun] at hs
      simp [Place, ht, Pace.turn, blocksAt, waitedAt, excusesAt, hrun, hstop, hsame.failTimes, hs]
  | staysBlocked hrun ht hsame =>
      refine ⟨fun h => absurd (ht.symm.trans h) (by simp), fun _ => ?_⟩
      simp only [Place, hrun] at hs
      simp [Place, ht, Pace.turn, blocksAt, excusesAt, hrun, hsame.failTimes, hs]
  | unblocks hrun hloops hsame =>
      simp only [Place, hrun] at hs
      obtain ⟨hblocked, hwaited, hpending, htimes⟩ := hs
      refine place_of_loops hloops ?_ ⟨fun _ => .inr (.inr ?_), fun _ => ?_⟩
      · simp [Pace.turn, blocksAt, excusesAt, hrun, hpending]
      · simp [Pace.turn, hblocked, hwaited]
      · simp [Pace.turn, hblocked, hwaited, hsame.failTimes, htimes]
  | goesOn hrun ht hx hsame =>
      have hplace : p.excused = false ∧ p.pending = false ∧ s.excusesAt e = false := by
        cases hpc : s.run <;> simp_all [Place, RunPc.within, excusesAt]
      obtain ⟨hexcused, hpending, hexcuses⟩ := hplace
      have hne : t.run ≠ .rendering := fun h => by
        rw [h] at ht
        cases ht
      refine ⟨fun h => absurd h hne, fun _ => ?_⟩
      cases hpc : t.run <;> simp_all [Place, RunPc.within, Pace.turn]
  | requested hx hv hloops hsame =>
      obtain ⟨hexcused, hpending, hexcuses⟩ := clocked_place (.inl hx) hs
      have hasked : p.asked = true := hnoted (by grind [classify_cases (c := c) (s := s)])
      refine place_of_loops hloops ?_ ⟨fun _ => .inr (.inl hasked), fun h => ?_⟩
      · simp [Pace.turn, hpending, hexcuses]
      · simp [Pace.turn, hexcused, hexcuses] at h
  | asks hx hv ht hsame =>
      obtain ⟨hexcused, hpending, hexcuses⟩ := clocked_place (.inl hx) hs
      have hrequires : c.requires ≠ [] := by
        unfold classify at hv
        grind
      refine ⟨fun h => absurd (ht.symm.trans h) (by simp), fun _ => ?_⟩
      simp only [Place, ht]
      exact ⟨hrequires, by simp [Pace.turn, hexcused, hexcuses],
        by simp [Pace.turn, hpending, hexcuses]⟩
  | charged hx ht htimes hfailed =>
      obtain ⟨hexcused, hpending, hexcuses⟩ := clocked_place (.inr hx) hs
      refine ⟨fun h => absurd (ht.symm.trans h) (by simp), fun _ => ?_⟩
      simp only [Place, ht]
      exact ⟨by simp [Pace.turn, hx], by simp [Pace.turn, hexcused, hexcuses],
        by simp [Pace.turn, hpending, hexcuses]⟩
  | excuses hrun hloops hsame =>
      simp only [Place, hrun] at hs
      have ht : t.run = .gateCheck := by
        rw [Loops, if_neg hs.1] at hloops
        exact hloops
      refine ⟨fun h => absurd (ht.symm.trans h) (by simp), fun _ => ?_⟩
      simp only [Place, ht]
      exact .inl (by simp [Pace.turn, blocksAt, excusesAt, hrun])
  | resumes hrun hstop hloops hsame =>
      simp only [Place, hrun] at hs
      obtain ⟨hcharged, hexcused, hpending⟩ := hs
      refine place_of_loops hloops ?_ ⟨fun _ => .inl ?_, fun h => ?_⟩
      · simp [Pace.turn, blocksAt, excusesAt, hrun, hpending]
      · simp [Pace.turn, delayedAt, hrun, hstop, hcharged]
      · simp [Pace.turn, excusesAt, hrun, hexcused] at h

/-! ### Runs -/

/-- A further request changes nothing where the run loop is suspended. -/
theorem Place.asked (h : Place c s p) (b : Bool) : Place c s { p with asked := p.asked || b } := by
  unfold Place at h ⊢
  cases hrun : s.run with
  | gateCheck =>
      simp only [hrun] at h
      refine h.imp_right fun ⟨hpending, hpaced, hexcused⟩ =>
        ⟨hpending, fun hspawned => ?_, hexcused⟩
      rcases hpaced hspawned with hcharged | hasked | hblocked
      · exact .inl hcharged
      · exact .inr (.inl (by simp [hasked]))
      · exact .inr (.inr hblocked)
  | _ =>
      simp only [hrun] at h
      exact h

private theorem Noted.step (h : Noted s p) (t : Service) :
    Noted t { p with asked := p.asked || s.asks t } := by
  intro ht
  dsimp only
  by_cases hs : s.bounceRequested = true ∨ s.gateStop = true
  · simp [h hs]
  · have hasks : s.asks t = true := by
      unfold asks
      rcases ht with ht | ht <;> simp_all
    simp [hasks]

private theorem Place.of_over (h : t.run.over = true) : Place c t p := by
  unfold Place
  cases hrun : t.run with
  | returned | raised f | cancelled => trivial
  | _ => simp [hrun, RunPc.over] at h

/-- The pace has been noted faithfully. -/
structure Observed (c : ServiceSetup) (x : Service × Pace) : Prop where
  clear : Clear x.1
  noted : Noted x.1 x.2
  place : Place c x.1 x.2

private theorem observed_init : Observed c (init, {}) where
  clear _ := ⟨rfl, rfl⟩
  noted h := by simp [init] at h
  place := ⟨rfl, rfl, rfl⟩

/-- The step of a run loop that spawns finds what it has to find noted. -/
theorem Observed.spawnOk {e : Event} (h : Observed c (s, p)) (hst : Steps c s e t)
    (hfair : Fair (s, p) e) (hspawn : spawnsAt e t = true) : SpawnOk (p.mark c s e t) t := by
  cases e with
  | run e φ =>
      have ht : t.run = .rendering := by simpa [spawnsAt] using hspawn
      rcases runStep_turn hst with hover | hturn
      · rw [ht] at hover
        cases hover
      · refine (hturn.place (h.place.asked _) (fun hs => ?_) hfair.2).1 ht
        have hasked : p.asked = true := h.noted hs
        simp [hasked]
  | _ => cases hspawn

private theorem Observed.step {e : Event} (h : Observed c (s, p)) (htracked : Tracked s)
    (hst : Steps c s e t) (hfair : Fair (s, p) e) : Observed c (t, p.next c s e t) := by
  have hclear : Clear t := h.clear.step htracked hst hfair.1
  have hnoted : Noted t { p with asked := p.asked || s.asks t } := h.noted.step t
  have hplace := h.place.asked (s.asks t)
  refine ⟨hclear, ?_, ?_⟩
  · unfold Pace.next
    split
    · rename_i hspawn
      have ht : t.run = .rendering := by
        cases e <;> simp_all [spawnsAt]
      obtain ⟨hbounce, hgate⟩ := hclear (by rw [ht]; rfl)
      rintro (hb | hg)
      · simp [hbounce] at hb
      · simp [hgate] at hg
    · cases e <;> exact hnoted
  · unfold Pace.next
    split
    · rename_i hspawn
      have ht : t.run = .rendering := by
        cases e <;> simp_all [spawnsAt]
      simp [Place, ht]
    · rename_i hspawn
      cases e with
      | run e φ =>
          rcases runStep_turn hst with hover | hturn
          · exact .of_over hover
          · refine (hturn.place hplace (fun hs => ?_) hfair.2).2 (by simpa [spawnsAt] using hspawn)
            have hasked : p.asked = true := h.noted hs
            simp [hasked]
      | _ =>
          have haside := step_aside hst (by simp)
          rcases haside.run with hrun | ⟨-, hrun, -⟩
          · have hsame : Place c t { p with asked := p.asked || s.asks t } := by
              unfold Place at hplace ⊢
              rwa [hrun, haside.failTimes]
            exact hsame
          · exact .of_over (by rw [hrun]; rfl)

private theorem observed_run {es : List Event} {x : Service × Pace}
    (h : Run ((Watched c).within Fair) (init, {}) es x) : Observed c x :=
  h.invariant_along (Observed c) observed_init fun es x e y hrun hx ⟨hfair, hst, hnext⟩ => by
    obtain ⟨t, q⟩ := y
    have hq : q = x.2.next c x.1 e t := hnext
    rw [hq]
    exact hx.step (tracked_run hrun.of_within.of_monitored) hst hfair

/-- In every run in which no exit is classified with both kinds of request outstanding and the gates
do not pass at the check that follows an excused exit: at every spawn but the first, since the last
one an exit has been charged and its delay waited, or a watcher or `restart` has asked for a stop,
or the service has entered `blocked` and waited a recheck interval; and if an exit has been excused,
it has, and the budget's history is clear. -/
theorem respawns_are_paced {es : List Event}
    (h : Run ((Watched c).within Fair) (init, {}) es (s, p)) {e : Event} (hfair : Fair (s, p) e)
    (hst : Steps c s e t) (hspawn : spawnsAt e t = true) :
    (p.spawned = true → (p.mark c s e t).Paced) ∧
      ((p.mark c s e t).excused = true → (p.mark c s e t).blocked = true ∧
        (p.mark c s e t).waited = true ∧ t.failTimes = []) := by
  have hok := (observed_run h).spawnOk hst hfair hspawn
  have hspawned : (p.mark c s e t).spawned = p.spawned := by
    cases e <;> rfl
  exact ⟨fun hp => hok.1 (hspawned.trans hp), hok.2⟩

/-- A service with two gates. -/
def guarded : ServiceSetup := { requires := ["vpn", "disk"] }

/-- The service crashes. The first gate is found failing at once, the check of the second one takes
twenty seconds. -/
def crashedExcused : List Event :=
  [.run .begin none, .run (.gates .ok 0) none,
    .run (.rendered (.ok { cmd := ["api"] } (some 100)) 0) none,
    .run (.connected true false 0) none, .die 0 1 false, .reap 0, .run .exited none,
    .run (.joined 1) none, .run (.joined 1) none, .run (.drained .ok 1) none,
    .run (.gates (.failing ["vpn"]) 21) none]

/-- Where the gate still fails at the top of the loop, the service blocks before it is spawned
again. -/
theorem respawns_are_paced_blocked : ∃ s p t, Run ((Watched guarded).within Fair) (init, {})
    (crashedExcused ++ [.run (.gates (.failing ["vpn"]) 22) none, .run (.slept false) none,
      .run (.gates .ok 37) none]) (s, p) ∧
    Steps guarded s (.run (.gates .ok 37) none) t ∧
    (p.mark guarded s (.run (.gates .ok 37) none) t).Paced := by
  let last : Event := .run (.gates .ok 37) none
  obtain ⟨⟨s, p⟩, hrun, hs⟩ := exists_run_of_execWithin (monitorStep (step guarded)
    (Pace.next guarded)) Fair (init, {}) (crashedExcused ++
      [.run (.gates (.failing ["vpn"]) 22) none, .run (.slept false) none, last])
    (fun x => x.2.spawned && decide (Fair x last) &&
      (step guarded x.1 last).any fun t => spawnsAt last t) (by decide +kernel)
  rw [ofPartial_monitorStep] at hrun
  simp only [Bool.and_eq_true, decide_eq_true_eq] at hs
  obtain ⟨⟨hspawned, hfair⟩, hnext⟩ := hs
  obtain ⟨t, ht, hspawn⟩ := (Option.any_eq_true _ _).mp hnext
  exact ⟨s, p, t, hrun, ht, (respawns_are_paced hrun hfair ht hspawn).1 hspawned⟩

/-- The first gate's result is too old by then, its check runs again at the top of the loop and
passes: the service is spawned again at once. -/
theorem not_respawns_are_paced : ¬ ∀ (c : ServiceSetup) (es : List Event) (s : Service) (p : Pace),
    Run (Watched c) (init, {}) es (s, p) → ∀ e t, Steps c s e t → spawnsAt e t = true →
      p.spawned = true → (p.mark c s e t).Paced := by
  intro h
  let last : Event := .run (.gates .ok 22) none
  let spawned (x : Service × Pace) : Option Service := step guarded x.1 last
  obtain ⟨⟨s, p⟩, hrun, hs⟩ := exists_run_of_exec (monitorStep (step guarded)
    (Pace.next guarded)) (init, {}) crashedExcused
    (fun x => (spawned x).any fun t => spawnsAt last t && x.2.spawned &&
      !decide (x.2.mark guarded x.1 last t).Paced) (by decide +kernel)
  rw [ofPartial_monitorStep] at hrun
  obtain ⟨t, ht, hspawn⟩ := (Option.any_eq_true _ _).mp hs
  simp only [Bool.and_eq_true, Bool.not_eq_true', decide_eq_false_iff_not] at hspawn
  exact hspawn.2 (h guarded crashedExcused s p hrun last t ht hspawn.1.1 hspawn.1.2)

end Service

end Jetty.Orchestrator
