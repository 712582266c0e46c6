import Jetty.Orchestrator.Service.Effects

/-!
# Where the run loop turns

From one incarnation to the next the run loop classifies the exit, may ask the gates, backs off or
blocks, and comes to the top of the loop. Each of its steps ends the run or is one of these turns,
and only two of them touch the budget's history.
-/

namespace Jetty.Orchestrator

/-- An incarnation has a process, or is about to have one or has just lost it. -/
def RunPc.within : RunPc → Bool
  | .creating _ | .probing | .probeSleep | .waitExit | .joinGate _ | .joinPath _ | .drain _ => true
  | _ => false

namespace Service

/-- The exit that this step classifies, and when. The exception of a path watcher comes first. -/
def classifiedAt (s : Service) (e : RunEvent) : Option (ℤ × ℚ) :=
  match s.run with
  | .joinPath _ => if s.pathWatch = .died then none else s.exitAt e
  | _ => s.exitAt e

/-- The exit that this step charges to the budget, and when: one that is classified so without
asking the gates, or one after which all of them have just passed. -/
def chargedAt (c : ServiceSetup) (s : Service) (e : RunEvent) : Option (ℤ × ℚ) :=
  match s.classifiedAt e with
  | some x => if s.classify c x.1 = .charge then some x else none
  | none => s.chargeAt e

/-- The service enters `blocked`. -/
def blocksAt (s : Service) (e : RunEvent) : Bool :=
  match s.run, e with
  | .gateCheck, .gates (.failing _) _ => true
  | _, _ => false

/-- The exit is excused because a gate is failing. -/
def excusesAt (s : Service) (e : RunEvent) : Bool :=
  match s.run, e with
  | .exitGate _, .gates (.failing _) _ => true
  | _, _ => false

/-- The backoff delay has been waited: its race with the stop event ends early only if that is
set. -/
def delayedAt (s : Service) (e : RunEvent) : Bool :=
  match s.run, e with
  | .backoff _, .slept _ => !s.stopEvent
  | _, _ => false

/-- So has the interval between two checks of a block. -/
def waitedAt (s : Service) (e : RunEvent) : Bool :=
  match s.run, e with
  | .blockSleep, .slept _ => !s.stopEvent
  | _, _ => false

/-- Where the loop goes on from its top. -/
def Loops (c : ServiceSetup) (pc : RunPc) : Prop :=
  pc = if c.requires = [] then .rendering else .gateCheck

/-- The budget's history is the same, and so is what the fail callback was told. -/
structure SameBudget (s t : Service) : Prop where
  failTimes : t.failTimes = s.failTimes
  failed : t.failed = s.failed

/-- What the classification of an exit reads is the same. -/
structure Alike (s u : Service) : Prop extends SameBudget s u where
  stopEvent : u.stopEvent = s.stopEvent
  gateStop : u.gateStop = s.gateStop
  bounceRequested : u.bounceRequested = s.bounceRequested

/-- The code ends the run, or leaves the budget alone and suspends it at some place. -/
def Lands (P : RunPc → Prop) (s t : Service) : Prop :=
  t.run.over = true ∨ P t.run ∧ SameBudget s t

variable {c : ServiceSetup} {φ : Option Fault} {s t u : Service} {e : RunEvent} {P : RunPc → Prop}

/-- Services that are alike classify an exit alike. -/
theorem Alike.classify (h : Alike s u) (code : ℤ) : u.classify c code = s.classify c code := by
  simp only [Service.classify, h.stopEvent, h.gateStop, h.bounceRequested]

private theorem SameBudget.trans (h : SameBudget s t) (h' : SameBudget t u) : SameBudget s u :=
  ⟨h'.failTimes.trans h.failTimes, h'.failed.trans h.failed⟩

private theorem Lands.of_same (h : Lands P u t) (hu : SameBudget s u) : Lands P s t :=
  h.imp_right fun ⟨hp, ht⟩ => ⟨hp, hu.trans ht⟩

/-! ### Pieces of code -/

private theorem Lands.logNote_bind {k : Service → Code} (h : Lands P s (settle (k s))) :
    Lands P s (settle (do
      let s ← logNote φ s
      k s)) := by
  rcases logNote_cases φ s with hn | ⟨f, _, hn⟩ <;> rw [hn]
  · exact h
  · exact .inl rfl

private theorem Lands.setState_bind {st : ServiceState} {k : Service → Code}
    (h : ∀ n, Lands P s (settle (k { s with state := st, notified := n }))) :
    Lands P s (settle (do
      let s ← setState φ st s
      k s)) := by
  rcases setState_cases φ st s with ⟨n, hn⟩ | ⟨_, hn⟩ <;> rw [hn]
  · exact h n
  · exact .inl rfl

private theorem Lands.notify_bind {k : Service → Code}
    (h : Lands P s (settle (k { s with notified := s.notified + 1 }))) :
    Lands P s (settle (do
      let s ← notify φ s
      k s)) := by
  rcases notify_cases φ s with hn | ⟨_, hn⟩ <;> rw [hn]
  · exact h
  · exact .inl rfl

private theorem lands_beginSpawn (s : Service) : Lands (· = .rendering) s
    (settle (beginSpawn φ s)) := by
  refine .setState_bind fun n => ?_
  split
  · exact .inl rfl
  · exact .inr ⟨rfl, rfl, rfl⟩

private theorem lands_loopTop (s : Service) : Lands (Loops c) s (settle (loopTop c φ s)) := by
  unfold loopTop Loops
  by_cases hstop : s.stopEvent = true
  · rw [if_pos hstop]
    exact .setState_bind fun n => .inl rfl
  rw [if_neg hstop]
  by_cases hnil : c.requires = []
  · simp only [hnil, ne_eq, not_true_eq_false, if_false, if_true]
    exact lands_beginSpawn s
  · simp only [ne_eq, hnil, not_false_eq_true, if_true, if_false]
    exact .inr ⟨rfl, rfl, rfl⟩

private theorem lands_depLoop (i : ℕ) (s : Service) :
    Lands (fun pc => (∃ j, pc = .depWait j) ∨ Loops c pc) s (settle (depLoop c φ i s)) := by
  unfold depLoop
  split
  · exact .inr ⟨.inl ⟨i, rfl⟩, rfl, rfl⟩
  · exact (lands_loopTop s).imp_right fun ⟨hp, hs⟩ => ⟨.inr hp, hs⟩

private theorem settle_loopTop_stopped (h : s.stopEvent = true) :
    (settle (loopTop c φ s)).run.over = true := by
  unfold loopTop
  rw [if_pos h]
  rcases setState_cases φ .stopped s with ⟨n, hn⟩ | ⟨_, hn⟩ <;> rw [hn] <;> rfl

private theorem lands_blockLoop (s : Service) :
    Lands (· = .blockSleep) s (settle (blockLoop c φ s)) := by
  unfold blockLoop
  split
  · exact .inl (settle_loopTop_stopped ‹_›)
  · exact .inr ⟨rfl, rfl, rfl⟩

private theorem lands_block (failing : List String) (s : Service) :
    Lands (· = .blockSleep) { s with failTimes := [] } (settle (block c φ failing s)) := by
  have hrest : Lands (· = .blockSleep) { s with blockedOn := failing, failTimes := [] }
      (settle (block c φ failing s)) :=
    .setState_bind fun n => .of_same (.notify_bind (.of_same (lands_blockLoop _) ⟨rfl, rfl⟩))
      ⟨rfl, rfl⟩
  exact hrest.of_same ⟨rfl, rfl⟩

private theorem settle_fail_over (r : FailReason) : (settle (fail φ r s)).run.over = true := by
  unfold fail
  rcases setState_cases φ .failed s with ⟨n, hn⟩ | ⟨_, hn⟩ <;> rw [hn] <;> rfl

/-- An exit that is charged ends the run or is followed by its delay. -/
theorem lands_charge (now : ℚ) (code : ℤ) (s : Service) :
    Lands (· = .backoff (backoffDelay c (s.charged c now).length))
      { s with failTimes := s.charged c now } (settle (charge c φ now code s)) := by
  unfold charge
  dsimp only
  split
  · exact .inl (settle_fail_over _)
  · split
    · exact .inl rfl
    · have hrest : ∀ v : Service, Lands (· = .backoff (backoffDelay c (s.charged c now).length)) v
          (settle (do
            let v ← logNote φ v
            let v ← setState φ .backoff v
            return { v with run := .backoff (backoffDelay c (s.charged c now).length) })) :=
        fun v => .logNote_bind (.setState_bind fun n => .inr ⟨rfl, rfl, rfl⟩)
      exact (hrest _).of_same ⟨rfl, rfl⟩

/-! ### Inversion -/

/-- The steps of a run loop that goes on. -/
inductive Turn (c : ServiceSetup) (s : Service) : RunEvent → Service → Prop
  | waits {e : RunEvent} {t : Service} : s.run = .created ∨ (∃ i, s.run = .depWait i) →
      (∃ j, t.run = .depWait j) ∨ Loops c t.run → SameBudget s t → Turn c s e t
  | opens {now : ℚ} {t : Service} : s.run = .gateCheck → t.run = .rendering → SameBudget s t →
      Turn c s (.gates .ok now) t
  | blocks {names : List String} {now : ℚ} {t : Service} : s.run = .gateCheck →
      t.run = .blockSleep → t.failTimes = [] → t.failed = s.failed →
      Turn c s (.gates (.failing names) now) t
  | rechecks {late : Bool} {t : Service} : s.run = .blockSleep → s.stopEvent = false →
      t.run = .blockCheck → SameBudget s t → Turn c s (.slept late) t
  | staysBlocked {e : RunEvent} {t : Service} : s.run = .blockCheck → t.run = .blockSleep →
      SameBudget s t → Turn c s e t
  | unblocks {e : RunEvent} {t : Service} : s.run = .blockCheck → Loops c t.run →
      SameBudget s t → Turn c s e t
  /-- One stage of an incarnation follows the other. -/
  | goesOn {e : RunEvent} {t : Service} : s.run = .rendering ∨ s.run.within = true →
      t.run.within = true → s.classifiedAt e = none → SameBudget s t → Turn c s e t
  /-- The exit was asked for. -/
  | requested {e : RunEvent} {t : Service} {x : ℤ × ℚ} : s.classifiedAt e = some x →
      s.classify c x.1 = .gateStopped ∨ s.classify c x.1 = .bounced → Loops c t.run →
      SameBudget s t → Turn c s e t
  | asks {e : RunEvent} {t : Service} {x : ℤ × ℚ} : s.classifiedAt e = some x →
      s.classify c x.1 = .askGates → t.run = .exitGate x.1 → SameBudget s t → Turn c s e t
  | charged {e : RunEvent} {t : Service} {x : ℤ × ℚ} : s.chargedAt c e = some x →
      t.run = .backoff (backoffDelay c (s.charged c x.2).length) →
      t.failTimes = s.charged c x.2 → t.failed = s.failed → Turn c s e t
  | excuses {code : ℤ} {names : List String} {now : ℚ} {t : Service} : s.run = .exitGate code →
      Loops c t.run → SameBudget s t → Turn c s (.gates (.failing names) now) t
  | resumes {delay : Duration} {late : Bool} {t : Service} : s.run = .backoff delay →
      s.stopEvent = false → Loops c t.run → SameBudget s t → Turn c s (.slept late) t

/-- The exit of a service is classified with what its flags say now. -/
theorem afterExit_turn {now : ℚ} {code : ℤ} (hx : s.classifiedAt e = some (code, now))
    (hu : Alike s u) : (settle (afterExit c φ now code u)).run.over = true ∨
      Turn c s e (settle (afterExit c φ now code u)) := by
  unfold afterExit
  rw [hu.classify]
  cases hv : s.classify c code with
  | stopping =>
      left
      dsimp only
      rcases setState_cases φ .stopped u with ⟨n, hn⟩ | ⟨_, hn⟩ <;> rw [hn] <;> rfl
  | gateStopped =>
      have hlands : Lands (Loops c) u (settle (loopTop c φ { u with gateStop := false })) :=
        (lands_loopTop _).of_same ⟨rfl, rfl⟩
      exact hlands.imp_right fun ⟨hloops, hsame⟩ =>
        .requested hx (.inl hv) hloops (hu.toSameBudget.trans hsame)
  | bounced =>
      have hlands : Lands (Loops c) u (settle (loopTop c φ { u with bounceRequested := false })) :=
        (lands_loopTop _).of_same ⟨rfl, rfl⟩
      exact hlands.imp_right fun ⟨hloops, hsame⟩ =>
        .requested hx (.inr hv) hloops (hu.toSameBudget.trans hsame)
  | noRestart => exact .inl (settle_fail_over _)
  | askGates => exact .inr (.asks hx hv rfl (hu.toSameBudget.trans ⟨rfl, rfl⟩))
  | charge =>
      have hcharged : s.chargedAt c e = some (code, now) := by
        simp only [chargedAt, hx, hv, if_true]
      have htimes : ({ u with lastExit := some code } : Service).charged c now =
          s.charged c now := by
        unfold Service.charged
        rw [hu.failTimes]
      have hlands := lands_charge (c := c) (φ := φ) now code { u with lastExit := some code }
      rw [htimes] at hlands
      refine hlands.imp_right ?_
      rintro ⟨hrun, hsame⟩
      exact .charged hcharged hrun hsame.failTimes (hsame.failed.trans hu.failed)

/-- Code that notes something first raises, or is what follows. -/
theorem settle_logNote_bind (k : Service → Code) :
    (∃ f, φ = some f ∧ (settle (do
        let s ← logNote φ s
        k s)).run = .raised f) ∨
      settle (do
        let s ← logNote φ s
        k s) = settle (k s) := by
  rcases logNote_cases φ s with hn | ⟨f, hφ, hn⟩ <;> rw [hn]
  · exact .inr rfl
  · exact .inl ⟨f, hφ, rfl⟩

/-- The step raises, or leaves the exit to `afterExit`. -/
private def LeavesExit (c : ServiceSetup) (φ : Option Fault) (s : Service) (x : ℤ × ℚ)
    (t : Service) : Prop :=
  (∃ f, φ = some f ∧ t.run = .raised f) ∨
    ∃ u, Alike s u ∧ t = settle (afterExit c φ x.2 x.1 u)

private theorem leavesExit_spawnFailed {now : ℚ} (hu : Alike s u) :
    LeavesExit c φ s (127, now) (settle (spawnFailed c φ now u)) := by
  obtain ⟨⟨htimes, hfailed⟩, hstop, hgate, hbounce⟩ := hu
  rcases settle_logNote_bind (φ := φ) (s := u) (fun u => do
    let u ← closeLog φ u
    afterExit c φ now 127 u) with hraised | heq
  · exact .inl hraised
  · rcases closeLog_cases φ u with hn | ⟨hφ, hn⟩
    · simp only [hn, bind, Except.bind] at heq
      exact .inr ⟨{ u with logOpen := false }, ⟨⟨htimes, hfailed⟩, hstop, hgate, hbounce⟩, heq⟩
    · simp only [hn, bind, Except.bind] at heq
      exact .inl ⟨_, hφ, congrArg Service.run heq⟩

private theorem leavesExit_finishOnce {now : ℚ} {code : ℤ} (hu : Alike s u) :
    LeavesExit c φ s (code, now) (settle (finishOnce c φ now code u)) := by
  obtain ⟨⟨htimes, hreason⟩, hstop, hgate, hbounce⟩ := hu
  unfold finishOnce
  rcases closeLog_cases φ { u with readerTask := false } with hn | ⟨hφ, hn⟩
  · simp only [hn, bind, Except.bind]
    exact .inr
      ⟨{ u with readerTask := false, logOpen := false, readyEvent := false, pid := none },
        ⟨⟨htimes, hreason⟩, hstop, hgate, hbounce⟩, rfl⟩
  · simp only [hn, bind, Except.bind]
    exact .inl ⟨_, hφ, rfl⟩

private theorem leavesExit_of_rendering {x : ℤ × ℚ} (hrun : s.run = .rendering)
    (h : runStep c φ s e = some t) (hx : s.classifiedAt e = some x) : LeavesExit c φ s x t := by
  rw [runStep, hrun] at h
  unfold classifiedAt exitAt at hx
  simp only [hrun] at hx
  cases e with
  | rendered r now =>
      simp only [resume, Option.some.injEq] at h
      cases r with
      | ok r forked =>
          cases forked with
          | some pid => cases hx
          | none =>
              obtain rfl := Option.some.inj hx
              subst h
              have halike : Alike s { s with rendered := some r } := ⟨⟨rfl, rfl⟩, rfl, rfl, rfl⟩
              rcases settle_logNote_bind (φ := φ) (s := { s with rendered := some r })
                (spawnFailed c φ now) with hraised | heq
              · exact .inl hraised
              · rw [heq]
                exact leavesExit_spawnFailed halike
      | prepFailed =>
          obtain rfl := Option.some.inj hx
          subst h
          exact leavesExit_spawnFailed ⟨⟨rfl, rfl⟩, rfl, rfl, rfl⟩
      | raised => cases hx
  | _ => cases hx

private theorem leavesExit_of_creating {i : ℕ} {x : ℤ × ℚ} (hrun : s.run = .creating i)
    (h : runStep c φ s e = some t) (hx : s.classifiedAt e = some x) : LeavesExit c φ s x t := by
  rw [runStep, hrun] at h
  unfold classifiedAt exitAt at hx
  simp only [hrun] at hx
  cases e with
  | connected ok late now =>
      cases ok with
      | true => cases hx
      | false =>
          simp only [resume, Bool.false_eq_true, ite_false, Option.some.injEq] at h
          obtain rfl := Option.some.inj hx
          subst h
          exact leavesExit_spawnFailed ⟨⟨rfl, rfl⟩, rfl, rfl, rfl⟩
  | _ => cases hx

private theorem leavesExit_of_joinPath {r : Ending} {x : ℤ × ℚ} (hrun : s.run = .joinPath r)
    (h : runStep c φ s e = some t) (hx : s.classifiedAt e = some x) : LeavesExit c φ s x t := by
  rw [runStep, hrun] at h
  unfold classifiedAt exitAt at hx
  simp only [hrun] at hx
  split at hx
  · cases hx
  rename_i hpath
  cases e with
  | joined now =>
      cases r with
      | exited code =>
          simp only [resume, Option.some.injEq, leaveFinally, if_neg hpath] at h
          dsimp only at hx
          by_cases hreader : s.readerTask = true
          · rw [if_pos hreader] at hx
            cases hx
          · rw [if_neg hreader] at hx
            obtain rfl := Option.some.inj hx
            rcases sweep_cases φ s with hw | ⟨hφ, hw⟩
            · simp only [hw, bind, Except.bind, if_neg hreader] at h
              subst h
              exact leavesExit_finishOnce ⟨⟨rfl, rfl⟩, rfl, rfl, rfl⟩
            · simp only [hw, bind, Except.bind] at h
              exact .inl ⟨_, hφ, by rw [← h]; rfl⟩
      | raised f => cases hx
  | _ => cases r <;> cases hx

private theorem leavesExit_of_drain {code : ℤ} {x : ℤ × ℚ} (hrun : s.run = .drain code)
    (h : runStep c φ s e = some t) (hx : s.classifiedAt e = some x) : LeavesExit c φ s x t := by
  rw [runStep, hrun] at h
  unfold classifiedAt exitAt at hx
  simp only [hrun] at hx
  have halike : Alike s s := ⟨⟨rfl, rfl⟩, rfl, rfl, rfl⟩
  cases e with
  | drained r now =>
      simp only [resume, Option.some.injEq] at h
      cases r with
      | ok =>
          obtain rfl := Option.some.inj hx
          subst h
          exact leavesExit_finishOnce halike
      | timeout =>
          obtain rfl := Option.some.inj hx
          subst h
          rcases settle_logNote_bind (φ := φ) (s := s) (finishOnce c φ now code) with hraised | heq
          · exact .inl hraised
          · rw [heq]
            exact leavesExit_finishOnce halike
      | raised => cases hx
  | _ => cases hx

/-- A step that classifies an exit raises, or leaves it to `afterExit`. -/
theorem classifiedAt_eq {now : ℚ} {code : ℤ} (h : runStep c φ s e = some t)
    (hx : s.classifiedAt e = some (code, now)) :
    (∃ f, φ = some f ∧ t.run = .raised f) ∨
      ∃ u, Alike s u ∧ t = settle (afterExit c φ now code u) := by
  cases hrun : s.run with
  | rendering => exact leavesExit_of_rendering hrun h hx
  | creating i => exact leavesExit_of_creating hrun h hx
  | joinPath r => exact leavesExit_of_joinPath hrun h hx
  | drain code' => exact leavesExit_of_drain hrun h hx
  | _ =>
      unfold classifiedAt exitAt at hx
      simp only [hrun] at hx
      cases hx

/-- The stages of an incarnation leave the budget alone. -/
structure Inside (s t : Service) : Prop extends SameBudget s t where
  within : t.run.within = true

private theorem inside_becomeReady : Inside s (inTry (becomeReady φ s)) := by
  unfold becomeReady
  rcases setState_cases φ .running s with ⟨n, hn⟩ | ⟨_, hn⟩ <;> rw [hn] <;> exact ⟨⟨rfl, rfl⟩, rfl⟩

private theorem inside_readyLoop {late : Bool} : Inside s (inTry (readyLoop φ late s)) := by
  unfold readyLoop
  split
  · exact ⟨⟨rfl, rfl⟩, rfl⟩
  · split
    · rcases logNote_cases φ s with hn | ⟨f, _, hn⟩ <;> rw [hn]
      · simp only [bind, Except.bind]
        rcases sweep_cases φ s with hw | ⟨_, hw⟩ <;> rw [hw]
        · exact ⟨⟨rfl, rfl⟩, rfl⟩
        · exact ⟨⟨rfl, rfl⟩, rfl⟩
      · exact ⟨⟨rfl, rfl⟩, rfl⟩
    · split
      · exact ⟨⟨rfl, rfl⟩, rfl⟩
      · exact ⟨⟨rfl, rfl⟩, rfl⟩

private theorem Inside.turn (h : Inside s t) (hs : s.run = .rendering ∨ s.run.within = true)
    (hx : s.classifiedAt e = none) : t.run.over = true ∨ Turn c s e t :=
  .inr (.goesOn hs h.within hx h.toSameBudget)

/-- So does a step between two of them. -/
theorem inside_turn (hs : s.run.within = true) (hx : s.classifiedAt e = none)
    (h : runStep c φ s e = some t) : t.run.over = true ∨ Turn c s e t := by
  cases hrun : s.run with
  | creating i =>
      rw [runStep, hrun] at h
      cases e <;> simp only [resume, reduceCtorEq] at h
      rename_i ok late now
      cases ok with
      | false => simp [classifiedAt, exitAt, hrun] at hx
      | true =>
          simp only [ite_true, Option.map_eq_some_iff] at h
          obtain ⟨r, -, rfl⟩ := h
          unfold register
          rcases notify_cases φ { s with
            proc := some i, pid := some (s.child i).pid, registered := some i, readerTask := true }
            with hn | ⟨-, hn⟩ <;> rw [hn]
          · refine Inside.turn ?_ (.inr hs) hx
            have hready : ∀ u, SameBudget s u → Inside s (inTry (if r.probed then
                readyLoop φ late u else becomeReady φ u)) := by
              intro u hu
              split
              · exact ⟨hu.trans inside_readyLoop.toSameBudget, inside_readyLoop.within⟩
              · exact ⟨hu.trans inside_becomeReady.toSameBudget, inside_becomeReady.within⟩
            exact hready _ ⟨rfl, rfl⟩
          · exact .inl rfl
  | probing =>
      rw [runStep, hrun] at h
      cases e <;> simp only [resume, reduceCtorEq, Option.some.injEq] at h
      subst h
      refine Inside.turn ?_ (.inr hs) hx
      split
      · exact ⟨⟨rfl, rfl⟩, rfl⟩
      · split
        · exact inside_becomeReady
        · exact ⟨⟨rfl, rfl⟩, rfl⟩
  | probeSleep =>
      rw [runStep, hrun] at h
      cases e <;> simp only [resume, reduceCtorEq, Option.some.injEq] at h
      subst h
      exact inside_readyLoop.turn (.inr hs) hx
  | waitExit =>
      rw [runStep, hrun] at h
      cases e <;> simp only [resume, reduceCtorEq] at h
      split at h
      · cases h
      · obtain ⟨code, -, rfl⟩ := Option.map_eq_some_iff.mp h
        exact Inside.turn ⟨⟨rfl, rfl⟩, rfl⟩ (.inr hs) hx
  | joinGate r =>
      rw [runStep, hrun] at h
      cases e <;> simp only [resume, reduceCtorEq, Option.some.injEq] at h
      subst h
      unfold joinPath
      split
      · exact .inl rfl
      · exact Inside.turn ⟨⟨rfl, rfl⟩, rfl⟩ (.inr hs) hx
  | joinPath r =>
      rw [runStep, hrun] at h
      cases e <;> simp only [resume, reduceCtorEq, Option.some.injEq] at h
      rename_i now
      subst h
      unfold leaveFinally
      split
      · exact .inl rfl
      · rename_i hpath
        cases r with
        | raised f => exact .inl rfl
        | exited code =>
            rcases sweep_cases φ s with hw | ⟨_, hw⟩
            · simp only [bind, Except.bind, hw]
              split
              · exact Inside.turn ⟨⟨rfl, rfl⟩, rfl⟩ (.inr hs) hx
              · rename_i hreader
                simp [classifiedAt, exitAt, hrun, hpath, hreader] at hx
            · simp only [bind, Except.bind, hw]
              exact .inl rfl
  | drain code =>
      rw [runStep, hrun] at h
      cases e <;> simp only [resume, reduceCtorEq, Option.some.injEq] at h
      rename_i r now
      subst h
      cases r with
      | raised => exact .inl rfl
      | _ => simp [classifiedAt, exitAt, hrun] at hx
  | _ =>
      rw [hrun] at hs
      cases hs

/-- The check of the gates at the top of the loop. -/
private theorem gateCheck_turn (hrun : s.run = .gateCheck) (h : runStep c φ s e = some t) :
    t.run.over = true ∨ Turn c s e t := by
  rw [runStep, hrun] at h
  cases e <;> simp only [resume, reduceCtorEq, Option.some.injEq] at h
  rename_i r now
  subst h
  cases r with
  | ok => exact (lands_beginSpawn s).imp_right fun hl => .opens hrun hl.1 hl.2
  | failing names =>
      exact (lands_block names s).imp_right fun hl =>
        .blocks hrun hl.1 hl.2.failTimes hl.2.failed
  | raised => exact .inl rfl

/-- The recheck of a blocked service. -/
private theorem blockCheck_turn (hrun : s.run = .blockCheck) (h : runStep c φ s e = some t) :
    t.run.over = true ∨ Turn c s e t := by
  rw [runStep, hrun] at h
  cases e <;> simp only [resume, reduceCtorEq, Option.some.injEq] at h
  rename_i r now
  subst h
  cases r with
  | ok =>
      have hlands : Lands (Loops c) s (settle (do
          let s ← logNote φ { s with blockedOn := [] }
          loopTop c φ s)) :=
        .of_same (.logNote_bind (lands_loopTop { s with blockedOn := [] })) ⟨rfl, rfl⟩
      exact hlands.imp_right fun hl => .unblocks hrun hl.1 hl.2
  | failing names =>
      dsimp only
      split
      · exact (lands_blockLoop s).imp_right fun hl => .staysBlocked hrun hl.1 hl.2
      · have hlands : Lands (· = .blockSleep) s (settle (do
            let s ← notify φ { s with blockedOn := names }
            blockLoop c φ s)) :=
          .of_same (.notify_bind (.of_same (lands_blockLoop _) ⟨rfl, rfl⟩)) ⟨rfl, rfl⟩
        exact hlands.imp_right fun hl => .staysBlocked hrun hl.1 hl.2
  | raised => exact .inl rfl

/-- A render that leads to a process. -/
private theorem rendering_turn (hrun : s.run = .rendering) (hx : s.classifiedAt e = none)
    (h : runStep c φ s e = some t) : t.run.over = true ∨ Turn c s e t := by
  rw [runStep, hrun] at h
  cases e <;> simp only [resume, reduceCtorEq, Option.some.injEq] at h
  rename_i r now
  subst h
  cases r with
  | ok r forked =>
      cases forked with
      | some pid =>
          dsimp only
          rcases logNote_cases φ { s with rendered := some r } with hn | ⟨f, _, hn⟩ <;> rw [hn]
          · exact .inr (.goesOn (.inl hrun) rfl hx ⟨rfl, rfl⟩)
          · exact .inl rfl
      | none => simp [classifiedAt, exitAt, hrun] at hx
  | prepFailed => simp [classifiedAt, exitAt, hrun] at hx
  | raised => exact .inl rfl

/-- The check of the gates after an exit. -/
private theorem exitGate_turn {code : ℤ} (hrun : s.run = .exitGate code)
    (hx : s.classifiedAt e = none) (h : runStep c φ s e = some t) :
    t.run.over = true ∨ Turn c s e t := by
  rw [runStep, hrun] at h
  cases e <;> simp only [resume, reduceCtorEq, Option.some.injEq] at h
  rename_i r now
  subst h
  cases r with
  | ok =>
      have hcharged : s.chargedAt c (.gates .ok now) = some (code, now) := by
        simp only [chargedAt, hx, chargeAt, hrun]
      exact (lands_charge now code s).imp_right fun hl =>
        .charged hcharged hl.1 hl.2.failTimes hl.2.failed
  | failing names =>
      exact (Lands.logNote_bind (lands_loopTop s)).imp_right fun hl =>
        .excuses hrun hl.1 hl.2
  | raised => exact .inl rfl

/-- A step of the run loop ends the run or is a turn. -/
theorem runStep_turn (h : runStep c φ s e = some t) : t.run.over = true ∨ Turn c s e t := by
  cases hx : s.classifiedAt e with
  | some x =>
      rcases classifiedAt_eq h hx with ⟨f, -, hf⟩ | ⟨u, hu, rfl⟩
      · exact .inl (by rw [hf]; rfl)
      · exact afterExit_turn hx hu
  | none =>
  cases hrun : s.run with
  | created =>
      rw [runStep, hrun] at h
      cases e <;> simp only [resume, reduceCtorEq, Option.some.injEq] at h
      subst h
      exact (lands_depLoop 0 s).imp_right fun hl => .waits (.inl hrun) hl.1 hl.2
  | depWait i =>
      rw [runStep, hrun] at h
      cases e <;> simp only [resume, reduceCtorEq, Option.some.injEq] at h
      subst h
      split
      · left
        rcases setState_cases φ .stopped s with ⟨n, hn⟩ | ⟨_, hn⟩ <;> rw [hn] <;> rfl
      · exact (lands_depLoop (i + 1) s).imp_right fun hl => .waits (.inr ⟨i, hrun⟩) hl.1 hl.2
  | gateCheck => exact gateCheck_turn hrun h
  | blockSleep =>
      rw [runStep, hrun] at h
      cases e <;> simp only [resume, reduceCtorEq, Option.some.injEq] at h
      subst h
      split
      · exact .inl (settle_loopTop_stopped ‹_›)
      · exact .inr (.rechecks hrun (by simpa using ‹¬ s.stopEvent = true›) rfl ⟨rfl, rfl⟩)
  | blockCheck => exact blockCheck_turn hrun h
  | rendering => exact rendering_turn hrun hx h
  | exitGate code => exact exitGate_turn hrun hx h
  | backoff delay =>
      rw [runStep, hrun] at h
      cases e <;> simp only [resume, reduceCtorEq, Option.some.injEq] at h
      subst h
      by_cases hstop : s.stopEvent = true
      · exact .inl (settle_loopTop_stopped hstop)
      · exact (lands_loopTop s).imp_right fun hl =>
          .resumes hrun (by simpa using hstop) hl.1 hl.2
  | returned | raised f | cancelled =>
      rw [runStep_over c φ (by rw [hrun]; rfl)] at h
      cases h
  | _ => exact inside_turn (by rw [hrun]; rfl) hx h

end Service

end Jetty.Orchestrator
