import Jetty.Orchestrator.Service.Blocks

/-!
# What a step of the run loop can do

The inversion of `runStep`: every resumption of the run loop is bookkeeping between two
incarnations, one of the stages of an incarnation, or an exception. Proofs about the run
loop go by cases on these effects and never unfold the step.
-/

namespace Jetty.Orchestrator

namespace Service

/-- The step is the code the `try` body of `_run_once` runs in a live incarnation; `b`: it
may find the service ready. -/
structure Stays (φ : Option Fault) (b : Prop) (s t : Service) : Prop where
  run : t.run = .waitExit ∨ t.run = .probing ∨ t.run = .probeSleep ∨
    ∃ f, φ = some f ∧ t.run = .joinGate (.raised f)
  stopEvent : t.stopEvent = s.stopEvent
  bounceRequested : t.bounceRequested = s.bounceRequested
  gateStop : t.gateStop = s.gateStop
  proc : t.proc = s.proc
  registered : t.registered = s.registered
  spawned : t.spawned = s.spawned
  bounces : t.bounces = s.bounces
  stop : t.stop = s.stop
  rendered : t.rendered = s.rendered
  failed : t.failed = s.failed
  gateWatch : t.gateWatch = s.gateWatch ∨ t.gateWatch = cancelled s.gateWatch
  pathWatch : t.pathWatch = s.pathWatch
  baseline : t.baseline = s.baseline
  previous : t.previous = s.previous
  child : Swept s t.child
  ready : t.state = s.state ∧ t.readyEvent = s.readyEvent ∨ b

/-- The exit whose classification starts in this step, and when. -/
def exitAt (s : Service) (e : RunEvent) : Option (ℤ × ℚ) :=
  match s.run, e with
  | .rendering, .rendered .prepFailed now => some (127, now)
  | .rendering, .rendered (.ok _ none) now => some (127, now)
  | .creating _, .connected false _ now => some (127, now)
  | .joinPath (.exited code), .joined now => if s.readerTask then none else some (code, now)
  | .drain code, .drained .ok now => some (code, now)
  | .drain code, .drained .timeout now => some (code, now)
  | _, _ => none

/-- The exit that this step charges once all gates have passed, and when. -/
def chargeAt (s : Service) (e : RunEvent) : Option (ℤ × ℚ) :=
  match s.run, e with
  | .exitGate code, .gates .ok now => some (code, now)
  | _, _ => none

/-- The step fails the instance: the exit it classifies has a `no_restart_exit` code or is
charged to an exhausted budget. -/
def Fails (c : ServiceSetup) (s : Service) (e : RunEvent) : Prop :=
  (∃ x ∈ s.exitAt e, s.FailsAt c x.2 x.1) ∨ ∃ x ∈ s.chargeAt e, s.exhausted c x.2

instance (c : ServiceSetup) (s : Service) (e : RunEvent) : Decidable (s.Fails c e) :=
  inferInstanceAs (Decidable (_ ∨ _))

/-- The step charges an exit within the budget whose backoff is not a float. -/
def Overflows (c : ServiceSetup) (s : Service) (e : RunEvent) : Prop :=
  (∃ x ∈ s.exitAt e, s.ChargeOverflowsAt c x.2 x.1) ∨ ∃ x ∈ s.chargeAt e, s.OverflowsAt c x.2

/-- The gate check at the top of the loop passes. -/
def Opens (s : Service) (e : RunEvent) : Prop :=
  match s.run, e with
  | .gateCheck, .gates .ok _ => True
  | _, _ => False

instance (s : Service) (e : RunEvent) : Decidable (s.Opens e) := by
  unfold Opens
  generalize s.run = pc
  rcases pc <;> try infer_instance
  rcases e <;> try infer_instance
  rename_i r _
  rcases r <;> infer_instance

/-- The exception the awaited operation itself raised. -/
def raises : RunEvent → Option Fault
  | .gates .raised _ => some .gate
  | .rendered .raised _ => some .render
  | .drained .raised _ => some .reader
  | _ => none

/-- The run loop has assigned `self.proc`, registered the session and created the watchers. -/
def attach (c : ServiceSetup) (i n : ℕ) (r : RenderedService) (s : Service) : Service :=
  { s with
    proc := some i
    pid := some (s.child i).pid
    registered := some i
    readerTask := true
    notified := n
    gateWatch := if c.continuousRequires = [] then .absent else .created
    pathWatch := if r.watch = [] then .absent else .created }

/-- The effects of one resumption of the run loop. -/
inductive RunEffect (c : ServiceSetup) (φ : Option Fault) (s : Service) :
    RunEvent → Service → Prop
  /-- Bookkeeping between two incarnations. -/
  | idle {e : RunEvent} {t : Service} : s.run.idle = true →
      Books φ (s.Overflows c e) (s.Fails c e) (s.Opens e) s t → RunEffect c φ s e t
  /-- A block's sleep is over. -/
  | recheck {late : Bool} : s.run = .blockSleep → s.stopEvent = false →
      RunEffect c φ s (.slept late) { s with run := .blockCheck }
  /-- The sweep of the incarnation that has ended raises. -/
  | sweepRaises {code : ℤ} {now : ℚ} {t : Service} : s.run = .joinPath (.exited code) →
      φ = some .sweep → t = { s with child := s.sweepRaised.child, run := .raised .sweep } →
      RunEffect c φ s (.joined now) t
  /-- An exception that is not caught. -/
  | raised {e : RunEvent} {f : Fault} {t : Service} :
      raises e = some f ∨ f = .watcher ∧ (s.gateWatch = .died ∨ s.pathWatch = .died) ∨
        s.run = .joinPath (.raised f) →
      (∀ i, s.run ≠ .creating i) → t = { s with run := .raised f } → RunEffect c φ s e t
  | forked {r : RenderedService} {pid : ℕ} {now : ℚ} : s.run = .rendering →
      RunEffect c φ s (.rendered (.ok r (some pid)) now)
        (({ s with rendered := some r } : Service).fork pid)
  /-- The new process is registered and its watchers are created. -/
  | attached {i n : ℕ} {late : Bool} {now : ℚ} {r : RenderedService} {t : Service} :
      s.run = .creating i → s.rendered = some r →
      Stays φ (r.probed = false) (s.attach c i n r) t →
      RunEffect c φ s (.connected true late now) t
  /-- The notification of the new process raises. -/
  | attachRaised {i : ℕ} {late : Bool} {now : ℚ} {t : Service} :
      s.run = .creating i → φ = some .notify →
      t = { s with proc := some i, pid := some (s.child i).pid, registered := some i,
                   readerTask := true, run := .raised .notify } →
      RunEffect c φ s (.connected true late now) t
  | connectFailed {i : ℕ} {late : Bool} {now : ℚ} {t : Service} : s.run = .creating i →
      Books φ (s.Overflows c (.connected false late now)) (s.Fails c (.connected false late now))
        False (s.setChild i (s.child i).kill.reap) t →
      RunEffect c φ s (.connected false late now) t
  /-- The readiness probe passes. -/
  | probed {t : Service} : s.run = .probing → Stays φ True s t →
      RunEffect c φ s (.probed true) t
  /-- The readiness loop goes on or gives up. -/
  | waits {e : RunEvent} {t : Service} : s.run = .probing ∨ s.run = .probeSleep →
      Stays φ False s t → RunEffect c φ s e t
  | exited {i : ℕ} {code : ℤ} : s.run = .waitExit → s.proc = some i →
      (s.child i).returncode = some code →
      RunEffect c φ s .exited (s.leaveTry (.exited code))
  /-- The gate watcher has ended; the path watcher is next. -/
  | joined {r : Ending} {now : ℚ} : s.run = .joinGate r →
      RunEffect c φ s (.joined now)
        { s with pathWatch := cancelled s.pathWatch, run := .joinPath r }
  | drains {code : ℤ} {now : ℚ} : s.run = .joinPath (.exited code) →
      RunEffect c φ s (.joined now) { s with child := s.sweepKill.child, run := .drain code }
  /-- The exit is classified. -/
  | classified {e : RunEvent} {u t : Service} {code : ℤ} :
      s.run = .joinPath (.exited code) ∧ u = { s with child := s.sweepKill.child } ∨
        s.run = .drain code ∧ u = s →
      Books φ (s.Overflows c e) (s.Fails c e) False u t →
      (t.run.idle = true → (s.exitAt e).isSome = true ∧ s.stopEvent = false ∧
        (¬ (s.gateStop = true ∧ s.bounceRequested = true) →
          t.bounceRequested = false ∧ t.gateStop = false)) → RunEffect c φ s e t

variable {c : ServiceSetup} {φ : Option Fault} {s t : Service} {e : RunEvent}

/-! ### The `try` body -/

/-- An exception in the `try` body leaves it through the `finally` clause. -/
theorem stays_error {f : Fault} {b : Prop} {st : ServiceState} {ch : ℕ → Child}
    (hφ : φ = some f) (hready : st = s.state ∨ b) (hch : Swept s ch) :
    Stays φ b s (({ s with state := st, child := ch } : Service).leaveTry (.raised f)) where
  run := .inr (.inr (.inr ⟨f, hφ, rfl⟩))
  stopEvent := rfl
  bounceRequested := rfl
  gateStop := rfl
  proc := rfl
  registered := rfl
  spawned := rfl
  bounces := rfl
  stop := rfl
  rendered := rfl
  failed := rfl
  gateWatch := .inr rfl
  pathWatch := rfl
  baseline := rfl
  previous := rfl
  child := hch
  ready := hready.imp_left fun h => ⟨h, rfl⟩

/-- The `try` body suspends without an exception. -/
theorem stays_suspend {b : Prop} {pc : RunPc} {st : ServiceState} {n : ℕ} {ready : Bool}
    {ch : ℕ → Child} (hpc : pc = .waitExit ∨ pc = .probing ∨ pc = .probeSleep)
    (hready : st = s.state ∧ ready = s.readyEvent ∨ b) (hch : Swept s ch) :
    Stays φ b s
      { s with state := st, notified := n, readyEvent := ready, child := ch, run := pc } where
  run := by rcases hpc with h | h | h <;> simp [h]
  stopEvent := rfl
  bounceRequested := rfl
  gateStop := rfl
  proc := rfl
  registered := rfl
  spawned := rfl
  bounces := rfl
  stop := rfl
  rendered := rfl
  failed := rfl
  gateWatch := .inl rfl
  pathWatch := rfl
  baseline := rfl
  previous := rfl
  child := hch
  ready := hready

private theorem stays_becomeReady : Stays φ True s (inTry (becomeReady φ s)) := by
  unfold becomeReady
  rcases setState_cases φ .running s with ⟨n, hn⟩ | ⟨hφ, hn⟩
  · rw [hn]
    exact stays_suspend (.inl rfl) (.inr trivial) (.refl s)
  · rw [hn]
    exact stays_error hφ (.inr trivial) (.refl s)

private theorem stays_readyLoop {late : Bool} : Stays φ False s (inTry (readyLoop φ late s)) := by
  unfold readyLoop
  split
  · exact stays_suspend (.inl rfl) (.inl ⟨rfl, rfl⟩) (.refl s)
  · split
    · rcases logNote_cases φ s with hn | ⟨f, hφ, hn⟩
      · rw [hn]
        rcases sweep_cases φ s with hw | ⟨hφ, hw⟩
        · simp only [bind, Except.bind, hw]
          exact stays_suspend (.inl rfl) (.inl ⟨rfl, rfl⟩) (swept_sweepKill s)
        · simp only [bind, Except.bind, hw]
          exact stays_error hφ (.inl rfl) (swept_sweepRaised s)
      · rw [hn]
        exact stays_error hφ (.inl rfl) (.refl s)
    · split
      · exact stays_suspend (.inr (.inl rfl)) (.inl ⟨rfl, rfl⟩) (.refl s)
      · exact stays_suspend (.inl rfl) (.inl ⟨rfl, rfl⟩) (.refl s)

private theorem Stays.mono {b b' : Prop} (h : Stays φ b s t) (hb : b → b') : Stays φ b' s t :=
  { h with ready := h.ready.imp_right hb }

/-! ### Inversion -/

private theorem idle_of_books {g : Prop} (hidle : s.run.idle = true)
    (h : Books φ False False g s t) (hg : g → s.Opens e) : RunEffect c φ s e t :=
  .idle hidle { h.mono False.elim False.elim with calm := fun hs hn => h.calm hs (hn ∘ hg) }

private theorem created_effect (hrun : s.run = .created)
    (h : runStep c φ s e = some t) : RunEffect c φ s e t := by
  have hidle : s.run.idle = true := by rw [hrun]; rfl
  rw [runStep, hrun] at h
  cases e <;> simp only [resume, reduceCtorEq, Option.some.injEq] at h
  subst h
  exact idle_of_books hidle books_depLoop False.elim

private theorem depWait_effect {i : ℕ} (hrun : s.run = .depWait i)
    (h : runStep c φ s e = some t) : RunEffect c φ s e t := by
  have hidle : s.run.idle = true := by rw [hrun]; rfl
  rw [runStep, hrun] at h
  cases e <;> simp only [resume, reduceCtorEq, Option.some.injEq] at h
  subst h
  split
  · exact idle_of_books hidle (books_stopped ‹_›) False.elim
  · exact idle_of_books hidle books_depLoop False.elim

private theorem gateCheck_effect (hrun : s.run = .gateCheck)
    (h : runStep c φ s e = some t) : RunEffect c φ s e t := by
  have hidle : s.run.idle = true := by rw [hrun]; rfl
  rw [runStep, hrun] at h
  cases e <;> simp only [resume, reduceCtorEq, Option.some.injEq] at h
  subst h
  rename_i r now
  cases r with
  | ok =>
      have hopen : s.Opens (.gates .ok now) := by simp only [Opens, hrun]
      exact idle_of_books hidle (books_beginSpawn fun _ => hopen) id
  | failing names => exact idle_of_books hidle books_block False.elim
  | raised => exact .raised (.inl rfl) (by simp [hrun]) rfl

private theorem blockSleep_effect (hrun : s.run = .blockSleep)
    (h : runStep c φ s e = some t) : RunEffect c φ s e t := by
  have hidle : s.run.idle = true := by rw [hrun]; rfl
  rw [runStep, hrun] at h
  cases e <;> simp only [resume, reduceCtorEq, Option.some.injEq] at h
  subst h
  split
  · exact idle_of_books hidle books_loopTop False.elim
  · rename_i hs
    exact .recheck hrun (Bool.not_eq_true _ ▸ hs)

private theorem blockCheck_effect (hrun : s.run = .blockCheck)
    (h : runStep c φ s e = some t) : RunEffect c φ s e t := by
  have hidle : s.run.idle = true := by rw [hrun]; rfl
  rw [runStep, hrun] at h
  cases e <;> simp only [resume, reduceCtorEq, Option.some.injEq] at h
  subst h
  rename_i r now
  cases r with
  | ok =>
      refine idle_of_books hidle ?_ False.elim
      dsimp only
      apply Books.of_keeps { s with blockedOn := [] } { Keeps.refl s with } rfl fun _ => rfl
      exact .logNote_bind books_loopTop
  | failing names =>
      refine idle_of_books hidle ?_ False.elim
      dsimp only
      split
      · exact books_blockLoop
      · refine .notify_bind { Keeps.refl s with } rfl (fun _ => rfl) ?_
        refine .of_keeps _ ?_ ?_ ?_ books_blockLoop
        · exact { Keeps.refl s with }
        · rfl
        · exact fun _ => rfl
  | raised => exact .raised (.inl rfl) (by simp [hrun]) rfl

private theorem rendering_effect (hrun : s.run = .rendering)
    (h : runStep c φ s e = some t) : RunEffect c φ s e t := by
  have hidle : s.run.idle = true := by rw [hrun]; rfl
  rw [runStep, hrun] at h
  cases e <;> simp only [resume, reduceCtorEq, Option.some.injEq] at h
  subst h
  rename_i r now
  cases r with
  | ok r forked =>
      have hk : Keeps s { s with rendered := some r } := { Keeps.refl s with }
      dsimp only
      rcases logNote_cases φ { s with rendered := some r } with hn | ⟨f, hφ, hn⟩
      · rw [hn]
        cases forked with
        | some pid => exact .forked hrun
        | none =>
            have hx : s.exitAt (.rendered (.ok r none) now) = some (127, now) := by
              simp only [exitAt, hrun]
            refine .idle hidle (.of_keeps { s with rendered := some r } hk rfl (fun _ => rfl) ?_)
            exact books_spawnFailed.mono (fun h => .inl ⟨_, hx, h⟩) fun h => .inl ⟨_, hx, h⟩
      · rw [hn]
        exact .idle hidle (.error hφ hk rfl fun _ _ _ => rfl)
  | prepFailed =>
      have hx : s.exitAt (.rendered .prepFailed now) = some (127, now) := by
        simp only [exitAt, hrun]
      exact .idle hidle
        (books_spawnFailed.mono (fun h => .inl ⟨_, hx, h⟩) fun h => .inl ⟨_, hx, h⟩)
  | raised => exact .raised (.inl rfl) (by simp [hrun]) rfl

private theorem creating_effect {i : ℕ} (hrun : s.run = .creating i)
    (h : runStep c φ s e = some t) : RunEffect c φ s e t := by
  rw [runStep, hrun] at h
  cases e <;> simp only [resume, reduceCtorEq] at h
  rename_i ok late now
  cases ok with
  | false =>
      simp only [Bool.false_eq_true, ite_false, Option.some.injEq] at h
      subst h
      have hx : s.exitAt (.connected false late now) = some (127, now) := by
        simp only [exitAt, hrun]
      exact .connectFailed hrun
        (books_spawnFailed.mono (fun h => .inl ⟨_, hx, h⟩) fun h => .inl ⟨_, hx, h⟩)
  | true =>
      simp only [ite_true, Option.map_eq_some_iff] at h
      obtain ⟨r, hr, rfl⟩ := h
      unfold register
      rcases notify_cases φ { s with
        proc := some i, pid := some (s.child i).pid, registered := some i, readerTask := true }
        with hn | ⟨hφ, hn⟩
      · simp only [hn]
        refine .attached (n := s.notified + 1) hrun hr ?_
        simp only [enterTry]
        split
        · exact stays_readyLoop.mono False.elim
        · exact stays_becomeReady.mono fun _ => by simpa using ‹¬ r.probed = true›
      · simp only [hn]
        exact .attachRaised hrun hφ rfl

private theorem probing_effect (hrun : s.run = .probing)
    (h : runStep c φ s e = some t) : RunEffect c φ s e t := by
  rw [runStep, hrun] at h
  cases e <;> simp only [resume, reduceCtorEq, Option.some.injEq] at h
  subst h
  rename_i ok
  split
  · exact .waits (.inl hrun) (stays_error ‹_› (.inl rfl) (.refl s))
  · cases ok with
    | true => exact .probed hrun stays_becomeReady
    | false =>
        exact .waits (.inl hrun) (stays_suspend (.inr (.inr rfl)) (.inl ⟨rfl, rfl⟩) (.refl s))

private theorem probeSleep_effect (hrun : s.run = .probeSleep)
    (h : runStep c φ s e = some t) : RunEffect c φ s e t := by
  rw [runStep, hrun] at h
  cases e <;> simp only [resume, reduceCtorEq, Option.some.injEq] at h
  subst h
  exact .waits (.inr hrun) stays_readyLoop

private theorem waitExit_effect (hrun : s.run = .waitExit)
    (h : runStep c φ s e = some t) : RunEffect c φ s e t := by
  rw [runStep, hrun] at h
  cases e <;> simp only [resume, reduceCtorEq] at h
  split at h
  · cases h
  · rename_i i hi
    obtain ⟨code, hcode, rfl⟩ := Option.map_eq_some_iff.mp h
    exact .exited hrun hi hcode

private theorem joinGate_effect {r : Ending} (hrun : s.run = .joinGate r)
    (h : runStep c φ s e = some t) : RunEffect c φ s e t := by
  rw [runStep, hrun] at h
  cases e <;> simp only [resume, reduceCtorEq, Option.some.injEq] at h
  subst h
  unfold joinPath
  split
  · exact .raised (.inr (.inl ⟨rfl, .inl ‹_›⟩)) (by simp [hrun]) rfl
  · exact .joined hrun

private theorem finishOnce_flags {now : ℚ} {code : ℤ}
    (hidle : (settle (finishOnce c φ now code s)).run.idle = true) :
    s.stopEvent = false ∧ (¬ (s.gateStop = true ∧ s.bounceRequested = true) →
      (settle (finishOnce c φ now code s)).bounceRequested = false ∧
        (settle (finishOnce c φ now code s)).gateStop = false) := by
  unfold finishOnce at hidle ⊢
  rcases closeLog_cases φ { s with readerTask := false } with hn | ⟨-, hn⟩
  · simp only [bind, Except.bind, hn] at hidle ⊢
    exact afterExit_flags hidle
  · simp only [bind, Except.bind, hn] at hidle
    cases hidle

private theorem joinPath_effect {r : Ending} (hrun : s.run = .joinPath r)
    (h : runStep c φ s e = some t) : RunEffect c φ s e t := by
  rw [runStep, hrun] at h
  cases e <;> simp only [resume, reduceCtorEq, Option.some.injEq] at h
  subst h
  rename_i now
  unfold leaveFinally
  split
  · exact .raised (.inr (.inl ⟨rfl, .inr ‹_›⟩)) (by simp [hrun]) rfl
  · cases r with
    | raised f => exact .raised (.inr (.inr hrun)) (by simp [hrun]) rfl
    | exited code =>
        rcases sweep_cases φ s with hw | ⟨hφ, hw⟩
        · simp only [bind, Except.bind, hw]
          split
          · exact .drains hrun
          · rename_i hreader
            have hx : s.exitAt (.joined now) = some (code, now) := by
              simp only [exitAt, hrun, if_neg hreader]
            exact .classified (.inl ⟨hrun, rfl⟩)
              (books_finishOnce.mono (fun h => .inl ⟨_, hx, h⟩) fun h => .inl ⟨_, hx, h⟩)
              fun hidle => ⟨by rw [hx]; rfl, finishOnce_flags hidle⟩
        · simp only [bind, Except.bind, hw]
          exact .sweepRaises hrun hφ rfl

private theorem drain_effect {code : ℤ} (hrun : s.run = .drain code)
    (h : runStep c φ s e = some t) : RunEffect c φ s e t := by
  rw [runStep, hrun] at h
  cases e <;> simp only [resume, reduceCtorEq, Option.some.injEq] at h
  subst h
  rename_i r now
  cases r with
  | ok =>
      have hx : s.exitAt (.drained .ok now) = some (code, now) := by simp only [exitAt, hrun]
      exact .classified (.inr ⟨hrun, rfl⟩)
        (books_finishOnce.mono (fun h => .inl ⟨_, hx, h⟩) fun h => .inl ⟨_, hx, h⟩)
        fun hidle => ⟨by rw [hx]; rfl, finishOnce_flags hidle⟩
  | timeout =>
      have hx : s.exitAt (.drained .timeout now) = some (code, now) := by simp only [exitAt, hrun]
      refine .classified (.inr ⟨hrun, rfl⟩)
        (.logNote_bind (books_finishOnce.mono (fun h => .inl ⟨_, hx, h⟩) fun h => .inl ⟨_, hx, h⟩))
        fun hidle => ?_
      rcases logNote_cases φ s with hn | ⟨f, hφ, hn⟩
      · simp only [hn] at hidle ⊢
        exact ⟨by rw [hx]; rfl, finishOnce_flags hidle⟩
      · simp only [hn] at hidle
        cases hidle
  | raised => exact .raised (.inl rfl) (by simp [hrun]) rfl

private theorem exitGate_effect {code : ℤ} (hrun : s.run = .exitGate code)
    (h : runStep c φ s e = some t) : RunEffect c φ s e t := by
  have hidle : s.run.idle = true := by rw [hrun]; rfl
  rw [runStep, hrun] at h
  cases e <;> simp only [resume, reduceCtorEq, Option.some.injEq] at h
  subst h
  rename_i r now
  cases r with
  | ok =>
      have hx : s.chargeAt (.gates .ok now) = some (code, now) := by simp only [chargeAt, hrun]
      exact .idle hidle (books_charge.mono (fun h => .inr ⟨_, hx, h⟩) fun h => .inr ⟨_, hx, h⟩)
  | failing names => exact idle_of_books hidle (.logNote_bind books_loopTop) False.elim
  | raised => exact .raised (.inl rfl) (by simp [hrun]) rfl

private theorem backoff_effect {delay : Duration} (hrun : s.run = .backoff delay)
    (h : runStep c φ s e = some t) : RunEffect c φ s e t := by
  have hidle : s.run.idle = true := by rw [hrun]; rfl
  rw [runStep, hrun] at h
  cases e <;> simp only [resume, reduceCtorEq, Option.some.injEq] at h
  subst h
  exact idle_of_books hidle books_loopTop False.elim

/-- Every resumption of the run loop has one of the listed effects. -/
theorem runStep_effect (h : runStep c φ s e = some t) : RunEffect c φ s e t := by
  cases hrun : s.run with
  | created => exact created_effect hrun h
  | depWait i => exact depWait_effect hrun h
  | gateCheck => exact gateCheck_effect hrun h
  | blockSleep => exact blockSleep_effect hrun h
  | blockCheck => exact blockCheck_effect hrun h
  | rendering => exact rendering_effect hrun h
  | creating i => exact creating_effect hrun h
  | probing => exact probing_effect hrun h
  | probeSleep => exact probeSleep_effect hrun h
  | waitExit => exact waitExit_effect hrun h
  | joinGate r => exact joinGate_effect hrun h
  | joinPath r => exact joinPath_effect hrun h
  | drain code => exact drain_effect hrun h
  | exitGate code => exact exitGate_effect hrun h
  | backoff delay => exact backoff_effect hrun h
  | returned | raised f | cancelled =>
      rw [runStep_over c φ (by rw [hrun]; rfl)] at h
      cases h

/-- The run loop invokes the fail callback only where it classifies an exit as a failure. -/
theorem RunEffect.failed {e : RunEvent} (h : RunEffect c φ s e t) :
    t.failed = s.failed ∨ s.Fails c e := by
  cases h with
  | idle _ hb => exact hb.failed
  | raised _ _ ht | attachRaised _ _ ht =>
      subst ht
      exact .inl rfl
  | connectFailed _ hb => exact hb.failed
  | attached _ _ hst => exact .inl hst.failed
  | probed _ hst | waits _ hst => exact .inl hst.failed
  | sweepRaises _ _ ht =>
      subst ht
      exact .inl rfl
  | classified hu hb _ => rcases hu with ⟨-, rfl⟩ | ⟨-, rfl⟩ <;> exact hb.failed
  | recheck | forked | exited | joined | drains => exact .inl rfl

end Service

end Jetty.Orchestrator
