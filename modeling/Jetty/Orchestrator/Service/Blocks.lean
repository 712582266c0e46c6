import Jetty.Orchestrator.Service.Step

/-!
# What the run loop's straight-line code does

One specification per piece of code between two `await`s of the run loop, apart from
the `try` body of `_run_once`: which attributes it leaves alone, where it suspends or
ends, and under which conditions it raises or fails the instance.
-/

namespace Jetty.Orchestrator

/-- No incarnation is up or being created. -/
def RunPc.idle : RunPc → Bool
  | .created | .depWait _ | .gateCheck | .blockSleep | .blockCheck | .rendering
  | .exitGate _ | .backoff _ => true
  | _ => false

/-- Where a piece of code outside `_run_once`'s `try` body can leave the run loop. -/
def RunPc.parked (pc : RunPc) : Bool := pc.idle || pc.over

/-- The states of a service that is coming up or up. -/
def ServiceState.launching : ServiceState → Bool
  | .starting | .running => true
  | _ => false

namespace Service

/-- The attributes that only the watchers, `restart`, `stop`, the processes and the run
loop's spawn change; a request flag is at most consumed. -/
structure Keeps (s t : Service) : Prop where
  stopEvent : t.stopEvent = s.stopEvent
  bounceRequested : t.bounceRequested = true → s.bounceRequested = true
  gateStop : t.gateStop = true → s.gateStop = true
  readyEvent : t.readyEvent = true → s.readyEvent = true
  proc : t.proc = s.proc
  gateWatch : t.gateWatch = s.gateWatch
  pathWatch : t.pathWatch = s.pathWatch
  baseline : t.baseline = s.baseline
  previous : t.previous = s.previous
  bounces : t.bounces = s.bounces
  stop : t.stop = s.stop
  spawned : t.spawned = s.spawned
  child : t.child = s.child
  registered : t.registered = s.registered

/-- How `run` may have ended if it has returned: stopped on request, or failed. -/
def Concluded (t : Service) : Prop :=
  t.stopEvent = true ∧ t.state = .stopped ∨ t.failed.isSome = true ∧ t.state = .failed

/-- The outcome `t` of code that starts in `s`; it may overflow only if `o`, fail the
instance only if `d`, and begin a spawn after a stop request only if `g`. -/
structure Books (φ : Option Fault) (o d g : Prop) (s t : Service) : Prop where
  keeps : Keeps s t
  parked : t.run.parked = true
  raised : ∀ f, t.run = .raised f → φ = some f ∨ f = .overflow ∧ o
  returned : t.run = .returned → Concluded t
  failed : t.failed = s.failed ∨ d
  calm : s.stopEvent = true → ¬ g → t.state.launching = true → t.state = s.state

/-- What changes nothing keeps what the bookkeeping keeps. -/
theorem Keeps.refl (s : Service) : Keeps s s := by constructor <;> first | rfl | exact id

private theorem Keeps.trans {s t u : Service} (h : Keeps s t) (h' : Keeps t u) : Keeps s u where
  stopEvent := h'.stopEvent.trans h.stopEvent
  bounceRequested := h.bounceRequested ∘ h'.bounceRequested
  gateStop := h.gateStop ∘ h'.gateStop
  readyEvent := h.readyEvent ∘ h'.readyEvent
  proc := h'.proc.trans h.proc
  gateWatch := h'.gateWatch.trans h.gateWatch
  pathWatch := h'.pathWatch.trans h.pathWatch
  baseline := h'.baseline.trans h.baseline
  previous := h'.previous.trans h.previous
  bounces := h'.bounces.trans h.bounces
  stop := h'.stop.trans h.stop
  spawned := h'.spawned.trans h.spawned
  child := h'.child.trans h.child
  registered := h'.registered.trans h.registered

variable {c : ServiceSetup} {φ : Option Fault} {s t : Service} {o d g : Prop}

/-- More may happen where more is allowed. -/
theorem Books.mono {o' d' : Prop} (h : Books φ o d g s t) (ho : o → o') (hd : d → d') :
    Books φ o' d' g s t where
  keeps := h.keeps
  parked := h.parked
  raised f hf := (h.raised f hf).imp_right fun ⟨hfo, hoo⟩ => ⟨hfo, ho hoo⟩
  returned := h.returned
  failed := h.failed.imp_right hd
  calm := h.calm

/-- Attributes changed before the code starts count as changes of the code. -/
theorem Books.of_keeps (u : Service) (hk : Keeps s u) (hf : u.failed = s.failed)
    (hst : u.state.launching = true → u.state = s.state)
    (h : Books φ o d g u t) : Books φ o d g s t where
  keeps := hk.trans h.keeps
  parked := h.parked
  raised := h.raised
  returned := h.returned
  failed := hf ▸ h.failed
  calm hs hr ht := by
    have hu := h.calm (hk.stopEvent.trans hs) hr ht
    exact hu.trans (hst (hu ▸ ht))

/-! ### The shared pieces run through or raise the step's fault -/

/-- `_notify` counts the notification or raises. -/
theorem notify_cases (φ : Option Fault) (s : Service) :
    notify φ s = .ok { s with notified := s.notified + 1 } ∨
      φ = some .notify ∧ notify φ s = .error (.notify, s) := by
  unfold notify
  split
  · exact .inr ⟨‹_›, rfl⟩
  · exact .inl rfl

/-- `_set_state` sets the state and notifies, or raises with the state set. -/
theorem setState_cases (φ : Option Fault) (st : ServiceState) (s : Service) :
    (∃ n, setState φ st s = .ok { s with state := st, notified := n }) ∨
      φ = some .notify ∧ setState φ st s = .error (.notify, { s with state := st }) := by
  unfold setState
  split
  · rename_i h
    exact .inl ⟨s.notified, by rw [← h]⟩
  · rcases notify_cases φ { s with state := st } with h | h
    · exact .inl ⟨s.notified + 1, h⟩
    · exact .inr h

/-- A note in the log changes nothing but may raise. -/
theorem logNote_cases (φ : Option Fault) (s : Service) :
    logNote φ s = .ok s ∨ ∃ f, φ = some f ∧ logNote φ s = .error (f, s) := by
  unfold logNote
  split
  · exact .inr ⟨_, ‹_›, rfl⟩
  · split
    · rename_i h
      exact .inr ⟨_, h.2, rfl⟩
    · split
      · exact .inr ⟨_, ‹_›, rfl⟩
      · exact .inl rfl

/-- A note that does not raise changes nothing. -/
theorem logNote_none (s : Service) : logNote none s = .ok s := by
  rcases logNote_cases none s with h | ⟨f, hf, -⟩
  · exact h
  · cases hf

/-- The end of a grace period changes nothing but may raise. -/
theorem graceOver_cases {timeout : Bool} {i : ℕ} {r : Code}
    (h : graceOver φ timeout i s = some r) : r = .ok s ∨ ∃ f, φ = some f ∧ r = .error (f, s) := by
  unfold graceOver at h
  split at h
  · obtain rfl := Option.some.inj h
    exact logNote_cases φ s
  · split at h
    · exact .inl (Option.some.inj h).symm
    · cases h

/-- `_close_log` closes the log or raises. -/
theorem closeLog_cases (φ : Option Fault) (s : Service) :
    closeLog φ s = .ok { s with logOpen := false } ∨
      φ = some .closeLog ∧ closeLog φ s = .error (.closeLog, s) := by
  unfold closeLog
  split
  · exact .inr ⟨(‹_ ∧ _›).2, rfl⟩
  · exact .inl rfl

/-- A sweep changes nothing but processes. -/
theorem sweepKill_eq (s : Service) : s.sweepKill = { s with child := s.sweepKill.child } := by
  unfold sweepKill
  split <;> rfl

/-- Nor does a sweep that raises. -/
theorem sweepRaised_eq (s : Service) :
    s.sweepRaised = { s with child := s.sweepRaised.child } := by
  unfold sweepRaised
  split <;> rfl

/-- What a sweep, complete or not, can leave of the processes. -/
def Swept (s : Service) (ch : ℕ → Child) : Prop :=
  ch = s.child ∨ ch = s.sweepKill.child ∨ ch = s.sweepRaised.child

/-- A sweep may find nobody. -/
theorem Swept.refl (s : Service) : Swept s s.child := .inl rfl

/-- A sweep that kills is a sweep. -/
theorem swept_sweepKill (s : Service) : Swept s s.sweepKill.child := .inr (.inl rfl)

/-- So is one that raises on the way. -/
theorem swept_sweepRaised (s : Service) : Swept s s.sweepRaised.child := .inr (.inr rfl)

/-- A sweep kills what it finds or raises. -/
theorem sweep_cases (φ : Option Fault) (s : Service) :
    sweep φ s = .ok { s with child := s.sweepKill.child } ∨ φ = some .sweep ∧
      sweep φ s = .error (.sweep, { s with child := s.sweepRaised.child }) := by
  unfold sweep
  split
  · exact .inr ⟨(‹_ ∧ _›).2, by rw [← sweepRaised_eq]⟩
  · exact .inl (by rw [← sweepKill_eq])

/-- A graceful sweep changes nothing yet, but may raise. -/
theorem sweepGraceful_cases (φ : Option Fault) (s : Service) :
    sweepGraceful φ s = .ok s ∨ φ = some .sweep ∧ sweepGraceful φ s = .error (.sweep, s) := by
  unfold sweepGraceful
  split
  · exact .inr ⟨(‹_ ∧ _›).2, rfl⟩
  · exact .inl rfl

/-- A graceful sweep that does not raise changes nothing yet. -/
theorem sweepGraceful_none (s : Service) : sweepGraceful none s = .ok s := by
  rcases sweepGraceful_cases none s with h | ⟨hf, -⟩
  · exact h
  · cases hf

/-- Code that raised the step's own fault. -/
theorem Books.error {s' : Service} {f : Fault} (hφ : φ = some f) (hk : Keeps s s')
    (hf : s'.failed = s.failed)
    (hst : s.stopEvent = true → ¬ g → s'.state.launching = true →
      s'.state = s.state) : Books φ o d g s (settle (.error (f, s'))) where
  keeps := { hk with }
  parked := rfl
  raised g hg := by
    obtain rfl : f = g := by simpa only [settle, RunPc.raised.injEq] using hg
    exact .inl hφ
  returned h := by simp [settle] at h
  failed := .inl hf
  calm := hst

/-- Code that suspended the run loop between two incarnations. -/
theorem Books.suspend {u : Service} {pc : RunPc} (hpc : pc.idle = true) (hk : Keeps s u)
    (hf : u.failed = s.failed)
    (hst : s.stopEvent = true → ¬ g → u.state.launching = true →
      u.state = s.state) : Books φ o d g s { u with run := pc } where
  keeps := { hk with }
  parked := by simp [RunPc.parked, hpc]
  raised f h := by simp only at h; simp [h, RunPc.idle] at hpc
  returned h := by simp only at h; simp [h, RunPc.idle] at hpc
  failed := .inl hf
  calm := hst

/-- A log note in front of code. -/
theorem Books.logNote_bind {k : Service → Code} (h : Books φ o d g s (settle (k s))) :
    Books φ o d g s (settle (logNote φ s >>= k)) := by
  rcases logNote_cases φ s with hn | ⟨f, hφ, hn⟩
  · rw [hn]
    exact h
  · rw [hn]
    exact .error hφ (.refl s) rfl fun _ _ _ => rfl

/-- Closing the log in front of code. -/
theorem Books.closeLog_bind {s' : Service} {k : Service → Code} (hk : Keeps s s')
    (hf : s'.failed = s.failed) (hst : s'.state = s.state)
    (h : Books φ o d g s (settle (k { s' with logOpen := false }))) :
    Books φ o d g s (settle (closeLog φ s' >>= k)) := by
  rcases closeLog_cases φ s' with hn | ⟨hφ, hn⟩
  · rw [hn]
    exact h
  · rw [hn]
    exact .error hφ hk hf fun _ _ _ => hst

/-- A state change in front of code. -/
theorem Books.setState_bind {st : ServiceState} {k : Service → Code}
    (hst : s.stopEvent = true → ¬ g → st.launching = false)
    (h : ∀ n, Books φ o d g s (settle (k { s with state := st, notified := n }))) :
    Books φ o d g s (settle (setState φ st s >>= k)) := by
  rcases setState_cases φ st s with ⟨n, hn⟩ | ⟨hφ, hn⟩
  · rw [hn]
    exact h n
  · rw [hn]
    exact .error hφ { Keeps.refl s with } rfl fun hs hr ht => by simp [hst hs hr] at ht

/-! ### Outside an incarnation -/

/-- `_set_state("stopped")` and the return of `run` after a stop request. -/
theorem books_stopped (hs : s.stopEvent = true) :
    Books φ o d g s (settle (do
      let s ← setState φ .stopped s
      return { s with run := .returned })) := by
  apply Books.setState_bind fun _ _ => rfl
  intro n
  exact {
    keeps := { Keeps.refl s with }
    parked := rfl
    raised := fun f h => by simp [settle, pure, Except.pure] at h
    returned := fun _ => .inl ⟨hs, rfl⟩
    failed := .inl rfl
    calm := fun _ _ h => by simp [settle, pure, Except.pure, ServiceState.launching] at h }

private theorem books_fail {r : FailReason} (hd : d) : Books φ o d g s (settle (fail φ r s)) := by
  apply Books.setState_bind fun _ _ => rfl
  intro n
  exact {
    keeps := { Keeps.refl s with }
    parked := rfl
    raised := fun f h => by simp [settle, pure, Except.pure] at h
    returned := fun _ => .inr ⟨rfl, rfl⟩
    failed := .inr hd
    calm := fun _ _ h => by simp [settle, pure, Except.pure, ServiceState.launching] at h }

/-- The beginning of a spawn is bookkeeping. -/
theorem books_beginSpawn (h : s.stopEvent = true → g) :
    Books φ o d g s (settle (beginSpawn φ s)) := by
  apply Books.setState_bind fun hs hr => absurd (h hs) hr
  intro n
  by_cases hφ : φ = some .openLog
  · rw [if_pos hφ]
    exact .error hφ { Keeps.refl s with } rfl fun hs hr => absurd (h hs) hr
  · rw [if_neg hφ]
    exact .suspend (u := { s with state := .starting, notified := n, logOpen := true }) rfl
      { Keeps.refl s with } rfl fun hs hr => absurd (h hs) hr

/-- So is the top of the loop. -/
theorem books_loopTop : Books φ o d g s (settle (loopTop c φ s)) := by
  unfold loopTop
  split
  · exact books_stopped ‹_›
  · split
    · exact .suspend rfl (.refl s) rfl fun _ _ _ => rfl
    · exact books_beginSpawn fun hs => absurd hs ‹_›

/-- So is the wait for the dependencies. -/
theorem books_depLoop {i : ℕ} : Books φ o d g s (settle (depLoop c φ i s)) := by
  unfold depLoop
  split
  · exact .suspend rfl (.refl s) rfl fun _ _ _ => rfl
  · exact books_loopTop

/-- So is the loop of a blocked service. -/
theorem books_blockLoop : Books φ o d g s (settle (blockLoop c φ s)) := by
  unfold blockLoop
  split
  · exact books_loopTop
  · exact .suspend rfl (.refl s) rfl fun _ _ _ => rfl

/-- A notification in front of code. -/
theorem Books.notify_bind {s' : Service} {k : Service → Code} (hk : Keeps s s')
    (hf : s'.failed = s.failed) (hst : s'.state.launching = true → s'.state = s.state)
    (h : Books φ o d g s (settle (k { s' with notified := s'.notified + 1 }))) :
    Books φ o d g s (settle (notify φ s' >>= k)) := by
  rcases notify_cases φ s' with hn | ⟨hφ, hn⟩
  · rw [hn]
    exact h
  · rw [hn]
    exact .error hφ hk hf fun _ _ => hst

/-- So is the entry into it. -/
theorem books_block {failing : List String} :
    Books φ o d g s (settle (block c φ failing s)) := by
  apply Books.of_keeps { s with blockedOn := failing, failTimes := [] } { Keeps.refl s with }
    rfl fun _ => rfl
  apply Books.setState_bind fun _ _ => rfl
  intro n
  refine Books.notify_bind { Keeps.refl _ with } rfl nofun ?_
  refine .of_keeps _ ?_ ?_ ?_ books_blockLoop
  · exact { Keeps.refl _ with }
  · rfl
  · exact nofun

/-! ### Exit classification -/

/-- The code raises because the backoff of one more charged exit is not a float. -/
def OverflowsAt (c : ServiceSetup) (now : ℚ) (s : Service) : Prop :=
  ¬ s.exhausted c now ∧ backoffOverflows (s.charged c now).length

/-- A charge to the budget overflows, fails the instance, or is bookkeeping. -/
theorem books_charge {now : ℚ} {code : ℤ} :
    Books φ (s.OverflowsAt c now) (s.exhausted c now) g s (settle (charge c φ now code s)) := by
  have hk : Keeps s { s with failTimes := s.charged c now, restarts := s.restarts + 1 } :=
    { Keeps.refl s with }
  unfold charge
  simp only
  split
  · rename_i hlt
    exact .of_keeps _ hk rfl (fun _ => rfl) (books_fail hlt)
  · rename_i hlt
    split
    · rename_i ho
      exact {
        keeps := { hk with }
        parked := rfl
        raised := fun f hf => by
          obtain rfl : Fault.overflow = f := by
            simpa only [settle, throw, throwThe, MonadExceptOf.throw, RunPc.raised.injEq] using hf
          exact .inr ⟨rfl, hlt, ho⟩
        returned := fun h => by simp [settle, throw, throwThe, MonadExceptOf.throw] at h
        failed := .inl rfl
        calm := fun _ _ _ => rfl }
    · apply Books.of_keeps _ hk rfl fun _ => rfl
      apply Books.logNote_bind
      apply Books.setState_bind fun _ _ => rfl
      intro n
      exact .suspend rfl { Keeps.refl _ with } rfl nofun

/-- The exit fails the instance, given that it is classified without asking the gates. -/
def FailsAt (c : ServiceSetup) (now : ℚ) (code : ℤ) (s : Service) : Prop :=
  s.classify c code = .noRestart ∨ s.classify c code = .charge ∧ s.exhausted c now

instance (now : ℚ) (code : ℤ) : Decidable (s.FailsAt c now code) :=
  inferInstanceAs (Decidable (_ ∨ _))

/-- The exit is charged and its backoff is not a float. -/
def ChargeOverflowsAt (c : ServiceSetup) (now : ℚ) (code : ℤ) (s : Service) : Prop :=
  s.classify c code = .charge ∧ s.OverflowsAt c now

/-- An exit is classified by the first of the flags that is set. -/
theorem classify_cases (code : ℤ) :
    s.classify c code = .stopping ∧ s.stopEvent = true ∨
      s.stopEvent = false ∧ (s.classify c code = .gateStopped ∧ s.gateStop = true ∨
        s.classify c code = .bounced ∧ s.gateStop = false ∧ s.bounceRequested = true ∨
        s.classify c code ∈ [.noRestart, .askGates, .charge] ∧ s.gateStop = false ∧
          s.bounceRequested = false) := by
  unfold classify
  grind

private theorem books_afterExit (now : ℚ) (code : ℤ) :
    Books φ (s.ChargeOverflowsAt c now code) (s.FailsAt c now code) g s
      (settle (afterExit c φ now code s)) := by
  unfold afterExit
  have hlast : Keeps s { s with lastExit := some code } := { Keeps.refl s with }
  cases hv : s.classify c code with
  | stopping =>
      have hs : s.stopEvent = true := by grind [classify]
      exact books_stopped hs
  | gateStopped =>
      exact .of_keeps { s with gateStop := false } { Keeps.refl s with gateStop := by simp } rfl
        (fun _ => rfl) books_loopTop
  | bounced =>
      exact .of_keeps { s with bounceRequested := false }
        { Keeps.refl s with bounceRequested := by simp } rfl (fun _ => rfl) books_loopTop
  | noRestart => exact .of_keeps _ hlast rfl (fun _ => rfl) (books_fail (.inl hv))
  | askGates => exact .suspend rfl hlast rfl fun _ _ _ => rfl
  | charge =>
      exact (Books.of_keeps _ hlast rfl (fun _ => rfl) books_charge).mono
        (fun h => ⟨hv, h⟩) fun h => .inr ⟨hv, h⟩

private theorem settle_stopped_over :
    (settle (do
      let s ← setState φ .stopped s
      return { s with run := .returned })).run.idle = false := by
  rcases setState_cases φ .stopped s with ⟨n, hn⟩ | ⟨_, hn⟩ <;> rw [hn] <;> rfl

/-- Once an exit is classified and the loop goes on, no request is left over, unless both
kinds were made against the incarnation. -/
theorem afterExit_flags {now : ℚ} {code : ℤ}
    (hidle : (settle (afterExit c φ now code s)).run.idle = true) :
    s.stopEvent = false ∧ (¬ (s.gateStop = true ∧ s.bounceRequested = true) →
      (settle (afterExit c φ now code s)).bounceRequested = false ∧
        (settle (afterExit c φ now code s)).gateStop = false) := by
  rcases classify_cases (c := c) (s := s) code with
    ⟨hv, -⟩ | ⟨hs, ⟨hv, hg⟩ | ⟨hv, hg, hb⟩ | ⟨-, hg, hb⟩⟩
  · simp only [afterExit, hv, settle_stopped_over, Bool.false_eq_true] at hidle
  · refine ⟨hs, fun hboth => ?_⟩
    have hk := (books_loopTop (c := c) (φ := φ) (o := False) (d := False) (g := False)
      (s := { s with gateStop := false })).keeps
    have hbounce := hk.bounceRequested
    have hgate := hk.gateStop
    simp only [afterExit, hv]
    grind
  · refine ⟨hs, fun _ => ?_⟩
    have hk := (books_loopTop (c := c) (φ := φ) (o := False) (d := False) (g := False)
      (s := { s with bounceRequested := false })).keeps
    have hbounce := hk.bounceRequested
    have hgate := hk.gateStop
    simp only [afterExit, hv]
    grind
  · refine ⟨hs, fun _ => ?_⟩
    have hk := (books_afterExit (c := c) (φ := φ) (g := False) (s := s) now code).keeps
    have hbounce := hk.bounceRequested
    have hgate := hk.gateStop
    grind

/-- A failed spawn is bookkeeping around the charge it leads to. -/
theorem books_spawnFailed {now : ℚ} :
    Books φ (s.ChargeOverflowsAt c now 127) (s.FailsAt c now 127) g s
      (settle (spawnFailed c φ now s)) :=
  .logNote_bind (.closeLog_bind (.refl s) rfl rfl
    (.of_keeps { s with logOpen := false } { Keeps.refl s with } rfl (fun _ => rfl)
      ((books_afterExit _ _).mono id id)))

/-- So is the end of an incarnation. -/
theorem books_finishOnce {now : ℚ} {code : ℤ} :
    Books φ (s.ChargeOverflowsAt c now code) (s.FailsAt c now code) g s
      (settle (finishOnce c φ now code s)) :=
  .closeLog_bind ({ Keeps.refl s with } : Keeps s { s with readerTask := false }) rfl rfl
    (.of_keeps { s with readerTask := false, logOpen := false, readyEvent := false, pid := none }
      { Keeps.refl s with readyEvent := by simp } rfl (fun _ => rfl)
      ((books_afterExit _ _).mono id id))

end Service

end Jetty.Orchestrator
