import Jetty.Core.Progress
import Jetty.Deadlines.Calls

/-!
# Calls complete after their deadline

Once the deadline has passed and the child has exited, the event loop and the coroutine complete
the run of a resolver on their own, and the check of a gate whose child was killed. The call of an
exec function waits for the pipes again: for the descendants that hold them, and for the end of an
output that nobody reads any more. Where the transport is closed before the deadline gets to the
coroutine, killing the child raises.
-/

namespace Jetty.Deadlines

open Transition

/-- The moves of the three coroutines. -/
inductive Goes (runner : Runner) (P : Proc) : Pc → Pc → Proc → Prop
  | returns (hclosed : P.closed = true) : Goes runner P .waiting (.finished false) P
  | kills (hrunner : runner ≠ .resolver) (hopen : P.closed = false) :
      Goes runner P .waiting .reaping P.sigkill
  | loses (hclosed : P.closed = true) (hreaped : runner = .resolver → P.reaped = false) :
      Goes runner P .waiting .lost P
  | cancels (hrunner : runner = .resolver) {P' : Proc} (hkill : P' = P ∨ P' = P.sigkill) :
      Goes runner P .waiting (.cancelling 2) P'
  | reaps (hrunner : runner ≠ .resolver) (hclosed : P.closed = true) :
      Goes runner P .reaping (.finished true) P
  | cancelled (hrunner : runner = .resolver) (left : ℕ) :
      Goes runner P (.cancelling (left + 1)) (.cancelling left) P
  | polls (hrunner : runner = .resolver) : Goes runner P (.cancelling 0) .polling P
  | polled (hrunner : runner = .resolver) : Goes runner P .polling (.finished true) P

/-- The deadline interrupts the check of a gate or the call of an exec function. -/
private theorem goes_of_kill {runner : Runner} {P P' : Proc} {pc : Pc}
    (hrunner : runner ≠ .resolver) (h : P.kill .reaping = (pc, P')) :
    Goes runner P .waiting pc P' := by
  unfold Proc.kill at h
  split at h
  next hclosed =>
    obtain ⟨rfl, rfl⟩ := Prod.mk.inj h
    exact .loses hclosed fun hresolver => absurd hresolver hrunner
  next hopen =>
    obtain ⟨rfl, rfl⟩ := Prod.mk.inj h
    exact .kills hrunner (Bool.eq_false_iff.mpr hopen)

private theorem goes_of_cancel {P P' : Proc} {pc : Pc}
    (h : (if P.reaped then (.cancelling 2, P) else P.kill (.cancelling 2)) = (pc, P')) :
    Goes .resolver P .waiting pc P' := by
  split at h
  next =>
    obtain ⟨rfl, rfl⟩ := Prod.mk.inj h
    exact .cancels rfl (.inl rfl)
  next hreaped =>
    unfold Proc.kill at h
    split at h
    next hclosed =>
      obtain ⟨rfl, rfl⟩ := Prod.mk.inj h
      exact .loses hclosed fun _ => Bool.eq_false_iff.mpr hreaped
    next =>
      obtain ⟨rfl, rfl⟩ := Prod.mk.inj h
      exact .cancels rfl (.inr rfl)

private theorem goes_of_next {runner : Runner} {P P' : Proc} {pc pc' : Pc} {m : Move}
    (h : runner.next P pc m = some (pc', P')) : Goes runner P pc pc' P' := by
  cases runner with
  | gate =>
      rcases pc with - | - | left | - | timedOut | - <;> rcases m with - | - <;>
        simp only [Runner.next, gateRun, Option.ite_none_right_eq_some, reduceCtorEq,
          Option.some.injEq, Prod.mk.injEq] at h
      · obtain ⟨hclosed, rfl, rfl⟩ := h
        exact .returns hclosed
      · exact goes_of_kill nofun h.2
      · obtain ⟨hclosed, rfl, rfl⟩ := h
        exact .reaps nofun hclosed
  | resolver =>
      rcases pc with - | - | (- | left) | - | timedOut | - <;> rcases m with - | - <;>
        simp only [Runner.next, resolverRunExec, Option.ite_none_right_eq_some, reduceCtorEq,
          Option.some.injEq, Prod.mk.injEq, Bool.and_eq_true] at h
      · obtain ⟨⟨⟨hclosed, -⟩, -⟩, rfl, rfl⟩ := h
        exact .returns hclosed
      · exact goes_of_cancel h.2
      · obtain ⟨rfl, rfl⟩ := h
        exact .polls rfl
      · obtain ⟨rfl, rfl⟩ := h
        exact .cancelled rfl left
      · obtain ⟨-, rfl, rfl⟩ := h
        exact .polled rfl
  | execFunction =>
      rcases pc with - | - | left | - | timedOut | - <;> rcases m with - | - <;>
        simp only [Runner.next, execFunctionCall, Option.ite_none_right_eq_some, reduceCtorEq,
          Option.some.injEq, Prod.mk.injEq, Bool.and_eq_true] at h
      · obtain ⟨⟨-, hclosed⟩, rfl, rfl⟩ := h
        exact .returns hclosed
      · exact goes_of_kill nofun h.2
      · obtain ⟨hclosed, rfl, rfl⟩ := h
        exact .reaps nofun hclosed

/-- Where the coroutine of a runner can be. -/
def Runner.At (runner : Runner) (pc : Pc) : Prop :=
  (runner = .resolver → pc ≠ .reaping ∧ pc ≠ .lost) ∧
    (runner ≠ .resolver → pc = .waiting ∨ pc = .reaping ∨ (∃ timedOut, pc = .finished timedOut) ∨
      pc = .lost)

private theorem Goes.at {runner : Runner} {P P' : Proc} {pc pc' : Pc}
    (hreaps : P.closed = true → P.reaped = true) (h : Goes runner P pc pc' P') :
    runner.At pc' := by
  cases h with
  | returns => exact ⟨fun _ => ⟨nofun, nofun⟩, fun _ => .inr (.inr (.inl ⟨_, rfl⟩))⟩
  | kills hrunner => exact ⟨fun h => absurd h hrunner, fun _ => .inr (.inl rfl)⟩
  | loses hclosed hreaped =>
      refine ⟨fun hrunner => ?_, fun _ => .inr (.inr (.inr rfl))⟩
      exact absurd ((hreaps hclosed).symm.trans (hreaped hrunner)) Bool.noConfusion
  | cancels hrunner => exact ⟨fun _ => ⟨nofun, nofun⟩, fun h => absurd hrunner h⟩
  | reaps => exact ⟨fun _ => ⟨nofun, nofun⟩, fun _ => .inr (.inr (.inl ⟨_, rfl⟩))⟩
  | cancelled hrunner => exact ⟨fun _ => ⟨nofun, nofun⟩, fun h => absurd hrunner h⟩
  | polls hrunner => exact ⟨fun _ => ⟨nofun, nofun⟩, fun h => absurd hrunner h⟩
  | polled => exact ⟨fun _ => ⟨nofun, nofun⟩, fun _ => .inr (.inr (.inl ⟨_, rfl⟩))⟩

/-- How far the coroutine is from its end. -/
def Pc.rank : Pc → ℕ
  | .waiting => 5
  | .reaping => 1
  | .cancelling left => left + 2
  | .polling => 1
  | .finished _ | .lost => 0

private theorem Goes.rank_lt {runner : Runner} {P P' : Proc} {pc pc' : Pc}
    (h : Goes runner P pc pc' P') : pc'.rank < pc.rank := by
  cases h <;> simp [Pc.rank]

/-- A move changes nothing about the processes, except that the child may be killed. -/
theorem Goes.proc {runner : Runner} {P P' : Proc} {pc pc' : Pc} (h : Goes runner P pc pc' P') :
    P' = P ∨ P' = P.sigkill := by
  cases h with
  | kills => exact .inr rfl
  | cancels _ hkill => exact hkill
  | returns | loses | reaps | cancelled | polls | polled => exact .inl rfl

/-- Once it was interrupted, a call that is not one of a resolver goes on when the transport is
closed. -/
theorem Goes.of_reaping {runner : Runner} {P P' : Proc} {pc : Pc}
    (h : Goes runner P .reaping pc P') : P.closed = true ∧ pc = .finished true := by
  cases h with
  | reaps _ hclosed => exact ⟨hclosed, rfl⟩

namespace Proc

variable {P : Proc} {p : Pipe}

/-- What is read or to be read of a pipe, what is still in it counted twice. -/
def backlog (P : Proc) (p : Pipe) : ℕ := 2 * P.inPipe p + P.unread p

/-- The event loop takes something out of the pipe. -/
theorem backlog_receive (h : 0 < P.inPipe p) : (P.receive p).backlog p < P.backlog p := by
  have hchunk : 0 < chunkLimit := by decide
  simp only [backlog, receive, Function.update_self]
  omega

/-- The reader takes something out of the `StreamReader`. -/
theorem backlog_read (h : 0 < P.unread p) : (P.read p).backlog p < P.backlog p := by
  have hlimit : 0 < streamLimit := by decide
  simp only [backlog, read, Function.update_self]
  omega

private theorem backlog_receive_of_ne {q : Pipe} (h : q ≠ p) :
    (P.receive p).backlog q = P.backlog q := by
  simp only [backlog, receive, Function.update_of_ne h]

private theorem backlog_read_of_ne {q : Pipe} (h : q ≠ p) : (P.read p).backlog q = P.backlog q := by
  simp only [backlog, read, Function.update_of_ne h]

/-- The event loop will see the end of the pipe once nobody has it open: it does not stop looking
for the output that is left. -/
def Spare (P : Proc) (p : Pipe) : Prop :=
  p.isOutput = true → P.paused p = false ∧ P.unread p + P.inPipe p ≤ 2 * streamLimit

private theorem Spare.receive (h : P.Spare p) (q : Pipe) : (P.receive q).Spare p := by
  intro hout
  obtain ⟨hpaused, hle⟩ := h hout
  by_cases hpq : p = q
  · subst hpq
    simp only [Proc.receive, Function.update_self, decide_eq_false_iff_not, Nat.not_lt]
    omega
  · simp only [Proc.receive, Function.update_of_ne hpq]
    exact ⟨hpaused, hle⟩

private theorem Spare.read (h : P.Spare p) (q : Pipe) : (P.read q).Spare p := by
  intro hout
  obtain ⟨hpaused, hle⟩ := h hout
  by_cases hpq : p = q
  · subst hpq
    simp only [Proc.read, Function.update_self, hpaused, Bool.false_and, true_and]
    omega
  · simp only [Proc.read, Function.update_of_ne hpq]
    exact ⟨hpaused, hle⟩

/-- A `StreamReader` that holds too much has paused its transport. -/
def Throttled (P : Proc) : Prop := ∀ p, 2 * streamLimit < P.unread p → P.paused p = true

private theorem Throttled.receive (h : P.Throttled) (q : Pipe) : (P.receive q).Throttled := by
  intro p hp
  by_cases hpq : p = q
  · subst hpq
    simp only [Proc.receive, Function.update_self, decide_eq_true_eq] at hp ⊢
    exact hp
  · simp only [Proc.receive, Function.update_of_ne hpq] at hp ⊢
    exact h p hp

private theorem Throttled.read (h : P.Throttled) (q : Pipe) : (P.read q).Throttled := by
  intro p hp
  by_cases hpq : p = q
  · subst hpq
    simp only [Proc.read, Function.update_self, Bool.and_eq_true, decide_eq_true_eq] at hp ⊢
    exact ⟨h p (by omega), by omega⟩
  · simp only [Proc.read, Function.update_of_ne hpq] at hp ⊢
    exact h p hp

/-- Something keeps the event loop from ever seeing the end of the pipe while nobody reads: a
descendant that has it open, or more output than a `StreamReader` takes. -/
def Stopped (P : Proc) (p : Pipe) : Prop :=
  P.descendants p = true ∨
    p.isOutput = true ∧ (P.paused p = true ∨ 2 * streamLimit < P.unread p + P.inPipe p)

private theorem not_stopped_iff : ¬ P.Stopped p ↔ P.descendants p = false ∧ P.Spare p := by
  simp only [Stopped, Spare, not_or, not_and, Bool.not_eq_true, Nat.not_lt]

/-- The event loop goes on reading, and the output is no less. -/
theorem Stopped.receive (h : P.Stopped p) {q : Pipe} (hq : P.paused q = false) :
    (P.receive q).Stopped p := by
  refine h.imp id fun ⟨hout, h⟩ => ⟨hout, ?_⟩
  by_cases hpq : p = q
  · subst hpq
    have hlong := h.resolve_left (by rw [hq]; exact Bool.false_ne_true)
    right
    simp only [Proc.receive, Function.update_self]
    omega
  · simpa only [Proc.receive, Function.update_of_ne hpq] using h

/-- A pipe that is stopped is not disconnected. -/
theorem Stopped.not_end (h : P.Stopped p) (hthrottled : P.Throttled) (hfree : P.held p = false) :
    P.seesEnd p = false := by
  rcases h with hheld | ⟨hout, hmuch⟩
  · rw [held, hheld, Bool.or_true] at hfree
    cases hfree
  · rw [seesEnd, hout, Bool.not_true, Bool.false_or, Bool.and_eq_false_imp, beq_iff_eq]
    intro hempty
    rw [Bool.not_eq_false']
    refine hmuch.elim id fun hlong => hthrottled p ?_
    rwa [hempty, Nat.add_zero] at hlong

/-- The transport is closed once the child was reaped and no pipe is connected. -/
theorem finishes_iff : P.finishes = true ↔ P.reaped = true ∧ ∀ p, P.connected p = false := by
  simp only [finishes, Bool.and_eq_true, Bool.not_eq_true']
  constructor
  · rintro ⟨⟨⟨hreaped, hin⟩, hout⟩, herr⟩
    refine ⟨hreaped, fun p => ?_⟩
    cases p with
    | stdin => exact hin
    | stdout => exact hout
    | stderr => exact herr
  · rintro ⟨hreaped, hpipes⟩
    exact ⟨⟨⟨hreaped, hpipes _⟩, hpipes _⟩, hpipes _⟩

end Proc

namespace Call

variable {c c' : Call} {e : Event}

/-- What a step of the event loop or of the coroutine does. -/
inductive Own (c : Call) : Call → Prop
  | reaps (hreaped : c.proc.reaped = false) :
      Own c { c with proc := { c.proc with reaped := true } }
  | disconnects {p : Pipe} (hconnected : c.proc.connected p = true)
      (hfree : c.proc.held p = false) (hend : c.proc.seesEnd p = true) :
      Own c { c with proc := { c.proc with
        connected := Function.update c.proc.connected p false } }
  | closes (hfinishes : c.proc.finishes = true) (hopen : c.proc.closed = false) :
      Own c { c with proc := { c.proc with closed := true } }
  | receives {p : Pipe} (hout : p.isOutput = true) (hpaused : c.proc.paused p = false)
      (hpipe : 0 < c.proc.inPipe p) : Own c { c with proc := c.proc.receive p }
  | reads {p : Pipe} (hreads : c.runner.reads c.proc c.pc p = true)
    (hunread : 0 < c.proc.unread p) :
      Own c { c with proc := c.proc.read p }
  | moves {pc : Pc} {P : Proc} (hgoes : Goes c.runner c.proc c.pc pc P) :
      Own c { c with pc := pc, proc := P }

/-- Tasks of a coroutine read the outputs while it waits, and none of another kind does. -/
theorem reads_cases {runner : Runner} {P : Proc} {pc : Pc} {p : Pipe}
    (h : runner.reads P pc p = true) : pc = .waiting ∧ p.isOutput = true := by
  cases runner <;> cases pc <;> cases p <;>
    first
      | exact ⟨rfl, rfl⟩
      | cases h

private theorem own_cases (he : e.own) (h : c.step e = some c') : Own c c' := by
  cases e with
  | reap =>
      simp only [step] at h
      split at h
      next => cases h
      next hnot =>
        rw [Bool.or_eq_true, not_or, Bool.not_eq_true, Bool.not_eq_true] at hnot
        cases h
        exact .reaps hnot.2
  | disconnect p =>
      simp only [step, Option.ite_none_right_eq_some, Bool.and_eq_true, Bool.not_eq_true'] at h
      obtain ⟨⟨⟨hconnected, hfree⟩, hend⟩, h⟩ := h
      cases h
      exact .disconnects hconnected hfree hend
  | close =>
      simp only [step, Option.ite_none_right_eq_some, Bool.and_eq_true, Bool.not_eq_true'] at h
      obtain ⟨⟨hfinishes, hopen⟩, h⟩ := h
      cases h
      exact .closes hfinishes hopen
  | receive p =>
      simp only [step, Option.ite_none_right_eq_some, Bool.and_eq_true, Bool.not_eq_true',
        decide_eq_true_eq] at h
      obtain ⟨⟨⟨⟨hout, -⟩, hpaused⟩, hpipe⟩, h⟩ := h
      cases h
      exact .receives hout hpaused hpipe
  | read p =>
      simp only [step, Option.ite_none_right_eq_some, Bool.and_eq_true, decide_eq_true_eq] at h
      obtain ⟨⟨hreads, hunread⟩, h⟩ := h
      cases h
      exact .reads hreads hunread
  | move m =>
      obtain ⟨⟨pc, P⟩, hnext, rfl⟩ := Option.map_eq_some_iff.mp h
      exact .moves (goes_of_next hnext)
  | fork | childCloses | childExits | release | write | feed | flush | deadline => exact he.elim

/-- What holds in every state of a call. -/
structure Sane (c : Call) : Prop where
  at_pc : c.runner.At c.pc
  pipes : ∀ p, c.proc.connected p = true → c.runner.pipes p = true
  closed : c.proc.closed = true → c.proc.finishes = true
  throttled : c.proc.Throttled

private theorem sane_init (runner : Runner) : (init runner).Sane where
  at_pc := ⟨fun _ => ⟨nofun, nofun⟩, fun _ => .inl rfl⟩
  pipes _ h := h
  closed := nofun
  throttled _ h := absurd h (Nat.not_lt_zero _)

private theorem connected_update {connected : Pipe → Bool} {p q : Pipe}
    (h : Function.update connected p false q = true) : connected q = true := by
  by_cases hqp : q = p
  · rw [hqp, Function.update_self] at h
    cases h
  · rwa [Function.update_of_ne hqp] at h

/-- A pipe less is connected. -/
private theorem Sane.disconnected (hc : c.Sane) (p : Pipe) :
    Sane { c with proc := { c.proc with
      connected := Function.update c.proc.connected p false } } where
  at_pc := hc.at_pc
  pipes q hq := hc.pipes q (connected_update hq)
  closed hclosed := by
    obtain ⟨hreaped, hpipes⟩ := Proc.finishes_iff.mp (hc.closed hclosed)
    refine Proc.finishes_iff.mpr ⟨hreaped, fun q => Bool.eq_false_iff.mpr fun hq => ?_⟩
    exact absurd (connected_update hq) (Bool.eq_false_iff.mp (hpipes q))
  throttled := hc.throttled

/-- The steps of the event loop and of the coroutine. -/
theorem Own.sane (h : Own c c') (hc : c.Sane) : c'.Sane := by
  cases h with
  | reaps =>
      refine ⟨hc.at_pc, hc.pipes, fun hclosed => ?_, hc.throttled⟩
      obtain ⟨-, hpipes⟩ := Proc.finishes_iff.mp (hc.closed hclosed)
      exact Proc.finishes_iff.mpr ⟨rfl, hpipes⟩
  | disconnects => exact hc.disconnected _
  | closes hfinishes => exact ⟨hc.at_pc, hc.pipes, fun _ => hfinishes, hc.throttled⟩
  | receives => exact ⟨hc.at_pc, hc.pipes, hc.closed, hc.throttled.receive _⟩
  | reads => exact ⟨hc.at_pc, hc.pipes, hc.closed, hc.throttled.read _⟩
  | moves hgoes =>
      have hat := hgoes.at fun hclosed => (Proc.finishes_iff.mp (hc.closed hclosed)).1
      obtain rfl | rfl := hgoes.proc
      · exact ⟨hat, hc.pipes, hc.closed, hc.throttled⟩
      · exact ⟨hat, hc.pipes, hc.closed, hc.throttled⟩

private theorem sane_step (hc : c.Sane) (h : c.step e = some c') : c'.Sane := by
  cases e with
  | reap | disconnect | close | receive | read | move =>
      refine (own_cases ?_ h).sane hc
      trivial
  | flush =>
      simp only [step, Option.ite_none_right_eq_some] at h
      obtain ⟨-, h⟩ := h
      cases h
      exact hc.disconnected .stdin
  | fork | childCloses | childExits | release | write | feed =>
      simp only [step, Option.ite_none_right_eq_some] at h
      obtain ⟨-, h⟩ := h
      cases h
      exact ⟨hc.at_pc, hc.pipes, hc.closed, hc.throttled⟩
  | deadline =>
      cases h
      exact ⟨hc.at_pc, hc.pipes, hc.closed, hc.throttled⟩

/-- Nothing stops the event loop at a pipe that is connected: no descendant holds it, its transport
is not paused, and what is left of its output is not more than a `StreamReader` takes. -/
def Clear (c : Call) : Prop :=
  ∀ p, c.proc.connected p = true → c.proc.descendants p = false ∧ c.proc.Spare p

/-- A call that is not one of a resolver and goes on was interrupted by the deadline before the
transport was closed, and nothing stops the event loop at its pipes. -/
def Unobstructed (c : Call) : Prop :=
  c.runner ≠ .resolver → ¬ c.Finished → c.pc = .reaping ∧ c.Clear

/-- The child is gone, the deadline too, and the event loop needs nobody. -/
structure Expired (c : Call) : Prop where
  sane : c.Sane
  deadline : c.proc.deadline = true
  exited : c.proc.alive = false
  unobstructed : c.Unobstructed

/-- How many steps of its own a call can still take. -/
def measure (c : Call) : ℕ :=
  (if c.proc.reaped then 0 else 1) + (if c.proc.closed then 0 else 1) +
    ((c.proc.connected .stdin).toNat + (c.proc.connected .stdout).toNat +
      (c.proc.connected .stderr).toNat) +
    (c.proc.backlog .stdout + c.proc.backlog .stderr) + c.pc.rank

private theorem measure_disconnect {connected : Pipe → Bool} {p : Pipe} (hp : connected p = true) :
    (Function.update connected p false .stdin).toNat +
        (Function.update connected p false .stdout).toNat +
        (Function.update connected p false .stderr).toNat <
      (connected .stdin).toNat + (connected .stdout).toNat + (connected .stderr).toNat := by
  cases p <;> simp [Function.update, hp]

private theorem measure_receive {P : Proc} {p : Pipe} (hout : p.isOutput = true)
    (hp : 0 < P.inPipe p) : (P.receive p).backlog .stdout + (P.receive p).backlog .stderr <
      P.backlog .stdout + P.backlog .stderr := by
  have hlt := P.backlog_receive hp
  have hother {q : Pipe} : q ≠ p → (P.receive p).backlog q = P.backlog q :=
    Proc.backlog_receive_of_ne
  cases p with
  | stdin => cases hout
  | stdout =>
      rw [hother (q := .stderr) nofun]
      exact Nat.add_lt_add_right hlt _
  | stderr =>
      rw [hother (q := .stdout) nofun]
      exact Nat.add_lt_add_left hlt _

private theorem measure_read {P : Proc} {p : Pipe} (hout : p.isOutput = true)
    (hp : 0 < P.unread p) : (P.read p).backlog .stdout + (P.read p).backlog .stderr <
      P.backlog .stdout + P.backlog .stderr := by
  have hlt := P.backlog_read hp
  have hother {q : Pipe} : q ≠ p → (P.read p).backlog q = P.backlog q := Proc.backlog_read_of_ne
  cases p with
  | stdin => cases hout
  | stdout =>
      rw [hother (q := .stderr) nofun]
      exact Nat.add_lt_add_right hlt _
  | stderr =>
      rw [hother (q := .stdout) nofun]
      exact Nat.add_lt_add_left hlt _

/-- A step of its own brings the call nearer to its end. -/
theorem Own.measure_lt (h : Own c c') : c'.measure < c.measure := by
  cases h with
  | reaps hreaped => simp [measure, hreaped, Proc.backlog]
  | closes _ hopen => simp [measure, hopen, Proc.backlog]
  | @disconnects p hconnected =>
      have hlt := measure_disconnect hconnected
      simp only [measure, Proc.backlog]
      omega
  | @receives p hout _ hpipe =>
      have hlt := measure_receive hout hpipe
      exact Nat.add_lt_add_right (Nat.add_lt_add_left hlt _) _
  | @reads p hreads hunread =>
      have hlt := measure_read (reads_cases hreads).2 hunread
      exact Nat.add_lt_add_right (Nat.add_lt_add_left hlt _) _
  | moves hgoes =>
      have hrank := hgoes.rank_lt
      obtain rfl | rfl := hgoes.proc
      · exact Nat.add_lt_add_left hrank _
      · exact Nat.add_lt_add_left hrank _

/-- The event loop and the coroutine do not come to be stopped. -/
theorem Own.clear (h : Own c c') (hc : c.Clear) : c'.Clear := by
  cases h with
  | reaps | closes => exact hc
  | disconnects => exact fun q hq => hc q (connected_update hq)
  | receives => exact fun q hq => (hc q hq).imp_right fun hspare => hspare.receive _
  | reads => exact fun q hq => (hc q hq).imp_right fun hspare => hspare.read _
  | moves hgoes => obtain rfl | rfl := hgoes.proc <;> exact hc

/-- A step of its own leaves nothing to the descendants that was not left to them, and does not
stop the event loop. -/
theorem Own.expired (h : Own c c') (hc : c.Expired) : c'.Expired := by
  have hsane := h.sane hc.sane
  have hclear : c.Clear → c'.Clear := h.clear
  cases h with
  | reaps | disconnects | closes | receives | reads =>
      exact ⟨hsane, hc.deadline, hc.exited, fun hrunner hgoes =>
        (hc.unobstructed hrunner hgoes).imp_right hclear⟩
  | @moves pc P hgoes =>
      have hon : ¬ c.Finished := by
        rintro ⟨timedOut, hpc⟩
        rw [hpc] at hgoes
        cases hgoes
      have hunobstructed : Unobstructed { c with pc := pc, proc := P } := by
        intro hrunner hgoes'
        obtain ⟨hpc, -⟩ := hc.unobstructed hrunner hon
        rw [hpc] at hgoes
        exact absurd ⟨true, hgoes.of_reaping.2⟩ hgoes'
      obtain rfl | rfl := hgoes.proc
      · exact ⟨hsane, hc.deadline, hc.exited, hunobstructed⟩
      · exact ⟨hsane, hc.deadline, hc.exited, hunobstructed⟩

/-- As long as a pipe is connected, the event loop can go on unless something stops it there. -/
theorem stopped_of_stuck (hexited : c.proc.alive = false)
    (hstuck : ∀ e, e.loops → c.step e = none) {p : Pipe} (hp : c.proc.connected p = true) :
    c.proc.Stopped p := by
  by_contra hgoes
  obtain ⟨hfree, hspare⟩ := Proc.not_stopped_iff.mp hgoes
  have hheld : c.proc.held p = false := by rw [Proc.held, hexited, hfree]; rfl
  have hend : c.proc.seesEnd p = false := by
    have hdisconnect := hstuck (.disconnect p) trivial
    simpa only [step, hp, hheld, Bool.not_false, Bool.true_and, ite_eq_right_iff, reduceCtorEq,
      imp_false, Bool.not_eq_true] using hdisconnect
  have hout : p.isOutput = true := by
    by_contra hin
    rw [Bool.not_eq_true] at hin
    rw [Proc.seesEnd, hin] at hend
    cases hend
  obtain ⟨hpaused, -⟩ := hspare hout
  have hempty : c.proc.inPipe p = 0 := by
    have hreceive := hstuck (.receive p) trivial
    simpa only [step, hout, hp, hpaused, Bool.not_false, Bool.true_and, ite_eq_right_iff,
      reduceCtorEq, imp_false, decide_eq_true_eq, Nat.pos_iff_ne_zero, not_not] using hreceive
  rw [Proc.seesEnd, hout, hempty, hpaused] at hend
  cases hend

private theorem reaped_of_stuck (hexited : c.proc.alive = false)
    (hstuck : ∀ e, e.loops → c.step e = none) : c.proc.reaped = true := by
  have hreap := hstuck .reap trivial
  simpa only [step, hexited, Bool.false_or, ite_eq_left_iff, reduceCtorEq, imp_false,
    not_not] using hreap

/-- Where nothing stops it, the event loop goes on until it has closed the transport. -/
theorem closed_of_stuck (hexited : c.proc.alive = false) (hclear : c.Clear)
    (hstuck : ∀ e, e.loops → c.step e = none) : c.proc.closed = true := by
  have hpipe (p : Pipe) : c.proc.connected p = false := by
    refine Bool.eq_false_iff.mpr fun hp => ?_
    exact Proc.not_stopped_iff.mpr (hclear p hp) (stopped_of_stuck hexited hstuck hp)
  have hfinishes : c.proc.finishes = true :=
    Proc.finishes_iff.mpr ⟨reaped_of_stuck hexited hstuck, hpipe⟩
  have hclose := hstuck .close trivial
  simpa only [step, hfinishes, Bool.true_and, ite_eq_right_iff, reduceCtorEq, imp_false,
    Bool.not_eq_true', Bool.not_eq_false] using hclose

/-- As long as the call is not complete, the event loop or the coroutine can go on. -/
theorem finished_of_stuck (hc : c.Expired) (hstuck : ∀ e, e.own → c.step e = none) :
    c.Finished := by
  by_contra hon
  have hmove (m : Move) : c.runner.next c.proc c.pc m = none :=
    Option.map_eq_none_iff.mp (hstuck (.move m) trivial)
  have hloop : ∀ e, e.loops → c.step e = none := fun e he => hstuck e (Event.own_of_loops he)
  by_cases hrunner : c.runner = .resolver
  · have hreaped := reaped_of_stuck hc.exited hloop
    obtain ⟨hreaping, hlost⟩ := hc.sane.at_pc.1 hrunner
    rw [hrunner] at hmove
    cases hpc : c.pc with
    | waiting => simpa [hpc, Runner.next, resolverRunExec, hc.deadline] using hmove .timeout
    | reaping => exact hreaping hpc
    | cancelling left =>
        cases left <;> simpa [hpc, Runner.next, resolverRunExec] using hmove .resume
    | polling => simpa [hpc, Runner.next, resolverRunExec, hreaped] using hmove .resume
    | finished timedOut => exact hon ⟨timedOut, hpc⟩
    | lost => exact hlost hpc
  · obtain ⟨hpc, hclear⟩ := hc.unobstructed hrunner hon
    have hclosed := closed_of_stuck hc.exited hclear hloop
    have hresume := hmove .resume
    cases hrun : c.runner with
    | gate => simp [hrun, hpc, Runner.next, gateRun, hclosed] at hresume
    | resolver => exact hrunner hrun
    | execFunction => simp [hrun, hpc, Runner.next, execFunctionCall, hclosed] at hresume

/-- The coroutine waits for the killed child, and something stops the event loop at a pipe; or it
could not kill the child. -/
inductive Blocked (c : Call) : Prop
  | stopped (hsane : c.Sane) (hpc : c.pc = .reaping) {p : Pipe} (hp : c.proc.connected p = true)
      (hstopped : c.proc.Stopped p)
  | lost (hpc : c.pc = .lost)

/-- While a pipe is connected, the transport is not closed. -/
theorem Sane.not_closed (hc : c.Sane) {p : Pipe} (hp : c.proc.connected p = true) :
    c.proc.closed = false := by
  refine Bool.eq_false_iff.mpr fun hclosed => ?_
  exact Bool.eq_false_iff.mp ((Proc.finishes_iff.mp (hc.closed hclosed)).2 p) hp

/-- No step of its own gets the call out of that. -/
theorem Own.blocked (h : Own c c') (hc : c.Blocked) : c'.Blocked := by
  cases hc with
  | lost hpc =>
      cases h with
      | reaps | disconnects | closes | receives | reads => exact .lost hpc
      | moves hgoes =>
          rw [hpc] at hgoes
          cases hgoes
  | @stopped hsane hpc p hp hstopped =>
      have hsane' := h.sane hsane
      cases h with
      | reaps | closes => exact .stopped hsane' hpc hp hstopped
      | @disconnects q _ hfree hend =>
          have hpq : p ≠ q := by
            rintro rfl
            rw [hstopped.not_end hsane.throttled hfree] at hend
            cases hend
          exact .stopped hsane' hpc
            ((Function.update_of_ne hpq false c.proc.connected).trans hp) hstopped
      | receives _ hpaused => exact .stopped hsane' hpc hp (hstopped.receive hpaused)
      | reads hreads =>
          have hwaiting := (reads_cases hreads).1
          rw [hpc] at hwaiting
          cases hwaiting
      | moves hgoes =>
          rw [hpc] at hgoes
          have hclosed := hgoes.of_reaping.1
          rw [hsane.not_closed hp] at hclosed
          cases hclosed

private theorem not_completes_of_blocked (hc : c.Blocked) :
    ¬ Completes step Event.own Finished c := by
  have hstep (c : Call) (e : Event) (d : Call) (hc : c.Blocked) (he : e.own)
      (h : step c e = some d) : d.Blocked := (own_cases he h).blocked hc
  have hon (c : Call) (hc : c.Blocked) : ¬ Finished c := by
    rintro ⟨timedOut, hpc⟩
    cases hc with
    | stopped _ hreaping => cases hreaping.symm.trans hpc
    | lost hlost => cases hlost.symm.trans hpc
  exact Transition.not_completes_of_blocked hstep hon hc

private theorem sane_of_run {runner : Runner} {es : List Event}
    (hrun : Run Steps (init runner) es c) : c.Sane :=
  hrun.invariant Sane (sane_init runner) fun _ _ _ hs => sane_step hs

/-- The child is gone, the deadline too, but the deadline has not got to the coroutine yet. -/
structure Awaiting (c : Call) : Prop where
  sane : c.Sane
  runner : c.runner ≠ .resolver
  waiting : c.pc = .waiting
  deadline : c.proc.deadline = true
  exited : c.proc.alive = false

private theorem Awaiting.timeout (hc : c.Awaiting) :
    c.step (.move .timeout) =
      some { c with pc := (c.proc.kill .reaping).1, proc := (c.proc.kill .reaping).2 } := by
  cases hrunner : c.runner with
  | gate => simp [step, hrunner, hc.waiting, Runner.next, gateRun, hc.deadline]
  | resolver => exact absurd hrunner hc.runner
  | execFunction => simp [step, hrunner, hc.waiting, Runner.next, execFunctionCall, hc.deadline]

private theorem Awaiting.of_loops (hc : c.Awaiting) (he : e.loops) (h : c.step e = some c') :
    c'.Awaiting := by
  have hsane := sane_step hc.sane h
  cases e with
  | reap =>
      simp only [step, Option.ite_none_left_eq_some] at h
      obtain ⟨-, h⟩ := h
      cases h
      exact ⟨hsane, hc.runner, hc.waiting, hc.deadline, hc.exited⟩
  | disconnect | close | receive =>
      simp only [step, Option.ite_none_right_eq_some] at h
      obtain ⟨-, h⟩ := h
      cases h
      exact ⟨hsane, hc.runner, hc.waiting, hc.deadline, hc.exited⟩
  | _ => exact he.elim

/-- Where something stops the event loop, the coroutine comes to wait for a transport that is not
closed; where nothing does, the transport may be closed before the coroutine kills the child. -/
theorem Awaiting.not_completes (hc : c.Awaiting) : ¬ Completes step Event.own Finished c := by
  intro hcompletes
  have hmove : Event.own (.move .timeout) := trivial
  by_cases hstop : ∃ p, c.proc.connected p = true ∧ c.proc.Stopped p
  · obtain ⟨p, hp, hstopped⟩ := hstop
    have htimeout := hc.timeout
    rw [Proc.kill, hc.sane.not_closed hp, if_neg Bool.false_ne_true] at htimeout
    exact not_completes_of_blocked (.stopped (sane_step hc.sane htimeout) rfl hp hstopped)
      (hcompletes.of_step hmove htimeout)
  · have hclear : c.Clear := fun p hp =>
      Proc.not_stopped_iff.mp fun hstopped => hstop ⟨p, hp, hstopped⟩
    -- the event loop takes all its steps before the coroutine goes on
    have hloop : ∃ es t, (∀ e ∈ es, Event.loops e) ∧ exec step c es = some t ∧
        (t.Awaiting ∧ t.Clear) ∧ ∀ e, e.loops → step t e = none := by
      refine exists_stuck measure (fun c e d hinv he h => ?_) ⟨hc, hclear⟩
      have hown := own_cases (Event.own_of_loops he) h
      exact ⟨⟨hinv.1.of_loops he h, hown.clear hinv.2⟩, hown.measure_lt⟩
    obtain ⟨es, t, hes, hexec, ⟨hwaits, hclear⟩, hstuck⟩ := hloop
    have htimeout := hwaits.timeout
    rw [Proc.kill, closed_of_stuck hwaits.exited hclear hstuck, if_pos rfl] at htimeout
    have hlater := hcompletes.of_exec (fun e he => Event.own_of_loops (hes e he)) hexec
    exact not_completes_of_blocked (.lost rfl) (hlater.of_step hmove htimeout)

/-- Nor does one whose child has no descendants and was killed while it printed without end. -/
example : ∃ c, exec step (init .execFunction)
      [.write .stdout 200000, .deadline, .move .timeout, .childExits, .reap] = some c ∧
    ¬ Completes step Event.own Finished c := by
  obtain ⟨c, hc, hpc, hp, hstopped⟩ : ∃ c, exec step (init .execFunction)
      [.write .stdout 200000, .deadline, .move .timeout, .childExits, .reap] = some c ∧
        c.pc = .reaping ∧ c.proc.connected .stdout = true ∧ c.proc.Stopped .stdout :=
    ⟨_, rfl, rfl, rfl, .inr ⟨rfl, .inr (by decide)⟩⟩
  exact ⟨c, hc,
    not_completes_of_blocked (.stopped (sane_of_run (run_of_exec hc)) hpc hp hstopped)⟩

/-- Nor does the check of a gate whose child exits by itself, if the deadline gets to the coroutine
only after the transport is closed. -/
example : ∃ c, exec step (init .gate) [.childExits, .deadline, .reap, .close, .move .timeout] =
    some c ∧ c.pc = .lost ∧ ¬ Completes step Event.own Finished c :=
  ⟨_, rfl, rfl, not_completes_of_blocked (.lost rfl)⟩

end Call

end Jetty.Deadlines
