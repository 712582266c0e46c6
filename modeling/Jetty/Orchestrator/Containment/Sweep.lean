import Jetty.Orchestrator.Containment.Step

/-!
# Sweeps reach the service's own processes

The backend remembers the session of a service's last child for as long as it lives, also
after the session has died out. As long as nobody else comes by the remembered ids, every
signal of a sweep goes to the service's child or to a descendant of it.
-/

namespace Jetty.Orchestrator

open Transition Processes

/-- The session id that the sweep has read and still uses. -/
def SweepPc.sid : SweepPc → Option ℕ
  | .list sid | .stat sid _ _ => some sid
  | .start | .kill _ => none

namespace World

/-- A process of another origin founds a session or a group under an id that the backend
remembers for a service, or is there when the backend starts to remember the id; or it is
forked under a pid that the current sweep has found and not signalled yet. -/
def Reuses (W : World) : WorldEvent → Prop
  | .process (.fork q child) => ∃ c ∈ W.calls.head?, child ∈ W.pc.found ∧
      ∃ p ∈ W.table.procs, p.pid = q ∧ p.origin ≠ some c.service
  | .process (.setsid q) => ∃ service ∈ W.services, W.sids service = some q ∧
      ∃ p ∈ W.table.procs, p.pid = q ∧ p.origin ≠ some service
  | .process (.setpgid q g) => g = q ∧ ∃ service ∈ W.services, W.sids service = some q ∧
      ∃ p ∈ W.table.procs, p.pid = q ∧ p.origin ≠ some service
  | .spawn service pid => ∃ other ∈ W.services, other ≠ service ∧ W.sids other = some pid
  | .register service => ∃ pid ∈ W.creating service,
      ∃ p ∈ W.table.procs, (p.sid = pid ∨ p.pgid = pid) ∧ p.origin ≠ some service
  | _ => False

instance (W : World) (e : WorldEvent) : Decidable (W.Reuses e) := by
  unfold Reuses
  rcases e with e | _
  · rcases e <;> infer_instance
  all_goals infer_instance

/-- The invariant of runs without reuse. -/
structure Owned (W : World) : Prop where
  known : ∀ service n, W.sids service = some n → service ∈ W.services
  creating : ∀ service n, W.creating service = some n → service ∈ W.services
  owned : ∀ service n, W.sids service = some n → ∀ p ∈ W.table.procs, p.sid = n ∨ p.pgid = n →
    p.origin = some service
  sid : ∀ c ∈ W.calls.head?, ∀ sid ∈ W.pc.sid, W.sids c.service = some sid
  found : ∀ c ∈ W.calls.head?, ∀ pid ∈ W.pc.found, ∀ p ∈ W.table.procs, p.pid = pid →
    p.origin = some c.service
  log : ∀ d ∈ W.log, d.origin = some d.call.service

private theorem owned_init (K : Table (Option String)) (services : List String) :
    Owned (init K services) where
  known service n h := by cases h
  creating service n h := by cases h
  owned service n h := by cases h
  sid c h := by cases h
  found c h := by cases h
  log d h := by cases h

variable {W V : World}

/-- Processes that end, or disappear, or change their mind about signals. -/
theorem Owned.fades (h : Owned W) {T : Table (Option String)} (hT : W.table.Fades T) :
    Owned { W with table := T } := by
  refine { h with
    owned := fun service n hn p hp hpn => ?_
    found := fun c hc pid hf p hp hpid => ?_ }
  · obtain ⟨r, hr, -, hsid, hpgid, -, horigin, -⟩ := hT p hp
    rw [horigin]
    exact h.owned service n hn r hr (by rwa [← hsid, ← hpgid])
  · obtain ⟨r, hr, hpr, -, -, -, horigin, -⟩ := hT p hp
    rw [horigin]
    exact h.found c hc pid hf r hr (hpr ▸ hpid)

/-- One process has changed its session and group. -/
private theorem Owned.reassigned (h : Owned W) {T : Table (Option String)} {q sid pgid : ℕ}
    {native : Bool} (hT : T.procs = W.table.procs.map (assign q sid pgid native))
    (hq : ∀ p : Proc (Option String), ∀ service n, W.sids service = some n →
      sid = n ∨ pgid = n → (∀ {r}, r ∈ W.table.procs → r.pid = q → p.origin = r.origin) →
      p.origin = some service) : Owned { W with table := T } := by
  refine { h with
    owned := fun service n hn p hp hpn => ?_
    found := fun c hc pid hf p hp hpid => ?_ }
  · obtain ⟨r, hr, -, -, horigin, ⟨hrq, rfl, rfl, -⟩ | ⟨hrq, hsid, hpgid, -⟩⟩ :=
      mem_map_assign (hT ▸ hp)
    · refine hq p service n hn hpn fun {x} hx hxq => ?_
      rw [horigin, W.table.wf.eq_of_pid hr hx (hrq.trans hxq.symm)]
    · rw [horigin]
      exact h.owned service n hn r hr (by rwa [← hsid, ← hpgid])
  · obtain ⟨r, hr, hpr, -, horigin, -⟩ := mem_map_assign (hT ▸ hp)
    rw [horigin]
    exact h.found c hc pid hf r hr (hpr ▸ hpid)

/-- A step of a process of the table. -/
theorem Owned.process (h : Owned W) {T : Table (Option String)} {e : Processes.Event}
    (hst : W.table.step e = some T) (hr : ¬ W.Reuses (.process e)) :
    Owned { W with table := T } := by
  rcases Table.step_cases hst with ⟨q, hq, child, rfl, -, -, -, hT⟩ | ⟨q, hq, rfl, -, -, hT⟩ |
    ⟨q, hq, g, rfl, -, -, hguard, hT⟩ | ⟨-, -, -, hT⟩
  · refine { h with
      owned := fun service n hn p hp hpn => ?_
      found := fun c hc pid hf p hp hpid => ?_ }
    · rcases List.mem_cons.mp (hT ▸ hp) with rfl | hp
      · exact h.owned service n hn q hq hpn
      · exact h.owned service n hn p hp hpn
    · rcases List.mem_cons.mp (hT ▸ hp) with rfl | hp
      · obtain rfl : child = pid := hpid
        by_contra hother
        exact hr ⟨c, hc, hf, q, hq, rfl, hother⟩
      · exact h.found c hc pid hf p hp hpid
  · refine h.reassigned hT fun p service n hn hpn horigin => ?_
    obtain rfl : q.pid = n := or_self_iff.mp hpn
    by_contra hother
    exact hr ⟨service, h.known service _ hn, hn, q, hq, rfl, horigin hq rfl ▸ hother⟩
  · refine h.reassigned hT fun p service n hn hpn horigin => ?_
    rw [horigin hq rfl]
    rcases hpn with hsid | rfl
    · exact h.owned service n hn q hq (.inl hsid)
    · rcases hguard with rfl | ⟨m, hm, hmg, hms⟩
      · by_contra hother
        exact hr ⟨rfl, service, h.known service _ hn, hn, q, hq, rfl, hother⟩
      · rw [← W.table.wf.origin m hm q hq hms]
        exact h.owned service g hn m hm (.inr hmg)
  · exact h.fades hT

/-- A signal to processes of the service. -/
theorem Owned.deliver (h : Owned W) {c : SweepCall} {spared : List ℕ}
    {test : Proc (Option String) → Bool}
    (htest : ∀ p ∈ W.table.procs, test p = true → p.origin = some c.service) :
    Owned (W.deliver c (hit spared test)) := by
  refine { h.fades (W.table.fades_kill _) with log := fun d hd => ?_ }
  rcases List.mem_append.mp hd with hd | hd
  · exact h.log d hd
  · obtain ⟨p, hp, rfl⟩ := List.mem_map.mp hd
    obtain ⟨hp, ht⟩ := List.mem_filter.mp hp
    rw [hit, Bool.and_eq_true] at ht
    exact htest p hp ht.1

/-- The sweep goes on. -/
theorem Owned.sweeping (h : Owned W) (calls : List SweepCall) {pc : SweepPc}
    (hsid : ∀ c ∈ calls.head?, ∀ sid ∈ pc.sid, W.sids c.service = some sid)
    (hfound : ∀ c ∈ calls.head?, ∀ pid ∈ pc.found, ∀ p ∈ W.table.procs, p.pid = pid →
      p.origin = some c.service) : Owned { W with calls := calls, pc := pc } :=
  { h with sid := hsid, found := hfound }

private theorem Owned.orphan (h : Owned W) : Owned W.orphan :=
  { h.fades (W.table.fades_kill _) with
    sid := by simp [World.orphan]
    found := by simp [World.orphan] }

/-- The command does not touch what the backend remembers. -/
theorem Owned.stepCommand (h : Owned W) {spared : List ℕ} (hst : W.stepCommand spared = some V) :
    Owned V := by
  have hgoto (pc : ForcePc) : Owned { W with command := pc } := { h with }
  have hslay (pc : ForcePc) (test : Proc (Option String) → Bool) :
      Owned { W.slay test with command := pc } := { h.fades (W.table.fades_kill test) with }
  unfold World.stepCommand at hst
  split at hst
  case h_5 => exact Option.some.inj hst ▸ hslay _ _
  case h_8 =>
    obtain rfl := Option.some.inj hst
    split
    · exact { h.orphan with }
    · exact { h with }
  case h_10 => cases hst
  all_goals exact Option.some.inj hst ▸ hgoto _

/-- Every system call of a sweep. -/
theorem Owned.advance (h : Owned W) {spared : List ℕ} (hst : W.advance spared = some V) :
    Owned V := by
  unfold World.advance at hst
  split at hst
  case h_1 => cases hst
  case h_2 c calls hcalls hpc =>
    split at hst
    · obtain rfl := Option.some.inj hst
      exact h.sweeping calls (by simp [hpc, SweepPc.sid]) (by simp [hpc, SweepPc.found])
    · rename_i sid hsid
      obtain rfl := Option.some.inj hst
      have hdone : Owned (W.deliver c (hit spared fun p => p.pgid == sid)) :=
        h.deliver fun p hp ht => h.owned c.service sid hsid p hp (.inr (beq_iff_eq.mp ht))
      refine hdone.sweeping W.calls (fun c' hc' n hn => ?_) (by simp [SweepPc.found])
      rw [hcalls, List.head?_cons, Option.mem_some_iff] at hc'
      obtain rfl : sid = n := Option.some.inj hn
      rw [← hc']
      exact hsid
  case h_3 c calls sid hcalls hpc =>
    obtain rfl := Option.some.inj hst
    refine h.sweeping W.calls (fun c hc n hn => h.sid c hc n ?_)
      (by simp [SweepPc.found])
    rwa [hpc]
  case h_4 c calls sid pid todo found hcalls hpc =>
    obtain rfl := Option.some.inj hst
    have hsid : ∀ c ∈ W.calls.head?, W.sids c.service = some sid :=
      fun c hc => h.sid c hc sid (by rw [hpc]; rfl)
    refine h.sweeping W.calls (fun c hc n hn => ?_) fun c hc n hn p hp hpid => ?_
    · obtain rfl : sid = n := Option.some.inj hn
      exact hsid c hc
    · have hold : n ∈ found → p.origin = some c.service :=
        fun hn => h.found c hc n (by rw [hpc]; exact hn) p hp hpid
      simp only [SweepPc.found] at hn
      split at hn
      · rename_i hread
        rcases List.mem_append.mp hn with hn | hn
        · exact hold hn
        · obtain rfl := List.mem_singleton.mp hn
          exact h.owned c.service sid (hsid c hc) p hp (.inl (W.sid_of_sessionId hread hp hpid))
      · exact hold hn
  case h_5 c calls sid found hcalls hpc =>
    obtain rfl := Option.some.inj hst
    exact h.sweeping W.calls (by simp [SweepPc.sid])
      fun c hc pid hpid => h.found c hc pid (by rw [hpc]; exact hpid)
  case h_6 c calls pid found hcalls hpc =>
    obtain rfl := Option.some.inj hst
    have hfound : ∀ n ∈ pid :: found, ∀ p ∈ W.table.procs, p.pid = n → p.origin = some c.service :=
      fun n hn => h.found c (by rw [hcalls]; rfl) n (by rw [hpc]; exact hn)
    have hdone : Owned (W.deliver c (hit spared fun p => p.pid == pid)) :=
      h.deliver fun p hp ht => hfound pid List.mem_cons_self p hp (beq_iff_eq.mp ht)
    refine hdone.sweeping W.calls (by simp [SweepPc.sid]) fun c' hc' n hn => ?_
    have hpc' : (W.deliver c (hit spared fun p => p.pid == pid)).pc = .kill (pid :: found) := hpc
    exact hdone.found c' hc' n (by rw [hpc']; exact List.mem_cons_of_mem pid hn)
  case h_7 c calls hcalls hpc =>
    obtain rfl := Option.some.inj hst
    exact h.sweeping calls (by simp [SweepPc.sid]) (by simp [SweepPc.found])

/-- A process is forked with a pid that no other service remembers. -/
theorem Owned.spawn (h : Owned W) {service : String} {pid : ℕ}
    (hst : W.step (.spawn service pid) = some V) (hr : ¬ W.Reuses (.spawn service pid)) :
    Owned V := by
  simp only [World.step, Option.ite_none_right_eq_some, Option.dite_none_right_eq_some,
    Option.some.injEq] at hst
  obtain ⟨⟨hservice, hfree, -, -⟩, hid, rfl⟩ := hst
  simp only [World.free, Bool.and_eq_true, List.isEmpty_iff] at hfree
  refine { h with
    creating := fun other n hn => ?_
    owned := fun other n hn p hp hpn => ?_
    found := fun c hc => ?_ }
  · simp only [Function.update_apply] at hn
    split at hn
    · rename_i heq
      exact heq ▸ hservice
    · exact h.creating other n hn
  · rcases List.mem_cons.mp hp with rfl | hp
    · obtain rfl : pid = n := or_self_iff.mp hpn
      by_contra hother
      exact hr ⟨other, h.known other _ hn, fun heq => hother (by rw [heq]), hn⟩
    · exact h.owned other n hn p hp hpn
  · simp [hfree.2] at hc

private theorem Owned.abandon (h : Owned W) {service : String}
    (hst : W.step (.abandon service) = some V) : Owned V := by
  simp only [World.step, Option.ite_none_right_eq_some, Option.some.injEq] at hst
  obtain ⟨-, rfl⟩ := hst
  refine { h with creating := fun other n hn => ?_ }
  simp only [Function.update_apply] at hn
  split at hn
  · cases hn
  · exact h.creating other n hn

/-- A session is registered while all processes in it are the service's own. -/
theorem Owned.register (h : Owned W) {service : String}
    (hst : W.step (.register service) = some V) (hr : ¬ W.Reuses (.register service)) :
    Owned V := by
  simp only [World.step] at hst
  split at hst
  · rename_i pid hpid
    simp only [Option.ite_none_right_eq_some, Option.some.injEq] at hst
    obtain ⟨hfree, rfl⟩ := hst
    simp only [World.free, Bool.and_eq_true, List.isEmpty_iff] at hfree
    refine { h with
      known := fun other n hn => ?_
      creating := fun other n hn => ?_
      owned := fun other n hn p hp hpn => ?_
      sid := fun c hc => ?_ }
    · simp only [writeRecord, Function.update_apply] at hn
      split at hn
      · rename_i heq
        exact heq ▸ h.creating service pid hpid
      · exact h.known other n hn
    · simp only [writeRecord, Function.update_apply] at hn
      split at hn
      · cases hn
      · exact h.creating other n hn
    · simp only [writeRecord, Function.update_apply] at hn
      split at hn
      · rename_i heq
        obtain rfl := Option.some.inj hn
        by_contra hother
        exact hr ⟨pid, hpid, p, hp, hpn, fun ho => hother (by rw [ho, heq])⟩
      · exact h.owned other n hn p hp hpn
    · simp [writeRecord, hfree.2] at hc
  · cases hst

/-- Every step without reuse keeps the remembered ids with the services. -/
theorem Owned.step (h : Owned W) {e : WorldEvent} (hst : W.step e = some V)
    (hr : ¬ W.Reuses e) : Owned V := by
  cases e with
  | process e =>
      obtain ⟨T, hT, rfl⟩ := Option.map_eq_some_iff.mp hst
      exact h.process hT hr
  | spawn service pid => exact h.spawn hst hr
  | abandon service => exact h.abandon hst
  | register service => exact h.register hst hr
  | clear service =>
      simp only [World.step, Option.ite_none_right_eq_some, Option.some.injEq] at hst
      obtain ⟨-, rfl⟩ := hst
      exact { h with }
  | write | remove =>
      simp only [World.step, Option.ite_none_right_eq_some, Option.some.injEq] at hst
      obtain ⟨-, rfl⟩ := hst
      exact { h with }
  | sweep service signal | killAll =>
      simp only [World.step, Option.ite_none_right_eq_some, Option.some.injEq] at hst
      obtain ⟨-, rfl⟩ := hst
      exact h.sweeping _ (by simp [SweepPc.sid]) (by simp [SweepPc.found])
  | advance spared =>
      simp only [World.step, Option.ite_none_right_eq_some] at hst
      exact h.advance hst.2
  | sweepRaises =>
      simp only [World.step] at hst
      split at hst
      · simp only [Option.ite_none_right_eq_some, Option.some.injEq] at hst
        obtain ⟨-, rfl⟩ := hst
        exact h.sweeping [] (by simp [SweepPc.sid]) (by simp [SweepPc.found])
      · cases hst
  | supervisorEnds =>
      simp only [World.step, Option.ite_none_right_eq_some, Option.some.injEq] at hst
      obtain ⟨-, rfl⟩ := hst
      exact h.orphan
  | force | commandRaises | supervisorSpared =>
      simp only [World.step] at hst
      split at hst
      · obtain rfl := Option.some.inj hst
        exact { h with }
      · cases hst
  | command spared => exact h.stepCommand hst
  | killGroup sid spared =>
      simp only [World.step] at hst
      split at hst
      · simp only [Option.ite_none_right_eq_some, Option.some.injEq] at hst
        obtain ⟨-, rfl⟩ := hst
        exact { h.fades (W.table.fades_kill _) with }
      · cases hst
  | deadline =>
      simp only [World.step, Option.ite_none_right_eq_some, Option.some.injEq] at hst
      obtain ⟨-, rfl⟩ := hst
      exact { h with }

private theorem owned_run {K : Table (Option String)} {services : List String}
    {es : List WorldEvent}
    (h : Run (Steps.within fun W e => ¬ W.Reuses e) (init K services) es W) : Owned W :=
  h.invariant Owned (owned_init K services) fun _ _ _ hinv hst => hinv.step hst.2 hst.1

/-- As long as nobody else comes by the ids that the backend remembers, every signal that a
sweep delivers goes to the service's child or to a descendant of it. -/
theorem sweeps_own_processes {K : Table (Option String)} {services : List String}
    {es : List WorldEvent}
    (h : Run (Steps.within fun W e => ¬ W.Reuses e) (init K services) es W) :
    ∀ d ∈ W.log, d.origin = some d.call.service :=
  (owned_run h).log

/-- A shell that has nothing to do with the instance. -/
def strangers : Table (Option String) where
  procs := [{ pid := 50, sid := 50, pgid := 50, origin := none }]
  wf := by constructor <;> simp

/-- Two sweeps of a service whose child has a helper in a group of its own: a `SIGTERM` that
both ignore, and `SIGKILL` after the child's exit. -/
def sweptTwice : List WorldEvent :=
  [.spawn "web" 100, .register "web", .process (.mask 100 true), .process (.fork 100 101),
    .process (.setpgid 101 101), .process (.fork 50 51), .sweep "web" (.stop .TERM)] ++
  List.replicate 10 .advance ++
  [.process (.exit 100), .process (.reap 100), .sweep "web" .KILL] ++ List.replicate 8 .advance

/-- The sweeps reach the child and its helper. -/
theorem sweeps_own_processes_helper :
    ∃ W : World, Run (Steps.within fun W e => ¬ W.Reuses e) (init strangers ["web"]) sweptTwice W ∧
      W.log ≠ [] ∧ ∀ d ∈ W.log, d.origin = some d.call.service := by
  obtain ⟨W, hrun, hW⟩ := exists_run_of_execWithin step (fun W e => ¬ W.Reuses e)
    (init strangers ["web"]) sweptTwice (fun W => decide (W.log ≠ [])) (by decide +kernel)
  exact ⟨W, hrun, of_decide_eq_true hW, sweeps_own_processes hrun⟩

/-- The child of a service is gone for good. -/
private def diedOut : List WorldEvent :=
  [.spawn "web" 100, .register "web", .process (.exit 100), .process (.reap 100),
    .sweep "web" .KILL, .advance, .advance, .advance, .advance, .advance, .clear "web"]

/-- A sweep in the backoff of a service hits a stranger that has got the service's old id. -/
theorem not_sweeps_own_processes :
    ¬ ∀ (K : Table (Option String)) (services : List String) (es : List WorldEvent) (W : World),
      Run Steps (init K services) es W → ∀ d ∈ W.log, d.origin = some d.call.service := by
  intro h
  obtain ⟨W, hrun, hW⟩ := exists_run_of_exec step (init strangers ["web"])
    (diedOut ++ [.process (.fork 50 100), .process (.setsid 100), .sweep "web" .KILL, .advance])
    (fun W => W.log.any fun d => decide (d.origin ≠ some d.call.service)) (by decide +kernel)
  obtain ⟨d, hd, hother⟩ := List.any_eq_true.mp hW
  exact of_decide_eq_true hother (h _ _ _ W hrun d hd)

end World

end Jetty.Orchestrator
