import Jetty.Orchestrator.Containment.Step

/-!
# What a forced kill leaves behind

`kill --force` signals the sessions that the record named when it was loaded, and then the
supervisor. A process is native as long as it is in the session that a child of the supervisor
was spawned into. As long as the record is complete and nobody slips away while the command
walks through the sessions, no native process is alive when the command reports success.
-/

namespace Jetty.Orchestrator

open Transition Processes

/-- The sessions that `external_kill` is working on, and the pids of them that it has listed and
not signalled yet. -/
def ForcePc.listed : ForcePc → Option (List ℕ × List ℕ)
  | .stat sids todo found => some (sids, todo ++ found)
  | .kill sids found => some (sids, found)
  | .groups sids _ => some (sids, [])
  | _ => none

namespace World

/-- The step gets a process past the command: after the listing of `/proc`, a process of a
recorded session forks outside the leader's group, or moves out of this group unlisted; a
child is spawned under the id of a recorded session that has been dealt with; the kernel spares
the supervisor, or a native process that the command signals; or the supervisor gets its
`SIGKILL` while a native process is alive in a session that was not recorded, unless this is a
child that the `SIGTERM` at its parent's death ends. -/
def Misses (W : World) : WorldEvent → Prop
  | .process (.fork q _) => ∃ s ∈ W.command.listed,
      ∃ p ∈ W.table.procs, p.pid = q ∧ p.native = true ∧ p.sid ∈ s.1 ∧ p.pgid ≠ p.sid
  | .process (.setpgid q g) => ∃ s ∈ W.command.listed,
      ∃ p ∈ W.table.procs, p.pid = q ∧ p.native = true ∧ p.sid ∈ s.1 ∧ g ≠ p.sid ∧ q ∉ s.2
  | .spawn _ pid =>
    match W.command with
    | .groups sids todo => pid ∈ sids ∧ pid ∉ todo
    | .supervisor sids => pid ∈ sids
    | _ => False
  | .command spared =>
    match W.command with
    | .kill _ (pid :: _) => pid ∈ spared ∧
        ∃ p ∈ W.table.procs, p.pid = pid ∧ p.native = true ∧ p.zombie = false
    | .supervisor sids => ∃ p ∈ W.table.procs, p.native = true ∧ p.zombie = false ∧ p.sid ∉ sids ∧
        ¬ (W.alive = true ∧ p.deathsig = true ∧ p.ignoresTerm = false)
    | _ => False
  | .killGroup sid spared =>
    ∃ p ∈ W.table.procs, p.pgid = sid ∧ p.native = true ∧ p.zombie = false ∧ p.pid ∈ spared
  | .supervisorSpared => True
  | _ => False

instance (W : World) (e : WorldEvent) : Decidable (W.Misses e) := by
  unfold Misses
  repeat' split
  all_goals infer_instance

end World

/-- What the command still has in store for a native process that is alive. -/
def ForcePc.Pursues : ForcePc → Proc (Option String) → Prop
  | .stat sids todo found, p => p.sid ∈ sids → p.pgid = p.sid ∨ p.pid ∈ todo ∨ p.pid ∈ found
  | .kill sids found, p => p.sid ∈ sids → p.pgid = p.sid ∨ p.pid ∈ found
  | .groups sids todo, p => p.sid ∈ sids → p.pgid = p.sid ∧ p.sid ∈ todo
  | .supervisor sids, p => p.sid ∉ sids
  | .poll, _ | .stopped, _ => False
  | .idle, _ | .loaded _, _ | .list _, _ | .over, _ => True

/-- Only the ids of a process decide what the command has in store for it. -/
theorem ForcePc.pursues_congr {pc : ForcePc} {p r : Proc (Option String)} (hpid : p.pid = r.pid)
    (hsid : p.sid = r.sid) (hpgid : p.pgid = r.pgid) (h : pc.Pursues r) : pc.Pursues p := by
  cases pc <;> simp only [ForcePc.Pursues, hpid, hsid, hpgid] at h ⊢ <;> exact h

namespace World

/-- The invariant of runs in which nobody gets past the command. -/
structure Hunted (W : World) : Prop where
  pursued : ∀ p ∈ W.table.procs, p.native = true → p.zombie = false → W.command.Pursues p
  orphaned : W.command = .poll ∨ W.command = .stopped → W.alive = false

private theorem hunted_init (K : Table (Option String)) (services : List String) :
    Hunted (init K services) where
  pursued _ _ _ _ := trivial
  orphaned h := by rcases h with h | h <;> cases h

variable {W V : World}

/-- Processes that end, or disappear, or change their mind about signals. -/
theorem Hunted.fades (h : Hunted W) {T : Table (Option String)} (hT : W.table.Fades T) :
    Hunted { W with table := T } := by
  refine { h with pursued := fun p hp hnative hz => ?_ }
  obtain ⟨r, hr, hpid, hsid, hpgid, hrn, -, hrz⟩ := hT p hp
  exact ForcePc.pursues_congr hpid hsid hpgid (h.pursued r hr (hrn ▸ hnative) (hrz hz))

/-- A step of a process of the table. -/
theorem Hunted.process (h : Hunted W) {T : Table (Option String)} {e : Processes.Event}
    (hst : W.table.step e = some T) (hm : ¬ W.Misses (.process e)) :
    Hunted { W with table := T } := by
  rcases Table.step_cases hst with ⟨q, hq, child, rfl, hz, -, -, hT⟩ | ⟨q, hq, rfl, -, -, hT⟩ |
    ⟨q, hq, g, rfl, hz, -, -, hT⟩ | ⟨-, -, -, hT⟩
  · refine { h with pursued := fun p hp hnative hpz => ?_ }
    rcases List.mem_cons.mp (hT ▸ hp) with rfl | hp
    · have hpursued := h.pursued q hq hnative hz
      have hgroup : ∀ s ∈ W.command.listed, q.sid ∈ s.1 → q.pgid = q.sid := by
        intro s hs hsid
        by_contra hg
        exact hm ⟨s, hs, q, hq, rfl, hnative, hsid, hg⟩
      cases hpc : W.command <;> rw [hpc] at hpursued hgroup
      case stat sids todo found => exact fun hsid => .inl (hgroup _ rfl hsid)
      case kill sids found => exact fun hsid => .inl (hgroup _ rfl hsid)
      all_goals exact hpursued
    · exact h.pursued p hp hnative hpz
  · refine { h with pursued := fun p hp hnative hpz => ?_ }
    obtain ⟨r, hr, hpid, hrz, -, ⟨-, -, -, hrn⟩ | ⟨-, hsid, hpgid, hrn⟩⟩ := mem_map_assign (hT ▸ hp)
    · rw [hnative, Bool.and_false] at hrn
      cases hrn
    · exact ForcePc.pursues_congr hpid hsid hpgid (h.pursued r hr (hrn ▸ hnative) (hrz ▸ hpz))
  · refine { h with pursued := fun p hp hnative hpz => ?_ }
    obtain ⟨r, hr, hpid, hrz, -, ⟨hrq, hsid, hpgid, hrn⟩ | ⟨-, hsid, hpgid, hrn⟩⟩ :=
      mem_map_assign (hT ▸ hp)
    · obtain rfl := W.table.wf.eq_of_pid hr hq hrq
      rw [Bool.and_true] at hrn
      have hpursued := h.pursued r hr (hrn ▸ hnative) hz
      have hmoved : ∀ s ∈ W.command.listed, r.sid ∈ s.1 → g = r.sid ∨ r.pid ∈ s.2 := by
        intro s hs hrs
        by_contra hg
        rw [not_or] at hg
        exact hm ⟨s, hs, r, hr, rfl, hrn ▸ hnative, hrs, hg.1, hg.2⟩
      cases hpc : W.command <;> rw [hpc] at hpursued hmoved <;>
        simp only [ForcePc.Pursues, hsid, hpgid, hpid]
      case stat sids todo found =>
        exact fun hrs => (hmoved _ rfl hrs).imp_right List.mem_append.mp
      case kill sids found => exact fun hrs => hmoved _ rfl hrs
      case groups sids todo =>
        intro hrs
        refine ⟨(hmoved _ rfl hrs).resolve_right (by simp), (hpursued hrs).2⟩
      all_goals exact hpursued
    · exact ForcePc.pursues_congr hpid hsid hpgid (h.pursued r hr (hrn ▸ hnative) (hrz ▸ hpz))
  · exact h.fades hT

/-- A new child. -/
theorem Hunted.spawn (h : Hunted W) {service : String} {pid : ℕ} (halive : W.alive = true)
    (hfree : used W.table.procs pid = false) (hm : ¬ W.Misses (.spawn service pid)) :
    Hunted { W with table := W.table.spawn pid (some service) hfree } := by
  refine { h with pursued := fun p hp hnative hpz => ?_ }
  rcases List.mem_cons.mp hp with rfl | hp
  · have hnot : ¬ (W.command = .poll ∨ W.command = .stopped) := by
      intro hpc
      rw [h.orphaned hpc] at halive
      cases halive
    simp only [Misses] at hm
    cases hpc : W.command <;> simp only [hpc] at hm hnot <;> simp only [ForcePc.Pursues]
    case groups sids todo => exact fun hsid => ⟨trivial, by_contra fun htodo => hm ⟨hsid, htodo⟩⟩
    case supervisor sids => exact hm
    case poll | stopped => simp at hnot
    all_goals simp
  · exact h.pursued p hp hnative hpz

/-- Nothing the command has in store depends on more than the table and the command. -/
theorem Hunted.aside (h : Hunted W) (htable : V.table = W.table) (hcommand : V.command = W.command)
    (halive : V.alive = true → W.alive = true) : Hunted V where
  pursued := by
    rw [htable, hcommand]
    exact h.pursued
  orphaned hpc := by
    rw [hcommand] at hpc
    have hdead := h.orphaned hpc
    by_contra hV
    rw [halive (by simpa using hV)] at hdead
    cases hdead

/-- A sweep of the supervisor only ever ends processes. -/
theorem Hunted.advance (h : Hunted W) {spared : List ℕ} (hst : W.advance spared = some V) :
    Hunted V := by
  have hdeliver (c : SweepCall) (test : Proc (Option String) → Bool) : Hunted (W.deliver c test) :=
    (h.fades (W.table.fades_kill _)).aside rfl rfl id
  unfold World.advance at hst
  split at hst
  case h_1 => cases hst
  case h_2 c calls hcalls hpc =>
    split at hst
    · exact h.aside (Option.some.inj hst ▸ rfl) (Option.some.inj hst ▸ rfl)
        (Option.some.inj hst ▸ id)
    · obtain rfl := Option.some.inj hst
      exact (hdeliver c _).aside rfl rfl id
  case h_6 c calls pid found hcalls hpc =>
    obtain rfl := Option.some.inj hst
    exact (hdeliver c _).aside rfl rfl id
  all_goals
    obtain rfl := Option.some.inj hst
    exact h.aside rfl rfl id

/-- Every step of the command. -/
theorem Hunted.stepCommand (h : Hunted W) {spared : List ℕ} (hst : W.stepCommand spared = some V)
    (hm : ¬ W.Misses (.command spared)) : Hunted V := by
  unfold World.stepCommand at hst
  split at hst
  case h_1 pids hpc =>
    obtain rfl := Option.some.inj hst
    split
    · exact ⟨fun _ _ _ _ => trivial, by simp⟩
    · exact ⟨fun _ _ _ _ => trivial, by simp⟩
  case h_2 sids hpc =>
    obtain rfl := Option.some.inj hst
    exact ⟨fun p hp _ _ _ => .inr (.inl (List.mem_map_of_mem hp)), by simp⟩
  case h_3 sids pid todo found hpc =>
    obtain rfl := Option.some.inj hst
    refine ⟨fun p hp hnative hz hsid => ?_, by simp⟩
    have hpursued := h.pursued p hp hnative hz
    rw [hpc] at hpursued
    refine (hpursued hsid).imp_right fun hmarked => ?_
    rcases hmarked with htodo | hfound
    · rcases List.mem_cons.mp htodo with hpid | htodo
      · have hread : W.sessionId pid = some p.sid := W.sessionId_of_mem hp hpid
        rw [hread, Option.any_some, if_pos (decide_eq_true hsid), hpid]
        exact .inr List.mem_concat_self
      · exact .inl htodo
    · right
      split
      · exact List.mem_append_left _ hfound
      · exact hfound
  case h_4 sids found hpc =>
    obtain rfl := Option.some.inj hst
    refine ⟨fun p hp hnative hz hsid => ?_, by simp⟩
    have hpursued := h.pursued p hp hnative hz
    rw [hpc] at hpursued
    simpa using hpursued hsid
  case h_5 sids pid found hpc =>
    obtain rfl := Option.some.inj hst
    refine ⟨fun p hp hnative hz hsid => ?_, by simp⟩
    obtain ⟨hmem, hhit⟩ := Table.mem_of_mem_kill hp hz
    have hpursued := h.pursued p hmem hnative hz
    simp only [Misses, hpc] at hm
    rw [hpc] at hpursued
    refine (hpursued hsid).imp_right fun hfound => (List.mem_cons.mp hfound).resolve_left ?_
    rintro rfl
    exact hm ⟨spared_of_not_hit hhit (beq_self_eq_true _), p, hmem, rfl, hnative, hz⟩
  case h_6 sids hpc =>
    obtain rfl := Option.some.inj hst
    refine ⟨fun p hp hnative hz hsid => ?_, by simp⟩
    have hpursued := h.pursued p hp hnative hz
    rw [hpc] at hpursued
    exact ⟨(hpursued hsid).resolve_right (by simp), hsid⟩
  case h_7 sids hpc =>
    obtain rfl := Option.some.inj hst
    refine ⟨fun p hp hnative hz hsid => ?_, by simp⟩
    have hpursued := h.pursued p hp hnative hz
    rw [hpc] at hpursued
    exact absurd (hpursued hsid).2 (by simp)
  case h_8 sids hpc =>
    obtain rfl := Option.some.inj hst
    have hnone : ∀ p ∈ W.table.procs, p.native = true → p.zombie = false →
        W.alive = true ∧ p.deathsig = true ∧ p.ignoresTerm = false := by
      intro p hp hnative hz
      by_contra hother
      have hpursued := h.pursued p hp hnative hz
      simp only [Misses, hpc] at hm
      rw [hpc] at hpursued
      exact hm ⟨p, hp, hnative, hz, hpursued, hother⟩
    split
    · refine ⟨fun p hp hnative hz => ?_, fun _ => rfl⟩
      obtain ⟨hp, htest⟩ := Table.mem_of_mem_kill hp hz
      obtain ⟨-, hdeathsig, hterm⟩ := hnone p hp hnative hz
      simp [hdeathsig, hterm, Signal.ends] at htest
    · rename_i hdead
      exact ⟨fun p hp hnative hz => hdead (hnone p hp hnative hz).1, fun _ => by simpa using hdead⟩
  case h_9 hpc =>
    obtain rfl := Option.some.inj hst
    have hdead := h.orphaned (.inl hpc)
    refine ⟨fun p hp hnative hz => ?_, fun _ => hdead⟩
    have hpursued := h.pursued p hp hnative hz
    rw [hpc] at hpursued
    exact hpursued.elim
  case h_10 => cases hst

/-- Every step that nobody gets past the command with. -/
theorem Hunted.step (h : Hunted W) {e : WorldEvent} (hst : W.step e = some V)
    (hm : ¬ W.Misses e) : Hunted V := by
  cases e with
  | process e =>
      obtain ⟨T, hT, rfl⟩ := Option.map_eq_some_iff.mp hst
      exact h.process hT hm
  | spawn service pid =>
      simp only [World.step, Option.ite_none_right_eq_some, Option.dite_none_right_eq_some,
        Option.some.injEq] at hst
      obtain ⟨⟨-, hfree, -, -⟩, hid, rfl⟩ := hst
      simp only [World.free, Bool.and_eq_true] at hfree
      exact (h.spawn hfree.1 hid.2 hm).aside rfl rfl id
  | register service =>
      simp only [World.step] at hst
      split at hst
      · simp only [Option.ite_none_right_eq_some, Option.some.injEq] at hst
        obtain ⟨-, rfl⟩ := hst
        exact h.aside rfl rfl id
      · cases hst
  | abandon service | clear service | write | remove | sweep service signal | killAll =>
      simp only [World.step, Option.ite_none_right_eq_some, Option.some.injEq] at hst
      obtain ⟨-, rfl⟩ := hst
      exact h.aside rfl rfl id
  | advance spared =>
      simp only [World.step, Option.ite_none_right_eq_some] at hst
      exact h.advance hst.2
  | sweepRaises =>
      simp only [World.step] at hst
      split at hst
      · simp only [Option.ite_none_right_eq_some, Option.some.injEq] at hst
        obtain ⟨-, rfl⟩ := hst
        exact h.aside rfl rfl id
      · cases hst
  | supervisorEnds =>
      simp only [World.step, Option.ite_none_right_eq_some, Option.some.injEq] at hst
      obtain ⟨-, rfl⟩ := hst
      exact (h.fades (W.table.fades_kill _)).aside rfl rfl fun h => absurd h Bool.false_ne_true
  | force | commandRaises =>
      simp only [World.step] at hst
      split at hst
      · obtain rfl := Option.some.inj hst
        exact ⟨fun _ _ _ _ => trivial, by simp⟩
      · cases hst
  | supervisorSpared => exact absurd trivial hm
  | command spared => exact h.stepCommand hst hm
  | killGroup sid spared =>
      simp only [World.step] at hst
      split at hst
      · rename_i sids todo hpc
        simp only [Option.ite_none_right_eq_some, Option.some.injEq] at hst
        obtain ⟨-, rfl⟩ := hst
        refine ⟨fun p hp hnative hz hsid => ?_, by simp⟩
        obtain ⟨hp, hhit⟩ := Table.mem_of_mem_kill hp hz
        have hpursued := h.pursued p hp hnative hz
        rw [hpc] at hpursued
        obtain ⟨hgroup, htodo⟩ := hpursued hsid
        refine ⟨hgroup, List.mem_filter.mpr ⟨htodo, decide_eq_true fun hkilled => ?_⟩⟩
        have hpgid : p.pgid = sid := hgroup.trans hkilled
        exact hm ⟨p, hp, hpgid, hnative, hz, spared_of_not_hit hhit (beq_iff_eq.mpr hpgid)⟩
      · cases hst
  | deadline =>
      simp only [World.step, Option.ite_none_right_eq_some, Option.some.injEq] at hst
      obtain ⟨-, rfl⟩ := hst
      exact ⟨fun _ _ _ _ => trivial, by simp⟩

private theorem hunted_run {K : Table (Option String)} {services : List String}
    {es : List WorldEvent}
    (h : Run (Steps.within fun W e => ¬ W.Misses e) (init K services) es W) : Hunted W :=
  h.invariant Hunted (hunted_init K services) fun _ _ _ hinv hst => hinv.step hst.2 hst.1

/-- As long as nobody gets past the command, no process in the session of any child that the
instance ever spawned is alive when the command reports the instance stopped. -/
theorem force_kill_leaves_nothing {K : Table (Option String)} {services : List String}
    {es : List WorldEvent}
    (h : Run (Steps.within fun W e => ¬ W.Misses e) (init K services) es W)
    (hstopped : W.command = .stopped) : ∀ p ∈ W.table.procs, p.native = true → p.zombie = true := by
  intro p hp hnative
  by_contra hz
  have hpursued := (hunted_run h).pursued p hp hnative (by simpa using hz)
  rw [hstopped] at hpursued
  exact hpursued

/-- No process but those of the instance. -/
def quiet : Table (Option String) where
  procs := []
  wf := by constructor <;> simp

/-- The child of a service has a helper in a group of its own, and both ignore `SIGTERM`; the
command is started. -/
def forced : List WorldEvent :=
  [.spawn "web" 100, .register "web", .process (.mask 100 true), .process (.fork 100 101),
    .process (.setpgid 101 101), .force]

/-- The command meets nobody it does not know. -/
theorem force_kill_leaves_nothing_helper :
    ∃ W : World, Run (Steps.within fun W e => ¬ W.Misses e) (init quiet ["web"])
        (forced ++ List.replicate 8 .command ++ [.killGroup 100, .command, .command, .command]) W ∧
      ∀ p ∈ W.table.procs, p.native = true → p.zombie = true := by
  obtain ⟨W, hrun, hW⟩ := exists_run_of_execWithin step (fun W e => ¬ W.Misses e)
    (init quiet ["web"])
    (forced ++ List.replicate 8 .command ++ [.killGroup 100, .command, .command, .command])
    (fun W => decide (W.command = .stopped)) (by decide +kernel)
  exact ⟨W, hrun, force_kill_leaves_nothing hrun (of_decide_eq_true hW)⟩

/-- A service in its backoff is respawned while the command walks through the sessions of the
record, and its child ignores the `SIGTERM` at the supervisor's death. -/
theorem not_force_kill_leaves_nothing :
    ¬ ∀ (K : Table (Option String)) (services : List String) (es : List WorldEvent) (W : World),
      Run Steps (init K services) es W → W.command = .stopped →
      ∀ p ∈ W.table.procs, p.native = true → p.zombie = true := by
  intro h
  obtain ⟨W, hrun, hW⟩ := exists_run_of_exec step (init quiet ["api"])
    [.write, .force, .command, .command, .spawn "api" 100, .register "api",
      .process (.mask 100 true), .command, .command, .command, .command, .command]
    (fun W => decide (W.command = .stopped) &&
      W.table.procs.any fun p => p.native && !p.zombie) (by decide +kernel)
  obtain ⟨hstopped, hany⟩ := (Bool.and_eq_true _ _).mp hW
  obtain ⟨p, hp, halive⟩ := List.any_eq_true.mp hany
  simp only [Bool.and_eq_true, Bool.not_eq_true'] at halive
  rw [h _ _ _ W hrun (of_decide_eq_true hstopped) p hp halive.1] at halive
  cases halive.2

end World

end Jetty.Orchestrator
