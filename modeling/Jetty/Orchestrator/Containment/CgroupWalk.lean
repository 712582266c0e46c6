import Jetty.Orchestrator.Containment.Cgroup

/-!
# Walks of a service's groups

`cgroup_procs` keeps a stack of the groups it still has to read. While nothing else happens, it
finds every process below the group it starts at, and finds it once, however deep the service has
nested its own groups. So a sweep that is left alone signals the same processes by walking as by
one write to `cgroup.kill`.
-/

namespace Jetty.Orchestrator

open Transition Hierarchy

namespace CgroupWorld

variable {W V : CgroupWorld} {c : SweepCall} {calls : List SweepCall}

/-- The groups form a tree, and every process is in one of them. -/
structure Hierarchical (W : CgroupWorld) : Prop where
  tree : Tree W.dirs
  procs : ∀ p ∈ W.table.procs, p.group ∈ W.dirs

private theorem mem_deliver {test : Member String → Bool} {p : Member String}
    (hp : p ∈ (W.deliver c test).table.procs) : p ∈ W.table.procs := by
  simp only [deliver] at hp
  split at hp
  · exact (Table.mem_kill.mp hp).1
  · exact hp

private theorem Hierarchical.mono (h : Hierarchical W) (hdirs : V.dirs = W.dirs)
    (hprocs : ∀ p ∈ V.table.procs, p ∈ W.table.procs) : Hierarchical V where
  tree := hdirs ▸ h.tree
  procs p hp := hdirs ▸ h.procs p (hprocs p hp)

private theorem Hierarchical.add (h : Hierarchical W) {p : Member String}
    (hfree : W.table.Free p.pid)
    (hp : p.group ∈ W.dirs) : Hierarchical { W with table := W.table.add p hfree } where
  tree := h.tree
  procs r hr := by
    rcases List.mem_cons.mp hr with rfl | hr
    · exact hp
    · exact h.procs r hr

private theorem Hierarchical.move (h : Hierarchical W) {q : ℕ} {dir : Group} (hdir : dir ∈ W.dirs) :
    Hierarchical { W with table := W.table.move q dir } where
  tree := h.tree
  procs p hp := by
    obtain ⟨r, hr, -, -, ⟨-, hgroup, -⟩ | ⟨-, rfl⟩⟩ := Table.mem_move hp
    · rw [hgroup]
      exact hdir
    · exact h.procs p hr

private theorem Hierarchical.regroup (h : Hierarchical W) (q session pgroup : ℕ) :
    Hierarchical { W with table := W.table.regroup q session pgroup } where
  tree := h.tree
  procs p hp := by
    obtain ⟨r, hr, -, hgroup, -⟩ := Table.mem_regroup hp
    rw [hgroup]
    exact h.procs r hr

/-- Processes end. -/
theorem Hierarchical.kill (h : Hierarchical W) (test : Member String → Bool) :
    Hierarchical { W with table := W.table.kill test } :=
  h.mono rfl fun _ hp => (Table.mem_kill.mp hp).1

/-- Neither the sweeps nor the command change the groups. -/
theorem Hierarchical.aside (h : Hierarchical W) (hdirs : V.dirs = W.dirs)
    (htable : V.table = W.table) : Hierarchical V :=
  h.mono hdirs fun _ hp => htable ▸ hp

private theorem Hierarchical.advance (h : Hierarchical W) {spared : List ℕ}
    (hst : W.advance spared = some V) : Hierarchical V := by
  unfold CgroupWorld.advance at hst
  split at hst
  · cases hst
  · obtain ⟨-, hst⟩ := Option.ite_none_left_eq_some.mp hst
    exact h.aside (Option.some.inj hst ▸ rfl) (Option.some.inj hst ▸ rfl)
  all_goals obtain rfl := Option.some.inj hst
  all_goals exact h.mono rfl fun _ hp => by first | exact hp | exact mem_deliver hp

private theorem Hierarchical.stepCommand (h : Hierarchical W) {spared : List ℕ}
    (hst : W.stepCommand spared = some V) : Hierarchical V := by
  unfold CgroupWorld.stepCommand at hst
  split at hst
  case h_4 => exact Option.some.inj hst ▸ (h.kill _).aside rfl rfl
  case h_7 => cases hst
  all_goals exact Option.some.inj hst ▸ h.aside rfl rfl

private theorem Hierarchical.killFile (h : Hierarchical W) {ok : Bool}
    (hst : W.step (.killFile ok) = some V) : Hierarchical V := by
  simp only [CgroupWorld.step] at hst
  split at hst
  · obtain ⟨-, hst⟩ := Option.ite_none_right_eq_some.mp hst
    cases ok with
    | true =>
        obtain ⟨-, hst⟩ := Option.ite_none_right_eq_some.mp hst
        obtain rfl := Option.some.inj hst
        exact h.mono rfl fun _ hp => mem_deliver hp
    | false => exact Option.some.inj hst ▸ h.aside rfl rfl
  · cases hst

private theorem Hierarchical.step (h : Hierarchical W) {e : CgroupEvent} (hst : W.step e = some V) :
    Hierarchical V := by
  cases e with
  | fork q child =>
      obtain ⟨p, hsettled, hst⟩ := Option.bind_eq_some_iff.mp hst
      split at hst
      · rename_i hfree
        obtain rfl := Option.some.inj hst
        exact h.add hfree.2 (h.procs p (Table.settled_some hsettled).1)
      · cases hst
  | exit q => exact Option.some.inj hst ▸ h.kill _
  | setsid q | setpgid q g =>
      obtain ⟨p, -, hst⟩ := Option.bind_eq_some_iff.mp hst
      obtain ⟨-, hst⟩ := Option.ite_none_right_eq_some.mp hst
      exact Option.some.inj hst ▸ h.regroup q _ _
  | move q dir =>
      obtain ⟨-, -, hst⟩ := Option.bind_eq_some_iff.mp hst
      obtain ⟨hdir, hst⟩ := Option.ite_none_right_eq_some.mp hst
      exact Option.some.inj hst ▸ h.move hdir
  | mkdir dir =>
      obtain ⟨⟨hnew, hne, habove⟩, hst⟩ := Option.ite_none_right_eq_some.mp hst
      obtain rfl := Option.some.inj hst
      exact ⟨h.tree.mkdir hnew habove, fun p hp => List.mem_append_left _ (h.procs p hp)⟩
  | rmdir dir =>
      obtain ⟨⟨hempty, hleaf⟩, hst⟩ := Option.ite_none_right_eq_some.mp hst
      obtain rfl := Option.some.inj hst
      refine ⟨h.tree.rmdir (List.reverse_eq_nil_iff.mp hleaf), fun p hp => ?_⟩
      exact List.mem_filter.mpr ⟨h.procs p hp, decide_eq_true (hempty p hp)⟩
  | spawn service pid =>
      obtain ⟨⟨-, -, hdir⟩, hst⟩ := Option.ite_none_right_eq_some.mp hst
      split at hst
      · rename_i hfree
        obtain rfl := Option.some.inj hst
        exact h.add hfree.2 hdir
      · cases hst
  | enter pid =>
      simp only [CgroupWorld.step] at hst
      split at hst
      · obtain ⟨service, -, hst⟩ := Option.bind_eq_some_iff.mp hst
        obtain ⟨hdir, hst⟩ := Option.ite_none_right_eq_some.mp hst
        exact Option.some.inj hst ▸ h.move hdir
      · cases hst
  | sweep service signal | killAll | force servicePids =>
      obtain ⟨-, hst⟩ := Option.ite_none_right_eq_some.mp hst
      exact Option.some.inj hst ▸ h.aside rfl rfl
  | killFile ok => exact h.killFile hst
  | advance spared => exact h.advance hst
  | killRoot ok =>
      simp only [CgroupWorld.step] at hst
      split at hst
      · cases ok with
        | true => exact Option.some.inj hst ▸ (h.kill _).aside rfl rfl
        | false => exact Option.some.inj hst ▸ h.aside rfl rfl
      · cases hst
  | command spared => exact h.stepCommand hst
  | killGroup sid spared =>
      simp only [CgroupWorld.step] at hst
      split at hst
      · obtain ⟨-, hst⟩ := Option.ite_none_right_eq_some.mp hst
        exact Option.some.inj hst ▸ (h.kill _).aside rfl rfl
      · cases hst
  | commandRaises =>
      simp only [CgroupWorld.step] at hst
      split at hst
      · exact Option.some.inj hst ▸ h.aside rfl rfl
      · cases hst

/-! ### The walk -/

private theorem step_procs {g : Group} {rest : List Group} {found : List ℕ}
    (hcalls : W.calls = c :: calls) (hpc : W.pc = .procs (g :: rest) found) (hg : g ∈ W.dirs) :
    W.step .advance = some { W with pc := .subgroups g rest (found ++ W.pidsAt g) } := by
  simp only [step, CgroupWorld.advance, hcalls, hpc, if_pos hg]

private theorem step_missing {g : Group} {rest : List Group} {found : List ℕ}
    (hcalls : W.calls = c :: calls) (hpc : W.pc = .procs (g :: rest) found) (hg : g ∉ W.dirs) :
    W.step .advance = some { W with pc := .procs rest found } := by
  simp only [step, CgroupWorld.advance, hcalls, hpc, if_neg hg]

private theorem step_start (hcalls : W.calls = c :: calls) (hpc : W.pc = .start)
    (hsignal : c.signal ≠ .KILL) :
    W.step .advance = some { W with pc := .procs [svcDir W.root c.service] [] } := by
  simp only [step, CgroupWorld.advance, hcalls, hpc, if_neg hsignal]

private theorem step_killFile (hcalls : W.calls = c :: calls) (hpc : W.pc = .start)
    (hsignal : c.signal = .KILL) (hdir : svcDir W.root c.service ∈ W.dirs) :
    W.step (.killFile true) = some { W.deliver c
      (fun p => decide (p.Under (svcDir W.root c.service))) with calls := calls } := by
  simp only [step, hcalls, hpc, if_pos hsignal, if_pos hdir, if_true]

private theorem step_refused (hcalls : W.calls = c :: calls) (hpc : W.pc = .start)
    (hsignal : c.signal = .KILL) :
    W.step (.killFile false) = some { W with pc := .procs [svcDir W.root c.service] [] } := by
  simp only [step, hcalls, hpc, if_pos hsignal, Bool.false_eq_true, if_false]

private theorem step_subgroups {g : Group} {rest : List Group} {found : List ℕ}
    (hcalls : W.calls = c :: calls) (hpc : W.pc = .subgroups g rest found) :
    W.step .advance = some { W with pc := .procs (W.subgroups g ++ rest) found } := by
  simp only [step, CgroupWorld.advance, hcalls, hpc]

private theorem step_found {found : List ℕ} (hcalls : W.calls = c :: calls)
    (hpc : W.pc = .procs [] found) : W.step .advance = some { W with pc := .kill found } := by
  simp only [step, CgroupWorld.advance, hcalls, hpc]

private theorem step_signal {pid : ℕ} {found : List ℕ} (hcalls : W.calls = c :: calls)
    (hpc : W.pc = .kill (pid :: found)) :
    W.step .advance = some { W.deliver c (fun p => p.pid == pid) with pc := .kill found } := by
  simp only [step, CgroupWorld.advance, hcalls, hpc, named_nil]

private theorem step_done (hcalls : W.calls = c :: calls) (hpc : W.pc = .kill []) :
    W.step .advance = some { W with calls := calls, pc := .start } := by
  simp only [step, CgroupWorld.advance, hcalls, hpc]

private theorem exec_advance {U : CgroupWorld} {n : ℕ} {r : Option CgroupWorld}
    (hst : W.step .advance = some U) (hexec : exec step U (List.replicate n .advance) = r) :
    exec step W (List.replicate (n + 1) .advance) = r := by
  rw [List.replicate_succ, exec, hst, Option.bind_some, hexec]

/-- The walk, left alone, finds each process below the groups on its stack once. -/
theorem walk_finds (h : Hierarchical W) (hcalls : W.calls = c :: calls) {stack : List Group}
    (hapart : Apart stack) (hstack : ∀ d ∈ stack, d ∈ W.dirs) (found : List ℕ) :
    ∃ (n : ℕ) (ps : List (Member String)),
      exec step { W with pc := .procs stack found } (List.replicate n .advance) =
        some { W with pc := .kill (found ++ ps.map Member.pid) } ∧
      ps.Perm (W.table.within stack) := by
  induction hn : ahead W.dirs stack using Nat.strong_induction_on generalizing stack found with
  | _ m ih =>
    cases stack with
    | nil =>
        refine ⟨1, [], ?_, ?_⟩
        · rw [List.map_nil, List.append_nil]
          exact exec_advance (step_found hcalls rfl) rfl
        · rw [Table.within_nil]
    | cons g rest =>
        have hg := hstack g List.mem_cons_self
        have hless := h.tree.ahead_children hapart hg
        rw [hn] at hless
        have hmore : ∀ d ∈ W.subgroups g ++ rest, d ∈ W.dirs := by
          intro d hd
          rcases List.mem_append.mp hd with hd | hd
          · exact (mem_children.mp (List.mem_reverse.mp hd)).1
          · exact hstack d (List.mem_cons_of_mem _ hd)
        obtain ⟨n, ps, hexec, hperm⟩ :=
          ih _ hless (h.tree.apart_children hapart) hmore (found ++ W.pidsAt g) rfl
        refine ⟨n + 2, (W.table.procs.filter fun p => p.group = g) ++ ps, ?_, ?_⟩
        · rw [List.map_append, ← List.append_assoc]
          exact exec_advance (step_procs hcalls rfl hg)
            (exec_advance (step_subgroups hcalls rfl) hexec)
        · exact (hperm.append_left _).trans
            (Table.within_cons_perm h.tree hapart h.procs).symm

/-- The pids that were found are signalled one after the other. -/
theorem signals (hcalls : W.calls = c :: calls) {ps : List (Member String)}
    (hps : ∀ p ∈ ps, p ∈ W.table.procs) (hnodup : (ps.map Member.pid).Nodup) :
    ∃ V, exec step { W with pc := .kill (ps.map Member.pid) }
        (List.replicate (ps.length + 1) .advance) = some V ∧
      V.log = W.log ++ ps.map (fun p => ⟨c, p.pid, p.origin⟩) ∧ V.calls = calls ∧
      V.pc = .start ∧
      ∀ p ∈ V.table.procs, p ∈ W.table.procs ∧ (c.signal = .KILL → p ∉ ps) := by
  induction ps generalizing W with
  | nil =>
      exact ⟨{ W with calls := calls, pc := .start }, exec_advance (step_done hcalls rfl) rfl,
        (List.append_nil _).symm, rfl, rfl, fun p hp => ⟨hp, fun _ => List.not_mem_nil⟩⟩
  | cons p ps ih =>
      obtain ⟨hfresh, hnodup⟩ := List.nodup_cons.mp hnodup
      have hp := hps p List.mem_cons_self
      have hrest : ∀ r ∈ ps, r ∈ (W.deliver c fun r => r.pid == p.pid).table.procs := by
        intro r hr
        have hmem := hps r (List.mem_cons_of_mem _ hr)
        simp only [deliver]
        split
        · refine Table.mem_kill.mpr ⟨hmem, beq_eq_false_iff_ne.mpr fun heq => hfresh ?_⟩
          exact heq ▸ List.mem_map_of_mem hr
        · exact hmem
      obtain ⟨V, hexec, hlog, hV⟩ :=
        ih (W := W.deliver c fun r => r.pid == p.pid) hcalls hrest hnodup
      refine ⟨V, exec_advance (step_signal hcalls rfl) hexec, ?_, hV.1, hV.2.1, fun r hr => ?_⟩
      · rw [hlog, List.map_cons]
        simp only [deliver, Table.filter_pid hp, List.map_cons, List.map_nil, List.append_assoc,
          List.cons_append, List.nil_append]
      · obtain ⟨hmem, hnot⟩ := hV.2.2 r hr
        refine ⟨mem_deliver hmem, fun hsignal hr' => ?_⟩
        rcases List.mem_cons.mp hr' with rfl | hr'
        · simp only [deliver, if_pos hsignal] at hmem
          have hother := (Table.mem_kill.mp hmem).2
          rw [beq_self_eq_true] at hother
          cases hother
        · exact hnot hsignal hr'

private theorem walk_of_root (h : Hierarchical W) (hcalls : W.calls = c :: calls) (dir : Group) :
    ∃ (n : ℕ) (ps : List (Member String)),
      exec step { W with pc := .procs [dir] [] } (List.replicate n .advance) =
        some { W with pc := .kill (ps.map Member.pid) } ∧ ps.Perm (W.table.within [dir]) := by
  by_cases hdir : dir ∈ W.dirs
  · exact walk_finds h hcalls (List.pairwise_singleton _ _)
      (fun d hd => List.mem_singleton.mp hd ▸ hdir) []
  · -- a group that is not there has no process
    have hnone : W.table.within [dir] = [] := by
      refine List.filter_eq_nil_iff.mpr fun p hp => ?_
      rw [decide_eq_true_eq]
      rintro ⟨g, hg, hprefix⟩
      rw [List.mem_singleton.mp hg] at hprefix
      exact hdir (h.tree.mem_of_prefix (h.procs p hp) hprefix)
    refine ⟨2, [], ?_, by rw [hnone]⟩
    exact exec_advance (step_missing hcalls rfl hdir) (exec_advance (step_found hcalls rfl) rfl)

/-- What opens a sweep: the write to `cgroup.kill`, for `SIGKILL`. -/
def opening (c : SweepCall) (ok : Bool) : List CgroupEvent :=
  if c.signal = .KILL then [.killFile ok] else []

/-- What an undisturbed sweep of `c` that leads from `W` to `V` has done. -/
structure Swept (W V : CgroupWorld) (c : SweepCall) (calls : List SweepCall) : Prop where
  /-- Each process of the service that has entered its group is signalled once, and no other. -/
  signalled : ∃ ps : List (Member String),
    ps.Perm (W.table.procs.filter fun p => p.origin = some c.service ∧ p.settling = false) ∧
    V.log = W.log ++ ps.map fun p => ⟨c, p.pid, p.origin⟩
  calls : V.calls = calls
  left : c.signal = .KILL → ∀ p ∈ V.table.procs, p.origin = some c.service → p.settling = true

/-- The processes below a service's group are the service's own that have entered it. -/
theorem Contained.below (h : Contained W) {service : String} (hservice : service ∈ W.services) :
    (W.table.procs.filter fun p => decide (p.Under (svcDir W.root service))) =
      W.table.procs.filter fun p => p.origin = some service ∧ p.settling = false :=
  List.filter_congr fun p hp => decide_eq_decide.mpr (h.separated.exact p hp service hservice)

/-- The write to `cgroup.kill` succeeds. -/
theorem swept_of_killFile (h : Contained W) (hcalls : W.calls = c :: calls)
    (hst : W.step (.killFile true) = some V) : Swept W V c calls := by
  have hleft := survives_killFile hst
  simp only [step, hcalls] at hst
  split at hst
  · rename_i heq _
    obtain ⟨rfl, rfl⟩ := List.cons.inj heq
    obtain ⟨hsignal, hst⟩ := Option.ite_none_right_eq_some.mp hst
    obtain ⟨-, hst⟩ := Option.ite_none_right_eq_some.mp hst
    obtain rfl := Option.some.inj hst
    have hservice := h.calls _ (hcalls ▸ List.mem_cons_self)
    refine ⟨⟨_, .of_eq (h.below hservice), rfl⟩, rfl, fun _ p hp horigin => ?_⟩
    obtain ⟨hmem, hout⟩ := hleft _ (by rw [hcalls]; rfl) p hp
    by_contra hsettled
    rw [Bool.not_eq_true] at hsettled
    exact hout ((h.separated.exact p hmem _ hservice).mpr ⟨horigin, hsettled⟩)
  · cases hst

/-- The sweep walks the groups. -/
theorem swept_of_walk (hcontained : Contained W) (hhier : Hierarchical W)
    (hcalls : W.calls = c :: calls) : ∃ (n : ℕ) (V : CgroupWorld),
      exec step { W with pc := .procs [svcDir W.root c.service] [] }
        (List.replicate n .advance) = some V ∧ Swept W V c calls := by
  obtain ⟨n, ps, hwalk, hperm⟩ := walk_of_root hhier hcalls (svcDir W.root c.service)
  have hservice := hcontained.calls c (hcalls ▸ List.mem_cons_self)
  have hexact : ps.Perm
      (W.table.procs.filter fun p => p.origin = some c.service ∧ p.settling = false) := by
    refine hperm.trans (.of_eq ?_)
    rw [← hcontained.below hservice]
    exact List.filter_congr fun p _ => decide_eq_decide.mpr covers_singleton
  have hps : ∀ p ∈ ps, p ∈ W.table.procs := fun p hp =>
    (List.mem_filter.mp (hperm.mem_iff.mp hp)).1
  have hnodup : (ps.map Member.pid).Nodup :=
    (hperm.map Member.pid).nodup_iff.mpr (W.table.nodup.sublist (List.filter_sublist.map _))
  obtain ⟨V, hsignals, hlog, hVcalls, -, hrest⟩ := signals hcalls hps hnodup
  refine ⟨n + (ps.length + 1), V, ?_, ⟨ps, hexact, hlog⟩, hVcalls, fun hsignal p hp ho => ?_⟩
  · rw [← List.replicate_append_replicate, exec_append, hwalk, Option.bind_some, hsignals]
  · obtain ⟨hmem, hnot⟩ := hrest p hp
    by_contra hsettled
    rw [Bool.not_eq_true] at hsettled
    refine hnot hsignal (hexact.mem_iff.mpr (List.mem_filter.mpr ⟨hmem, ?_⟩))
    exact decide_eq_true ⟨ho, hsettled⟩

/-- A sweep that is left alone runs to its end and signals each process of its service that has
entered its group once and no other, by the write to `cgroup.kill` or, where the kernel refuses
this or the signal is another one, by walking the groups, however deep the service has nested
them; and `SIGKILL` leaves none of them. -/
theorem sweep_signals_each {K : Table String} {dirs : List Group} {root : Group}
    {services : List String} {es : List CgroupEvent} (hfresh : Fresh K root services)
    (htree : Tree dirs) (hgroups : ∀ p ∈ K.procs, p.group ∈ dirs)
    (h : Run (Steps.within fun W e => ¬ W.Strays e) (init K dirs root services) es W)
    (hcalls : W.calls = c :: calls) (hpc : W.pc = .start) (ok : Bool)
    (hok : ok = true → svcDir W.root c.service ∈ W.dirs) :
    ∃ (n : ℕ) (V : CgroupWorld),
      exec step W (opening c ok ++ List.replicate n .advance) = some V ∧ Swept W V c calls := by
  have hcontained := contained_run hfresh h
  have hhier : Hierarchical W :=
    h.invariant Hierarchical ⟨htree, hgroups⟩ fun _ _ _ hinv hst => hinv.step hst.2
  obtain ⟨n, V, hexec, hswept⟩ := swept_of_walk hcontained hhier hcalls
  by_cases hsignal : c.signal = .KILL
  · rw [opening, if_pos hsignal]
    cases ok with
    | true =>
        have hst := step_killFile hcalls hpc hsignal (hok rfl)
        exact ⟨0, _, by rw [exec_append, exec, hst]; rfl, swept_of_killFile hcontained hcalls hst⟩
    | false =>
        refine ⟨n, V, ?_, hswept⟩
        rw [exec_append, exec, step_refused hcalls hpc hsignal]
        exact hexec
  · rw [opening, if_neg hsignal]
    exact ⟨n + 1, V, exec_advance (step_start hcalls hpc hsignal) hexec, hswept⟩

/-- Where `cgroup.kill` fails, the walk comes to the nested group too. -/
theorem sweep_signals_each_nested : ∃ (W V : CgroupWorld) (n : ℕ),
    Run (Steps.within fun W e => ¬ W.Strays e) (init scopeTable scopeDirs ["scope"] ["web"])
      stopsWeb W ∧
    exec step W (.killFile false :: List.replicate n .advance) = some V ∧
    Swept W V ⟨"web", .KILL⟩ [] := by
  obtain ⟨W, hrun, hW⟩ := exists_run_of_execWithin step (fun W e => ¬ W.Strays e)
    (init scopeTable scopeDirs ["scope"] ["web"]) stopsWeb
    (fun W => decide (W.calls = [⟨"web", .KILL⟩] ∧ W.pc = .start)) (by decide +kernel)
  obtain ⟨hcalls, hpc⟩ := of_decide_eq_true hW
  have htree : Tree scopeDirs := ⟨by decide, by decide⟩
  obtain ⟨n, V, hexec, hswept⟩ := sweep_signals_each scope_fresh htree (by decide)
    hrun hcalls hpc false (fun h => absurd h Bool.false_ne_true)
  exact ⟨W, V, n, hrun, hexec, hswept⟩

end CgroupWorld

end Jetty.Orchestrator
