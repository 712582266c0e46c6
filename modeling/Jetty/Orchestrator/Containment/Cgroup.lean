import Jetty.Orchestrator.Containment.Step
import Jetty.Core.Hierarchy

/-!
# Control-group containment

`CgroupBackend` between the services of one supervisor and the hierarchy of control groups. Each
service has a group of its own below the instance's root, which the supervisor's child enters
before it runs the service's program. A `SIGKILL` sweep is one write to `cgroup.kill`; where the
kernel refuses it, and for every other signal, the sweep walks the service's groups, reading
`cgroup.procs` and the subgroups of one after the other, and signals what it has found. A forced
kill from outside is one write to the `cgroup.kill` of the root; where the kernel refuses that, the
command goes for the sessions of the recorded processes instead.
-/

namespace Jetty.Orchestrator

open Transition Hierarchy

/-- Where the first of the sweeps is. -/
inductive CgroupPc
  | start
  /-- `cgroup_procs`: about to read the processes of the first of the groups in `dirs`. -/
  | procs (dirs : List Group) (found : List ℕ)
  /-- `cgroup_procs`: about to list the subgroups of `dir`. -/
  | subgroups (dir : Group) (dirs : List Group) (found : List ℕ)
  /-- About to signal the pids in `found`. -/
  | kill (found : List ℕ)
deriving DecidableEq, Repr

/-- The pids that the sweep has found and has not signalled yet. -/
def CgroupPc.found : CgroupPc → List ℕ
  | .start => []
  | .procs _ found | .subgroups _ _ found | .kill found => found

/-- The groups that the walk still has to go to. -/
def CgroupPc.todo : CgroupPc → List Group
  | .start | .kill _ => []
  | .procs dirs _ => dirs
  | .subgroups dir dirs _ => dir :: dirs

/-- The hierarchy and the supervisor of one instance. -/
structure CgroupWorld where
  table : Table String
  /-- The groups there are. -/
  dirs : List Group
  root : Group
  /-- `_services` of the backend. -/
  services : List String
  /-- The sweeps that the supervisor's running callback has still to make. -/
  calls : List SweepCall := []
  pc : CgroupPc := .start
  log : List Delivery := []
  /-- Where `external_kill` is. -/
  command : ForcePc := .idle

inductive CgroupEvent
  | fork (q child : ℕ)
  | exit (q : ℕ)
  | setsid (q : ℕ)
  | setpgid (q g : ℕ)
  /-- A process writes its pid to the `cgroup.procs` of a group. -/
  | move (q : ℕ) (dir : Group)
  | mkdir (dir : Group)
  | rmdir (dir : Group)
  /-- `create_subprocess_exec` forks a child. -/
  | spawn (service : String) (pid : ℕ)
  /-- The child's `preexec_fn` has written to the group's `cgroup.procs`. -/
  | enter (pid : ℕ)
  | sweep (service : String) (signal : Signal)
  | killAll
  /-- The write to `cgroup.kill` succeeds, or raises `OSError`. -/
  | killFile (ok : Bool)
  /-- The next system call of the current walk. -/
  | advance (spared : List ℕ := [])
  /-- `external_kill` is called with the pids of the record. -/
  | force (servicePids : List ℕ)
  /-- `external_kill` writes to the root's `cgroup.kill`; the write succeeds, or raises
  `OSError`. -/
  | killRoot (ok : Bool)
  /-- The next system call of `external_kill`. -/
  | command (spared : List ℕ := [])
  /-- `external_kill` signals one of the process groups. -/
  | killGroup (sid : ℕ) (spared : List ℕ := [])
  /-- `external_kill` raises in `session_members`. -/
  | commandRaises
deriving DecidableEq, Repr

namespace CgroupWorld

variable {W V : CgroupWorld}

/-- `_svc_dir`. -/
def svcDir (root : Group) (service : String) : Group := root ++ ["svc-" ++ service]

/-- Where `setup` moves the supervisor. -/
def supervisorDir (root : Group) : Group := root ++ ["supervisor"]

/-- The subgroups of a group, the last one listed first. -/
def subgroups (W : CgroupWorld) (dir : Group) : List Group :=
  (children W.dirs dir).reverse

/-- The pids in the `cgroup.procs` of a group. -/
def pidsAt (W : CgroupWorld) (dir : Group) : List ℕ :=
  (W.table.procs.filter fun p => p.group = dir).map Member.pid

/-- A sweep signals the processes that meet a test. What a process does about any other signal
than `SIGKILL` is left to the process. -/
def deliver (W : CgroupWorld) (c : SweepCall) (test : Member String → Bool) : CgroupWorld :=
  { W with
    table := if c.signal = .KILL then W.table.kill test else W.table
    log := W.log ++ (W.table.procs.filter test).map fun p => ⟨c, p.pid, p.origin⟩ }

/-- The process is of the pid, and the kernel does not spare it. -/
def named (spared : List ℕ) (pid : ℕ) (p : Member String) : Bool :=
  p.pid == pid && decide (pid ∉ spared)

private theorem pid_of_named {spared : List ℕ} {pid : ℕ} {p : Member String}
    (h : named spared pid p = true) : p.pid = pid := by
  rw [named, Bool.and_eq_true, beq_iff_eq] at h
  exact h.1

/-- Where nobody is spared, the pid names all its processes. -/
theorem named_nil (pid : ℕ) : named [] pid = fun p => p.pid == pid := by
  ext p
  simp [named]

/-- The next system call of a walk of `CgroupBackend.sweep`. -/
def advance (W : CgroupWorld) (spared : List ℕ) : Option CgroupWorld :=
  match W.calls, W.pc with
  | [], _ => none
  | c :: _, .start =>
    if c.signal = .KILL then none
    else some { W with pc := .procs [svcDir W.root c.service] [] }
  | _ :: _, .procs [] found => some { W with pc := .kill found }
  | _ :: _, .procs (dir :: dirs) found =>
    some { W with
      pc := if dir ∈ W.dirs then .subgroups dir dirs (found ++ W.pidsAt dir)
        else .procs dirs found }
  | _ :: _, .subgroups dir dirs found =>
    some { W with pc := .procs (W.subgroups dir ++ dirs) found }
  | c :: _, .kill (pid :: found) =>
    some { W.deliver c (named spared pid) with pc := .kill found }
  | _ :: calls, .kill [] => some { W with calls := calls, pc := .start }

/-- `procfs.session_id`. -/
def sessionId (W : CgroupWorld) (pid : ℕ) : Option ℕ :=
  (W.table.procs.find? fun p => p.pid == pid).map Member.session

/-- `SIGKILL` from the command. -/
def slay (W : CgroupWorld) (test : Member String → Bool) : CgroupWorld :=
  { W with table := W.table.kill test }

/-- The next step of `external_kill` after the write has failed. -/
def stepCommand (W : CgroupWorld) (spared : List ℕ) : Option CgroupWorld :=
  match W.command with
  | .list sids => some { W with command := .stat sids (W.table.procs.map Member.pid) [] }
  | .stat sids (pid :: todo) found =>
    let found := if (W.sessionId pid).any (· ∈ sids) then found ++ [pid] else found
    some { W with command := .stat sids todo found }
  | .stat sids [] found => some { W with command := .kill sids found }
  | .kill sids (pid :: found) => some { W.slay (named spared pid) with command := .kill sids found }
  | .kill sids [] => some { W with command := .groups sids sids }
  | .groups sids [] => some { W with command := .supervisor sids }
  | _ => none

/-- One step of the world. -/
def step (W : CgroupWorld) : CgroupEvent → Option CgroupWorld
  | .fork q child => (W.table.settled q).bind fun p =>
    if h : 1 < child ∧ W.table.Free child then
      some { W with table := W.table.add { p with pid := child, settling := false } h.2 }
    else none
  | .exit q => some { W with table := W.table.kill fun p => p.pid == q }
  | .setsid q => (W.table.settled q).bind fun p =>
    if p.pgroup ≠ q then some { W with table := W.table.regroup q q q } else none
  | .setpgid q g => (W.table.settled q).bind fun p =>
    if p.session ≠ q ∧ (g = q ∨ ∃ r ∈ W.table.procs, r.pgroup = g ∧ r.session = p.session) then
      some { W with table := W.table.regroup q p.session g }
    else none
  | .move q dir => (W.table.settled q).bind fun _ =>
    if dir ∈ W.dirs then some { W with table := W.table.move q dir } else none
  | .mkdir dir =>
    if dir ∉ W.dirs ∧ dir ≠ [] ∧ dir.dropLast ∈ W.dirs then
      some { W with dirs := W.dirs ++ [dir] }
    else none
  | .rmdir dir =>
    if (∀ p ∈ W.table.procs, p.group ≠ dir) ∧ W.subgroups dir = [] then
      some { W with dirs := W.dirs.filter (· ≠ dir) }
    else none
  | .spawn service pid =>
    if service ∈ W.services ∧ W.calls = [] ∧ supervisorDir W.root ∈ W.dirs then
      if h : 1 < pid ∧ W.table.Free pid then
        some { W with
          table := W.table.add ⟨pid, supervisorDir W.root, pid, pid, true, some service⟩ h.2 }
      else none
    else none
  | .enter pid =>
    match W.table.procs.find? fun p => p.pid == pid && p.settling with
    | some p => p.origin.bind fun service =>
      if svcDir W.root service ∈ W.dirs then
        some { W with table := W.table.move pid (svcDir W.root service) }
      else none
    | none => none
  | .sweep service signal =>
    if service ∈ W.services ∧ W.calls = [] then
      some { W with calls := [⟨service, signal⟩], pc := .start }
    else none
  | .killAll =>
    if W.calls = [] then
      some { W with calls := W.services.map fun service => ⟨service, .KILL⟩, pc := .start }
    else none
  | .killFile ok =>
    match W.calls, W.pc with
    | c :: calls, .start =>
      if c.signal = .KILL then
        let dir := svcDir W.root c.service
        if ok then
          if dir ∈ W.dirs then
            some { W.deliver c (fun p => decide (p.Under dir)) with calls := calls }
          else none
        else some { W with pc := .procs [dir] [] }
      else none
    | _, _ => none
  | .advance spared => W.advance spared
  | .force servicePids =>
    if W.command = .idle then some { W with command := .loaded servicePids } else none
  | .killRoot ok =>
    match W.command with
    | .loaded pids =>
      if ok then
        some { W.slay (fun p => decide (p.Under W.root)) with command := .supervisor pids }
      else some { W with command := .list pids }
    | _ => none
  | .command spared => W.stepCommand spared
  | .killGroup sid spared =>
    match W.command with
    | .groups sids todo =>
      if sid ∈ todo then
        some { W.slay (fun p => decide (p.pgroup = sid ∧ p.pid ∉ spared)) with
          command := .groups sids (todo.filter (· ≠ sid)) }
      else none
    | _ => none
  | .commandRaises =>
    match W.command with
    | .stat _ (_ :: _) _ => some { W with command := .over }
    | _ => none

/-- The backend has just been set up. -/
def init (K : Table String) (dirs : List Group) (root : Group) (services : List String) :
    CgroupWorld :=
  { table := K, dirs := dirs, root := root, services := services }

abbrev Steps : Transition.Rel CgroupWorld CgroupEvent := ofPartial step

/-! ### Groups of services -/

private theorem svcDir_below {root : Group} {a b : String} :
    svcDir root a <+: svcDir root b ↔ a = b := by
  constructor
  · intro h
    have heq := h.eq_of_length (by simp only [svcDir, List.length_append, List.length_singleton])
    have hname := List.cons.inj (List.append_cancel_left heq)
    exact String.append_right_inj "svc-" |>.mp hname.1
  · rintro rfl
    exact List.prefix_rfl

private theorem root_prefix_svcDir {root : Group} {service : String} :
    root <+: svcDir root service :=
  List.prefix_append _ _

private theorem not_svcDir_below_supervisorDir {root : Group} {service : String} :
    ¬ svcDir root service <+: supervisorDir root := by
  intro h
  have heq := h.eq_of_length
    (by simp only [svcDir, supervisorDir, List.length_append, List.length_singleton])
  have hname := (List.cons.inj (List.append_cancel_left heq)).1
  have hsecond := congrArg (fun name => name.toList[1]?) hname
  rw [String.toList_append] at hsecond
  cases hsecond

private theorem mem_subgroups {dir d : Group} (h : d ∈ W.subgroups dir) : dir <+: d := by
  have hd := of_decide_eq_true (List.mem_filter.mp (List.mem_reverse.mp h)).2
  rw [← hd.1]
  exact List.dropLast_prefix d

/-! ### Containment -/

/-- A process writes itself out of its service's subtree or into that of another, or a process
of another origin is forked under a pid that the current sweep has found and not signalled
yet. -/
def Strays (W : CgroupWorld) : CgroupEvent → Prop
  | .move q dir => ∃ p ∈ W.table.procs, p.pid = q ∧
      ¬ ∀ service ∈ W.services, svcDir W.root service <+: dir ↔ p.origin = some service
  | .fork q child => ∃ c ∈ W.calls.head?, child ∈ W.pc.found ∧
      ∃ p ∈ W.table.procs, p.pid = q ∧ p.origin ≠ some c.service
  | _ => False

instance (W : CgroupWorld) (e : CgroupEvent) : Decidable (W.Strays e) := by
  unfold Strays
  cases e <;> infer_instance

/-- The invariant of runs without strays. -/
structure Contained (W : CgroupWorld) : Prop where
  separated : Separated (svcDir W.root) (· ∈ W.services) W.table
  settling : ∀ p ∈ W.table.procs, p.settling = true → p.group = supervisorDir W.root
  calls : ∀ c ∈ W.calls, c.service ∈ W.services
  todo : ∀ c ∈ W.calls.head?, ∀ d ∈ W.pc.todo, svcDir W.root c.service <+: d
  found : ∀ c ∈ W.calls.head?, ∀ pid ∈ W.pc.found, ∀ p ∈ W.table.procs, p.pid = pid →
    p.origin = some c.service
  log : ∀ d ∈ W.log, d.origin = some d.call.service

/-- The subtrees of the services are empty, as in a scope of the instance's own. -/
structure Fresh (K : Table String) (root : Group) (services : List String) : Prop where
  origin : ∀ p ∈ K.procs, p.origin = none ∧ p.settling = false
  empty : ∀ p ∈ K.procs, ∀ service ∈ services, ¬ p.Under (svcDir root service)

private theorem contained_init {K : Table String} {dirs : List Group} {root : Group}
    {services : List String} (h : Fresh K root services) :
    Contained (init K dirs root services) where
  separated := .of_strangers (fun p hp => (h.origin p hp).1) h.empty
  settling p hp hs := by
    rw [(h.origin p hp).2] at hs
    cases hs
  calls c hc := by cases hc
  todo c hc := by cases hc
  found c hc := by cases hc
  log d hd := by cases hd

/-- Processes end. -/
theorem Contained.kill (h : Contained W) (test : Member String → Bool) :
    Contained { W with table := W.table.kill test } :=
  { h with
    separated := h.separated.kill test
    settling := fun p hp => h.settling p (Table.mem_kill.mp hp).1
    found := fun c hc pid hf p hp => h.found c hc pid hf p (Table.mem_kill.mp hp).1 }

/-- A process is written into a group of its own service, or of none. -/
theorem Contained.moved (h : Contained W) {q : ℕ} {g : Group}
    (hto : ∀ p ∈ W.table.procs, p.pid = q → ∀ service ∈ W.services,
      svcDir W.root service <+: g ↔ p.origin = some service) :
    Contained { W with table := W.table.move q g } := by
  refine { h with
    separated := h.separated.move hto
    settling := fun p hp hs => ?_
    found := fun c hc pid hf p hp hpid => ?_ }
  · obtain ⟨r, hr, -, -, ⟨-, -, hsettled⟩ | ⟨-, rfl⟩⟩ := Table.mem_move hp
    · rw [hsettled] at hs
      cases hs
    · exact h.settling p hr hs
  · obtain ⟨r, hr, hrpid, horigin, -⟩ := Table.mem_move hp
    rw [horigin]
    exact h.found c hc pid hf r hr (hrpid ▸ hpid)

/-- A sweep signals processes of its service. -/
theorem Contained.deliver (h : Contained W) (c : SweepCall) (test : Member String → Bool)
    (htest : ∀ p ∈ W.table.procs, test p = true → p.origin = some c.service) :
    Contained (W.deliver c test) := by
  have hlog : ∀ d ∈ (W.deliver c test).log, d.origin = some d.call.service := by
    intro d hd
    rcases List.mem_append.mp hd with hold | hnew
    · exact h.log d hold
    · obtain ⟨p, hp, rfl⟩ := List.mem_map.mp hnew
      obtain ⟨hmem, ht⟩ := List.mem_filter.mp hp
      exact htest p hmem ht
  by_cases hsignal : c.signal = .KILL
  · have heq : (W.deliver c test).table = W.table.kill test := if_pos hsignal
    have hkilled := h.kill test
    exact {
      separated := heq ▸ hkilled.separated
      settling := heq ▸ hkilled.settling
      calls := h.calls
      todo := h.todo
      found := heq ▸ hkilled.found
      log := hlog }
  · have heq : (W.deliver c test).table = W.table := if_neg hsignal
    exact {
      separated := heq ▸ h.separated
      settling := heq ▸ h.settling
      calls := h.calls
      todo := h.todo
      found := heq ▸ h.found
      log := hlog }

/-- The sweep goes on, or the next one starts. -/
theorem Contained.sweeping (h : Contained W) {calls : List SweepCall} {k : CgroupPc}
    (hcalls : ∀ c ∈ calls, c.service ∈ W.services)
    (htodo : ∀ c ∈ calls.head?, ∀ d ∈ k.todo, svcDir W.root c.service <+: d)
    (hfound : ∀ c ∈ calls.head?, ∀ pid ∈ k.found, ∀ p ∈ W.table.procs, p.pid = pid →
      p.origin = some c.service) : Contained { W with calls := calls, pc := k } :=
  { h with calls := hcalls, todo := htodo, found := hfound }

private theorem Contained.origin_of_under (h : Contained W) {p : Member String}
    (hp : p ∈ W.table.procs) {service : String} (hservice : service ∈ W.services)
    (hunder : p.Under (svcDir W.root service)) : p.origin = some service :=
  ((h.separated.exact p hp service hservice).mp hunder).1

/-- The walk starts at the service's own group. -/
private theorem Contained.walk (h : Contained W) {c : SweepCall} {calls : List SweepCall}
    (hcalls : W.calls = c :: calls) :
    Contained { W with pc := .procs [svcDir W.root c.service] [] } := by
  refine h.sweeping h.calls (fun c' hc' d hd => ?_) fun c' hc' pid hf => ?_
  · rw [hcalls] at hc'
    obtain rfl : c = c' := Option.some.inj hc'
    rw [List.mem_singleton.mp hd]
  · cases hf

/-- The processes of the first group are read. -/
private theorem Contained.read (h : Contained W) {dir : Group} {dirs : List Group}
    {found : List ℕ} (hpc : W.pc = .procs (dir :: dirs) found) :
    Contained { W with pc := .subgroups dir dirs (found ++ W.pidsAt dir) } := by
  have htodo := h.todo
  have hfound := h.found
  rw [hpc] at htodo hfound
  refine h.sweeping h.calls htodo fun c hc pid hf p hp hpid => ?_
  rcases List.mem_append.mp hf with hold | hnew
  · exact hfound c hc pid hold p hp hpid
  · obtain ⟨r, hr, hrpid⟩ := List.mem_map.mp hnew
    obtain ⟨hmem, hgroup⟩ := List.mem_filter.mp hr
    obtain rfl := Table.eq_of_pid hp hmem (hpid.trans hrpid.symm)
    have hunder : p.Under (svcDir W.root c.service) := by
      rw [Member.Under, of_decide_eq_true hgroup]
      exact htodo c hc dir List.mem_cons_self
    exact h.origin_of_under hp (h.calls c (List.mem_of_mem_head? hc)) hunder

/-- The first group is gone, or it has been dealt with. -/
private theorem Contained.skip (h : Contained W) {stack : List Group} {found : List ℕ}
    (hstack : ∀ c ∈ W.calls.head?, ∀ d ∈ stack, svcDir W.root c.service <+: d)
    (hfound : W.pc.found = found) : Contained { W with pc := .procs stack found } :=
  h.sweeping h.calls hstack (hfound ▸ h.found)

/-- The next of the pids that were found is signalled. -/
private theorem Contained.signal (h : Contained W) {c : SweepCall} {calls : List SweepCall}
    (hcalls : W.calls = c :: calls) {pid : ℕ} {found : List ℕ}
    (hpc : W.pc = .kill (pid :: found)) (spared : List ℕ) :
    Contained { W.deliver c (named spared pid) with pc := .kill found } := by
  have hfound := h.found
  rw [hpc, hcalls] at hfound
  have hdelivered := h.deliver c (named spared pid) fun p hp hnamed =>
    hfound c rfl pid List.mem_cons_self p hp (pid_of_named hnamed)
  refine hdelivered.sweeping h.calls (fun c' hc' d hd => ?_) fun c' hc' q hq => ?_
  · cases hd
  · refine hdelivered.found c' hc' q ?_
    show q ∈ W.pc.found
    rw [hpc]
    exact List.mem_cons_of_mem _ hq

/-- Every system call of a walk. -/
theorem Contained.advance (h : Contained W) {spared : List ℕ} (hst : W.advance spared = some V) :
    Contained V := by
  unfold CgroupWorld.advance at hst
  split at hst
  · cases hst
  · rename_i c calls hcalls hpc
    obtain ⟨-, hst⟩ := Option.ite_none_left_eq_some.mp hst
    exact Option.some.inj hst ▸ h.walk hcalls
  · rename_i c calls found hcalls hpc
    obtain rfl := Option.some.inj hst
    refine h.sweeping h.calls (fun c' hc' d hd => ?_) fun c' hc' pid hf => ?_
    · cases hd
    · exact h.found c' hc' pid (by rw [hpc]; exact hf)
  · rename_i c calls dir dirs found hcalls hpc
    obtain rfl := Option.some.inj hst
    split
    · exact h.read hpc
    · exact h.skip (fun c hc d hd => h.todo c hc d (by rw [hpc]; exact List.mem_cons_of_mem _ hd))
        (by rw [hpc]; rfl)
  · rename_i c calls dir dirs found hcalls hpc
    obtain rfl := Option.some.inj hst
    have htodo := h.todo
    rw [hpc] at htodo
    refine h.skip (fun c hc d hd => ?_) (by rw [hpc]; rfl)
    rcases List.mem_append.mp hd with hsub | hrest
    · exact (htodo c hc dir List.mem_cons_self).trans (mem_subgroups hsub)
    · exact htodo c hc d (List.mem_cons_of_mem _ hrest)
  · rename_i c calls pid found hcalls hpc
    exact Option.some.inj hst ▸ h.signal hcalls hpc spared
  · -- the sweep is over
    rename_i c calls hcalls hpc
    obtain rfl := Option.some.inj hst
    refine h.sweeping (fun c' hc' => h.calls c' ?_) (fun c' hc' d hd => ?_)
      fun c' hc' pid hf => ?_
    · rw [hcalls]
      exact List.mem_cons_of_mem _ hc'
    · cases hd
    · cases hf

private theorem Contained.fork (h : Contained W) {q child : ℕ}
    (hst : W.step (.fork q child) = some V) (hstray : ¬ W.Strays (.fork q child)) :
    Contained V := by
  obtain ⟨p, hsettled, hadd⟩ := Option.bind_eq_some_iff.mp hst
  obtain ⟨hp, rfl, hset⟩ := Table.settled_some hsettled
  split at hadd
  · rename_i hfree
    obtain rfl := Option.some.inj hadd
    refine { h with
      separated := h.separated.fork hp hset hfree.2
      settling := fun r hr hs => ?_
      found := fun c hc pid hf r hr hpid => ?_ }
    · rcases List.mem_cons.mp hr with rfl | hr
      · cases hs
      · exact h.settling r hr hs
    · rcases List.mem_cons.mp hr with rfl | hr
      · by_contra horigin
        subst hpid
        exact hstray ⟨c, hc, hf, p, hp, rfl, horigin⟩
      · exact h.found c hc pid hf r hr hpid
  · cases hadd

private theorem Contained.move (h : Contained W) {q : ℕ} {dir : Group}
    (hst : W.step (.move q dir) = some V) (hstray : ¬ W.Strays (.move q dir)) : Contained V := by
  obtain ⟨p, hsettled, hst⟩ := Option.bind_eq_some_iff.mp hst
  obtain ⟨hp, rfl, hset⟩ := Table.settled_some hsettled
  obtain ⟨-, hst⟩ := Option.ite_none_right_eq_some.mp hst
  obtain rfl := Option.some.inj hst
  refine h.moved fun r hr hpid => ?_
  by_contra hother
  exact hstray ⟨r, hr, hpid, hother⟩

/-- A process leaves its session or its process group. -/
private theorem Contained.regroup (h : Contained W) (q session pgroup : ℕ) :
    Contained { W with table := W.table.regroup q session pgroup } := by
  refine { h with
    separated := h.separated.regroup session pgroup
    settling := fun p hp hs => ?_
    found := fun c hc pid hf p hp hpid => ?_ }
  · obtain ⟨r, hr, -, hgroup, hsettling, -⟩ := Table.mem_regroup hp
    rw [hgroup]
    exact h.settling r hr (hsettling ▸ hs)
  · obtain ⟨r, hr, hrpid, -, -, horigin⟩ := Table.mem_regroup hp
    rw [horigin]
    exact h.found c hc pid hf r hr (hrpid ▸ hpid)

private theorem Contained.spawn (h : Contained W) {service : String} {pid : ℕ}
    (hst : W.step (.spawn service pid) = some V) : Contained V := by
  obtain ⟨⟨hservice, hcalls, -⟩, hst⟩ := Option.ite_none_right_eq_some.mp hst
  split at hst
  · rename_i hfree
    obtain rfl := Option.some.inj hst
    refine { h with
      separated := h.separated.start hservice hfree.2 rfl rfl fun _ _ =>
        not_svcDir_below_supervisorDir
      settling := fun r hr hs => ?_
      found := fun c hc => ?_ }
    · rcases List.mem_cons.mp hr with rfl | hr
      · rfl
      · exact h.settling r hr hs
    · rw [hcalls] at hc
      cases hc
  · cases hst

private theorem Contained.enter (h : Contained W) {pid : ℕ}
    (hst : W.step (.enter pid) = some V) : Contained V := by
  simp only [CgroupWorld.step] at hst
  split at hst
  · rename_i p hfind
    obtain ⟨service, horigin, hst⟩ := Option.bind_eq_some_iff.mp hst
    obtain ⟨-, hst⟩ := Option.ite_none_right_eq_some.mp hst
    obtain rfl := Option.some.inj hst
    have hp := List.mem_of_find?_eq_some hfind
    have hpid : p.pid = pid := by
      have hfound := List.find?_some hfind
      rw [Bool.and_eq_true, beq_iff_eq] at hfound
      exact hfound.1
    refine h.moved fun r hr hrpid other _ => ?_
    obtain rfl := Table.eq_of_pid hr hp (hrpid.trans hpid.symm)
    rw [svcDir_below, horigin, Option.some.injEq]
    exact eq_comm
  · cases hst

/-- The sweeps of services are begun. -/
private theorem Contained.begin (h : Contained W) {calls : List SweepCall}
    (hcalls : ∀ c ∈ calls, c.service ∈ W.services) :
    Contained { W with calls := calls, pc := .start } := by
  refine h.sweeping hcalls (fun c hc d hd => ?_) fun c hc pid hf => ?_
  · cases hd
  · cases hf

private theorem Contained.killFile (h : Contained W) {ok : Bool}
    (hst : W.step (.killFile ok) = some V) : Contained V := by
  simp only [CgroupWorld.step] at hst
  split at hst
  · rename_i c calls hcalls hpc
    obtain ⟨-, hst⟩ := Option.ite_none_right_eq_some.mp hst
    have hservice : c.service ∈ W.services := h.calls c (by rw [hcalls]; exact .head _)
    cases ok with
    | true =>
        obtain ⟨-, hst⟩ := Option.ite_none_right_eq_some.mp hst
        obtain rfl := Option.some.inj hst
        have hdelivered := h.deliver c
          (fun p => decide (p.Under (svcDir W.root c.service))) fun p hp hunder =>
            h.origin_of_under hp hservice (of_decide_eq_true hunder)
        have hrest : ∀ c' ∈ calls, c'.service ∈ W.services := fun c' hc' =>
          h.calls c' (by rw [hcalls]; exact List.mem_cons_of_mem _ hc')
        refine hdelivered.sweeping (k := W.pc) hrest (fun c' hc' d hd => ?_) fun c' hc' pid hf => ?_
        · rw [hpc] at hd
          cases hd
        · rw [hpc] at hf
          cases hf
    | false => exact Option.some.inj hst ▸ h.walk hcalls
  · cases hst

/-- The command goes on. -/
private theorem Contained.commanded (h : Contained W) (k : ForcePc) :
    Contained { W with command := k } := { h with }

/-- The command ends processes, and goes on. -/
private theorem Contained.slain (h : Contained W) (test : Member String → Bool) (k : ForcePc) :
    Contained { W.slay test with command := k } := (h.kill test).commanded k

private theorem Contained.stepCommand (h : Contained W) {spared : List ℕ}
    (hst : W.stepCommand spared = some V) : Contained V := by
  unfold CgroupWorld.stepCommand at hst
  split at hst
  case h_4 => exact Option.some.inj hst ▸ h.slain _ _
  case h_7 => cases hst
  all_goals exact Option.some.inj hst ▸ h.commanded _

/-- Every step that lets nobody stray keeps the services apart. -/
theorem Contained.step (h : Contained W) {e : CgroupEvent} (hst : W.step e = some V)
    (hstray : ¬ W.Strays e) : Contained V := by
  cases e with
  | fork q child => exact h.fork hst hstray
  | exit q => exact Option.some.inj hst ▸ h.kill _
  | setsid q | setpgid q g =>
      obtain ⟨p, -, hst⟩ := Option.bind_eq_some_iff.mp hst
      obtain ⟨-, hst⟩ := Option.ite_none_right_eq_some.mp hst
      exact Option.some.inj hst ▸ h.regroup q _ _
  | move q dir => exact h.move hst hstray
  | mkdir dir | rmdir dir =>
      obtain ⟨-, hst⟩ := Option.ite_none_right_eq_some.mp hst
      exact Option.some.inj hst ▸ { h with }
  | spawn service pid => exact h.spawn hst
  | enter pid => exact h.enter hst
  | sweep service signal =>
      obtain ⟨⟨hservice, -⟩, hst⟩ := Option.ite_none_right_eq_some.mp hst
      exact Option.some.inj hst ▸ h.begin fun c hc => (List.mem_singleton.mp hc).symm ▸ hservice
  | killAll =>
      obtain ⟨-, hst⟩ := Option.ite_none_right_eq_some.mp hst
      refine Option.some.inj hst ▸ h.begin fun c hc => ?_
      obtain ⟨service, hservice, rfl⟩ := List.mem_map.mp hc
      exact hservice
  | killFile ok => exact h.killFile hst
  | advance spared => exact h.advance hst
  | force servicePids =>
      obtain ⟨-, hst⟩ := Option.ite_none_right_eq_some.mp hst
      exact Option.some.inj hst ▸ h.commanded _
  | killRoot ok =>
      simp only [CgroupWorld.step] at hst
      split at hst
      · cases ok with
        | true => exact Option.some.inj hst ▸ h.slain _ _
        | false => exact Option.some.inj hst ▸ h.commanded _
      · cases hst
  | command spared => exact h.stepCommand hst
  | killGroup sid spared =>
      simp only [CgroupWorld.step] at hst
      split at hst
      · obtain ⟨-, hst⟩ := Option.ite_none_right_eq_some.mp hst
        exact Option.some.inj hst ▸ h.slain _ _
      · cases hst
  | commandRaises =>
      simp only [CgroupWorld.step] at hst
      split at hst
      · exact Option.some.inj hst ▸ h.commanded _
      · cases hst

/-- In every run in which no process strays, the processes of the services stay contained. -/
theorem contained_run {K : Table String} {dirs : List Group} {root : Group}
    {services : List String} {es : List CgroupEvent} (hfresh : Fresh K root services)
    (h : Run (Steps.within fun W e => ¬ W.Strays e) (init K dirs root services) es W) :
    Contained W :=
  h.invariant Contained (contained_init hfresh) fun _ _ _ hinv hst => hinv.step hst.2 hst.1

/-- Every process of a service is below the instance's root. -/
theorem Contained.under_root (h : Contained W) {p : Member String} (hp : p ∈ W.table.procs)
    {service : String} (horigin : p.origin = some service) : p.Under W.root := by
  cases hsettling : p.settling with
  | true =>
      rw [Member.Under, h.settling p hp hsettling]
      exact List.prefix_append _ _
  | false =>
      have hservice := h.separated.known p hp service horigin
      have hunder := (h.separated.exact p hp service hservice).mpr ⟨horigin, hsettling⟩
      exact root_prefix_svcDir.trans hunder

/-- Whoever survives a write to `cgroup.kill` was not below the group. -/
theorem survives_killFile (hst : W.step (.killFile true) = some V) :
    ∀ c ∈ W.calls.head?, ∀ p ∈ V.table.procs,
      p ∈ W.table.procs ∧ ¬ p.Under (svcDir W.root c.service) := by
  simp only [CgroupWorld.step] at hst
  split at hst
  · rename_i c calls hcalls hpc
    obtain ⟨hsignal, hst⟩ := Option.ite_none_right_eq_some.mp hst
    obtain ⟨-, hst⟩ := Option.ite_none_right_eq_some.mp hst
    obtain rfl := Option.some.inj hst
    intro c' hc' p hp
    rw [hcalls] at hc'
    obtain rfl : c = c' := Option.some.inj hc'
    simp only [CgroupWorld.deliver, if_pos hsignal] at hp
    obtain ⟨hmem, hout⟩ := Table.mem_kill.mp hp
    exact ⟨hmem, of_decide_eq_false hout⟩
  · cases hst

/-- Whoever survives a write to the `cgroup.kill` of the root was not below the root. -/
theorem survives_killRoot (hst : W.step (.killRoot true) = some V) :
    ∀ p ∈ V.table.procs, p ∈ W.table.procs ∧ ¬ p.Under W.root := by
  simp only [CgroupWorld.step] at hst
  split at hst
  · obtain rfl := Option.some.inj hst
    intro p hp
    obtain ⟨hmem, hout⟩ := Table.mem_kill.mp hp
    exact ⟨hmem, of_decide_eq_false hout⟩
  · cases hst

/-- A system call that `external_kill` makes, with the kernel sparing nobody. -/
def Forced : CgroupEvent → Prop
  | .command spared | .killGroup _ spared => spared = []
  | _ => False

/-- What the command, left alone, still has in store for the recorded sessions. -/
def Cornered (W : CgroupWorld) (sids : List ℕ) : Prop :=
  match W.command with
  | .list s => s = sids
  | .stat s todo found => s = sids ∧
      ∀ p ∈ W.table.procs, p.session ∈ sids → p.pid ∈ todo ∨ p.pid ∈ found
  | .kill s found => s = sids ∧ ∀ p ∈ W.table.procs, p.session ∈ sids → p.pid ∈ found
  | .groups s _ | .supervisor s => s = sids ∧ ∀ p ∈ W.table.procs, p.session ∉ sids
  | _ => False

private theorem sessionId_of_mem {p : Member String} (hp : p ∈ W.table.procs) :
    W.sessionId p.pid = some p.session := by
  rw [sessionId, Table.find?_pid hp, Option.map_some]

/-- Every system call of the command. -/
theorem Cornered.step {sids : List ℕ} (h : W.Cornered sids) {e : CgroupEvent} (hforced : Forced e)
    (hst : W.step e = some V) : V.Cornered sids := by
  cases e with
  | command spared =>
      obtain rfl : spared = [] := hforced
      change W.stepCommand [] = some V at hst
      unfold CgroupWorld.stepCommand at hst
      split at hst
      case h_1 s hpc =>
        obtain rfl := Option.some.inj hst
        rw [Cornered, hpc] at h
        exact ⟨h, fun p hp _ => .inl (List.mem_map_of_mem hp)⟩
      case h_2 s pid todo found hpc =>
        obtain rfl := Option.some.inj hst
        rw [Cornered, hpc] at h
        obtain ⟨rfl, hmarked⟩ := h
        refine ⟨rfl, fun p hp hsession => ?_⟩
        rcases hmarked p hp hsession with htodo | hfound
        · rcases List.mem_cons.mp htodo with rfl | htodo
          · have hread : W.sessionId p.pid = some p.session := sessionId_of_mem hp
            rw [hread, Option.any_some, if_pos (decide_eq_true hsession)]
            exact .inr List.mem_concat_self
          · exact .inl htodo
        · right
          split
          · exact List.mem_append_left _ hfound
          · exact hfound
      case h_3 s found hpc =>
        obtain rfl := Option.some.inj hst
        rw [Cornered, hpc] at h
        exact ⟨h.1, fun p hp hsession => (h.2 p hp hsession).resolve_left List.not_mem_nil⟩
      case h_4 s pid found hpc =>
        obtain rfl := Option.some.inj hst
        rw [Cornered, hpc] at h
        refine ⟨h.1, fun p hp hsession => ?_⟩
        obtain ⟨hmem, hother⟩ := Table.mem_kill.mp hp
        rw [named_nil, beq_eq_false_iff_ne] at hother
        exact (List.mem_cons.mp (h.2 p hmem hsession)).resolve_left hother
      case h_5 s hpc =>
        obtain rfl := Option.some.inj hst
        rw [Cornered, hpc] at h
        exact ⟨h.1, fun p hp hsession => List.not_mem_nil (h.2 p hp hsession)⟩
      case h_6 s hpc =>
        obtain rfl := Option.some.inj hst
        rwa [Cornered, hpc] at h
      case h_7 => cases hst
  | killGroup sid spared =>
      simp only [CgroupWorld.step] at hst
      split at hst
      · rename_i s todo hpc
        obtain ⟨-, hst⟩ := Option.ite_none_right_eq_some.mp hst
        obtain rfl := Option.some.inj hst
        rw [Cornered, hpc] at h
        exact ⟨h.1, fun p hp => h.2 p (Table.mem_kill.mp hp).1⟩
      · cases hst
  | _ => cases hforced

/-- The command that cannot write to `cgroup.kill` ends the recorded sessions, as far as nobody
interferes. -/
theorem sessions_end {sids : List ℕ} {es : List CgroupEvent} (hlist : W.command = .list sids)
    (h : Run (Steps.within fun _ e => Forced e) W es V) (hover : V.command = .supervisor sids) :
    ∀ p ∈ V.table.procs, p.session ∉ sids := by
  have hcornered := h.invariant (Cornered · sids) (by rw [Cornered, hlist])
    fun _ _ _ hinv hst => hinv.step hst.1 hst.2
  rw [Cornered, hover] at hcornered
  exact hcornered.2

/-- Control groups contain a service. In any run in which no process writes itself out of its
service's groups or into another's, and no found pid is reused before it is signalled, every
signal of a sweep goes to a process of its service; a `SIGKILL` sweep for which the kernel has
`cgroup.kill` leaves no process of the service but a child that is still to enter its group; and
`kill --force` leaves none at all if the kernel has `cgroup.kill`, `setsid` or not. If it has not,
the command, left alone, leaves none in the sessions of the record. -/
theorem cgroup_contains {K : Table String} {dirs : List Group} {root : Group}
    {services : List String} {es : List CgroupEvent} (hfresh : Fresh K root services)
    (h : Run (Steps.within fun W e => ¬ W.Strays e) (init K dirs root services) es W) :
    (∀ d ∈ W.log, d.origin = some d.call.service) ∧
    (∀ c ∈ W.calls.head?, Steps W (.killFile true) V →
      ∀ p ∈ V.table.procs, p.origin = some c.service → p.settling = true) ∧
    (Steps W (.killRoot true) V → ∀ p ∈ V.table.procs, p.origin = none) ∧
    (∀ sids fs, W.command = .list sids → Run (Steps.within fun _ e => Forced e) W fs V →
      V.command = .supervisor sids → ∀ p ∈ V.table.procs, p.session ∉ sids) := by
  have hinv := contained_run hfresh h
  refine ⟨hinv.log, fun c hc hst p hp horigin => ?_, fun hst p hp => ?_, fun sids fs hlist hrun =>
    sessions_end hlist hrun⟩
  · have hservice := hinv.calls c (List.mem_of_mem_head? hc)
    obtain ⟨hmem, hout⟩ := survives_killFile hst c hc p hp
    by_contra hsettled
    rw [Bool.not_eq_true] at hsettled
    exact hout ((hinv.separated.exact p hmem c.service hservice).mpr ⟨horigin, hsettled⟩)
  · obtain ⟨hmem, hout⟩ := survives_killRoot hst p hp
    cases horigin : p.origin with
    | none => rfl
    | some service => exact absurd (hinv.under_root hmem horigin) hout

/-! A web server that runs two processes, the second in a group that it has made. -/

def scopeTable : Table String where
  procs := [⟨2, [], 2, 2, false, none⟩, ⟨10, ["scope", "supervisor"], 10, 10, false, none⟩]
  nodup := by decide

def scopeDirs : List Group :=
  [[], ["scope"], ["scope", "supervisor"], ["scope", "svc-web"]]

/-- The table of the scope is fresh. -/
theorem scope_fresh : Fresh scopeTable ["scope"] ["web"] where
  origin := by decide
  empty := by decide

/-- The server is stopped with `SIGTERM`, which it ignores, and is about to be killed. -/
def stopsWeb : List CgroupEvent :=
  [.spawn "web" 20, .enter 20, .mkdir ["scope", "svc-web", "jobs"], .fork 20 21,
    .move 21 ["scope", "svc-web", "jobs"], .sweep "web" (.stop .TERM)] ++
    List.replicate 9 .advance ++ [.sweep "web" .KILL]

/-- The kill of the service's group reaches the nested one. -/
theorem cgroup_contains_nested : ∃ W V,
    Run (Steps.within fun W e => ¬ W.Strays e) (init scopeTable scopeDirs ["scope"] ["web"])
      stopsWeb W ∧
    (∀ d ∈ W.log, d.origin = some d.call.service) ∧ Steps W (.killFile true) V ∧
    ∀ p ∈ V.table.procs, p.origin = some "web" → p.settling = true := by
  obtain ⟨W, hrun, hW⟩ := exists_run_of_execWithin step (fun W e => ¬ W.Strays e)
    (init scopeTable scopeDirs ["scope"] ["web"]) stopsWeb
    (fun W => (step W (.killFile true)).isSome && decide (⟨"web", .KILL⟩ ∈ W.calls.head?))
    (by decide +kernel)
  rw [Bool.and_eq_true] at hW
  obtain ⟨V, hst⟩ := Option.isSome_iff_exists.mp hW.1
  exact ⟨W, V, hrun, (cgroup_contains scope_fresh hrun (V := W)).1, hst,
    (cgroup_contains scope_fresh hrun).2.1 _ (of_decide_eq_true hW.2) hst⟩

end CgroupWorld

end Jetty.Orchestrator
