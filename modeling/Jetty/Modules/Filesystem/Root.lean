import Jetty.Core.Monitor
import Jetty.Modules.Filesystem.Footprint

/-!
# The served root

The check at the start is asked again after every request. A request can only make it fail by
removing an empty directory on the way to the root, and the root itself is one when it is empty.
-/

namespace Jetty.Filesystem

open Files Effects Transition

/-- A request, with what the world does to it. -/
structure Request where
  faults : Faults
  operation : Operation

namespace Machine

/-- The check at the start, asked of a tree: the path of the root leads to that very directory. -/
def Rooted (boot : Machine) (root : String) (place : Place) (st : Stat) (t : Files.Tree Stat) :
    Prop :=
  t.walk boot.maxLinks (start boot.cwd root.toList) (parts root.toList) = some place ∧
    t.entry place = some (.directory st)

instance (boot : Machine) (root : String) (place : Place) (st : Stat) (t : Files.Tree Stat) :
    Decidable (boot.Rooted root place st t) :=
  inferInstanceAs (Decidable (_ ∧ _))

/-- The places on the way to the root. -/
def way (boot : Machine) (root : String) (t : Files.Tree Stat) : List Place :=
  t.passes boot.maxLinks (start boot.cwd root.toList) (parts root.toList)

end Machine

namespace Server

/-- A request is served if its paths pass `_check_path`. -/
def serve (s : Server) (r : Request) : Server :=
  if r.operation.doors.all fun path => (checkPath path).isOk then
    (outcome (r.operation.run r.faults) s).2
  else s

abbrev Requests : Transition.Rel Server Request := ofPartial fun s r => some (s.serve r)

/-- The request is a `delete` that gets to an empty directory, which nothing keeps from going. -/
structure Clears (s : Server) (r : Request) (path : String) (x : Place) : Prop where
  operation : r.operation = .delete path
  checked : (checkPath path).isOk = true
  reached : ∃ full stat, (s.driver.resolve s.machine.host path).2 = .ok full ∧
    s.machine.host.lstat full = some (x, .directory stat)
  empty : s.machine.disk.childless x = true
  below : x ≠ []
  calls : r.faults.fails .stat = none ∧ r.faults.fails .rmdir = none

/-- What the request clears away is not on the way to the root. -/
def Spares (boot : Machine) (root : String) (s : Server) (r : Request) : Prop :=
  ∀ path x, s.Clears r path x → x ∉ boot.way root s.machine.disk.tree

/-- Whether the check has failed after a request. -/
def fallen (boot : Machine) (root : String) (place : Place) (st : Stat) (fell : Bool)
    (_ : Server) (_ : Request) (t : Server) : Bool :=
  fell || !decide (boot.Rooted root place st t.machine.disk.tree)

end Server

section Root

variable {boot m : Machine} {root path : String} {place x : Place} {st : Stat}
  {t u : Files.Tree Stat} {F : Faults} {s s' : Server} {r : Request}

/-- An edit that is in nobody's way is on no way to a directory. -/
theorem Slack.not_mem_passes (h : Slack m x) {l : ℕ} {cur c : Place} {ps : List Part}
    (hreach : m.disk.tree.Reaches l cur ps c) (hc : m.disk.tree.isDir c = true) :
    x ∉ m.disk.tree.passes l cur ps := by
  rcases h with hnone | ⟨n, dir, q, rfl, hq, hloose⟩
  · intro hp
    rcases hreach.leads hc hp with hdir | ⟨n, dir, target, l, d, -, hentry, -⟩
    · exact Tree.ne_of_isDir hdir hnone rfl
    · rw [hnone] at hentry
      cases hentry
  · rw [lookup_host] at hq
    exact hloose.not_passes hq hreach hc

private theorem Machine.Rooted.isDir (h : boot.Rooted root place st t) : t.isDir place = true := by
  simp only [Tree.isDir, h.2]

private theorem Machine.Rooted.reaches (h : boot.Rooted root place st t) :
    t.Reaches boot.maxLinks (start boot.cwd root.toList) (parts root.toList) place :=
  Tree.reaches_of_walk h.1

/-- The check takes notice only of the way to the root. -/
theorem Machine.Rooted.agree (h : boot.Rooted root place st t)
    (hagree : ∀ p ∈ boot.way root t, u.entry p = t.entry p) : boot.Rooted root place st u := by
  refine ⟨Tree.walk_of_reaches (h.reaches.agree hagree), ?_⟩
  rw [hagree place h.reaches.mem_passes]
  exact h.2

/-- Where a directory on the way is gone, the check fails. -/
theorem Machine.Rooted.not_removed (h : boot.Rooted root place st t) (hx : x ∈ boot.way root t)
    (hentry : ∀ p, u.entry p = if p = x then none else t.entry p) :
    ¬ boot.Rooted root place st u := by
  intro hu
  have hgone := h.reaches.broken hu.reaches (fun q hq => (hentry q).trans (if_neg hq))
    ((hentry x).trans (if_pos rfl)) hx
  rw [hu.isDir] at hgone
  cases hgone

/-- What a footprint leaves of the root. -/
theorem rooted_of_footprint {op : Operation} {r : Except DriverError (Option Place)}
    (h : Footprint F s op r s') (hs : boot.Rooted root place st s.machine.disk.tree)
    (hspared : ∀ path full x stat, op = .delete path →
      (s.driver.resolve s.machine.host path).2 = .ok full →
      s.machine.host.lstat full = some (x, .directory stat) →
      (∀ p, s'.machine.disk.tree.entry p =
        if p = x then none else s.machine.disk.tree.entry p) →
      F.fails .stat = none ∧ F.fails .rmdir = none → x ∉ boot.way root s.machine.disk.tree) :
    boot.Rooted root place st s'.machine.disk.tree := by
  cases h with
  | quiet _ _ _ hentry =>
      refine hs.agree fun p hp => ?_
      by_contra hne
      exact (hentry p hne).not_mem_passes hs.reaches hs.isDir hp
  | removed hop _ hopen hlstat hentry _ _ hcalls =>
      have hspare := hspared _ _ _ _ hop hopen hlstat hentry hcalls
      refine hs.agree fun p hp => ?_
      rw [hentry, if_neg]
      rintro rfl
      exact hspare hp
  | made _ _ hfree hentry =>
      refine hs.agree fun p hp => ?_
      rw [hentry, if_neg]
      rintro rfl
      exact Slack.not_mem_passes (.inl hfree) hs.reaches hs.isDir hp

private theorem wp_spot_of_lstat {full : Place} {e : Entry Stat} {Q : Place → Server → Prop}
    {E : Errno → Server → Prop} (h : s.machine.host.lstat full = some (x, e)) (hQ : Q x s) :
    wp (spot full) Q E s := by
  cases full with
  | nil =>
      obtain ⟨e, -, heq⟩ := Option.map_eq_some_iff.mp h
      obtain ⟨rfl, -⟩ := Prod.mk.inj heq
      exact hQ
  | cons n dir =>
      obtain ⟨q, hq, h⟩ := Option.bind_eq_some_iff.mp h
      obtain ⟨e, -, heq⟩ := Option.bind_eq_some_iff.mp h
      obtain ⟨rfl, -⟩ := Prod.mk.inj (Option.some.inj heq)
      refine wp_spot (fun q' hq' => ?_) fun errno hnone => ?_
      · obtain rfl := Option.some.inj (hq.symm.trans hq')
        exact hQ
      · rw [hq] at hnone
        cases hnone

/-- A `delete` that gets to an empty directory removes it. -/
theorem wp_delete_clears (h : s.Clears r path x) : wp (LocalFsDriver.delete r.faults path)
    (fun _ t => ∀ p, t.machine.disk.tree.entry p =
      if p = x then none else s.machine.disk.tree.entry p) (fun _ _ => False) s := by
  obtain ⟨full, st, hopen, hlstat⟩ := h.reached
  have hentry : s.machine.disk.tree.entry x = some (.directory st) := entry_of_lstat hlstat
  unfold LocalFsDriver.delete
  rw [wp_bind]
  refine wp_door_pass (fun hok => ?_) fun e e' herror => ?_
  swap
  · rw [hopen] at herror
    cases herror
  obtain rfl := Except.ok.inj (hopen.symm.trans hok)
  rw [wp_bind, wp_rescue]
  unfold Filesystem.stat
  rw [wp_bind]
  refine wp_attempt (fun _ => ?_) fun fault hfault => ?_
  swap
  · rw [h.calls.1] at hfault
    cases hfault
  refine wp_find (fun p e hp he => ?_) (fun hnone => ?_) fun p hp hnone => ?_
  · obtain rfl := Option.some.inj (hp.symm.trans (lookup_of_lstat hlstat))
    rw [hentry] at he
    obtain rfl := Option.some.inj he
    rw [wp_bind, wp_rescue]
    unfold rmdirCall
    rw [wp_bind]
    refine wp_attempt (fun _ => ?_) fun fault hfault => ?_
    swap
    · rw [h.calls.2] at hfault
      cases hfault
    rw [wp_bind]
    refine wp_spot_of_lstat hlstat ?_
    obtain ⟨n, dir, rfl⟩ := List.exists_cons_of_ne_nil h.below
    obtain ⟨d, hd⟩ := Disk.exists_rmdir hentry h.empty
    refine wp_onDisk (fun d' hd' => ?_) fun errno herror => ?_
    · obtain rfl := Except.ok.inj (hd.symm.trans hd')
      intro p
      change (s.machine.withDisk d).disk.tree.entry p = _
      rw [Machine.disk_withDisk]
      exact (Disk.rmdir_ok hd).2.2.entry p
    · rw [hd] at herror
      cases herror
  · rw [lookup_of_lstat hlstat] at hnone
    cases hnone
  · obtain rfl := Option.some.inj (hp.symm.trans (lookup_of_lstat hlstat))
    rw [hentry] at hnone
    cases hnone

/-- After a request the check holds on exactly if the request has spared the way to the root. -/
theorem rooted_serve_iff (hs : boot.Rooted root place st s.machine.disk.tree) :
    boot.Rooted root place st (s.serve r).machine.disk.tree ↔ s.Spares boot root r := by
  unfold Server.serve
  split
  · rename_i hchecked
    rcases hrun : outcome (r.operation.run r.faults) s with ⟨result, t⟩
    constructor
    · intro ht path x hclears hx
      have hwp : wp (r.operation.run r.faults) (fun _ t => ∀ p, t.machine.disk.tree.entry p =
          if p = x then none else s.machine.disk.tree.entry p) (fun _ _ => False) s := by
        rw [hclears.operation, Operation.run, wp_map]
        exact wp_delete_clears hclears
      cases result with
      | error e => exact of_wp_error hwp hrun
      | ok full => exact hs.not_removed hx (of_wp_ok hwp hrun) ht
    · intro hspares
      refine rooted_of_footprint (footprint_of_outcome hrun) hs ?_
      intro path full x stat hop hopen hlstat hentry hcalls
      have hgone := (hentry x).trans (if_pos rfl)
      refine hspares path x ⟨hop, ?_, ⟨full, stat, hopen, hlstat⟩, ?_, ?_, hcalls⟩
      · rw [hop] at hchecked
        exact List.all_eq_true.mp hchecked path List.mem_cons_self
      · refine Disk.childless_iff.mpr fun n => ?_
        by_contra hsome
        have hkept := (hentry (n :: x)).trans (if_neg (List.cons_ne_self n x))
        obtain ⟨st', hst'⟩ := t.machine.disk.tree.parent n x
          (Option.isSome_iff_ne_none.mpr (hkept ▸ hsome))
        rw [hgone] at hst'
        cases hst'
      · rintro rfl
        obtain ⟨st', htop⟩ := t.machine.disk.tree.top
        rw [hgone] at htop
        cases htop
  · rename_i hunchecked
    refine iff_of_true hs fun path x hclears _ => hunchecked ?_
    rw [hclears.operation]
    simpa only [Operation.doors, List.all_cons, List.all_nil, Bool.and_true] using hclears.checked

/-- In every run of requests the check at the start, asked again after each of them, finds the same
directory all the time exactly if no `delete` gets to an empty directory on the way to it. -/
theorem root_stands_iff {es : List Request} {fell : Bool}
    (hboot : m.Rooted root place st m.disk.tree)
    (h : Run (Server.Requests.monitored (Server.fallen m root place st))
      (.start root m, false) es (s, fell)) :
    fell = false ↔ Run ((Server.Requests.monitored (Server.fallen m root place st)).within
      fun x r => x.1.Spares m root r) (.start root m, false) es (s, fell) := by
  refine h.iff_within (fun x => x.2 = false → m.Rooted root place st x.1.machine.disk.tree)
    (fun x => x.2 = false) (fun _ => hboot) rfl ?_ ?_ ?_
  · rintro ⟨s, fell⟩ r ⟨t, fell'⟩ - ⟨-, hfallen⟩ hfell
    simp only at hfallen hfell
    subst hfell
    rw [Server.fallen, eq_comm, Bool.or_eq_false_iff, Bool.not_eq_false', decide_eq_true_iff]
      at hfallen
    exact hfallen.2
  · rintro ⟨s, fell⟩ r ⟨t, fell'⟩ hrooted hfell ⟨hserve, hfallen⟩
    simp only at hfallen hfell hserve
    obtain rfl : s.serve r = t := Option.some.inj hserve
    rw [hfallen, hfell, Server.fallen, Bool.false_or, Bool.not_eq_false', decide_eq_true_iff]
    exact rooted_serve_iff (hrooted hfell)
  · rintro ⟨s, fell⟩ r ⟨t, fell'⟩ ⟨-, hfallen⟩ hfell
    simp only at hfallen hfell
    subst hfell
    rw [Server.fallen, eq_comm, Bool.or_eq_false_iff] at hfallen
    exact hfallen.1

end Root

/-- A file is written into the root, and the root is deleted in vain. -/
def kept : List Request :=
  [⟨smooth [drawn], .write "/srv/a" [1]⟩, ⟨smooth [], .delete "/srv"⟩]

/-- The root stands after it is deleted in vain. -/
theorem root_stands_iff_kept :
    ∃ s, Run (Server.Requests.monitored
        (Server.fallen bareMachine "/srv" [.of ['s', 'r', 'v']] ⟨0, 1, 0⟩))
        (.start "/srv" bareMachine, false) kept (s, false) ∧
      Run ((Server.Requests.monitored
        (Server.fallen bareMachine "/srv" [.of ['s', 'r', 'v']] ⟨0, 1, 0⟩)).within
          fun x r => x.1.Spares bareMachine "/srv" r) (.start "/srv" bareMachine, false) kept
            (s, false) := by
  obtain ⟨⟨s, fell⟩, hrun, hfell⟩ := exists_run_of_exec
    (monitorStep (fun s r => some (s.serve r))
      (Server.fallen bareMachine "/srv" [.of ['s', 'r', 'v']] ⟨0, 1, 0⟩))
    (.start "/srv" bareMachine, false) kept (fun x => !x.2) (by decide +kernel)
  rw [ofPartial_monitorStep] at hrun
  obtain rfl : fell = false := by simpa using hfell
  exact ⟨s, hrun, (root_stands_iff (by decide +kernel) hrun).mp rfl⟩

/-- An empty root can be deleted. -/
theorem not_root_stands_empty : ¬ ∀ (root : String) (m : Machine) (place : Place) (st : Stat)
    (es : List Request) (s : Server) (fell : Bool), m.Rooted root place st m.disk.tree →
      Run (Server.Requests.monitored (Server.fallen m root place st)) (.start root m, false) es
        (s, fell) → fell = false := by
  intro h
  obtain ⟨⟨s, fell⟩, hrun, hfell⟩ := exists_run_of_exec
    (monitorStep (fun s r => some (s.serve r))
      (Server.fallen bareMachine "/srv" [.of ['s', 'r', 'v']] ⟨0, 1, 0⟩))
    (.start "/srv" bareMachine, false) [⟨smooth [], .delete "/srv"⟩] (fun x => x.2)
    (by decide +kernel)
  rw [ofPartial_monitorStep] at hrun
  have hstands := h _ _ _ _ _ _ _ (by decide +kernel) hrun
  cases hstands.symm.trans hfell

end Jetty.Filesystem
