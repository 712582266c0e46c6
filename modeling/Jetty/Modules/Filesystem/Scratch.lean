import Jetty.Core.Monitor
import Jetty.Modules.Filesystem.Footprint

/-!
# Scratch records

The table of scratch directories over whole runs, while anybody changes the disk between two
operations. A record that is found dead stays retired; one whose directory is removed does if the
removal goes by the recorded path.
-/

namespace Jetty.Filesystem

open Files Effects Transition

inductive Event
  | operation (faults : Faults) (op : Operation)
  /-- Somebody else changes the disk. -/
  | outside (disk : Disk Stat)

namespace Server

/-- Where a scratch directory is made, the temporary directory's path leads to the given one. -/
def AtTemp (s : Server) (temp : Place) : Event → Prop
  | .operation _ (.mkdtemp ..) => ∀ p ∈ s.machine.host.lookup s.machine.tempdir, p = temp
  | _ => True

instance (s : Server) (temp : Place) : (e : Event) → Decidable (s.AtTemp temp e)
  | .operation _ (.mkdtemp ..) =>
    inferInstanceAs (Decidable (∀ p ∈ s.machine.host.lookup s.machine.tempdir, p = temp))
  | .operation _ (.read _) | .operation _ (.stat _) | .operation _ (.write ..)
  | .operation _ (.delete _) | .operation _ (.rename ..) | .operation _ (.copy ..)
  | .outside _ => inferInstanceAs (Decidable True)

/-- The next state. A relative root whose working directory is gone is not resolved again. -/
def next (s t : Server) : Option Server :=
  if isAbsolute s.driver.root.toList = true ∨ t.machine.cwd = s.machine.cwd then
    some { t with seen := [] }
  else none

/-- What an event leaves. -/
def after (s : Server) : Event → Server
  | .operation F op => (outcome (op.run F) s).2
  | .outside d => { s with machine := s.machine.withDisk d }

/-- One step; the temporary directory stays where it is. -/
def step (temp : Place) (s : Server) (e : Event) : Option Server :=
  if s.AtTemp temp e then s.next (s.after e) else none

abbrev Steps (temp : Place) : Transition.Rel Server Event := ofPartial (step temp)

/-- The paths that an event lets through. -/
def admitted (s : Server) : Event → List Place
  | .operation _ op => (s.driver.pass s.machine.host op.doors).admitted
  | .outside _ => []

/-- The place of a recorded directory that is alive. -/
def alivePlace (s : Server) (dir : Place) : Option Place :=
  match s.machine.host.lstat dir with
  | some (loc, .directory st) =>
    if st.uid = s.machine.euid ∧ s.driver.scratch.lookup dir = some (st.dev, st.ino) then some loc
    else none
  | _ => none

/-- The recorded directories that a removal has removed. -/
def gone (s t : Server) : Operation → List Place
  | .delete _ => (s.driver.scratch.map Prod.fst).filter fun dir =>
      (s.alivePlace dir).any fun loc => (t.machine.disk.tree.entry loc).isNone
  | _ => []

/-- The records that are retired: found dead by a check, or their directory removed by a `delete`,
and not handed out anew since. -/
def retire (retired : List Place) (s : Server) : Event → Server → List Place
  | .operation F op, t =>
    match (outcome (op.run F) s).1 with
    | .ok (some full) => retired.filter fun dir => dir ≠ full
    | _ => (s.driver.pass s.machine.host op.doors).dead.toList ++ s.gone t op ++ retired
  | .outside _, _ => retired

/-- A removal that comes to a recorded directory comes by the recorded path. -/
def Direct (s : Server) : Event → Prop
  | .operation _ (.delete path) => ∀ full, (s.driver.resolve s.machine.host path).2 = .ok full →
      ∀ loc st, s.machine.host.lstat full = some (loc, .directory st) →
        ∀ dir, LiveScratch s.machine.host s.driver dir loc → dir = full
  | _ => True

/-- The record is of the scratch directory that is handed out. -/
def HandsOut (s : Server) (record : Place × ℕ × ℕ) (t : Server) : Event → Prop
  | .operation F (.mkdtemp dev ino) =>
    ∃ full st, (outcome ((Operation.mkdtemp dev ino).run F) s).1 = .ok (some full) ∧
      t.machine.disk.tree.entry full = some (.directory st) ∧ record = (full, st.dev, st.ino)
  | _ => False

/-- What is promised of the next event. -/
structure Upheld (s : Server) (retired : List Place) (e : Event) (t : Server) : Prop where
  alive : ∀ full ∈ s.admitted e, ¬ s.machine.host.realpath s.driver.root.toList <:+ full →
    ∃ dir loc, dir <:+ full ∧ LiveScratch s.machine.host s.driver dir loc
  retired : ∀ full ∈ s.admitted e, ¬ s.machine.host.realpath s.driver.root.toList <:+ full →
    ∀ dir ∈ retired, ¬ dir <:+ full
  records : ∀ record ∈ t.driver.scratch, record ∈ s.driver.scratch ∨ s.HandsOut record t e

/-! ### Records -/

section Records

variable {drv : LocalFsDriver} {host : Host} {m : Machine} {s t : Server} {temp dir full x : Place}

private theorem lookup_eq_none_iff {drv : LocalFsDriver} :
    drv.scratch.lookup dir = none ↔ ∀ record ∈ drv.scratch, record.1 ≠ dir := by
  rw [List.lookup_eq_none_iff]
  refine forall₂_congr fun record _ => ?_
  rw [bne_iff_ne, ne_comm]

private theorem exists_mem_of_lookup (h : (drv.scratch.lookup dir).isSome = true) :
    ∃ record ∈ drv.scratch, record.1 = dir := by
  by_contra hnone
  have hlookup := lookup_eq_none_iff.mpr fun record hmem heq => hnone ⟨record, hmem, heq⟩
  rw [hlookup] at h
  cases h

private theorem mem_pop {record : Place × ℕ × ℕ} :
    record ∈ (drv.pop dir).scratch ↔ record ∈ drv.scratch ∧ record.1 ≠ dir := by
  simp [LocalFsDriver.pop]

/-- The doors drop the record found dead, and nothing else. -/
theorem pass_driver (paths : List String) : (drv.pass host paths).driver =
    match (drv.pass host paths).dead with
    | some dir => drv.pop dir
    | none => drv := by
  induction paths with
  | nil => rfl
  | cons path paths ih =>
      cases hresolve : (drv.resolve host path).2 with
      | ok full =>
          rw [LocalFsDriver.pass_of_ok hresolve]
          exact ih
      | error e =>
          rw [LocalFsDriver.pass_of_error hresolve]
          exact LocalFsDriver.resolve_driver_of_error hresolve

private theorem isSome_of_dead {paths : List String} (h : (drv.pass host paths).dead = some dir) :
    (drv.scratch.lookup dir).isSome = true := by
  induction paths with
  | nil => cases h
  | cons path paths ih =>
      cases hresolve : (drv.resolve host path).2 with
      | ok full =>
          rw [LocalFsDriver.pass_of_ok hresolve] at h
          exact ih h
      | error e =>
          rw [LocalFsDriver.pass_of_error hresolve] at h
          exact LocalFsDriver.foundDead_spec h

private theorem resolve_of_admitted {paths : List String}
    (h : full ∈ (drv.pass host paths).admitted) : ∃ path, (drv.resolve host path).2 = .ok full := by
  induction paths with
  | nil => cases h
  | cons path paths ih =>
      cases hresolve : (drv.resolve host path).2 with
      | ok full' =>
          rw [LocalFsDriver.pass_of_ok hresolve] at h
          rcases List.mem_cons.mp h with rfl | h
          · exact ⟨path, hresolve⟩
          · exact ih h
      | error e =>
          rw [LocalFsDriver.pass_of_error hresolve] at h
          cases h

private theorem alivePlace_eq_some {loc : Place} :
    s.alivePlace dir = some loc ↔ LiveScratch s.machine.host s.driver dir loc := by
  unfold alivePlace LiveScratch
  split
  · rename_i loc' st hlstat
    rw [hlstat]
    constructor
    · intro h
      split at h
      · rename_i hlive
        obtain rfl := Option.some.inj h
        exact ⟨st, rfl, hlive⟩
      · cases h
    · rintro ⟨st', heq, hlive⟩
      cases heq
      exact if_pos hlive
  · rename_i hother
    refine iff_of_false nofun ?_
    rintro ⟨st, hlstat, -⟩
    exact hother loc st hlstat

/-- The records are gone through for those whose directory the removal comes to. -/
def direct (s : Server) : Event → Bool
  | .operation _ (.delete path) =>
    match (s.driver.resolve s.machine.host path).2 with
    | .error _ => true
    | .ok full =>
      match s.machine.host.lstat full with
      | some (loc, .directory _) =>
        s.driver.scratch.all fun record => s.alivePlace record.1 ≠ some loc ∨ record.1 = full
      | _ => true
  | _ => true

private theorem direct_iff {e : Event} : s.direct e = true ↔ s.Direct e := by
  unfold direct Direct
  split
  · rename_i path
    split
    · rename_i e hresolve
      exact iff_of_true rfl fun full hfull => by cases hresolve.symm.trans hfull
    · rename_i full hresolve
      split
      · rename_i loc st hlstat
        rw [List.all_eq_true]
        constructor
        · intro h full' hfull' loc' st' hlstat' dir hlive
          cases hresolve.symm.trans hfull'
          cases hlstat.symm.trans hlstat'
          obtain ⟨st', -, -, hlookup⟩ := id hlive
          obtain ⟨record, hrecord, rfl⟩ := exists_mem_of_lookup (by rw [hlookup]; rfl)
          exact (of_decide_eq_true (h record hrecord)).neg_resolve_left
            (alivePlace_eq_some.mpr hlive)
        · intro h record _
          refine decide_eq_true (or_iff_not_imp_left.mpr fun hplace => ?_)
          exact h full hresolve loc st hlstat record.1
            (alivePlace_eq_some.mp (not_not.mp hplace))
      · rename_i hother
        refine iff_of_true rfl fun full' hfull' loc st hlstat => ?_
        cases hresolve.symm.trans hfull'
        exact absurd hlstat (hother loc st)
  · exact iff_of_true rfl trivial

instance (s : Server) (e : Event) : Decidable (s.Direct e) := decidable_of_iff _ direct_iff

end Records

/-! ### Runs -/

section Runs

variable {s t u : Server} {temp dir : Place} {e : Event}

/-- The records and the retired directories lie in the temporary directory, and what is retired is
not on record. -/
structure Tracked (temp : Place) (x : Server × List Place) : Prop where
  keys : ∀ record ∈ x.1.driver.scratch, ∃ n, record.1 = n :: temp
  retired : ∀ dir ∈ x.2, ∃ n, dir = n :: temp
  absent : ∀ dir ∈ x.2, ∀ record ∈ x.1.driver.scratch, record.1 ≠ dir

private theorem step_cases (h : s.step temp e = some t) :
    s.AtTemp temp e ∧ t = { s.after e with seen := [] } := by
  unfold step at h
  split at h
  · rename_i htemp
    unfold next at h
    split at h
    · exact ⟨htemp, (Option.some.inj h).symm⟩
    · cases h
  · cases h

private theorem mem_gone {op : Operation} (h : dir ∈ s.gone t op) :
    (∃ path, op = .delete path) ∧ (∃ record ∈ s.driver.scratch, record.1 = dir) ∧
      ∃ loc, LiveScratch s.machine.host s.driver dir loc ∧
        t.machine.disk.tree.entry loc = none := by
  cases op with
  | delete path =>
      obtain ⟨hmem, hgone⟩ := List.mem_filter.mp h
      obtain ⟨record, hrecord, rfl⟩ := List.mem_map.mp hmem
      obtain ⟨loc, hloc, hnone⟩ := (Option.any_eq_true _ _).mp hgone
      exact ⟨⟨path, rfl⟩, ⟨record, hrecord, rfl⟩, loc, alivePlace_eq_some.mp hloc,
        Option.isNone_iff_eq_none.mp hnone⟩
  | _ => cases h

/-- What an operation retires was on record and is no longer. -/
theorem retired_of_footprint {op : Operation} {F : Faults}
    {r : Except DriverError (Option Place)} (h : Footprint F s op r t)
    (hdirect : s.Direct (.operation F op)) (hr : ∀ full, r ≠ .ok (some full))
    (hdir : dir ∈ (s.driver.pass s.machine.host op.doors).dead.toList ++ s.gone t op) :
    (∃ record ∈ s.driver.scratch, record.1 = dir) ∧
      ∀ record ∈ t.driver.scratch, record.1 ≠ dir := by
  cases h with
  | made => exact absurd rfl (hr _)
  | quiet _ hdriver _ hentry =>
      rcases List.mem_append.mp hdir with hdead | hgone
      · rw [Option.mem_toList] at hdead
        refine ⟨exists_mem_of_lookup (isSome_of_dead hdead), fun record hrecord => ?_⟩
        rw [hdriver, pass_driver, hdead] at hrecord
        exact (mem_pop.mp hrecord).2
      · obtain ⟨-, -, loc, hlive, hnone⟩ := mem_gone hgone
        have hloc := LiveScratch.isDir hlive
        have hslack := hentry loc fun hsame =>
          Tree.ne_of_isDir hloc (hsame.symm.trans hnone) rfl
        rw [hslack.not_isDir] at hloc
        cases hloc
  | @removed _ _ path full x stat hop _ hopen hlstat hentry _ hdriver =>
      subst hop
      rcases List.mem_append.mp hdir with hdead | hgone
      · rw [Operation.doors, LocalFsDriver.pass_of_ok hopen] at hdead
        cases hdead
      · obtain ⟨-, hrecord, loc, hlive, hnone⟩ := mem_gone hgone
        have hx : loc = x := by
          by_contra hne
          rw [hentry, if_neg hne] at hnone
          exact Tree.ne_of_isDir (LiveScratch.isDir hlive) hnone rfl
        subst hx
        have hfull := hdirect full hopen loc stat hlstat dir hlive
        refine ⟨hrecord, fun record hmem => ?_⟩
        rw [hdriver] at hmem
        rw [hfull]
        exact (mem_pop.mp hmem).2

/-- An operation adds the record it hands out. -/
theorem mem_of_footprint {op : Operation} {F : Faults} {r : Except DriverError (Option Place)}
    (h : Footprint F s op r t) (hr : ∀ full, r ≠ .ok (some full)) {record : Place × ℕ × ℕ}
    (hrecord : record ∈ t.driver.scratch) : record ∈ s.driver.scratch := by
  cases h with
  | made => exact absurd rfl (hr _)
  | quiet _ hdriver =>
      rw [hdriver, pass_driver] at hrecord
      split at hrecord
      · exact (mem_pop.mp hrecord).1
      · exact hrecord
  | removed _ _ _ _ _ _ hdriver =>
      rw [hdriver] at hrecord
      exact (mem_pop.mp hrecord).1

private theorem Tracked.step {x y : Server × List Place} (h : Tracked temp x)
    (hstep : ((Steps temp).monitored retire).within (fun x e => x.1.Direct e) x e y) :
    Tracked temp y := by
  obtain ⟨s, retired⟩ := x
  obtain ⟨t', retired'⟩ := y
  obtain ⟨hdirect, hnext, hretire⟩ := hstep
  obtain ⟨htemp, rfl⟩ := step_cases hnext
  simp only at hretire
  subst hretire
  cases e with
  | outside d => exact ⟨h.keys, h.retired, h.absent⟩
  | operation F op =>
      rcases hrun : outcome (op.run F) s with ⟨r, t⟩
      have hfootprint := footprint_of_outcome hrun
      have hafter : s.after (.operation F op) = t := congrArg Prod.snd hrun
      rw [hafter]
      change Tracked temp (_, retire retired s (.operation F op) t)
      by_cases hr : ∃ full, r = .ok (some full)
      · obtain ⟨full, rfl⟩ := hr
        have hretire : retire retired s (.operation F op) t =
            retired.filter fun dir => dir ≠ full := by
          simp only [retire, hrun]
        rw [hretire]
        cases hfootprint with
        | quiet hr => exact absurd rfl (hr full)
        | removed _ hr => exact absurd rfl (hr full)
        | @made _ n p stat dev ino hop hlookup _ _ _ hdriver =>
            subst hop
            obtain rfl : p = temp := htemp p hlookup
            refine ⟨fun record hrecord => ?_, fun dir hdir => ?_, fun dir hdir record hrecord => ?_⟩
            · change record ∈ t.driver.scratch at hrecord
              rw [hdriver] at hrecord
              rcases List.mem_cons.mp hrecord with rfl | hrecord
              · exact ⟨n, rfl⟩
              · exact h.keys record (mem_pop.mp hrecord).1
            · exact h.retired dir (List.mem_filter.mp hdir).1
            · obtain ⟨hdir, hne⟩ := List.mem_filter.mp hdir
              change record ∈ t.driver.scratch at hrecord
              rw [hdriver] at hrecord
              rcases List.mem_cons.mp hrecord with rfl | hrecord
              · exact fun heq => of_decide_eq_true hne heq.symm
              · exact h.absent dir hdir record (mem_pop.mp hrecord).1
      · have hr : ∀ full, r ≠ .ok (some full) := fun full hfull => hr ⟨full, hfull⟩
        have hkeep : ∀ record ∈ t.driver.scratch, record ∈ s.driver.scratch := fun record hrecord =>
          mem_of_footprint hfootprint hr hrecord
        have hnew : ∀ dir ∈ (s.driver.pass s.machine.host op.doors).dead.toList ++ s.gone t op,
            (∃ record ∈ s.driver.scratch, record.1 = dir) ∧
              ∀ record ∈ t.driver.scratch, record.1 ≠ dir := fun dir hdir =>
          retired_of_footprint hfootprint hdirect hr hdir
        have hretire : retire retired s (.operation F op) t =
            ((s.driver.pass s.machine.host op.doors).dead.toList ++ s.gone t op) ++ retired := by
          simp only [retire, hrun]
        have hold : ∀ dir, dir ∈ retire retired s (.operation F op) t →
            dir ∈ (s.driver.pass s.machine.host op.doors).dead.toList ++ s.gone t op ∨
              dir ∈ retired := fun dir hdir => by
          rw [hretire] at hdir
          exact List.mem_append.mp hdir
        have hkeys : ∀ record ∈ t.driver.scratch, ∃ n, record.1 = n :: temp :=
          fun record hrecord => h.keys record (hkeep record hrecord)
        refine ⟨hkeys, fun dir hdir => ?_, fun dir hdir record hrecord => ?_⟩
        · rcases hold dir hdir with hdir | hdir
          · obtain ⟨⟨record, hrecord, rfl⟩, -⟩ := hnew dir hdir
            exact h.keys record hrecord
          · exact h.retired dir hdir
        · rcases hold dir hdir with hdir | hdir
          · exact (hnew dir hdir).2 record hrecord
          · exact h.absent dir hdir record (hkeep record hrecord)

/-- In a run whose removals come to scratch directories by their recorded paths, all is tracked. -/
theorem tracked_of_run {root : String} {m : Machine} {es : List Event} {x : Server × List Place}
    (h : Run (((Steps temp).monitored retire).within fun x e => x.1.Direct e) (start root m, [])
      es x) : Tracked temp x :=
  h.invariant (Tracked temp) ⟨nofun, nofun, nofun⟩ fun _ _ _ hx hstep => hx.step hstep

/-- Outside the root, a path is admitted below a recorded directory that is alive. -/
theorem alive_of_admitted {full : Place} (h : full ∈ s.admitted e)
    (hroot : ¬ s.machine.host.realpath s.driver.root.toList <:+ full) :
    ∃ dir loc, dir <:+ full ∧ LiveScratch s.machine.host s.driver dir loc := by
  cases e with
  | outside d => cases h
  | operation F op =>
      obtain ⟨path, hpath⟩ := resolve_of_admitted h
      obtain ⟨-, (heq | ⟨-, hsuffix⟩) | ⟨dir, loc, hdir, hlive⟩⟩ := resolve_eq_ok.mp hpath
      · exact absurd (heq ▸ List.suffix_refl _) hroot
      · exact absurd hsuffix hroot
      · exact ⟨dir, loc, scratchAncestor_suffix hdir, hlive⟩

/-- No two directories in one directory have a path in common. -/
theorem eq_of_suffixes {n k : Name} {full : Place} (hn : n :: temp <:+ full)
    (hk : k :: temp <:+ full) : n :: temp = k :: temp :=
  (List.suffix_of_suffix_length_le hn hk (by simp)).eq_of_length (by simp)

private theorem records_of_step (h : s.step temp e = some t) {record : Place × ℕ × ℕ}
    (hrecord : record ∈ t.driver.scratch) :
    record ∈ s.driver.scratch ∨ s.HandsOut record t e := by
  obtain ⟨-, rfl⟩ := step_cases h
  cases e with
  | outside d => exact .inl hrecord
  | operation F op =>
      rcases hrun : outcome (op.run F) s with ⟨r, t⟩
      have hafter : s.after (.operation F op) = t := congrArg Prod.snd hrun
      have hfootprint := footprint_of_outcome hrun
      rw [hafter] at hrecord
      cases hfootprint with
      | quiet hr hdriver hsame hentry =>
          exact .inl (mem_of_footprint (F := F) (.quiet hr hdriver hsame hentry) hr hrecord)
      | removed hop hr hopen hlstat hentry hsame hdriver hcalls =>
          exact .inl (mem_of_footprint (F := F)
            (.removed hop hr hopen hlstat hentry hsame hdriver hcalls) hr hrecord)
      | @made _ n p stat dev ino hop _ _ hentry _ hdriver =>
          subst hop
          change record ∈ t.driver.scratch at hrecord
          rw [hdriver] at hrecord
          rcases List.mem_cons.mp hrecord with rfl | hrecord
          · refine .inr ⟨n :: p, stat, congrArg Prod.fst hrun, ?_, rfl⟩
            rw [hafter]
            exact (hentry _).trans (if_pos rfl)
          · exact .inl (mem_pop.mp hrecord).1

/-- In every run whose removals come to scratch directories by their recorded paths, whatever
else is done to the disk in between: outside the root a path is admitted under a recorded
directory that is there and is the one that was made, what is retired admits nothing, and only a
scratch directory that is handed out is put on record. -/
theorem scratch_upheld {root : String} {m : Machine} {es : List Event} {retired : List Place}
    (hrun : Run (((Steps temp).monitored retire).within fun x e => x.1.Direct e)
      (start root m, []) es (s, retired))
    (hstep : s.step temp e = some t) : s.Upheld retired e t := by
  have htracked := tracked_of_run hrun
  refine ⟨fun full => alive_of_admitted, fun full hfull hroot dir hdir hsuffix => ?_,
    fun record => records_of_step hstep⟩
  obtain ⟨dir', loc, hdir', st, -, -, hlookup⟩ := alive_of_admitted hfull hroot
  obtain ⟨record, hrecord, rfl⟩ := exists_mem_of_lookup (by rw [hlookup]; rfl)
  obtain ⟨n, hn⟩ := htracked.keys record hrecord
  obtain ⟨k, rfl⟩ := htracked.retired dir hdir
  rw [hn] at hdir'
  exact htracked.absent _ hdir record hrecord (hn.trans (eq_of_suffixes hdir' hsuffix))

end Runs

def tmpPlace : Place := [tmp]

/-- Two names of scratch directories, as `tempfile.mkdtemp` might draw them. -/
def scratchA : Name := .of ['j', 'e', 't', 't', 'y', '-', 'a', 'a', 'a', 'a', 'a', 'a', 'a', 'a']

def scratchB : Name := .of ['j', 'e', 't', 't', 'y', '-', 'b', 'b', 'b', 'b', 'b', 'b', 'b', 'b']

/-- A scratch directory of the given name is made, with an inode of the given number. -/
def handOut (c : Name) (ino : ℕ) : Event := .operation (smooth [c]) (.mkdtemp 0 ino)

/-- Two scratch directories; in one of them somebody puts links that go round and lead to the
other, which is removed that way and then made again, at the inode that has become free. -/
def roundabout : List Event :=
  [handOut scratchA 10, handOut scratchB 11,
    .outside <| .ofEntries ⟨0, 0, 0⟩ [([srv], .directory ⟨0, 1, 0⟩),
      (tmpPlace, .directory ⟨0, 2, 0⟩), (scratchA :: tmpPlace, .directory ⟨0, 10, 1⟩),
      (scratchB :: tmpPlace, .directory ⟨0, 11, 1⟩),
      (.of ['l'] :: scratchA :: tmpPlace,
        .link (['l', '/', '.', '.', '/', 'e', '/'] ++ scratchB.chars)),
      (.of ['e'] :: scratchA :: tmpPlace, .link ['/', 't', 'm', 'p'])] (fun _ => ⟨[], 0⟩)
      (by decide),
    .operation (smooth []) (.delete "/tmp/jetty-aaaaaaaa/l"),
    .outside <| .ofEntries ⟨0, 0, 0⟩ [([srv], .directory ⟨0, 1, 0⟩),
      (tmpPlace, .directory ⟨0, 2, 0⟩), (scratchB :: tmpPlace, .directory ⟨0, 11, 1⟩),
      (.of ['f'] :: scratchB :: tmpPlace, .regular)] (fun _ => ⟨[], 0⟩) (by decide)]

def readBack : Event := .operation (smooth []) (.read "/tmp/jetty-bbbbbbbb/f")

/-- Two scratch directories are made; the first is removed, and its record is retired. -/
def retiring : List Event :=
  [handOut scratchA 10, handOut scratchB 11, .operation (smooth []) (.delete "/tmp/jetty-aaaaaaaa")]

/-- The retired path admits nothing, the live one does. -/
theorem scratch_upheld_retiring : ∃ s t : Server,
    Run (((Steps tmpPlace).monitored retire).within fun x e => x.1.Direct e)
        (start "/srv" bareMachine, []) retiring (s, [scratchA :: tmpPlace]) ∧
      s.step tmpPlace readBack = some t ∧
      s.admitted readBack = [.of ['f'] :: scratchB :: tmpPlace] ∧
      s.Upheld [scratchA :: tmpPlace] readBack t := by
  obtain ⟨⟨s, retired⟩, hrun, hp⟩ := exists_run_of_execWithin
    (monitorStep (step tmpPlace) retire) (fun x e => x.1.Direct e)
    (start "/srv" bareMachine, []) retiring
    (fun x => decide (x.2 = [scratchA :: tmpPlace]) &&
      decide (x.1.admitted readBack = [.of ['f'] :: scratchB :: tmpPlace]) &&
      (x.1.step tmpPlace readBack).isSome)
    (by decide +kernel)
  simp only [Bool.and_eq_true, decide_eq_true_eq] at hp
  obtain ⟨⟨rfl, hadmitted⟩, hstep⟩ := hp
  obtain ⟨t, ht⟩ := Option.isSome_iff_exists.mp hstep
  rw [ofPartial_monitorStep] at hrun
  exact ⟨s, t, hrun, ht, hadmitted, scratch_upheld hrun ht⟩

/-- A directory that was removed through links into it is admitted again. -/
theorem not_upheld_roundabout : ¬ ∀ (root : String) (m : Machine) (temp : Place)
    (es : List Event) (s t : Server) (retired : List Place) (e : Event),
    Run ((Steps temp).monitored retire) (start root m, []) es (s, retired) →
      s.step temp e = some t → s.Upheld retired e t := by
  intro h
  obtain ⟨⟨s, retired⟩, hrun, hp⟩ := exists_run_of_exec (monitorStep (step tmpPlace) retire)
    (start "/srv" bareMachine, []) roundabout
    (fun x => x.2.contains (scratchB :: tmpPlace) &&
      (x.1.admitted readBack).contains (.of ['f'] :: scratchB :: tmpPlace) &&
      !decide (x.1.machine.host.realpath x.1.driver.root.toList <:+
        .of ['f'] :: scratchB :: tmpPlace) && (x.1.step tmpPlace readBack).isSome)
    (by decide +kernel)
  simp only [Bool.and_eq_true, List.contains_iff_mem, Bool.not_eq_true',
    decide_eq_false_iff_not] at hp
  obtain ⟨⟨⟨hretired, hadmitted⟩, hroot⟩, hstep⟩ := hp
  obtain ⟨t, ht⟩ := Option.isSome_iff_exists.mp hstep
  rw [ofPartial_monitorStep] at hrun
  exact (h _ _ _ _ _ _ _ _ hrun ht).retired _ hadmitted hroot _ hretired (List.suffix_cons _ _)

end Server

end Jetty.Filesystem
