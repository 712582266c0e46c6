import Jetty.Modules.Filesystem.Replace

/-!
# What an operation can change

An operation goes through its doors first, which may drop records of scratch directories. After
that it touches names that were free or that the kernel found loose; a removal of a directory and a
new scratch directory are told apart.
-/

namespace Jetty.Filesystem

open Files Effects

/-- An operation of the driver. -/
inductive Operation
  | read (path : String)
  | stat (path : String)
  | write (path : String) (content : List UInt8)
  | delete (path : String)
  | rename (src dst : String)
  | copy (src dst : String)
  /-- With the device and the inode number that the kernel gives the new directory. -/
  | mkdtemp (dev ino : ℕ)
deriving Repr

namespace Operation

/-- The paths that are resolved, in order. -/
def doors : Operation → List String
  | read path | stat path | write path _ | delete path => [path]
  | rename src dst | copy src dst => [src, dst]
  | mkdtemp .. => []

/-- The operation; a scratch directory that is handed out. -/
def run (F : Faults) : Operation → Serving (Option Place)
  | read path => (fun _ => none) <$> LocalFsDriver.read F path
  | stat path => (fun _ => none) <$> LocalFsDriver.stat F path
  | write path content => (fun _ => none) <$> LocalFsDriver.write F path content
  | delete path => (fun _ => none) <$> LocalFsDriver.delete F path
  | rename src dst => (fun _ => none) <$> LocalFsDriver.rename F src dst
  | copy src dst => (fun _ => none) <$> LocalFsDriver.copy F src dst
  | mkdtemp dev ino => some <$> LocalFsDriver.mkdtemp F dev ino

end Operation

/-- Nothing has been done yet. -/
def Server.start (root : String) (m : Machine) : Server := ⟨⟨root, []⟩, m, []⟩

def tmp : Name := .of ['t', 'm', 'p']

/-- `/srv` and `/tmp`, with nothing in them. -/
def bareMachine : Machine :=
  { setuidServer.machine with
    disk := .ofEntries ⟨0, 0, 0⟩ [([srv], .directory ⟨0, 1, 0⟩),
      ([tmp], .directory ⟨0, 2, 0⟩)] (fun _ => ⟨[], 0⟩) (by decide)
    cwd_isDir := rfl }

/-! ### Doors -/

/-- What comes of resolving paths one after another: the records left, the places admitted, and the
record that is found dead, if one is. -/
structure Passage where
  driver : LocalFsDriver
  admitted : List Place := []
  dead : Option Place := none

namespace LocalFsDriver

/-- The record that a resolution finds dead. -/
def foundDead (drv : LocalFsDriver) (host : Host) (path : String) : Option Place :=
  let full := host.realpath path.toList
  let root := host.realpath drv.root.toList
  if text full = text root ∨ text root ++ ['/'] <+: text full then none
  else (drv.scratchAncestor full).filter fun dir => !(drv.scratchAlive host dir).2

/-- The doors, up to the first that stays shut. -/
def pass (drv : LocalFsDriver) (host : Host) : List String → Passage
  | [] => { driver := drv }
  | path :: paths =>
    match drv.resolve host path with
    | (drv', .ok full) =>
      let rest := drv'.pass host paths
      { rest with admitted := full :: rest.admitted }
    | (drv', .error _) => { driver := drv', dead := drv.foundDead host path }

variable {drv : LocalFsDriver} {host : Host} {path : String}

private theorem isSome_of_scratchAncestor {p dir : Place} (h : drv.scratchAncestor p = some dir) :
    (drv.scratch.lookup dir).isSome = true := by
  induction p with
  | nil =>
      simp only [scratchAncestor] at h
      split at h
      · rename_i hsome
        obtain rfl := Option.some.inj h
        exact hsome
      · cases h
  | cons n p ih =>
      simp only [scratchAncestor] at h
      split at h
      · rename_i hsome
        obtain rfl := Option.some.inj h
        exact hsome
      · exact ih h

private theorem scratchAlive_driver (drv : LocalFsDriver) (host : Host) (dir : Place) :
    (drv.scratchAlive host dir).1 =
      if (drv.scratchAlive host dir).2 then drv else drv.pop dir := by
  unfold scratchAlive
  split
  · split
    · rfl
    · rfl
  · rfl

/-- A door that opens leaves the records alone. -/
theorem resolve_driver_of_ok {full : Place} (h : (drv.resolve host path).2 = .ok full) :
    (drv.resolve host path).1 = drv := by
  simp only [resolve] at h ⊢
  split
  · rfl
  · rename_i hroot
    rw [if_neg hroot] at h
    cases hancestor : drv.scratchAncestor (host.realpath path.toList) with
    | none => rfl
    | some dir =>
        simp only [hancestor] at h ⊢
        have hdriver := scratchAlive_driver drv host dir
        split at h
        · rename_i halive
          rw [if_pos halive] at hdriver ⊢
          exact hdriver
        · cases h

/-- One that stays shut drops the record found dead, if there is one. -/
theorem resolve_driver_of_error {e : InvalidTarget} (h : (drv.resolve host path).2 = .error e) :
    (drv.resolve host path).1 = match drv.foundDead host path with
      | some dir => drv.pop dir
      | none => drv := by
  simp only [resolve, foundDead] at h ⊢
  split
  · rfl
  · rename_i hroot
    rw [if_neg hroot] at h
    cases hancestor : drv.scratchAncestor (host.realpath path.toList) with
    | none => rfl
    | some dir =>
        simp only [hancestor] at h ⊢
        have hdriver := scratchAlive_driver drv host dir
        split at h
        · cases h
        · rename_i hdead
          rw [if_neg hdead] at hdriver ⊢
          rw [Option.filter_some, if_pos (by simp [hdead])]
          exact hdriver

/-- What is found dead is on record, and is no live scratch directory. -/
theorem foundDead_spec {dir : Place} (h : drv.foundDead host path = some dir) :
    (drv.scratch.lookup dir).isSome = true := by
  simp only [foundDead] at h
  split at h
  · cases h
  · obtain ⟨hancestor, -⟩ := Option.filter_eq_some_iff.mp h
    exact isSome_of_scratchAncestor hancestor

/-- A path that is resolved goes with the ones after it. -/
theorem pass_of_ok {full : Place} {paths : List String}
    (h : (drv.resolve host path).2 = .ok full) :
    drv.pass host (path :: paths) =
      { drv.pass host paths with admitted := full :: (drv.pass host paths).admitted } := by
  have hdriver := resolve_driver_of_ok h
  rw [pass]
  rcases hresolve : drv.resolve host path with ⟨drv', r⟩
  rw [hresolve] at h hdriver
  simp only at h hdriver
  rw [h, hdriver]

/-- A path that is refused ends the pass. -/
theorem pass_of_error {e : InvalidTarget} {paths : List String}
    (h : (drv.resolve host path).2 = .error e) :
    drv.pass host (path :: paths) =
      { driver := (drv.resolve host path).1, dead := drv.foundDead host path } := by
  rw [pass]
  rcases hresolve : drv.resolve host path with ⟨drv', r⟩
  rw [hresolve] at h
  simp only at h
  rw [h]

end LocalFsDriver

/-! ### Footprints -/

/-- Where an edit is in nobody's way: nothing is there, or the kernel finds it loose. -/
def Slack (m : Machine) (x : Place) : Prop :=
  m.disk.tree.entry x = none ∨ ∃ n dir q, x = n :: q ∧ m.host.lookup (text dir) = some q ∧
    m.disk.tree.Loose m.maxLinks (n :: dir)

/-- What an operation does to the server. -/
inductive Footprint (F : Faults) (s : Server) (op : Operation) :
    Except DriverError (Option Place) → Server → Prop
  | quiet {r : Except DriverError (Option Place)} {t : Server} (hr : ∀ full, r ≠ .ok (some full))
    (hdriver : t.driver = (s.driver.pass s.machine.host op.doors).driver)
    (hsame : Machine.Same s.machine t.machine)
    (hentry : ∀ x, t.machine.disk.tree.entry x ≠ s.machine.disk.tree.entry x → Slack s.machine x) :
    Footprint F s op r t
  | removed {r : Except DriverError (Option Place)} {t : Server} {path : String} {full x : Place}
    {stat : Stat} (hop : op = .delete path) (hr : ∀ full, r ≠ .ok (some full))
    (hopen : (s.driver.resolve s.machine.host path).2 = .ok full)
    (hlstat : s.machine.host.lstat full = some (x, .directory stat))
    (hentry : ∀ p, t.machine.disk.tree.entry p =
      if p = x then none else s.machine.disk.tree.entry p)
    (hsame : x ≠ s.machine.cwd → Machine.Same s.machine t.machine)
    (hdriver : t.driver = s.driver.pop full)
    (hcalls : F.fails .stat = none ∧ F.fails .rmdir = none) : Footprint F s op r t
  | made {t : Server} {n : Name} {p : Place} {stat : Stat} {dev ino : ℕ}
    (hop : op = .mkdtemp dev ino)
    (hlookup : s.machine.host.lookup s.machine.tempdir = some p)
    (hfree : s.machine.disk.tree.entry (n :: p) = none)
    (hentry : ∀ q, t.machine.disk.tree.entry q =
      if q = n :: p then some (.directory stat) else s.machine.disk.tree.entry q)
    (hsame : Machine.Same s.machine t.machine)
    (hdriver : t.driver = s.driver.record (n :: p) stat) : Footprint F s op (.ok (some (n :: p))) t

section Operations

variable {F : Faults} {s : Server} {op : Operation} {path : String}

/-- A door resolves its path and drops the scratch directories that are dead. -/
theorem wp_door_pass {Q : Place → Server → Prop} {E : DriverError → Server → Prop}
    (hQ : (s.driver.resolve s.machine.host path).2 = .ok (s.machine.host.realpath path.toList) →
      Q (s.machine.host.realpath path.toList) s)
    (hE : ∀ e e', (s.driver.resolve s.machine.host path).2 = .error e' →
      E e { s with driver := (s.driver.resolve s.machine.host path).1 }) :
    wp (LocalFsDriver.door path) Q E s := by
  unfold LocalFsDriver.door
  rw [wp_bind, wp_get, wp_bind, wp_set]
  cases hdoor : (s.driver.resolve s.machine.host path).2 with
  | ok full =>
      obtain ⟨rfl, -⟩ := resolve_eq_ok.mp hdoor
      rw [LocalFsDriver.resolve_driver_of_ok hdoor]
      exact hQ hdoor
  | error e => exact hE _ e hdoor

/-- What an operation promises of both its ends. -/
def Leaves (F : Faults) (s : Server) (op : Operation) (x : Serving (Option Place)) (t : Server) :
    Prop :=
  wp x (fun full u => Footprint F s op (.ok full) u) (fun e u => Footprint F s op (.error e) u) t

private theorem ok_none_ne (full : Place) :
    (Except.ok none : Except DriverError (Option Place)) ≠ .ok (some full) := nofun

private theorem error_ne (e : DriverError) (full : Place) :
    (Except.error e : Except DriverError (Option Place)) ≠ .ok (some full) := nofun

/-- An operation behind its one door. -/
theorem leaves_of_door {α : Type} {x : Place → Serving α} {f : α → Option Place}
    (hdoors : op.doors = [path])
    (hopen : ∀ full, (s.driver.resolve s.machine.host path).2 = .ok full →
      (s.driver.pass s.machine.host op.doors).driver = s.driver →
      Leaves F s op (f <$> x full) s) :
    Leaves F s op (f <$> (LocalFsDriver.door path >>= x)) s := by
  unfold Leaves at hopen ⊢
  rw [wp_map, wp_bind]
  refine wp_door_pass (fun hok => ?_) fun e e' herror => ?_
  · have hpass : (s.driver.pass s.machine.host op.doors).driver = s.driver := by
      rw [hdoors, LocalFsDriver.pass_of_ok hok]
      rfl
    have hleaves := hopen _ hok hpass
    rwa [wp_map] at hleaves
  · refine .quiet (error_ne e) ?_ (.refl _) fun _ h => absurd rfl h
    rw [hdoors, LocalFsDriver.pass_of_error herror]

/-- And behind two. -/
theorem leaves_of_doors {α : Type} {x : Place → Place → Serving α} {f : α → Option Place}
    {src dst : String} (hdoors : op.doors = [src, dst])
    (hopen : (s.driver.pass s.machine.host op.doors).driver = s.driver → ∀ full full',
      Leaves F s op (f <$> x full full') s) :
    Leaves F s op (f <$> (do
      let full ← LocalFsDriver.door src
      let full' ← LocalFsDriver.door dst
      x full full')) s := by
  unfold Leaves at hopen ⊢
  rw [wp_map, wp_bind]
  refine wp_door_pass (fun hok => ?_) fun e e' herror => ?_
  · rw [wp_bind]
    refine wp_door_pass (fun hok' => ?_) fun e e' herror => ?_
    · have hpass : (s.driver.pass s.machine.host op.doors).driver = s.driver := by
        rw [hdoors, LocalFsDriver.pass_of_ok hok, LocalFsDriver.pass_of_ok hok']
        rfl
      have hleaves := hopen hpass (s.machine.host.realpath src.toList)
        (s.machine.host.realpath dst.toList)
      rwa [wp_map] at hleaves
    · refine .quiet (error_ne e) ?_ (.refl _) fun _ h => absurd rfl h
      rw [hdoors, LocalFsDriver.pass_of_ok hok, LocalFsDriver.pass_of_error herror]
  · refine .quiet (error_ne e) ?_ (.refl _) fun _ h => absurd rfl h
    rw [hdoors, LocalFsDriver.pass_of_error herror]

/-- An operation that changes nothing behind its doors. -/
theorem footprint_self {r : Except DriverError (Option Place)} (hr : ∀ full, r ≠ .ok (some full))
    (hpass : (s.driver.pass s.machine.host op.doors).driver = s.driver) : Footprint F s op r s :=
  .quiet hr hpass.symm (.refl _) fun _ h => absurd rfl h

private theorem slack_of_loose {full x : Place}
    (hloose : s.machine.disk.tree.Loose s.machine.maxLinks full) {n : Name} {dir q : Place}
    (hfull : full = n :: dir) (hq : s.machine.host.lookup (text dir) = some q)
    (hx : x = n :: q) : Slack s.machine x := by
  subst hfull
  exact .inr ⟨n, dir, q, hx, hq, hloose⟩

/-- The kernel gets to what stands in a directory, unless it is a link. -/
theorem lookup_cons {m : Machine} {n : Name} {dir q : Place} {e : Entry Stat}
    (hq : m.host.lookup (text dir) = some q) (he : m.disk.tree.entry (n :: q) = some e)
    (hlink : ∀ target, e ≠ .link target) : m.host.lookup (text (n :: dir)) = some (n :: q) := by
  rw [lookup_host, Tree.walk_text] at hq ⊢
  rw [List.reverse_cons, List.map_append]
  exact Tree.walk_of_reaches ((Tree.reaches_of_walk hq).snoc he hlink)

/-- What is slack is no directory. -/
theorem Slack.not_isDir {m : Machine} {x : Place} (h : Slack m x) :
    m.disk.tree.isDir x = false := by
  rcases h with hnone | ⟨n, dir, q, rfl, hq, hloose⟩
  · exact Tree.isDir_of_none hnone
  · by_contra hdir
    rw [Bool.not_eq_false] at hdir
    obtain ⟨e, he, hlink⟩ := Tree.settled_of_isDir hdir
    have hwalk := lookup_cons hq he hlink
    rw [lookup_host] at hwalk
    rcases hloose with ⟨hnone, -⟩ | ⟨c, hc, hfile⟩
    · rw [hwalk] at hnone
      cases hnone
    · rw [hwalk] at hc
      obtain rfl := Option.some.inj hc
      rw [hdir] at hfile
      cases hfile

/-- What `lstat` finds is an entry of the tree. -/
theorem entry_of_lstat {host : Host} {dir loc : Place} {e : Entry Stat}
    (h : host.lstat dir = some (loc, e)) : host.tree.entry loc = some e := by
  cases dir with
  | nil =>
      obtain ⟨e', he', heq⟩ := Option.map_eq_some_iff.mp h
      obtain ⟨rfl, rfl⟩ := Prod.mk.inj heq
      exact he'
  | cons n dir =>
      obtain ⟨q, hq, h⟩ := Option.bind_eq_some_iff.mp h
      obtain ⟨e', he', heq⟩ := Option.bind_eq_some_iff.mp h
      obtain ⟨rfl, rfl⟩ := Prod.mk.inj (Option.some.inj heq)
      exact he'

/-- The kernel gets to a directory where `lstat` finds it. -/
theorem lookup_of_lstat {m : Machine} {full x : Place} {st : Stat}
    (h : m.host.lstat full = some (x, .directory st)) : m.host.lookup (text full) = some x := by
  have hentry := entry_of_lstat h
  cases full with
  | nil =>
      obtain ⟨e, -, heq⟩ := Option.map_eq_some_iff.mp h
      obtain ⟨rfl, -⟩ := Prod.mk.inj heq
      rw [lookup_host, Tree.walk_text_settled Tree.settled_top]
  | cons n dir =>
      obtain ⟨q, hq, h⟩ := Option.bind_eq_some_iff.mp h
      obtain ⟨e, -, heq⟩ := Option.bind_eq_some_iff.mp h
      obtain ⟨rfl, -⟩ := Prod.mk.inj (Option.some.inj heq)
      exact lookup_cons hq hentry fun _ h => by cases h

/-- A live scratch directory is a directory. -/
theorem LiveScratch.isDir {drv : LocalFsDriver} {m : Machine} {dir loc : Place}
    (h : LiveScratch m.host drv dir loc) : m.disk.tree.isDir loc = true := by
  obtain ⟨st, hlstat, -⟩ := h
  have hentry := entry_of_lstat hlstat
  change m.disk.tree.entry loc = _ at hentry
  simp only [Tree.isDir, hentry]

private theorem slack_of_stored {t : Server} {full : Place} {content : List UInt8} {mode : ℕ}
    (h : Stored F s full content mode t) {x : Place}
    (hx : t.machine.disk.tree.entry x ≠ s.machine.disk.tree.entry x) : Slack s.machine x := by
  obtain ⟨n, dir, q, hfull, hq, -, hentry⟩ := h.entry
  refine slack_of_loose h.loose hfull hq ?_
  by_contra hne
  rw [hentry, if_neg hne] at hx
  exact hx rfl

private theorem slack_of_undone {t : Server} {full : Place} (h : Undone F s full t) {x : Place}
    (hx : t.machine.disk.tree.entry x ≠ s.machine.disk.tree.entry x) : Slack s.machine x := by
  left
  by_contra hsome
  exact hx (h.grown x (Option.isSome_iff_ne_none.mpr hsome))

private theorem leaves_replace (full : Place) (path : String) (content : List UInt8) (mode : ℕ)
    (hpass : (s.driver.pass s.machine.host op.doors).driver = s.driver) :
    Leaves F s op ((fun _ => none) <$> LocalFsDriver.replace F full path content mode) s := by
  unfold Leaves
  rw [wp_map]
  refine wp_mono wp_replace ?_ ?_
  · rintro w t ⟨-, hstored⟩
    exact .quiet ok_none_ne (hstored.driver.trans hpass.symm) hstored.same fun x hx =>
      slack_of_stored hstored hx
  · rintro e t hundone
    exact .quiet (error_ne e) (hundone.driver.trans hpass.symm) hundone.same fun x hx =>
      slack_of_undone hundone hx

private theorem wp_stat_same {c : Call} {full : Place} : wp (Filesystem.stat F c full)
    (fun r t => t = s ∧ F.fails c = none ∧ s.machine.host.lookup (text full) = some r.1 ∧
      s.machine.disk.tree.entry r.1 = some r.2) (fun _ t => t = s) s := by
  unfold Filesystem.stat
  rw [wp_bind]
  refine wp_attempt (fun hcall => ?_) fun _ _ => rfl
  exact wp_find (fun p e hp he => ⟨rfl, hcall, hp, he⟩) (fun _ => rfl) fun _ _ _ => rfl

private theorem leaves_read : Leaves F s (.read path) ((Operation.read path).run F) s := by
  refine leaves_of_door rfl fun full _ hpass => ?_
  unfold Leaves
  rw [wp_map, wp_bind]
  refine wp_mono wp_require ?_ ?_
  swap
  · rintro e t rfl
    exact footprint_self (error_ne e) hpass
  rintro mode t ⟨rfl, hfound⟩
  obtain ⟨f, hf, rfl⟩ := Option.map_eq_some_iff.mp hfound.look
  rw [wp_rescue]
  refine wp_mono (wp_contents hf) ?_ ?_
  · rintro content t ⟨rfl, -⟩
    exact footprint_self ok_none_ne hpass
  · rintro e t rfl
    exact footprint_self (error_ne _) hpass

private theorem leaves_stat : Leaves F s (.stat path) ((Operation.stat path).run F) s := by
  refine leaves_of_door rfl fun full _ hpass => ?_
  unfold Leaves
  rw [wp_map, wp_bind, wp_rescue]
  refine wp_mono wp_stat_same ?_ ?_
  · rintro ⟨p, e⟩ t ⟨rfl, -⟩
    cases e <;> exact footprint_self ok_none_ne hpass
  · rintro e t rfl
    exact footprint_self (error_ne _) hpass

private theorem leaves_write {content : List UInt8} :
    Leaves F s (.write path content) ((Operation.write path content).run F) s :=
  leaves_of_door rfl fun full _ hpass => leaves_replace full path content 0o666 hpass

private theorem leaves_copy {src dst : String} :
    Leaves F s (.copy src dst) ((Operation.copy src dst).run F) s := by
  refine leaves_of_doors rfl fun hpass full full' => ?_
  split
  · exact footprint_self (error_ne _) hpass
  · unfold Leaves
    rw [wp_map, wp_bind]
    refine wp_mono wp_require ?_ ?_
    swap
    · rintro e t rfl
      exact footprint_self (error_ne e) hpass
    rintro mode t ⟨rfl, hfound⟩
    obtain ⟨f, hf, rfl⟩ := Option.map_eq_some_iff.mp hfound.look
    rw [wp_bind, wp_rescue]
    refine wp_mono (wp_contents hf) ?_ ?_
    swap
    · rintro e t rfl
      exact footprint_self (error_ne _) hpass
    rintro content t ⟨rfl, rfl⟩
    have hleaves := leaves_replace (F := F) full' dst f.content f.mode hpass
    unfold Leaves at hleaves
    rwa [wp_map] at hleaves

/-- What a rename of one file does. -/
structure Renamed (s : Server) (src dst : Place) (t : Server) : Prop where
  driver : t.driver = s.driver
  same : Machine.Same s.machine t.machine
  entry : ∀ x, t.machine.disk.tree.entry x ≠ s.machine.disk.tree.entry x →
    (∃ n dir q, src = n :: dir ∧ s.machine.host.lookup (text dir) = some q ∧ x = n :: q) ∨
    ∃ n dir q, dst = n :: dir ∧ s.machine.host.lookup (text dir) = some q ∧ x = n :: q

private theorem wp_rename {src dst : Place} (hsrc : src ≠ []) (hdst : dst ≠ []) :
    wp (renameCall F src dst) (fun _ => Renamed s src dst) (fun _ t => t = s) s := by
  obtain ⟨n, dir, rfl⟩ := List.exists_cons_of_ne_nil hsrc
  obtain ⟨n', dir', rfl⟩ := List.exists_cons_of_ne_nil hdst
  unfold renameCall
  rw [wp_bind]
  refine wp_attempt (fun _ => ?_) fun _ _ => rfl
  rw [wp_bind]
  refine wp_spot (fun q hq => ?_) fun _ _ => rfl
  rw [wp_bind]
  refine wp_spot (fun q' hq' => ?_) fun _ _ => rfl
  refine wp_onDisk (fun d hd => ?_) fun _ _ => rfl
  obtain ⟨e, he, hdirectory, hcases⟩ := Disk.rename_ok hd
  have hfile : s.machine.disk.tree.isDir (n :: q) = false := by
    simp only [Tree.isDir, he]
    cases e with
    | directory stat => exact absurd rfl (hdirectory stat)
    | _ => rfl
  have hentry : ∀ x, d.tree.entry x ≠ s.machine.disk.tree.entry x →
      s.machine.disk.tree.isDir x = false ∧ (x = n :: q ∨ x = n' :: q') := by
    intro x hx
    rcases hcases with ⟨rfl, -⟩ | ⟨-, hfile', c, hc, hd'⟩
    · exact absurd rfl hx
    · rw [hd'.entry, hc.entry] at hx
      by_cases hx' : x = n' :: q'
      · exact ⟨hx' ▸ hfile', .inr hx'⟩
      · rw [if_neg hx'] at hx
        have hxn : x = n :: q := by
          by_contra hne
          rw [if_neg hne] at hx
          exact hx rfl
        exact ⟨hxn ▸ hfile, .inl hxn⟩
  refine ⟨rfl, Machine.same_of_agree fun p hp => ?_, fun x hx => ?_⟩
  · by_contra hne
    rw [(hentry p hne).1] at hp
    cases hp
  · rw [Server.moved, Machine.disk_withDisk] at hx
    exact (hentry x hx).2.imp (fun h => ⟨n, dir, q, rfl, hq, h⟩)
      fun h => ⟨n', dir', q', rfl, hq', h⟩

private theorem leaves_rename {src dst : String} :
    Leaves F s (.rename src dst) ((Operation.rename src dst).run F) s := by
  refine leaves_of_doors rfl fun hpass full full' => ?_
  unfold Leaves
  rw [wp_map, wp_bind]
  refine wp_mono wp_require ?_ ?_
  swap
  · rintro e t rfl
    exact footprint_self (error_ne e) hpass
  rintro mode t ⟨rfl, hfound⟩
  rw [wp_bind]
  refine wp_mono wp_statRegular ?_ ?_
  swap
  · rintro e t rfl
    exact footprint_self (error_ne e) hpass
  rintro st t ⟨rfl, hfound'⟩
  rw [wp_bind, wp_rescue]
  refine wp_mono (wp_rename hfound.loose.ne_nil hfound'.loose.ne_nil) ?_ ?_
  · rintro _ u hrenamed
    refine .quiet ok_none_ne (hrenamed.driver.trans hpass.symm) hrenamed.same fun x hx => ?_
    rcases hrenamed.entry x hx with ⟨n, dir, q, hsrc, hq, hx⟩ | ⟨n, dir, q, hdst, hq, hx⟩
    · exact slack_of_loose hfound.loose hsrc hq hx
    · exact slack_of_loose hfound'.loose hdst hq hx
  · rintro errno u rfl
    split <;> exact footprint_self (error_ne _) hpass

/-- The place of a last name is where `lstat` looks. -/
theorem wp_spot_lstat {full : Place} {Q : Place → Server → Prop} {E : Errno → Server → Prop}
    (hQ : ∀ x, (∀ e, s.machine.disk.tree.entry x = some e →
      s.machine.host.lstat full = some (x, e)) → Q x s)
    (hE : ∀ errno, E errno s) : wp (spot full) Q E s := by
  cases full with
  | nil =>
      refine hQ [] fun e he => ?_
      rw [Host.lstat, Machine.host, he]
      rfl
  | cons n dir =>
      refine wp_spot (fun q hq => hQ _ fun e he => ?_) fun errno _ => hE errno
      have he' : s.machine.host.tree.entry (n :: q) = some e := he
      simp only [Host.lstat, hq, Option.bind_eq_bind, Option.bind_some, he']
      rfl

private theorem leaves_delete : Leaves F s (.delete path) ((Operation.delete path).run F) s := by
  refine leaves_of_door rfl fun full hopen hpass => ?_
  unfold Leaves
  rw [wp_map, wp_bind, wp_rescue]
  refine wp_mono wp_stat_same ?_ ?_
  swap
  · rintro e t rfl
    exact footprint_self (error_ne _) hpass
  rintro ⟨p, e⟩ t ⟨rfl, hstat, hp, he⟩
  cases e with
  | special => exact footprint_self (error_ne _) hpass
  | link target => exact footprint_self (error_ne _) hpass
  | regular =>
      have hloose : t.machine.disk.tree.Loose t.machine.maxLinks full := by
        refine .inr ⟨p, by rw [← lookup_host, hp], ?_⟩
        simp only [Tree.isDir, he]
      obtain ⟨n, dir, rfl⟩ := List.exists_cons_of_ne_nil hloose.ne_nil
      rw [wp_rescue]
      unfold unlinkCall
      rw [wp_bind]
      refine wp_attempt (fun _ => ?_) fun _ _ => footprint_self (error_ne _) hpass
      rw [wp_bind]
      refine wp_spot (fun q hq => ?_) fun _ _ => footprint_self (error_ne _) hpass
      refine wp_onDisk (fun d hd => ?_) fun _ _ => footprint_self (error_ne _) hpass
      obtain ⟨-, hfile, hrebound⟩ := Disk.unlink_ok hd
      refine .quiet ok_none_ne hpass.symm (Machine.same_of_agree fun x hx => ?_) fun x hx => ?_
      · rw [hrebound.entry, if_neg]
        rintro rfl
        rw [hfile] at hx
        cases hx
      · refine slack_of_loose hloose rfl hq ?_
        by_contra hne
        rw [Server.moved, Machine.disk_withDisk, hrebound.entry, if_neg hne] at hx
        exact hx rfl
  | directory stat =>
      rw [wp_bind, wp_rescue]
      unfold rmdirCall
      rw [wp_bind]
      refine wp_attempt (fun hrmdir => ?_) fun _ _ => footprint_self (error_ne _) hpass
      rw [wp_bind]
      refine wp_spot_lstat (fun x hx => ?_) fun _ => footprint_self (error_ne _) hpass
      refine wp_onDisk (fun d hd => ?_) fun _ _ => footprint_self (error_ne _) hpass
      obtain ⟨hdir, -, hrebound⟩ := Disk.rmdir_ok hd
      obtain ⟨stat', hstat'⟩ : ∃ stat', t.machine.disk.tree.entry x = some (.directory stat') := by
        unfold Tree.isDir at hdir
        split at hdir
        · exact ⟨_, ‹_›⟩
        · cases hdir
      refine .removed rfl ok_none_ne hopen (hx _ hstat') (fun p => ?_) (fun hne => ?_) rfl
        ⟨hstat, hrmdir⟩
      · change (t.machine.withDisk d).disk.tree.entry p = _
        rw [Machine.disk_withDisk]
        exact hrebound.entry p
      · refine Machine.same_withDisk ?_
        have hcwd := t.machine.cwd_isDir
        unfold Tree.isDir at hcwd ⊢
        rwa [hrebound.entry, if_neg (Ne.symm hne)]

private theorem parts_join (dir : List Char) (n : Name) :
    parts (dir ++ '/' :: n.chars) = parts dir ++ [.name n] := by
  rw [parts, List.splitOn_append_cons_self, List.splitOn_eq_singleton n.no_slash, List.map_append]
  simp [parts]

/-- `_make_temp` makes one directory under a drawn name, or nothing. -/
theorem wp_makeTemp {dev ino : ℕ} (names : List Name) :
    wp (makeTemp F dev ino names)
      (fun path t => ∃ n p d, s.machine.host.lookup s.machine.tempdir = some p ∧
        s.machine.disk.mkdir (n :: p) ⟨dev, ino, s.machine.euid⟩ = .ok d ∧ t = s.moved d ∧
        path = s.machine.tempdir ++ '/' :: n.chars)
      (fun _ t => t = s) s := by
  induction names with
  | nil => exact rfl
  | cons n names ih =>
      have hagain : ∀ errno, wp (if errno = .exist then makeTemp F dev ino names else throw errno)
          (fun path t => ∃ n p d, s.machine.host.lookup s.machine.tempdir = some p ∧
            s.machine.disk.mkdir (n :: p) ⟨dev, ino, s.machine.euid⟩ = .ok d ∧ t = s.moved d ∧
            path = s.machine.tempdir ++ '/' :: n.chars)
          (fun _ t => t = s) s := by
        intro errno
        split
        · exact ih
        · exact rfl
      unfold makeTemp
      rw [wp_rescue, wp_bind]
      refine wp_attempt (fun _ => ?_) fun fault _ => hagain fault.errno
      rw [wp_bind, wp_get]
      split
      · exact hagain _
      · rename_i p hlookup
        rw [wp_bind]
        refine wp_onDisk (fun d hd => ?_) fun errno _ => hagain errno
        exact ⟨n, p, d, hlookup, hd, rfl, rfl⟩

/-- The new directory is found where it was made. -/
theorem lookup_made {d : Disk Stat} {n : Name} {p : Place} {stat : Stat}
    (hlookup : s.machine.host.lookup s.machine.tempdir = some p)
    (hd : s.machine.disk.mkdir (n :: p) stat = .ok d) :
    Machine.Same s.machine (s.machine.withDisk d) ∧
      (s.machine.withDisk d).host.realpath (s.machine.tempdir ++ '/' :: n.chars) = n :: p ∧
      (s.machine.withDisk d).host.lstat (n :: p) = some (n :: p, .directory stat) := by
  obtain ⟨hfree, hrebound⟩ := Disk.mkdir_ok hd
  have hself : d.tree.entry (n :: p) = some (.directory stat) := by rw [hrebound.entry, if_pos rfl]
  have hkeep : ∀ q, q ≠ n :: p → d.tree.entry q = s.machine.disk.tree.entry q := fun q hq => by
    rw [hrebound.entry, if_neg hq]
  have hne : p ≠ n :: p := fun heq => by simpa using congrArg List.length heq
  have hsame : Machine.Same s.machine (s.machine.withDisk d) :=
    Machine.same_of_agree fun q hq => hkeep q (Tree.ne_of_isDir hq hfree).symm
  have htemp : s.machine.tempdir.head? = some '/' := by
    simpa only [isAbsolute, beq_iff_eq] using s.machine.tempdir_absolute
  have hstart : ∀ cwd, start cwd (s.machine.tempdir ++ '/' :: n.chars) = [] := by
    intro cwd
    rw [start, isAbsolute, List.head?_append, htemp]
    rfl
  have hwalk : s.machine.disk.tree.walk s.machine.maxLinks [] (parts s.machine.tempdir) =
      some p := by
    rw [Host.lookup, start, if_pos s.machine.tempdir_absolute] at hlookup
    exact hlookup
  have hreach := (Tree.reaches_of_walk hwalk).agree (u := d.tree) fun q hq => by
    refine hkeep q ?_
    rintro rfl
    have htop : (s.machine.disk.tree.entry []).isSome = true := by
      obtain ⟨top, htop⟩ := s.machine.disk.tree.top
      rw [htop]
      rfl
    exact hne ((Tree.reaches_of_walk hwalk).eq_of_missing htop hq hfree).symm
  refine ⟨hsame, ?_, ?_⟩
  · have hfound : (s.machine.withDisk d).disk.tree.walk (s.machine.withDisk d).maxLinks
        (start (s.machine.withDisk d).cwd (s.machine.tempdir ++ '/' :: n.chars))
        (parts (s.machine.tempdir ++ '/' :: n.chars)) = some (n :: p) := by
      rw [hstart, parts_join, Machine.disk_withDisk, hsame.maxLinks]
      exact Tree.walk_of_reaches (hreach.snoc hself fun _ h => by cases h)
    exact Tree.realpath_of_walk (settled_start (s.machine.withDisk d).host _) hfound
  · have hdir : (s.machine.withDisk d).disk.tree.isDir p = true := by
      rw [Machine.disk_withDisk]
      exact Tree.isDir_of_entry hself
    have hp : (s.machine.withDisk d).host.lookup (text p) = some p := by
      rw [lookup_host]
      exact Tree.walk_text_settled (Tree.settled_of_isDir hdir)
    have hentry : (s.machine.withDisk d).host.tree.entry (n :: p) = some (.directory stat) := by
      change (s.machine.withDisk d).disk.tree.entry (n :: p) = _
      rw [Machine.disk_withDisk, hself]
    simp only [Host.lstat, hp, Option.bind_eq_bind, Option.bind_some, hentry]
    rfl

private theorem leaves_mkdtemp {dev ino : ℕ} :
    Leaves F s (.mkdtemp dev ino) ((Operation.mkdtemp dev ino).run F) s := by
  unfold Leaves Operation.run LocalFsDriver.mkdtemp
  rw [wp_map, wp_bind, wp_rescue]
  refine wp_mono (wp_makeTemp F.names) ?_ ?_
  swap
  · rintro e t rfl
    exact footprint_self (error_ne _) rfl
  rintro _ t ⟨n, p, d, hlookup, hd, rfl, rfl⟩
  obtain ⟨hsame, hreal, hlstat⟩ := lookup_made hlookup hd
  obtain ⟨hfree, hrebound⟩ := Disk.mkdir_ok hd
  have hentry : ∀ q, (s.moved d).machine.disk.tree.entry q = if q = n :: p then
      some (.directory ⟨dev, ino, s.machine.euid⟩) else s.machine.disk.tree.entry q := fun q => by
    rw [Server.moved, Machine.disk_withDisk]
    exact hrebound.entry q
  have hlost : ∀ e, Footprint F s (.mkdtemp dev ino) (.error e) (s.moved d) := fun e =>
    .quiet (error_ne e) rfl hsame fun x hx => .inl <| by
      by_cases hxn : x = n :: p
      · rw [hxn, hfree]
      · rw [hentry, if_neg hxn] at hx
        exact absurd rfl hx
  rw [wp_bind, wp_rescue]
  refine wp_attempt (fun _ => ?_) fun fault _ => hlost _
  rw [wp_bind, wp_get]
  have hreal' : (s.moved d).machine.host.realpath (s.machine.tempdir ++ '/' :: n.chars) =
    n :: p := hreal
  simp only [hreal']
  have hlstat' : (s.moved d).machine.host.lstat (n :: p) =
    some (n :: p, .directory ⟨dev, ino, s.machine.euid⟩) := hlstat
  simp only [hlstat']
  rw [wp_bind, wp_set]
  exact .made rfl hlookup hfree hentry hsame rfl

/-- Every operation leaves a footprint. -/
theorem footprint_of_outcome {r : Except DriverError (Option Place)} {t : Server}
    (h : outcome (op.run F) s = (r, t)) : Footprint F s op r t := by
  have hleaves : Leaves F s op (op.run F) s := by
    cases op with
    | read path => exact leaves_read
    | stat path => exact leaves_stat
    | write path content => exact leaves_write
    | delete path => exact leaves_delete
    | rename src dst => exact leaves_rename
    | copy src dst => exact leaves_copy
    | mkdtemp dev ino => exact leaves_mkdtemp
  unfold Leaves wp at hleaves
  rw [h] at hleaves
  cases r <;> exact hleaves

end Operations

end Jetty.Filesystem
