import Jetty.Modules.Filesystem.Driver

/-!
# Containment

What the driver's door lets through, against where the kernel goes with it. They agree unless a
resolution stops at a missing name or a looping link and its rest climbs back out, or the root
is the topmost directory.
-/

namespace Jetty.Filesystem

open Files

variable {host : Host} {drv : LocalFsDriver} {path : String}

/-- The recorded directory is alive, and it is the one at `loc`. -/
def LiveScratch (host : Host) (drv : LocalFsDriver) (dir loc : Place) : Prop :=
  ∃ st, host.lstat dir = some (loc, .directory st) ∧ st.uid = host.euid ∧
    drv.scratch.lookup dir = some (st.dev, st.ino)

/-- The place lies under the resolved root or under a live scratch directory. -/
def InAuthority (host : Host) (drv : LocalFsDriver) (p : Place) : Prop :=
  host.realpath drv.root.toList <:+ p ∨ ∃ dir loc, LiveScratch host drv dir loc ∧ loc <:+ p

/-- If the path is admitted, the kernel gets into the authority with what is returned. -/
def Contained (host : Host) (drv : LocalFsDriver) (path : String) : Prop :=
  ∀ full, (drv.resolve host path).2 = .ok full → ∀ p, host.lookup (text full) = some p →
    InAuthority host drv p

/-- If the kernel gets under the root with the path, the path is admitted. -/
def Served (host : Host) (drv : LocalFsDriver) (path : String) : Prop :=
  ∀ p, host.lookup path.toList = some p → host.realpath drv.root.toList <:+ p →
    ∃ full, (drv.resolve host path).2 = .ok full

/-- The scratch directory above the place that is recorded last is alive. -/
def InScratch (host : Host) (drv : LocalFsDriver) (p : Place) : Prop :=
  ∃ dir loc, drv.scratchAncestor p = some dir ∧ LiveScratch host drv dir loc

/-- The place passes for one in the authority: under a root that is not the topmost directory,
the root itself, or in a scratch directory. -/
def Passes (host : Host) (drv : LocalFsDriver) (p : Place) : Prop :=
  (p = host.realpath drv.root.toList ∨
    host.realpath drv.root.toList ≠ [] ∧ host.realpath drv.root.toList <:+ p) ∨ InScratch host drv p

/-- A path whose rest climbs back over a missing name or a looping link to a place that passes
is not led out of the authority by the links on the way down from there. -/
def NoDoor (host : Host) (drv : LocalFsDriver) (path : String) : Prop :=
  ∀ base below, host.tree.Detour (start host.cwd path.toList) path.toList base below →
    Passes host drv (below ++ base) →
      ∀ p, host.tree.walk host.maxLinks base (below.reverse.map .name) = some p →
        InAuthority host drv p

/-- If the root is the topmost directory, the path leads there or into a scratch directory. -/
def RootServed (host : Host) (drv : LocalFsDriver) (path : String) : Prop :=
  host.realpath drv.root.toList = [] → ∀ p, host.lookup path.toList = some p →
    p = [] ∨ InScratch host drv p

private theorem scratchAlive_eq_true {dir : Place} :
    (drv.scratchAlive host dir).2 = true ↔ ∃ loc, LiveScratch host drv dir loc := by
  unfold LocalFsDriver.scratchAlive LiveScratch
  split
  · rename_i loc st hlstat
    split
    · rename_i halive
      exact iff_of_true rfl ⟨loc, st, hlstat, halive⟩
    · rename_i hdead
      refine iff_of_false (by simp) ?_
      rintro ⟨loc', st', hlstat', halive⟩
      rw [hlstat] at hlstat'
      cases hlstat'
      exact hdead halive
  · rename_i hnone
    refine iff_of_false (by simp) ?_
    rintro ⟨loc, st, hlstat, -⟩
    exact hnone loc st hlstat

/-- What the door lets through. -/
theorem resolve_eq_ok {full : Place} : (drv.resolve host path).2 = .ok full ↔
    full = host.realpath path.toList ∧ Passes host drv full := by
  have hbelow := @text_below (host.realpath drv.root.toList) (host.realpath path.toList)
  unfold LocalFsDriver.resolve
  simp only
  split
  · rename_i htext
    constructor
    · intro h
      obtain rfl := Except.ok.inj h
      exact ⟨rfl, .inl (hbelow.mp htext)⟩
    · rintro ⟨rfl, -⟩
      rfl
  · rename_i htext
    cases hancestor : drv.scratchAncestor (host.realpath path.toList) with
    | none =>
        refine iff_of_false (by simp) ?_
        rintro ⟨rfl, hroot | ⟨dir, loc, hdir, -⟩⟩
        · exact htext (hbelow.mpr hroot)
        · rw [hancestor] at hdir
          cases hdir
    | some dir =>
        simp only
        split
        · rename_i halive
          obtain ⟨loc, hlive⟩ := scratchAlive_eq_true.mp halive
          constructor
          · intro h
            obtain rfl := Except.ok.inj h
            exact ⟨rfl, .inr ⟨dir, loc, hancestor, hlive⟩⟩
          · rintro ⟨rfl, -⟩
            rfl
        · rename_i hdead
          refine iff_of_false (by simp) ?_
          rintro ⟨rfl, hroot | ⟨dir', loc, hdir, hlive⟩⟩
          · exact htext (hbelow.mpr hroot)
          · rw [hancestor] at hdir
            obtain rfl := Option.some.inj hdir
            exact hdead (scratchAlive_eq_true.mpr ⟨loc, hlive⟩)

section Places

/-- The working directory is settled. -/
theorem settled_start (host : Host) (path : List Char) :
    host.tree.Settled (start host.cwd path) :=
  (Tree.settled_of_isDir host.cwd_isDir).start path

/-- A scratch directory found for a path is above it. -/
theorem scratchAncestor_suffix {p dir : Place} (h : drv.scratchAncestor p = some dir) :
    dir <:+ p := by
  induction p with
  | nil =>
      unfold LocalFsDriver.scratchAncestor at h
      split at h
      · obtain rfl := Option.some.inj h
        exact List.suffix_refl []
      · cases h
  | cons n p ih =>
      unfold LocalFsDriver.scratchAncestor at h
      split at h
      · obtain rfl := Option.some.inj h
        exact List.suffix_refl _
      · exact (ih h).trans (List.suffix_cons n p)

/-- An absolute path is walked from the root, whatever the working directory. -/
theorem lookup_text (host : Host) (p : Place) :
    host.lookup (text p) = host.tree.walk host.maxLinks [] (parts (text p)) := by
  rw [Host.lookup, start, if_pos (isAbsolute_text p)]

private theorem lstat_of_settled {p loc : Place} {e : Entry Stat} (hp : host.tree.Settled p)
    (h : host.lstat p = some (loc, e)) : loc = p := by
  cases p with
  | nil =>
      obtain ⟨e', -, heq⟩ := Option.map_eq_some_iff.mp h
      exact (congrArg Prod.fst heq).symm
  | cons n dir =>
      have hdir : host.lookup (text dir) = some dir := by
        rw [lookup_text]
        exact Tree.walk_text_settled hp.tail
      simp only [Host.lstat, hdir, Option.bind_eq_bind, Option.bind_some] at h
      obtain ⟨e', -, heq⟩ := Option.bind_eq_some_iff.mp h
      exact (congrArg Prod.fst (Option.some.inj heq)).symm

/-- On the way to where a walk lands, a live scratch directory is where its name says. -/
theorem loc_of_lands {p dir loc : Place} (hp : host.tree.Lands p) (hdir : dir <:+ p)
    (hlive : LiveScratch host drv dir loc) : loc = dir := by
  obtain ⟨st, hlstat, -⟩ := hlive
  rcases hp with hp | ⟨n, q, rfl, hq, hnone⟩
  · exact lstat_of_settled (hp.suffix hdir) hlstat
  · have hsettled := Tree.settled_of_isDir hq
    rcases List.suffix_cons_iff.mp hdir with rfl | hdir
    · have hq' : host.lookup (text q) = some q := by
        rw [lookup_text]
        exact Tree.walk_text_settled hsettled
      simp only [Host.lstat, hq', Option.bind_eq_bind, Option.bind_some, hnone,
        Option.bind_none] at hlstat
      cases hlstat
    · exact lstat_of_settled (hsettled.suffix hdir) hlstat

end Places

section Directions

private theorem contained_of_noDoor (h : NoDoor host drv path) : Contained host drv path := by
  intro full hfull p hp
  obtain ⟨rfl, hpasses⟩ := resolve_eq_ok.mp hfull
  have hstart := settled_start host path.toList
  rw [lookup_text] at hp
  by_cases hdetour : ∃ base below,
      host.tree.Detour (start host.cwd path.toList) path.toList base below
  · obtain ⟨base, below, hdetour⟩ := hdetour
    have hwalk := hdetour.walk (k := host.maxLinks) hstart
    rw [Host.realpath, hwalk] at hp
    refine h base below hdetour ?_ p hp
    rw [← hdetour.realpath]
    exact hpasses
  · have hno : ∀ base below,
        ¬ host.tree.Detour (start host.cwd path.toList) path.toList base below :=
      fun base below hd => hdetour ⟨base, below, hd⟩
    have hlands := Tree.walk_lands Tree.settled_top _ _ hp
    obtain rfl := Tree.eq_realpath_of_walk_text hstart hno hp
    rcases hpasses with (heq | ⟨-, hsuffix⟩) | ⟨dir, loc, hdir, hlive⟩
    · exact .inl (heq ▸ List.suffix_refl _)
    · exact .inl hsuffix
    · have hsuffix := scratchAncestor_suffix hdir
      obtain rfl := loc_of_lands hlands hsuffix hlive
      exact .inr ⟨loc, loc, hlive, hsuffix⟩

private theorem noDoor_of_contained (h : Contained host drv path) : NoDoor host drv path := by
  intro base below hdetour hpasses p hp
  have hstart := settled_start host path.toList
  have hfull : host.realpath path.toList = below ++ base := hdetour.realpath
  refine h (below ++ base) (resolve_eq_ok.mpr ⟨hfull.symm, hpasses⟩) p ?_
  have hwalk := hdetour.walk (k := host.maxLinks) hstart
  rw [hdetour.realpath] at hwalk
  rw [lookup_text, hwalk]
  exact hp

private theorem served_iff : Served host drv path ↔ RootServed host drv path := by
  constructor
  · intro h hroot p hp
    have hfull : host.realpath path.toList = p := Tree.realpath_of_walk (settled_start host _) hp
    obtain ⟨full, hok⟩ := h p hp (hroot ▸ List.nil_suffix)
    obtain ⟨rfl, hpasses⟩ := resolve_eq_ok.mp hok
    rw [Passes, hroot, hfull] at hpasses
    rcases hpasses with (heq | ⟨hne, -⟩) | hscratch
    · exact .inl heq
    · exact absurd rfl hne
    · exact .inr hscratch
  · intro h p hp hsuffix
    have hfull : host.realpath path.toList = p := Tree.realpath_of_walk (settled_start host _) hp
    refine ⟨p, resolve_eq_ok.mpr ⟨hfull.symm, ?_⟩⟩
    by_cases hroot : host.realpath drv.root.toList = []
    · rcases h hroot p hp with rfl | hscratch
      · exact .inl (.inl hroot.symm)
      · exact .inr hscratch
    · exact .inl (.inr ⟨hroot, hsuffix⟩)

end Directions

/-- The door keeps a path in and serves it exactly if there is no way out behind a missing name
or a looping link, and the root is not the topmost directory or does not matter. -/
theorem contained_and_served_iff (host : Host) (drv : LocalFsDriver) (path : String) :
    Contained host drv path ∧ Served host drv path ↔
      NoDoor host drv path ∧ RootServed host drv path :=
  and_congr ⟨noDoor_of_contained, contained_of_noDoor⟩ served_iff

private def letter (c : Char) (h : [c] ≠ ['.'] ∧ '/' ∉ [c] := by decide) : Name :=
  ⟨[c], List.cons_ne_nil c [], h.2, h.1, by simp⟩

/-- `/r` with two links, `/r/a` to `a/../e` and `/r/e` to the file `/s` next to it. -/
def loopHost : Host where
  tree := .ofEntries ⟨0, 0, 0⟩ [([letter 'r'], .directory ⟨0, 1, 0⟩),
    ([letter 'a', letter 'r'], .link "a/../e".toList),
    ([letter 'e', letter 'r'], .link "/s".toList), ([letter 's'], .regular)] (by decide)
  cwd := []
  cwd_isDir := rfl
  euid := 0
  maxLinks := 40

/-- A looping link opens the way to a file outside of the root, and the root `/` serves
nothing. -/
theorem not_contained_and_not_served :
    (¬ ∀ host drv path, checkPath path = .ok path → Contained host drv path) ∧
      ¬ ∀ host drv path, checkPath path = .ok path → Served host drv path := by
  constructor
  · intro h
    have hcontained := h loopHost ⟨"/r", []⟩ "/r/a" (by decide +kernel)
    have hauthority := hcontained [letter 'e', letter 'r'] (by decide +kernel) [letter 's']
      (by decide +kernel)
    rcases hauthority with hroot | ⟨dir, loc, ⟨st, -, -, hrecord⟩, -⟩
    · revert hroot
      decide +kernel
    · cases hrecord
  · intro h
    have hserved := h loopHost ⟨"/", []⟩ "/s" (by decide +kernel)
    obtain ⟨full, hfull⟩ := hserved [letter 's'] (by decide +kernel) (by decide +kernel)
    have herror : (LocalFsDriver.resolve ⟨"/", []⟩ loopHost "/s").2 = .error ⟨"/s"⟩ := by
      decide +kernel
    rw [herror] at hfull
    cases hfull

end Jetty.Filesystem
