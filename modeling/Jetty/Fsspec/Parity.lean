import Jetty.Core.Transition
import Jetty.Fsspec.Rights

/-!
# The fallback and the sidecar

One client works on the local file system and another through a sidecar, call by call the same
methods on the same files. They stay in step as long as each call comes to the same on both sides:
where the sidecar's root is not the topmost directory, paths are normal and get through a URL, no
special file is met, no directory moved, no second name of a file written through, no bits lost in a
copy, and the sidecar has the rights that it takes to replace what the client may write to.
-/

namespace Jetty.Fsspec

open Files Effects Filesystem Transition

/-- Two deployments with the same files. -/
structure Pair where
  /-- Of this one there is only the machine; nothing reads its driver. -/
  here : Server
  there : Server

/-- A call, with what the world does to it: on the local file system, and to its requests. -/
structure Invocation where
  method : Method
  surroundings : Surroundings
  first : Faults
  second : Faults
  /-- What the kernel grants the client, and what it grants the sidecar. -/
  client : Rights
  sidecar : Rights

namespace Pair

variable (strip : String → String)

/-- The method on the local file system. -/
def local_ (w : Pair) (e : Invocation) : Except Raised Value × Server :=
  outcome (e.method.fallback strip e.surroundings) w.here

/-- The method through the sidecar. -/
def remote (w : Pair) (e : Invocation) : Except Raised Value × Server :=
  outcome (e.method.remote strip e.first e.second) w.there

def next (w : Pair) (e : Invocation) : Pair := ⟨(w.local_ strip e).2, (w.remote strip e).2⟩

/-- Every sequence of calls. -/
abbrev Steps : Transition.Rel Pair Invocation := ofPartial fun w e => some (w.next strip e)

/-- The same names, with the same contents and bits. -/
def SameFiles (w : Pair) : Prop := w.here.machine.disk.view = w.there.machine.disk.view

/-- What succeeds on the local file system does so through the sidecar, with the same value, and
the files are the same afterwards. -/
def Agrees (w : Pair) (e : Invocation) : Prop :=
  w.SameFiles ∧ ∀ r, (w.local_ strip e).1 = .ok r →
    (w.remote strip e).1 = .ok r ∧ (w.next strip e).SameFiles

/-- Two machines with the same files, which make modes by the same rules, and no links. -/
structure Alike (w : Pair) : Prop where
  files : w.SameFiles
  modes : w.here.machine.modes = w.there.machine.modes
  plain : w.here.machine.disk.tree.Plain

/-- The calls that are promised to come to the same: absolute paths inside the root, and no system
call that fails without a reason on the disk or in the rights of its process. -/
structure Covered (w : Pair) (e : Invocation) : Prop where
  local_ : Governed e.surroundings.faults
    (e.method.refusedHere strip e.client w.here.machine.disk.view)
  first : Governed e.first (e.method.refusedThere strip e.sidecar w.there.machine.disk.view)
  second : Governed e.second (e.method.refusedUpload strip e.sidecar)
  absolute : ∀ path ∈ e.method.paths strip, isAbsolute path.toList = true
  inside : ∀ path ∈ e.method.paths strip,
    w.there.machine.host.realpath w.there.driver.root.toList <:+
      w.there.machine.host.realpath path.toList
  /-- Some name that is drawn for a temporary file is free. -/
  drawn : ∀ path ∈ e.method.paths strip, ∀ F ∈ [e.first, e.second],
    w.there.machine.disk.tree.isDir (w.there.machine.host.realpath path.toList).tail = true →
      ∃ k ∈ F.names, w.there.machine.disk.tree.entry
        (k :: (w.there.machine.host.realpath path.toList).tail) = none

/-- The calls that do come to the same. -/
structure Fair (w : Pair) (e : Invocation) : Prop extends Covered strip w e where
  root : w.there.machine.host.realpath w.there.driver.root.toList ≠ []
  checked : ∀ path ∈ e.method.paths strip, (checkPath path).isOk = true
  lines : ∀ path ∈ e.method.urls strip, '\n' ∉ path.toList
  method : e.method.Fair strip w.here
  /-- The sidecar is granted what it needs where the client is. -/
  granted : e.method.Lands strip w.here.machine.disk.view →
    e.method.grantedHere strip e.client w.here.machine.disk.view =
      e.method.grantedThere strip e.sidecar w.here.machine.disk.view

end Pair

/-! ### One call -/

section Step

variable {strip : String → String} {w : Pair} {e : Invocation}

private theorem Pair.Alike.shows (h : w.Alike) :
    Shows w.here.machine.modes w.here.machine.disk.view w.there :=
  ⟨h.files.symm, h.modes.symm⟩

/-- What the sidecar needs of a path. -/
theorem Pair.Fair.ready (hfair : w.Fair strip e) (h : w.Alike) {path : String}
    (hmem : path ∈ e.method.paths strip) :
    ∃ n dir, Ready e.first e.second w.here.machine.disk.view w.there path (n :: dir) := by
  have hchecked := hfair.checked path hmem
  have hshows := h.shows
  have hplain := Disk.view_plain.mpr h.plain
  obtain ⟨n, dir, hpath⟩ := exists_text_of_checkPath hchecked
  have hreal : w.there.machine.host.realpath path.toList = n :: dir := by
    rw [Host.realpath, hpath, start, if_pos (isAbsolute_text _)]
    exact (hshows.plain hplain).realpath_text _
  have hinside := hfair.inside path hmem
  have hdrawn := hfair.drawn path hmem
  rw [hreal] at hinside hdrawn
  have hnames : ∀ F ∈ [e.first, e.second],
      w.here.machine.disk.view.isDir dir = true →
        ∃ k ∈ F.names, w.here.machine.disk.view.object (k :: dir) = none := by
    intro F hF hdir
    obtain ⟨k, hk, hnone⟩ := hdrawn F hF ((hshows.isDir dir).trans hdir)
    exact ⟨k, hk, hshows.entry_none.mp hnone⟩
  exact ⟨n, dir, hchecked, ⟨hpath, hfair.root, hinside⟩, hnames _ List.mem_cons_self,
    hnames _ (List.mem_cons_of_mem _ List.mem_cons_self)⟩

/-- A call comes to the same on both sides. -/
theorem Pair.Fair.step (hstrip : ∀ path, isAbsolute (strip path).toList = true →
      strip (strip path) = strip path) (hfair : w.Fair strip e) (h : w.Alike) :
    w.Agrees strip e ∧ (w.next strip e).Alike := by
  have hplain := Disk.view_plain.mpr h.plain
  have hhere : Shows w.here.machine.modes w.here.machine.disk.view w.here := ⟨rfl, rfl⟩
  have hfirst := hfair.first
  rw [← h.files] at hfirst
  have hlocal := fallback_does_granted hfair.local_ hhere hplain (fun path hmem => by
    obtain ⟨n, dir, hready⟩ := hfair.ready h hmem
    exact ⟨n, dir, hready.inside.path⟩) hfair.method
  have hremote := remote_does_granted hstrip hfirst hfair.second h.shows hplain
    (fun path hmem => hfair.ready h hmem) hfair.lines (fun path1 path2 hmv => by
      have hmethod := hfair.method
      rw [hmv] at hmethod
      exact hmethod.2.1)
  -- What is done at all is granted to both or to neither.
  have hgranted : ∀ {r : Value} {v : View Stat},
      e.method.meaning strip w.here.machine.modes w.here.machine.disk.view = some (r, v) →
        e.method.grantedHere strip e.client w.here.machine.disk.view =
          e.method.grantedThere strip e.sidecar w.here.machine.disk.view := by
    intro r v hmeaning
    refine hfair.granted ?_
    by_contra hlands
    rw [meaning_eq_none hlands] at hmeaning
    cases hmeaning
  have hdone : ∀ {v : View Stat} {s t : Server}, v.Plain → Shows w.here.machine.modes v s →
      Shows w.here.machine.modes v t → Pair.Alike ⟨s, t⟩ := by
    intro v s t hv hs ht
    exact ⟨hs.view.trans ht.view.symm, hs.modes.trans ht.modes.symm, hs.plain hv⟩
  unfold Pair.Agrees Pair.next Pair.local_ Pair.remote
  unfold wp at hlocal
  unfold wp at hremote
  rcases hl : outcome (e.method.fallback strip e.surroundings) w.here with ⟨_ | r, t⟩ <;>
    rw [hl] at hlocal <;>
    rcases hr : outcome (e.method.remote strip e.first e.second) w.there with ⟨_ | r', u⟩ <;>
    rw [hr] at hremote
  · exact ⟨⟨h.files, nofun⟩, hdone hplain hlocal.1 hremote.1⟩
  · -- The local file system has raised where the answer was there and nothing was to be done.
    obtain ⟨hthere, v, hmeaning, hv⟩ := hremote
    obtain rfl := hlocal.2 ((hgranted hmeaning).trans hthere) _ _ hmeaning
    exact ⟨⟨h.files, nofun⟩, hdone hplain hlocal.1 hv⟩
  · obtain ⟨hclient, v, hmeaning, -⟩ := hlocal
    rw [hremote.2 ((hgranted hmeaning).symm.trans hclient)] at hmeaning
    cases hmeaning
  · obtain ⟨-, v, hmeaning, hv⟩ := hlocal
    obtain ⟨-, v', hmeaning', hv'⟩ := hremote
    obtain ⟨rfl, rfl⟩ := Prod.mk.inj (Option.some.inj (hmeaning.symm.trans hmeaning'))
    have halike := hdone (plain_of_meaning hmeaning hplain) hv hv'
    refine ⟨⟨h.files, fun r'' hok => ?_⟩, halike⟩
    obtain rfl := Except.ok.inj hok
    exact ⟨rfl, halike.files⟩

end Step

/-! ### Sequences of calls -/

/-- The same machine twice, with the file `/srv/a` of the mode `0o4755`. -/
def setuidPair : Pair := ⟨setuidServer, setuidServer⟩

/-- All is granted. -/
def master : Rights := ⟨fun _ => true, fun _ => true, fun _ => true, fun _ => true⟩

/-- A call of which nothing is disturbed. -/
def undisturbed (m : Method) : Invocation :=
  ⟨m, ⟨smooth [], .ok []⟩, smooth [drawn], smooth [drawn], master, master⟩

private theorem granted_master (strip : String → String) (v : View Stat) (m : Method) :
    m.grantedHere strip master v = true ∧ m.grantedThere strip master v = true := by
  have hreads : ∀ p, master.reads v p = true := fun p => Bool.or_true _
  have hstores : ∀ p, master.stores v p = true := fun p => ite_self _
  have hmakes : ∀ p, master.makes v p = true := fun p => Bool.or_true _
  have halters : ∀ p, master.alters p = true := fun p => rfl
  have hsearch : ∀ p, master.search p = true := fun p => rfl
  cases m with
  | open_ path mode body =>
      cases mode <;>
        simp [Method.grantedHere, Method.grantedThere, hreads, hstores, hmakes, halters]
  | _ => simp [Method.grantedHere, Method.grantedThere, hreads, hstores, halters, hsearch]

private theorem governed_smooth {names : List Name} {refused : Call → Bool}
    (hnone : ∀ c, refused c = false) : Governed (smooth names) refused := by
  intro c
  rw [hnone c]
  rfl

/-- A call with one path. -/
theorem covered_undisturbed {w : Pair} {m : Method} {path : String} (hpaths : m.paths id = [path])
    (habsolute : isAbsolute path.toList = true)
    (hinside : w.there.machine.host.realpath w.there.driver.root.toList <:+
      w.there.machine.host.realpath path.toList)
    (hfree : w.there.machine.disk.tree.entry
      (drawn :: (w.there.machine.host.realpath path.toList).tail) = none) :
    w.Covered id (undisturbed m) where
  local_ := governed_smooth (refusedHere_eq_false (granted_master _ _ _).1)
  first := governed_smooth (refusedThere_eq_false (granted_master _ _ _).2)
  second := governed_smooth (refusedUpload_eq_false (v := w.there.machine.disk.view)
    (granted_master _ _ _).2)
  absolute q hq := by
    rw [undisturbed, hpaths] at hq
    rw [List.mem_singleton.mp hq]
    exact habsolute
  inside q hq := by
    rw [undisturbed, hpaths] at hq
    rw [List.mem_singleton.mp hq]
    exact hinside
  drawn q hq F hF _ := by
    rw [undisturbed, hpaths] at hq
    rw [List.mem_singleton.mp hq]
    refine ⟨drawn, ?_, hfree⟩
    rcases List.mem_cons.mp hF with rfl | hF
    · exact List.mem_cons_self
    · rw [List.mem_singleton.mp hF]
      exact List.mem_cons_self

private theorem alike_setuidPair : setuidPair.Alike where
  files := rfl
  modes := rfl
  plain := Tree.plain_ofEntries (by decide) (by simp)

end Jetty.Fsspec
