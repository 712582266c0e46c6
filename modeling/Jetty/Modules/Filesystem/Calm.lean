import Jetty.Core.Files.Views
import Jetty.Modules.Filesystem.Replace

/-!
# Calm operations

What the driver's operations do on a tree without links when no call fails that could have been
done, told by what the disk shows.
-/

namespace Jetty.Filesystem

open Files Effects

/-- No call fails that could have been done. -/
def Faults.Calm (F : Faults) : Prop := ∀ c, F.fails c = none

/-- The disk shows the view, and modes are kept by the rules. -/
structure Shows (rules : ModeRules) (v : View Stat) (s : Server) : Prop where
  view : s.machine.disk.view = v
  modes : s.machine.modes = rules

section Calm

variable {F : Faults} {s t : Server} {rules : ModeRules} {v : View Stat} {n : Name} {dir : Place}
  {c : Call}

/-- On a calm machine no call fails by itself. -/
theorem attempt_calm (h : F.Calm) : attempt F c = pure () := by
  unfold attempt
  rw [h c]

@[simp] theorem Machine.modes_withDisk (m : Machine) (d : Disk Stat) :
    (m.withDisk d).modes = m.modes := by
  unfold Machine.withDisk
  split <;> rfl

/-- A change of the disk shows the view it leads to. -/
theorem Shows.moved (h : Shows rules v s) {d : Disk Stat} {w : View Stat} (hd : d.view = w) :
    Shows rules w (s.moved d) := by
  refine ⟨?_, ?_⟩
  · rw [Server.moved, Machine.disk_withDisk, hd]
  · rw [Server.moved, Machine.modes_withDisk, h.modes]

/-- A disk that shows a plain view is plain. -/
theorem Shows.plain (h : Shows rules v s) (hplain : v.Plain) : s.machine.disk.tree.Plain := by
  rw [← Disk.view_plain, h.view]
  exact hplain

/-- The disk has the directories of its view. -/
theorem Shows.isDir (h : Shows rules v s) (p : Place) :
    s.machine.disk.tree.isDir p = v.isDir p := by
  rw [← h.view, Disk.view_isDir]

/-- On a plain disk a path leads to the name in its directory, if that is one. -/
theorem Shows.lookup (h : Shows rules v s) (hplain : v.Plain) (n : Name) (dir : Place) :
    s.machine.host.lookup (text (n :: dir)) =
      if v.isDir dir = true then some (n :: dir) else none := by
  rw [lookup_host, (h.plain hplain).walk_text, h.isDir]

/-- The path of a directory leads to it. -/
theorem Shows.lookup_directory (h : Shows rules v s) (hdir : v.isDir dir = true) :
    s.machine.host.lookup (text dir) = some dir := by
  rw [lookup_host]
  exact Tree.walk_text_settled (Tree.settled_of_isDir ((h.isDir dir).trans hdir))

/-- What a walk ends at is where the path says. -/
theorem Shows.eq_of_lookup (h : Shows rules v s) (hplain : v.Plain) {p q : Place}
    (hq : s.machine.host.lookup (text p) = some q) : q = p := by
  cases p with
  | nil =>
      rw [h.lookup_directory (by rw [← h.isDir]; exact Tree.isDir_top)] at hq
      exact (Option.some.inj hq).symm
  | cons n dir =>
      rw [h.lookup hplain] at hq
      split at hq
      · exact (Option.some.inj hq).symm
      · cases hq

/-- The disk has nothing where its view has nothing. -/
theorem Shows.entry_none (h : Shows rules v s) {p : Place} :
    s.machine.disk.tree.entry p = none ↔ v.object p = none := by
  rw [← h.view, Disk.view_none]

/-- Nothing is in what is no directory. -/
theorem Shows.object_of_not_isDir (h : Shows rules v s) (hdir : ¬ v.isDir dir = true) :
    v.object (n :: dir) = none := by
  rw [← h.entry_none]
  refine Disk.leaf_of_isDir_eq_false ?_ n
  rw [h.isDir]
  exact Bool.not_eq_true _ ▸ hdir

/-- Why nothing is found in the directory. -/
structure Missing (v : View Stat) (dir : Place) (errno : Errno) : Prop where
  noent : v.isDir dir = true → errno = .noent
  either : errno = .noent ∨ errno = .notdir

/-- The view has what an entry of the disk shows. -/
theorem Shows.object_of_entry (h : Shows rules v s) {p : Place} {e : Entry Stat}
    (he : s.machine.disk.tree.entry p = some e) :
    v.object p = some (e.shows (s.machine.disk.inode (s.machine.disk.node p))) := by
  rw [← h.view, Disk.view_object, he, Option.map_some]

/-- What is there is found. -/
theorem wp_find_plain (h : Shows rules v s) (hplain : v.Plain)
    {Q : Place × Entry Stat → Server → Prop} {E : Errno → Server → Prop}
    (hQ : ∀ e, s.machine.disk.tree.entry (n :: dir) = some e → Q (n :: dir, e) s)
    (hE : v.object (n :: dir) = none → ∀ errno, Missing v dir errno → E errno s) :
    wp (find (n :: dir)) Q E s := by
  refine wp_find (fun p e hp he => ?_) (fun hnone => ?_) fun p hp hmissing => ?_
  · obtain rfl := h.eq_of_lookup hplain hp
    exact hQ e he
  · rw [h.lookup hplain] at hnone
    split at hnone
    · cases hnone
    · rename_i hdir
      refine hE (h.object_of_not_isDir hdir) _ ⟨fun hdir' => absurd hdir' hdir, ?_⟩
      exact (h.plain hplain).blame _ _ _
  · obtain rfl := h.eq_of_lookup hplain hp
    exact hE (h.entry_none.mp hmissing) _ ⟨fun _ => rfl, .inl rfl⟩

/-! ### A file is looked at -/

/-- Nothing is written under the name. -/
def Refuses (v : View Stat) (p : Place) : Prop :=
  ∀ content fresh kept, v.write p content fresh kept = none

/-- Nothing is written into what is no directory. -/
theorem Shows.refuses (h : Shows rules v s) (hdir : ¬ v.isDir dir = true) :
    Refuses v (n :: dir) := by
  intro content fresh kept
  rw [View.write, h.object_of_not_isDir hdir]
  exact if_neg hdir

/-- `_stat_regular` finds a file or nothing, and refuses where nothing could be written. -/
theorem wp_statRegular_plain (hcalm : F.Calm) (h : Shows rules v s) (hplain : v.Plain)
    {path : String} :
    wp (LocalFsDriver.statRegular F c (n :: dir) path)
      (fun st t => t = s ∧ ((∃ f, v.object (n :: dir) = some (.file f) ∧ st = some f.mode) ∨
        v.object (n :: dir) = none ∧ st = none))
      (fun _ t => t = s ∧ Refuses v (n :: dir)) s := by
  unfold LocalFsDriver.statRegular
  rw [wp_bind, wp_rescue, wp_map]
  unfold stat
  rw [attempt_calm hcalm, pure_bind]
  refine wp_find_plain h hplain (fun e he => ?_) fun hnone errno herrno => ?_
  · have hobject := h.object_of_entry he
    cases e with
    | directory st =>
        refine ⟨rfl, fun content fresh kept => ?_⟩
        rw [View.write, hobject]
        rfl
    | regular => exact ⟨rfl, .inl ⟨_, hobject, rfl⟩⟩
    | special =>
        refine ⟨rfl, fun content fresh kept => ?_⟩
        rw [View.write, hobject]
        rfl
    | link target => exact absurd hobject (hplain _ target)
  · split
    · exact ⟨rfl, .inr ⟨hnone, rfl⟩⟩
    · rename_i hne
      refine ⟨rfl, fun content fresh kept => ?_⟩
      rw [View.write, hnone]
      exact if_neg fun hdir => hne (herrno.noent hdir)

/-- The file that a name stands for. -/
def fileAt (v : View Stat) (p : Place) : Option Regular :=
  match v.object p with
  | some (.file f) => some f
  | _ => none

/-- A file is at a path exactly if the view has it there. -/
theorem fileAt_eq_some {p : Place} {f : Regular} :
    fileAt v p = some f ↔ v.object p = some (.file f) := by
  unfold fileAt
  split
  · rename_i g hg
    rw [hg, Option.some.injEq, Option.some.injEq, Object.file.injEq]
  · rename_i hnot
    exact ⟨nofun, fun h => absurd h (hnot f)⟩

/-- No file is where nothing could be written. -/
theorem fileAt_of_refuses {p : Place} (h : Refuses v p) : fileAt v p = none := by
  cases hfile : fileAt v p with
  | none => rfl
  | some f =>
      have hnone := h [] 0 id
      rw [View.write, fileAt_eq_some.mp hfile] at hnone
      cases hnone

/-- `_require` returns the mode of the file, or finds none. -/
theorem wp_require_plain (hcalm : F.Calm) (h : Shows rules v s) (hplain : v.Plain)
    {path : String} :
    wp (LocalFsDriver.require F c (n :: dir) path)
      (fun mode t => t = s ∧ ∃ f, fileAt v (n :: dir) = some f ∧ mode = f.mode)
      (fun e t => t = s ∧ fileAt v (n :: dir) = none ∧
        (e = .fileMissing path ∨ Refuses v (n :: dir))) s := by
  unfold LocalFsDriver.require
  rw [wp_bind]
  refine wp_mono (wp_statRegular_plain hcalm h hplain) ?_ fun _ _ he =>
    ⟨he.1, fileAt_of_refuses he.2, .inr he.2⟩
  rintro st t ⟨rfl, ⟨f, hobject, rfl⟩ | ⟨hobject, rfl⟩⟩
  · exact ⟨rfl, f, fileAt_eq_some.mpr hobject, rfl⟩
  · refine ⟨rfl, ?_, .inl rfl⟩
    unfold fileAt
    rw [hobject]

/-- A file of the view is a regular file of the disk, with its content and mode. -/
theorem Shows.inode (h : Shows rules v s) {p : Place} {f : Regular} (hfile : fileAt v p = some f) :
    s.machine.disk.tree.entry p = some .regular ∧
      s.machine.disk.inode (s.machine.disk.node p) = f := by
  rw [← Disk.view_file, h.view]
  exact fileAt_eq_some.mp hfile

/-- The content that is read is the file's. -/
theorem wp_contents_plain (hcalm : F.Calm) (h : Shows rules v s) (hplain : v.Plain) {f : Regular}
    (hfile : fileAt v (n :: dir) = some f) {Q : List UInt8 → Server → Prop}
    {E : Errno → Server → Prop} (hQ : Q f.content s) :
    wp (LocalFsDriver.contents F (n :: dir)) Q E s := by
  obtain ⟨hentry, hinode⟩ := h.inode hfile
  unfold LocalFsDriver.contents
  rw [attempt_calm hcalm, attempt_calm hcalm, pure_bind, wp_bind]
  refine wp_find_plain h hplain (fun e _ => ?_) fun hnone => ?_
  · dsimp only
    rw [pure_bind, wp_bind, wp_get, wp_pure, hinode]
    exact hQ
  · rw [← h.entry_none, hentry] at hnone
    cases hnone

/-! ### A file is replaced -/

private theorem Working.view {m m' : Machine} {x : Place} {f : Regular} (h : Working m x f m') :
    m'.disk.view = m.disk.view.store x f := by
  have hother : ∀ r, r ≠ x → m'.disk.node r = m.disk.node r := fun r hr => by
    rw [h.node, Function.update_of_ne hr]
  have hold : ∀ r, m.disk.tree.entry r = some .regular → m.disk.node r ≠ m.disk.next :=
    fun r hr => Nat.ne_of_lt (m.disk.node_lt r hr)
  have hnew : m'.disk.node x = m.disk.next := by rw [h.node, Function.update_self]
  refine Disk.view_eq_store ⟨fun r hr hregular => ?_, fun a b ha hb _ _ => ?_⟩ h.entry ?_
    fun r hr hregular => ?_
  · rw [hother r hr, h.inode, Function.update_of_ne (hold r hregular)]
  · rw [hother a ha, hother b hb]
  · rw [hnew, h.inode, Function.update_self]
  · rw [hother r hr, hnew]
    exact hold r hregular

/-- The disk with a temporary file shows the view with it. -/
theorem Busy.shows {P : Regular → Prop} {x : Place} (h : Busy s x P t) (hs : Shows rules v s) :
    ∃ f, P f ∧ Shows rules (v.store x f) t := by
  obtain ⟨f, hworking, hf⟩ := h.file
  exact ⟨f, hf, by rw [hworking.view, hs.view], hworking.same.modes.trans hs.modes⟩

/-- A free name is drawn some time. -/
theorem wp_openTemp_plain (hcalm : F.Calm) (h : Shows rules v s) (hdir : v.isDir dir = true)
    {mode : ℕ} {names : List Name} (hfree : ∃ k ∈ names, v.object (k :: dir) = none) :
    wp (openTemp F dir mode names) (fun _ _ => True) (fun _ _ => False) s := by
  induction names with
  | nil =>
      obtain ⟨k, hk, -⟩ := hfree
      cases hk
  | cons k names ih =>
      unfold openTemp
      rw [attempt_calm hcalm, pure_bind, wp_rescue, wp_bind]
      refine wp_spot (fun q hq => ?_) fun errno hnone => ?_
      · rw [h.lookup_directory hdir] at hq
        obtain rfl := Option.some.inj hq
        rw [wp_bind, wp_get, wp_bind]
        refine wp_onDisk (fun _ _ => trivial) fun errno herror => ?_
        by_cases hk : v.object (k :: dir) = none
        · obtain ⟨d, hd⟩ := Disk.exists_create ((h.isDir dir).trans hdir) (h.entry_none.mpr hk)
            (s.machine.modes.created mode)
          rw [hd] at herror
          cases herror
        · have hexist : errno = .exist := by
            rw [← h.entry_none, ← Ne, Option.ne_none_iff_isSome] at hk
            rw [Disk.create, if_pos hk] at herror
            exact (Except.error.inj herror).symm
          rw [if_pos hexist]
          refine ih ?_
          obtain ⟨m, hm, hnone⟩ := hfree
          rcases List.mem_cons.mp hm with rfl | hm
          · exact absurd hnone hk
          · exact ⟨m, hm, hnone⟩
      · rw [h.lookup_directory hdir] at hnone
        cases hnone

private theorem wp_writeTemp_calm (hcalm : F.Calm) {ino : ℕ} {content : List UInt8} :
    wp (writeTemp F ino content) (fun _ _ => True) (fun _ _ => False) s := by
  unfold writeTemp writeOut
  simp only [attempt_calm hcalm]
  trivial

private theorem wp_chmod_calm (hcalm : F.Calm) {k : Name} {q : Place} {P : Regular → Prop}
    {mode : ℕ} (hbusy : Busy s (k :: q) P t) (hq : s.machine.host.lookup (text dir) = some q) :
    wp (chmod F (k :: dir) mode) (fun _ _ => True) (fun _ _ => False) t := by
  obtain ⟨-, hlookup⟩ := hbusy.lookup hq
  obtain ⟨f, hworking, -⟩ := hbusy.file
  unfold chmod
  rw [attempt_calm hcalm, pure_bind, wp_bind]
  refine wp_find (fun _ _ _ _ => trivial) (fun hnone => ?_) fun p hp hmissing => ?_
  · rw [hlookup] at hnone
    cases hnone
  · rw [hlookup] at hp
    obtain rfl := Option.some.inj hp
    rw [hworking.entry_self] at hmissing
    cases hmissing

/-- The temporary file gets the name of the target. -/
theorem wp_renameTemp_calm (hcalm : F.Calm) (h : Shows rules v s) {k : Name} {f : Regular}
    (hbusy : Busy s (k :: dir) (· = f) t) (hdir : v.isDir dir = true)
    (htarget : v.isDir (n :: dir) = false) :
    wp (renameCall F (k :: dir) (n :: dir)) (fun _ => Shows rules (v.store (n :: dir) f))
      (fun _ _ => False) t := by
  obtain ⟨hlookup, -⟩ := hbusy.lookup (h.lookup_directory hdir)
  obtain ⟨g, hworking, rfl⟩ := hbusy.file
  obtain ⟨_, rfl, hshows⟩ := hbusy.shows h
  have hentry := hworking.entry_self
  unfold renameCall
  rw [attempt_calm hcalm, pure_bind, wp_bind]
  refine wp_spot (fun q hq => ?_) fun _ hnone => ?_
  · rw [hlookup] at hq
    obtain rfl := Option.some.inj hq
    rw [wp_bind]
    refine wp_spot (fun q hq' => ?_) fun _ hnone => ?_
    · rw [hlookup] at hq'
      obtain rfl := Option.some.inj hq'
      by_cases hk : k = n
      · subst hk
        refine wp_onDisk (fun d hd => ?_) fun errno herror => ?_
        · rw [Disk.rename_same hentry (.inl rfl)] at hd
          obtain rfl := Except.ok.inj hd
          exact hshows.moved hshows.view
        · rw [Disk.rename_same hentry (.inl rfl)] at herror
          cases herror
      · have hne : k :: dir ≠ n :: dir := fun heq => hk (List.cons.inj heq).1
        have hfree : v.object (k :: dir) = none := h.entry_none.mp hworking.free
        have hnames : ∀ r, ¬ v.shared (k :: dir) r ∧ ¬ v.shared r (k :: dir) := fun r => by
          rw [← h.view]
          refine ⟨fun hshared => ?_, fun hshared => ?_⟩
          · exact absurd (hworking.free.symm.trans hshared.1) (Option.some_ne_none _).symm
          · exact absurd (hworking.free.symm.trans hshared.2.1) (Option.some_ne_none _).symm
        have hunshared : ¬ t.machine.disk.view.shared (k :: dir) (n :: dir) := by
          rw [hshows.view]
          simp only [View.store, true_or, if_true]
          exact hne
        refine wp_onDisk (fun d hd => hshows.moved ?_) fun errno herror => ?_
        · rw [Disk.view_rename hd hentry hne hunshared, hshows.view]
          exact View.move_store hfree (fun r => (hnames r).1) (fun r => (hnames r).2) hne
        · have hopen : t.machine.disk.tree.isDir dir = true := by
            rw [hshows.isDir, View.store_isDir_of_ne (List.ne_cons_self)]
            exact hdir
          have htarget' : t.machine.disk.tree.isDir (n :: dir) = false := by
            rw [hshows.isDir, View.store_isDir_of_ne hne.symm]
            exact htarget
          obtain ⟨d, hd⟩ := Disk.exists_rename hentry hopen htarget'
          rw [hd] at herror
          cases herror
    · rw [hlookup] at hnone
      cases hnone
  · rw [hlookup] at hnone
    cases hnone

/-- The file is written in one piece. -/
theorem wp_replace_plain (hcalm : F.Calm) (h : Shows rules v s) (hplain : v.Plain) {path : String}
    {content : List UInt8} {mode : ℕ}
    (hfree : v.isDir dir = true → ∃ k ∈ F.names, v.object (k :: dir) = none) :
    wp (LocalFsDriver.replace F (n :: dir) path content mode)
      (fun _ t => ∃ w, v.write (n :: dir) content (rules.filled (rules.created mode) content)
        rules.granted = some w ∧ Shows rules w t)
      (fun _ t => v.write (n :: dir) content (rules.filled (rules.created mode) content)
        rules.granted = none ∧ Shows rules v t) s := by
  unfold LocalFsDriver.replace
  rw [wp_bind]
  refine wp_mono (wp_statRegular_plain hcalm h hplain) ?_ ?_
  swap
  · rintro _ t ⟨rfl, hrefuses⟩
    exact ⟨hrefuses _ _ _, h⟩
  rintro st t ⟨rfl, hst⟩
  rw [wp_bind, wp_rescue]
  by_cases hdir : v.isDir dir = true
  · have hlookup := h.lookup_directory hdir
    refine wp_mono (wp_and (wp_openTemp F.names) (wp_openTemp_plain hcalm h hdir (hfree hdir))) ?_
      fun _ _ he => he.2.elim
    rintro _ u ⟨⟨k, -, q, rfl, hq, hbusy⟩, -⟩
    obtain rfl := Option.some.inj (hq.symm.trans hlookup)
    have hpartly : Busy t (k :: q) (Partly rules content
        (rules.created (if st.isNone then mode else 0o600))) u := by
      refine hbusy.mono ?_
      rintro f rfl
      rw [h.modes]
      exact ⟨List.nil_prefix, rfl⟩
    rw [← h.modes] at hpartly
    dsimp only
    rw [wp_bind, wp_rescue, wp_bind]
    refine wp_mono (wp_and (wp_writeTemp hpartly) (wp_writeTemp_calm hcalm)) (fun _ w hw => ?_)
      fun _ _ he => he.2.elim
    obtain ⟨hw, -⟩ := hw
    rw [h.modes] at hw
    rcases hst with ⟨f, hobject, rfl⟩ | ⟨hobject, rfl⟩
    · have htarget : v.isDir (n :: q) = false := by rw [View.isDir, hobject]
      dsimp only
      rw [wp_bind]
      refine wp_mono (wp_and (wp_chmod hw hq) (wp_chmod_calm hcalm hw hq)) (fun _ w' hw' => ?_)
        fun _ _ he => he.2.elim
      have hdone : Busy t (k :: q) (· = ⟨content, rules.granted f.mode⟩) w' := by
        refine hw'.1.mono ?_
        rintro g ⟨g', rfl, rfl⟩
        rw [h.modes]
      refine wp_mono (wp_renameTemp_calm hcalm h hdone hdir htarget) (fun _ x hx => ?_)
        fun _ _ he => he.elim
      refine ⟨_, ?_, hx⟩
      rw [View.write, hobject]
      rfl
    · have htarget : v.isDir (n :: q) = false := by rw [View.isDir, hobject]
      refine wp_mono (wp_renameTemp_calm hcalm h hw hdir htarget) (fun _ x hx => ?_)
        fun _ _ he => he.elim
      refine ⟨_, ?_, hx⟩
      rw [View.write, hobject]
      exact if_pos hdir
  · -- Nothing is made where there is no directory.
    refine wp_mono (wp_openTemp F.names) ?_ ?_
    · rintro _ u ⟨k, -, q, rfl, hq, hbusy⟩
      obtain rfl := h.eq_of_lookup hplain hq
      obtain ⟨f, hworking, -⟩ := hbusy.file
      exact absurd ((h.isDir q).symm.trans hworking.isDir) hdir
    · rintro _ u rfl
      exact ⟨h.refuses hdir _ _ _, h⟩

/-! ### The operations -/

/-- The path is that of a place inside the root, and the root is not the topmost directory. -/
structure Inside (s : Server) (path : String) (p : Place) : Prop where
  path : path.toList = text p
  root : s.machine.host.realpath s.driver.root.toList ≠ []
  below : s.machine.host.realpath s.driver.root.toList <:+ p

/-- A path inside the root is let in. -/
theorem wp_door_plain (h : Shows rules v s) (hplain : v.Plain) {path : String} {p : Place}
    (hin : Inside s path p) {Q : Place → Server → Prop} {E : DriverError → Server → Prop}
    (hQ : Q p s) : wp (LocalFsDriver.door path) Q E s := by
  have hfull : s.machine.host.realpath path.toList = p := by
    rw [Host.realpath, hin.path, start, if_pos (isAbsolute_text p)]
    exact (h.plain hplain).realpath_text p
  have hresolve : s.driver.resolve s.machine.host path = (s.driver, .ok p) := by
    unfold LocalFsDriver.resolve
    simp only [hfull]
    rw [if_pos (text_below.mpr (.inr ⟨hin.root, hin.below⟩))]
  unfold LocalFsDriver.door
  rw [wp_bind, wp_get, wp_bind, wp_set, hresolve]
  exact hQ

/-- `read` returns the content of the file, or there is none. -/
theorem wp_read_plain (hcalm : F.Calm) (h : Shows rules v s) (hplain : v.Plain) {path : String}
    (hin : Inside s path (n :: dir)) :
    wp (LocalFsDriver.read F path)
      (fun r t => t = s ∧ ∃ f, fileAt v (n :: dir) = some f ∧ r = f.content)
      (fun e t => t = s ∧ fileAt v (n :: dir) = none ∧
        (e = .fileMissing path ∨ Refuses v (n :: dir))) s := by
  unfold LocalFsDriver.read
  rw [wp_bind]
  refine wp_door_plain h hplain hin ?_
  rw [wp_bind]
  refine wp_mono (wp_require_plain hcalm h hplain) ?_ fun _ _ he => he
  rintro _ t ⟨rfl, f, hfile, rfl⟩
  rw [wp_rescue]
  exact wp_contents_plain hcalm h hplain hfile ⟨rfl, f, hfile, rfl⟩

/-- `write` leaves the view that its meaning says, or the view as it was. -/
theorem wp_write_plain (hcalm : F.Calm) (h : Shows rules v s) (hplain : v.Plain) {path : String}
    (hin : Inside s path (n :: dir)) {content : List UInt8}
    (hfree : v.isDir dir = true → ∃ k ∈ F.names, v.object (k :: dir) = none) :
    wp (LocalFsDriver.write F path content)
      (fun _ t => ∃ w, v.write (n :: dir) content (rules.filled (rules.created 0o666) content)
        rules.granted = some w ∧ Shows rules w t)
      (fun _ t => v.write (n :: dir) content (rules.filled (rules.created 0o666) content)
        rules.granted = none ∧ Shows rules v t) s := by
  unfold LocalFsDriver.write
  rw [wp_bind]
  exact wp_door_plain h hplain hin (wp_replace_plain hcalm h hplain hfree)

/-- What `stat` answers for an object. -/
def statOf : Object Stat → LocalFsDriver.StatResult
  | .file f => ⟨"file", some f⟩
  | .directory _ => ⟨"directory", none⟩
  | _ => ⟨"other", none⟩

/-- `stat` tells what is at the path, or nothing is. -/
theorem wp_stat_plain (hcalm : F.Calm) (h : Shows rules v s) (hplain : v.Plain) {path : String}
    (hin : Inside s path (n :: dir)) :
    wp (LocalFsDriver.stat F path)
      (fun r t => t = s ∧ ∃ o, v.object (n :: dir) = some o ∧ r = statOf o)
      (fun e t => t = s ∧ v.object (n :: dir) = none ∧ e = .fileMissing path) s := by
  unfold LocalFsDriver.stat
  rw [wp_bind]
  refine wp_door_plain h hplain hin ?_
  rw [wp_bind, wp_rescue]
  unfold Filesystem.stat
  rw [attempt_calm hcalm, pure_bind]
  refine wp_find_plain h hplain (fun e he => ?_) fun hnone errno herrno => ?_
  · have hobject := h.object_of_entry he
    dsimp only
    rw [wp_bind, wp_get]
    cases e <;> exact ⟨rfl, _, hobject, rfl⟩
  · refine ⟨rfl, hnone, ?_⟩
    rcases herrno.either with rfl | rfl <;> rfl

/-- The kernel takes a file off the view. -/
theorem wp_unlink_plain (h : Shows rules v s) {f : Regular}
    (hfile : fileAt v (n :: dir) = some f) {E : Errno → Server → Prop} :
    wp (onDisk fun d => d.unlink (n :: dir)) (fun _ => Shows rules (v.drop (n :: dir))) E s := by
  refine wp_onDisk (fun d hd => h.moved ?_) fun errno herror => ?_
  · rw [Disk.view_unlink hd, h.view]
  · obtain ⟨d, hd⟩ := Disk.exists_unlink (h.inode hfile).1
    rw [hd] at herror
    cases herror

/-- A calm `unlink` takes a file off the view. -/
theorem wp_unlinkCall_plain (hcalm : F.Calm) (h : Shows rules v s) {f : Regular}
    (hfile : fileAt v (n :: dir) = some f) {E : Errno → Server → Prop} :
    wp (unlinkCall F c (n :: dir)) (fun _ => Shows rules (v.drop (n :: dir))) E s := by
  have hopen := Tree.isDir_of_entry (h.inode hfile).1
  have hlookup := h.lookup_directory ((h.isDir dir).symm.trans hopen)
  unfold unlinkCall
  rw [attempt_calm hcalm, pure_bind, wp_bind]
  refine wp_spot (fun q hq => ?_) fun _ hnone => ?_
  · obtain rfl := Option.some.inj (hq.symm.trans hlookup)
    exact wp_unlink_plain h hfile
  · rw [hlookup] at hnone
    cases hnone

private theorem Shows.directory (h : Shows rules v s) {p : Place} {st : Stat}
    (hobject : v.object p = some (.directory st)) :
    s.machine.disk.tree.entry p = some (.directory st) := by
  rw [← Disk.view_directory, h.view, hobject]

/-- The kernel takes a directory off the view exactly if it is empty. -/
theorem wp_rmdir_plain (h : Shows rules v s) {st : Stat}
    (hobject : v.object (n :: dir) = some (.directory st)) :
    wp (onDisk fun d => d.rmdir (n :: dir))
      (fun _ t => v.Leaf (n :: dir) ∧ Shows rules (v.drop (n :: dir)) t)
      (fun _ t => ¬ v.Leaf (n :: dir) ∧ Shows rules v t) s := by
  have hleaf : s.machine.disk.childless (n :: dir) = true ↔ v.Leaf (n :: dir) := by
    rw [Disk.childless_iff]
    exact forall_congr' fun m => h.entry_none
  refine wp_onDisk (fun d hd => ?_) fun errno herror => ?_
  · obtain ⟨-, hempty, -⟩ := Disk.rmdir_ok hd
    refine ⟨fun m => h.entry_none.mp (hempty m), h.moved ?_⟩
    rw [Disk.view_rmdir hd, h.view]
  · refine ⟨fun hempty => ?_, h⟩
    obtain ⟨d, hd⟩ := Disk.exists_rmdir (h.directory hobject) (hleaf.mpr hempty)
    rw [hd] at herror
    cases herror

/-- A calm `rmdir` takes a directory off the view exactly if it is empty. -/
theorem wp_rmdirCall_plain (hcalm : F.Calm) (h : Shows rules v s) {st : Stat}
    (hobject : v.object (n :: dir) = some (.directory st)) :
    wp (rmdirCall F (n :: dir))
      (fun _ t => v.Leaf (n :: dir) ∧ Shows rules (v.drop (n :: dir)) t)
      (fun _ t => ¬ v.Leaf (n :: dir) ∧ Shows rules v t) s := by
  have hopen := Tree.isDir_of_entry (h.directory hobject)
  have hlookup := h.lookup_directory ((h.isDir dir).symm.trans hopen)
  unfold rmdirCall
  rw [attempt_calm hcalm, pure_bind, wp_bind]
  refine wp_spot (fun q hq => ?_) fun _ hnone => ?_
  · obtain rfl := Option.some.inj (hq.symm.trans hlookup)
    exact wp_rmdir_plain h hobject
  · rw [hlookup] at hnone
    cases hnone

/-- `delete` leaves the view that its meaning says, or the view as it was. -/
theorem wp_delete_plain (hcalm : F.Calm) (h : Shows rules v s) (hplain : v.Plain) {path : String}
    (hin : Inside s path (n :: dir)) :
    wp (LocalFsDriver.delete F path)
      (fun _ t => ∃ w, v.remove (n :: dir) = some w ∧ Shows rules w t)
      (fun _ t => v.remove (n :: dir) = none ∧ Shows rules v t) s := by
  unfold LocalFsDriver.delete
  rw [wp_bind]
  refine wp_door_plain h hplain hin ?_
  rw [wp_bind, wp_rescue]
  unfold Filesystem.stat
  rw [attempt_calm hcalm, pure_bind]
  refine wp_find_plain h hplain (fun e he => ?_) fun hnone errno herrno => ?_
  · have hobject := h.object_of_entry he
    cases e with
    | directory st =>
        dsimp only
        rw [wp_bind, wp_rescue]
        refine wp_mono (wp_rmdirCall_plain hcalm h hobject) (fun _ t ht => ?_) fun _ t ht => ?_
        · rw [wp_modify]
          exact ⟨_, View.remove_leaf hobject ht.1, ht.2.view, ht.2.modes⟩
        · exact ⟨View.remove_of_not_leaf hobject ht.1, ht.2⟩
    | regular =>
        dsimp only
        rw [wp_rescue]
        refine wp_mono (wp_unlinkCall_plain hcalm h (fileAt_eq_some.mpr hobject)
          (E := fun _ _ => False)) (fun _ t ht => ⟨_, ?_, ht⟩) fun _ _ he => he.elim
        rw [View.remove, hobject]
        rfl
    | special =>
        refine ⟨?_, h⟩
        rw [View.remove, hobject]
        rfl
    | link target => exact absurd hobject (hplain _ target)
  · refine ⟨?_, h⟩
    rw [View.remove, hnone]

/-- Two names share a file only where there is one. -/
theorem Shows.shared (h : Shows rules v s) {p q : Place} (hshared : v.shared p q) :
    ∃ f, fileAt v q = some f := by
  rw [← h.view] at hshared
  refine ⟨s.machine.disk.inode (s.machine.disk.node q), fileAt_eq_some.mpr ?_⟩
  rw [← h.view]
  exact Disk.view_file.mpr ⟨hshared.2.1, rfl⟩

/-- A file gets no name where nothing can be written. -/
theorem rename_of_refuses (h : Shows rules v s) (hplain : v.Plain) {p q : Place} {f : Regular}
    (hfile : fileAt v p = some f) (hspecial : v.object q ≠ some .special) (hq : Refuses v q) :
    v.rename p q = none := by
  have hsame : ¬ (p = q ∨ v.shared p q) := by
    rintro (rfl | hshared)
    · rw [fileAt_of_refuses hq] at hfile
      cases hfile
    · obtain ⟨g, hg⟩ := h.shared hshared
      rw [fileAt_of_refuses hq] at hg
      cases hg
  rw [View.rename, fileAt_eq_some.mp hfile]
  dsimp only
  rw [if_neg hsame]
  have hnone := hq [] 0 id
  unfold View.write at hnone
  split at hnone
  · cases hnone
  · rename_i hobject
    split at hnone
    · cases hnone
    · rename_i hdir
      rw [if_neg (by rw [View.isDir, hobject]; exact Bool.false_ne_true), if_neg hdir]
  · rename_i hfile hmissing
    rw [if_pos]
    unfold View.isDir
    split
    · rfl
    · rename_i hdirectory
      cases hobject : v.object q with
      | none => exact absurd hobject hmissing
      | some o =>
          cases o with
          | directory st => exact absurd hobject (hdirectory st)
          | file g => exact absurd hobject (hfile g)
          | special => exact absurd hobject hspecial
          | link target => exact absurd hobject (hplain q target)

/-- What the renaming of a file shows, done or refused. -/
theorem Shows.renamed (h : Shows rules v s) {p : Place} {f : Regular} {m : Name} {dir' : Place}
    (hfile : fileAt v p = some f) :
    (∀ d, s.machine.disk.rename p (m :: dir') = .ok d →
      ∃ w, v.rename p (m :: dir') = some w ∧ Shows rules w (s.moved d)) ∧
      ∀ e, s.machine.disk.rename p (m :: dir') = .error e →
        v.rename p (m :: dir') = none ∧ Shows rules v s := by
  have hobject := fileAt_eq_some.mp hfile
  rw [← h.view] at hobject
  obtain ⟨hok, herror⟩ := @Disk.rename_shows _ _ _ _ m dir' hobject
  rw [h.view] at hok herror
  exact ⟨fun d hd => ⟨_, hok d hd, h.moved rfl⟩, fun e he => ⟨herror e he, h⟩⟩

/-- A calm `rename` of a file leaves the view that its meaning says, or the view as it was. -/
theorem wp_renameCall_plain (hcalm : F.Calm) (h : Shows rules v s) (hplain : v.Plain) {f : Regular}
    {m : Name} {dir' : Place} (hfile : fileAt v (n :: dir) = some f)
    (hspecial : v.object (m :: dir') ≠ some .special) :
    wp (renameCall F (n :: dir) (m :: dir'))
      (fun _ t => ∃ w, v.rename (n :: dir) (m :: dir') = some w ∧ Shows rules w t)
      (fun _ t => v.rename (n :: dir) (m :: dir') = none ∧ Shows rules v t) s := by
  have hopen := Tree.isDir_of_entry (h.inode hfile).1
  have hlookup := h.lookup_directory ((h.isDir dir).symm.trans hopen)
  unfold renameCall
  rw [attempt_calm hcalm, pure_bind, wp_bind]
  refine wp_spot (fun q hq => ?_) fun _ hnone => ?_
  · obtain rfl := Option.some.inj (hq.symm.trans hlookup)
    rw [wp_bind]
    refine wp_spot (fun q' hq' => ?_) fun errno hnone => ?_
    · obtain rfl := h.eq_of_lookup hplain hq'
      obtain ⟨hok, herror⟩ := h.renamed hfile
      exact wp_onDisk hok herror
    · -- There is no directory for the new name.
      have hdir : ¬ v.isDir dir' = true := fun hdir => by
        rw [h.lookup_directory hdir] at hnone
        cases hnone
      exact ⟨rename_of_refuses h hplain hfile hspecial (h.refuses hdir), h⟩
  · rw [hlookup] at hnone
    cases hnone

/-- `rename` leaves the view that its meaning says, or the view as it was. -/
theorem wp_rename_plain (hcalm : F.Calm) (h : Shows rules v s) (hplain : v.Plain) {src dst : String}
    {m : Name} {dir' : Place} (hsrc : Inside s src (n :: dir)) (hdst : Inside s dst (m :: dir'))
    (hspecial : v.object (m :: dir') ≠ some .special) :
    wp (LocalFsDriver.rename F src dst)
      (fun _ t => ∃ w, v.rename (n :: dir) (m :: dir') = some w ∧ Shows rules w t)
      (fun _ t => v.rename (n :: dir) (m :: dir') = none ∧ Shows rules v t) s := by
  unfold LocalFsDriver.rename
  rw [wp_bind]
  refine wp_door_plain h hplain hsrc ?_
  rw [wp_bind]
  refine wp_door_plain h hplain hdst ?_
  rw [wp_bind]
  refine wp_mono (wp_require_plain hcalm h hplain) ?_ ?_
  · rintro _ t ⟨rfl, f, hfile, -⟩
    rw [wp_bind]
    refine wp_mono (wp_statRegular_plain hcalm h hplain) ?_ ?_
    · rintro st t ⟨rfl, -⟩
      rw [wp_bind, wp_rescue]
      refine wp_mono (wp_renameCall_plain hcalm h hplain hfile hspecial) (fun _ _ ht => ht)
        fun errno _ he => ?_
      split <;> exact he
    · rintro e t ⟨rfl, hrefuses⟩
      exact ⟨rename_of_refuses h hplain hfile hspecial hrefuses, h⟩
  · rintro e t ⟨rfl, hnone, -⟩
    refine ⟨?_, h⟩
    unfold View.rename
    split
    · rename_i f hobject
      rw [fileAt_eq_some.mpr hobject] at hnone
      cases hnone
    · rfl

/-- A file is copied to another name. -/
def copied (v : View Stat) (p q : Place) (fresh : Regular → ℕ) (kept : ℕ → ℕ) :
    Option (View Stat) :=
  if p = q then none
  else (fileAt v p).bind fun f => v.write q f.content (fresh f) kept

/-- `copy` leaves the view that its meaning says, or the view as it was. -/
theorem wp_copy_plain (hcalm : F.Calm) (h : Shows rules v s) (hplain : v.Plain) {src dst : String}
    {m : Name} {dir' : Place} (hsrc : Inside s src (n :: dir)) (hdst : Inside s dst (m :: dir'))
    (hfree : v.isDir dir' = true → ∃ k ∈ F.names, v.object (k :: dir') = none) :
    wp (LocalFsDriver.copy F src dst)
      (fun _ t => ∃ w, copied v (n :: dir) (m :: dir')
        (fun f => rules.filled (rules.created f.mode) f.content) rules.granted = some w ∧
          Shows rules w t)
      (fun _ t => copied v (n :: dir) (m :: dir')
        (fun f => rules.filled (rules.created f.mode) f.content) rules.granted = none ∧
          Shows rules v t) s := by
  unfold LocalFsDriver.copy
  rw [wp_bind]
  refine wp_door_plain h hplain hsrc ?_
  rw [wp_bind]
  refine wp_door_plain h hplain hdst ?_
  unfold copied
  by_cases hsame : n :: dir = m :: dir'
  · rw [if_pos hsame, if_pos hsame]
    exact ⟨rfl, h⟩
  rw [if_neg hsame, if_neg hsame, wp_bind]
  refine wp_mono (wp_require_plain hcalm h hplain) ?_ ?_
  · rintro _ t ⟨rfl, f, hfile, rfl⟩
    rw [wp_bind, wp_rescue]
    refine wp_contents_plain hcalm h hplain hfile ?_
    rw [hfile, Option.bind_some]
    exact wp_replace_plain hcalm h hplain hfree
  · rintro e t ⟨rfl, hnone, -⟩
    rw [hnone]
    exact ⟨rfl, h⟩

end Calm

end Jetty.Filesystem
