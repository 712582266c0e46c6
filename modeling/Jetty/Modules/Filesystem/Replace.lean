import Jetty.Modules.Filesystem.Containment
import Jetty.Modules.Filesystem.Operations

/-!
# Writing whole files

A temporary file is made next to the target, filled and renamed over it. Until then the machine
differs from what it was by that file only, whatever fails on the way.
-/

namespace Jetty.Filesystem

open Files Effects

/-! ### A machine with a temporary file -/

section Working

variable {m m' : Machine} {x p q : Place} {f g : Regular} {n : Name} {dir full : Place}

/-- The kernel's walk of a normal path. -/
theorem lookup_host (m : Machine) (p : Place) :
    m.host.lookup (text p) = m.disk.tree.walk m.maxLinks [] (parts (text p)) :=
  lookup_text m.host p

/-- The machine differs by one regular file, with an inode that was free, where nothing was. -/
structure Working (m : Machine) (x : Place) (f : Regular) (m' : Machine) : Prop where
  free : m.disk.tree.entry x = none
  entry : ∀ p, m'.disk.tree.entry p = if p = x then some .regular else m.disk.tree.entry p
  node : m'.disk.node = Function.update m.disk.node x m.disk.next
  inode : m'.disk.inode = Function.update m.disk.inode m.disk.next f
  same : Machine.Same m m'

private theorem Working.file (h : Working m x f m') : m'.disk.inode m.disk.next = f := by
  rw [h.inode, Function.update_self]

/-- The temporary file is there. -/
theorem Working.entry_self (h : Working m x f m') : m'.disk.tree.entry x = some .regular := by
  rw [h.entry, if_pos rfl]

private theorem Working.entry_ne (h : Working m x f m') (hp : p ≠ x) :
    m'.disk.tree.entry p = m.disk.tree.entry p := by
  rw [h.entry, if_neg hp]

private theorem Working.lookup (h : Working m x f m') (p : Place) :
    m'.host.lookup (text p) = m.host.lookup (text p) := by
  rw [lookup_host, lookup_host, h.same.maxLinks,
    Tree.walk_eq_of_added h.free h.entry_self fun q hq => h.entry_ne hq]

/-- What the path leads to is no missing name of the place. -/
def Apart (m : Machine) (full x : Place) : Prop := m.host.lookup (text full) ≠ some x

/-- Who looks at the target does not see the temporary file. -/
theorem Working.look (h : Working m x f m') (hapart : Apart m full x) :
    m'.look (text full) = m.look (text full) := by
  unfold Machine.look
  rw [h.lookup]
  cases hlookup : m.host.lookup (text full) with
  | none => rfl
  | some p =>
      have hp : p ≠ x := by
        rintro rfl
        exact hapart hlookup
      simp only [h.entry_ne hp]
      cases hentry : m.disk.tree.entry p with
      | none => rfl
      | some e =>
          cases e with
          | regular =>
              have hlt := m.disk.node_lt p hentry
              simp only [h.node, h.inode, Function.update_of_ne hp,
                Function.update_of_ne (Nat.ne_of_lt hlt)]
          | directory _ => rfl
          | special => rfl
          | link _ => rfl

/-- The file is written to. -/
theorem Working.put (h : Working m x f m') (g : Regular) :
    Working m x g (m'.withDisk (m'.disk.put m.disk.next g)) where
  free := h.free
  entry p := by
    rw [Machine.disk_withDisk]
    exact h.entry p
  node := by
    rw [Machine.disk_withDisk]
    exact h.node
  inode := by
    rw [Machine.disk_withDisk]
    simp only [Disk.put, h.inode, Function.update_idem]
  same := h.same.trans (Machine.same_withDisk m'.cwd_isDir)

/-- The file is created. -/
theorem working_of_create {d : Disk Stat} {mode : ℕ} (h : m.disk.create x mode = .ok d) :
    Working m x { mode } (m.withDisk d) := by
  obtain ⟨hnone, hentry, hnode, hinode, -⟩ := Disk.create_ok h
  refine ⟨hnone, fun p => ?_, ?_, ?_, Machine.same_of_agree fun p hp => ?_⟩
  · rw [Machine.disk_withDisk]
    exact hentry p
  · rw [Machine.disk_withDisk]
    exact hnode
  · rw [Machine.disk_withDisk]
    exact hinode
  · rw [hentry, if_neg (Tree.ne_of_isDir hp hnone).symm]
    rfl

/-- The temporary file is in a directory. -/
theorem Working.isDir (h : Working m (n :: q) f m') : m.disk.tree.isDir q = true := by
  have hdir := Tree.isDir_of_entry h.entry_self
  have hne : q ≠ n :: q := fun heq => by simpa using congrArg List.length heq
  unfold Tree.isDir at hdir ⊢
  rwa [h.entry_ne hne] at hdir

/-- The file can be removed. -/
theorem Working.exists_unlink (h : Working m (n :: q) f m') :
    ∃ d, m'.disk.unlink (n :: q) = .ok d := by
  have hchildless : m'.disk.childless (n :: q) = true := by
    rw [Disk.childless_iff]
    intro k
    by_contra hsome
    obtain ⟨stat, hstat⟩ := m'.disk.tree.parent k _ (Option.isSome_iff_ne_none.mpr hsome)
    rw [h.entry_self] at hstat
    cases hstat
  obtain ⟨d, hd⟩ := @Disk.rebind_isSome _ m'.disk n q none 0
    (Tree.isDir_of_entry h.entry_self) (.inr hchildless) nofun
  refine ⟨d, ?_⟩
  simp only [Disk.unlink, h.entry_self, hd]

/-- Once it is removed, everything is as before. -/
theorem Working.unlink {d : Disk Stat} (h : Working m x f m') (hd : m'.disk.unlink x = .ok d) :
    (∀ p, d.tree.entry p = m.disk.tree.entry p) ∧ Machine.Same m (m'.withDisk d) ∧
      ∀ full, (m'.withDisk d).look (text full) = m.look (text full) := by
  obtain ⟨-, -, hentry, hnode, hinode, -⟩ := Disk.unlink_ok hd
  have hsame : ∀ p, d.tree.entry p = m.disk.tree.entry p := by
    intro p
    rw [hentry]
    split
    · rename_i hp
      rw [hp, h.free]
    · rename_i hp
      exact h.entry_ne hp
  have hhost : Machine.Same m (m'.withDisk d) := h.same.trans <| Machine.same_withDisk <| by
    have hcwd := m.cwd_isDir
    unfold Tree.isDir at hcwd ⊢
    rwa [h.same.cwd, hsame]
  refine ⟨hsame, hhost, fun full => ?_⟩
  have hlookup : (m'.withDisk d).host.lookup (text full) = m.host.lookup (text full) := by
    rw [lookup_host, lookup_host, hhost.maxLinks, Machine.disk_withDisk]
    apply Option.ext
    intro c
    constructor
    · intro hc
      exact Tree.walk_of_reaches ((Tree.reaches_of_walk hc).agree fun p _ => (hsame p).symm)
    · intro hc
      exact Tree.walk_of_reaches ((Tree.reaches_of_walk hc).agree fun p _ => hsame p)
  unfold Machine.look
  rw [hlookup]
  cases m.host.lookup (text full) with
  | none => rfl
  | some p =>
      simp only [Machine.disk_withDisk, hsame]
      cases hentry' : m.disk.tree.entry p with
      | none => rfl
      | some e =>
          cases e with
          | regular =>
              have hp : p ≠ x := by
                rintro rfl
                rw [h.free] at hentry'
                cases hentry'
              have hlt := m.disk.node_lt p hentry'
              simp only [hinode, hnode, h.node, h.inode, Function.update_of_ne hp,
                Function.update_of_ne (Nat.ne_of_lt hlt)]
          | directory _ => rfl
          | special => rfl
          | link _ => rfl

/-- Once it is renamed, it is what the target leads to. -/
theorem Working.rename {d : Disk Stat} (h : Working m x f m')
    (hd : m'.disk.rename x (n :: q) = .ok d) (hq : m.host.lookup (text dir) = some q)
    (hloose : m.disk.tree.Loose m.maxLinks (n :: dir)) :
    (∀ p, d.tree.entry p = if p = n :: q then some .regular else m.disk.tree.entry p) ∧
      Machine.Same m (m'.withDisk d) ∧
      (m'.withDisk d).host.lookup (text (n :: dir)) = some (n :: q) ∧
      (m'.withDisk d).look (text (n :: dir)) = some f := by
  obtain ⟨e, he, -, hcases⟩ := Disk.rename_ok hd
  rw [h.entry_self] at he
  obtain rfl := Option.some.inj he
  have hnode : m'.disk.node x = m.disk.next := by rw [h.node, Function.update_self]
  have hspec : (∀ p, d.tree.entry p = if p = n :: q then some .regular else m.disk.tree.entry p) ∧
      d.inode (d.node (n :: q)) = f ∧ m.disk.tree.isDir (n :: q) = false := by
    rcases hcases with ⟨rfl, hsame⟩ | ⟨hne, hfile, c, hc, hd'⟩
    · have hx : x = n :: q := by
        rcases hsame with hx | ⟨-, hregular, hino⟩
        · exact hx
        · by_contra hx
          rw [h.entry_ne (Ne.symm hx)] at hregular
          have hentry : m.disk.tree.entry (n :: q) = some .regular := by
            unfold Disk.forRegular at hregular
            split at hregular
            · assumption
            · cases hregular
          have hlt := m.disk.node_lt _ hentry
          rw [hnode, h.node, Function.update_of_ne (Ne.symm hx)] at hino
          omega
      subst hx
      exact ⟨h.entry, by rw [hnode, h.file], Tree.isDir_of_none h.free⟩
    · refine ⟨fun p => ?_, ?_, ?_⟩
      · rw [hd'.entry, hc.entry]
        by_cases hp : p = n :: q
        · rw [if_pos hp, if_pos hp]
        · rw [if_neg hp, if_neg hp]
          split
          · rename_i hx
            rw [hx, h.free]
          · rename_i hx
            exact h.entry_ne hx
      · rw [hd'.node, hd'.inode, hc.inode, Function.update_self, hnode, h.file]
      · unfold Tree.isDir at hfile ⊢
        rwa [h.entry_ne (Ne.symm hne)] at hfile
  obtain ⟨hentry, hfile, hold⟩ := hspec
  have hhost : Machine.Same m (m'.withDisk d) := h.same.trans <| Machine.same_withDisk <| by
    have hcwd := m.cwd_isDir
    have hne : m.cwd ≠ n :: q := by
      intro heq
      rw [heq, hold] at hcwd
      cases hcwd
    unfold Tree.isDir at hcwd ⊢
    rwa [h.same.cwd, hentry, if_neg hne]
  refine ⟨hentry, hhost, ?_⟩
  have hself : d.tree.entry (n :: q) = some .regular := by rw [hentry, if_pos rfl]
  have hdir : m.disk.tree.isDir q = true := by
    have hdir := Tree.isDir_of_entry hself
    have hne : q ≠ n :: q := fun heq => by simpa using congrArg List.length heq
    unfold Tree.isDir at hdir ⊢
    rwa [hentry, if_neg hne] at hdir
  have hlookup : (m'.withDisk d).host.lookup (text (n :: dir)) = some (n :: q) := by
    rw [lookup_host] at hq
    rw [lookup_host, hhost.maxLinks, Machine.disk_withDisk, Tree.walk_text,
      List.reverse_cons, List.map_append]
    have hreach := Tree.reaches_of_walk (Tree.walk_text _ _ ▸ hq)
    have hpasses := hloose.not_passes hq hreach hdir
    have hagree := hreach.agree (u := d.tree) fun p hp => by
      rw [hentry, if_neg]
      rintro rfl
      exact hpasses hp
    exact Tree.walk_of_reaches (hagree.snoc hself fun _ h => by cases h)
  refine ⟨hlookup, ?_⟩
  unfold Machine.look
  simp only [hlookup, Machine.disk_withDisk, hself, hfile]

end Working

/-! ### The calls on the temporary file -/

section Calls

variable {F : Faults} {α : Type} {s t : Server} {x full p q dir : Place} {n : Name}
  {content : List UInt8} {mode : ℕ} {P P' : Regular → Prop} {E : Errno → Server → Prop}

/-- A call fails as the machine has it, or goes on. -/
theorem wp_attempt {c : Call} {Q : Unit → Server → Prop} (hQ : F.fails c = none → Q () s)
    (hE : ∀ fault, F.fails c = some fault → E fault.errno s) : wp (attempt F c) Q E s := by
  unfold attempt
  cases hfails : F.fails c with
  | none => exact hQ hfails
  | some fault => exact hE fault hfails

/-- A change of the disk is made, or refused by the kernel. -/
theorem wp_onDisk {change : Disk Stat → Except Errno (Disk Stat)} {Q : Unit → Server → Prop}
    (hQ : ∀ d, change s.machine.disk = .ok d → Q () (s.moved d))
    (hE : ∀ errno, change s.machine.disk = .error errno → E errno s) :
    wp (onDisk change) Q E s := by
  unfold onDisk
  rw [wp_bind, wp_get]
  cases hchange : change s.machine.disk with
  | ok d => exact hQ d hchange
  | error errno => exact hE errno hchange

/-- The spot of a name is in the directory that the path leads to. -/
theorem wp_spot {Q : Place → Server → Prop}
    (hQ : ∀ q, s.machine.host.lookup (text dir) = some q → Q (n :: q) s)
    (hE : ∀ errno, s.machine.host.lookup (text dir) = none → E errno s) :
    wp (spot (n :: dir)) Q E s := by
  unfold spot
  rw [wp_bind, wp_get]
  cases hlookup : s.machine.host.lookup (text dir) with
  | some q => exact hQ q hlookup
  | none => exact hE _ hlookup

/-- A path leads to an entry, to a free name, or nowhere. -/
theorem wp_find {Q : Place × Entry Stat → Server → Prop}
    (hQ : ∀ p e, s.machine.host.lookup (text full) = some p →
      s.machine.disk.tree.entry p = some e → Q (p, e) s)
    (hnone : s.machine.host.lookup (text full) = none → E (s.machine.blame (text full)) s)
    (hmissing : ∀ p, s.machine.host.lookup (text full) = some p →
      s.machine.disk.tree.entry p = none → E .noent s) :
    wp (find full) Q E s := by
  unfold find
  rw [wp_bind, wp_get]
  cases hlookup : s.machine.host.lookup (text full) with
  | none => exact hnone hlookup
  | some p =>
      dsimp only
      cases hentry : s.machine.disk.tree.entry p with
      | none => exact hmissing p hlookup hentry
      | some e => exact hQ p e hlookup hentry

/-- The machine is as it was, or has a temporary file. -/
def Transient (m : Machine) (x : Place) (m' : Machine) : Prop := m' = m ∨ ∃ f, Working m x f m'

/-- The temporary file is there and is as described. -/
structure Busy (s : Server) (x : Place) (P : Regular → Prop) (t : Server) : Prop where
  file : ∃ f, Working s.machine x f t.machine ∧ P f
  seen : ∀ m ∈ t.seen, m ∈ s.seen ∨ Transient s.machine x m
  driver : t.driver = s.driver

/-- What is known of the temporary file may be weakened. -/
theorem Busy.mono (h : Busy s x P t) (hP : ∀ f, P f → P' f) : Busy s x P' t := by
  obtain ⟨f, hworking, hf⟩ := h.file
  exact ⟨⟨f, hworking, hP f hf⟩, h.seen, h.driver⟩

/-- Its content or its mode changes. -/
theorem Busy.put (h : Busy s x P t) (change : Regular → Regular) :
    Busy s x (fun g => ∃ f, P f ∧ g = change f) (t.moved (t.machine.disk.put
      s.machine.disk.next (change (t.machine.disk.inode s.machine.disk.next)))) := by
  obtain ⟨f, hworking, hf⟩ := h.file
  refine ⟨⟨_, hworking.put _, f, hf, by rw [hworking.file]⟩, fun m hm => ?_, h.driver⟩
  rcases List.mem_cons.mp hm with rfl | hm
  · exact .inr (.inr ⟨f, hworking⟩)
  · exact h.seen m hm

/-- The mode of a file that has been given the content. -/
def ModeRules.filled (rules : ModeRules) (mode : ℕ) : List UInt8 → ℕ
  | [] => mode
  | _ :: _ => rules.written mode

private theorem ModeRules.filled_of_ne_nil (rules : ModeRules) (h : content ≠ []) :
    rules.filled mode content = rules.written mode := by
  cases content with
  | nil => exact absurd rfl h
  | cons b content => rfl

/-- Some of the content is in the file, and the mode is what a write leaves of it. -/
def Partly (rules : ModeRules) (content : List UInt8) (mode : ℕ) (f : Regular) : Prop :=
  f.content <+: content ∧ f.mode = rules.filled mode f.content

/-- All of it is. -/
def Wholly (rules : ModeRules) (content : List UInt8) (mode : ℕ) (f : Regular) : Prop :=
  f = ⟨content, rules.filled mode content⟩

private theorem Wholly.partly {rules : ModeRules} {f : Regular} (h : Wholly rules content mode f) :
    Partly rules content mode f := by
  rw [Wholly] at h
  subst h
  exact ⟨List.prefix_refl _, rfl⟩

/-- Writing more of it. -/
def advanced (rules : ModeRules) (content : List UInt8) (count : ℕ) (f : Regular) : Regular :=
  let done := content.take (max f.content.length count)
  ⟨done, if done = f.content then f.mode else rules.written f.mode⟩

private theorem Partly.advanced {rules : ModeRules} {f : Regular} (h : Partly rules content mode f)
    (count : ℕ) : Partly rules content mode (advanced rules content count f) := by
  obtain ⟨hfront, hmode⟩ := h
  refine ⟨List.take_prefix _ _, ?_⟩
  have htake : f.content <+: content.take (max f.content.length count) :=
    List.prefix_take_iff.mpr ⟨hfront, Nat.le_max_left _ _⟩
  simp only [Filesystem.advanced]
  generalize content.take (max f.content.length count) = done at htake ⊢
  by_cases hsame : done = f.content
  · rw [if_pos hsame, hsame, hmode]
  · have hne : done ≠ [] := by
      rintro rfl
      exact hsame (List.prefix_nil.mp htake).symm
    rw [if_neg hsame, rules.filled_of_ne_nil hne, hmode]
    by_cases hnil : f.content = []
    · rw [hnil]
      rfl
    · rw [rules.filled_of_ne_nil hnil, rules.written_written]

private theorem Partly.wholly {rules : ModeRules} {f : Regular} (h : Partly rules content mode f) :
    Wholly rules content mode (Filesystem.advanced rules content content.length f) := by
  have hadvanced := (h.advanced content.length).2
  have hall : content.take (max f.content.length content.length) = content :=
    List.take_of_length_le (Nat.le_max_right _ _)
  simp only [Filesystem.advanced, hall] at hadvanced ⊢
  rw [Wholly, hadvanced]

private theorem wp_advance (h : Busy s x P t) (count : ℕ) {Q : Unit → Server → Prop}
    (hQ : ∀ u, Busy s x (fun g => ∃ f, P f ∧ g = advanced s.machine.modes content count f) u →
      Q () u) : wp (advance s.machine.disk.next content count) Q E t := by
  unfold advance
  rw [wp_modify]
  apply hQ
  obtain ⟨f, hworking, -⟩ := h.file
  rw [← hworking.same.modes]
  exact h.put (advanced t.machine.modes content count)

private theorem wp_advance_partly (h : Busy s x (Partly s.machine.modes content mode) t) (count : ℕ)
    {Q : Unit → Server → Prop}
    (hQ : ∀ u, Busy s x (Partly s.machine.modes content mode) u → Q () u) :
    wp (advance s.machine.disk.next content count) Q E t :=
  wp_advance h count fun u hu => hQ u <| hu.mono <| by
    rintro g ⟨f, hf, rfl⟩
    exact hf.advanced count

private theorem wp_writeOut (h : Busy s x (Partly s.machine.modes content mode) t) :
    wp (writeOut F s.machine.disk.next content)
      (fun _ => Busy s x (Wholly s.machine.modes content mode))
      (fun _ => Busy s x (Partly s.machine.modes content mode)) t := by
  unfold writeOut
  rw [wp_bind]
  refine wp_advance_partly h _ fun u hu => ?_
  rw [wp_bind]
  refine wp_attempt (fun _ => ?_) fun _ _ => hu
  rw [wp_bind]
  cases hflush : F.fails .flush with
  | some fault =>
      refine wp_advance_partly hu _ fun v hv => ?_
      rw [wp_bind]
      refine wp_attempt (fun hnone => ?_) fun _ _ => hv
      rw [hflush] at hnone
      cases hnone
  | none =>
      rw [Option.isNone_none, if_pos rfl]
      refine wp_advance hu _ fun v hv => ?_
      have hv : Busy s x (Wholly s.machine.modes content mode) v := by
        refine hv.mono ?_
        rintro g ⟨f, hf, rfl⟩
        exact hf.wholly
      rw [wp_bind]
      refine wp_attempt (fun _ => ?_) fun _ _ => hv.mono fun f hf => hf.partly
      exact wp_attempt (fun _ => hv) fun _ _ => hv.mono fun f hf => hf.partly

/-- The content is written into the temporary file, at least in part. -/
theorem wp_writeTemp (h : Busy s x (Partly s.machine.modes content mode) t) :
    wp (writeTemp F s.machine.disk.next content)
      (fun _ => Busy s x (Wholly s.machine.modes content mode))
      (fun _ => Busy s x (Partly s.machine.modes content mode)) t := by
  unfold writeTemp
  rw [wp_bind, wp_rescue]
  refine wp_mono (wp_writeOut h) (fun _ u hu => ?_) fun errno u hu => ?_
  · exact wp_attempt (fun _ => hu) fun _ _ => hu.mono fun f hf => hf.partly
  · rw [wp_bind]
    refine wp_advance_partly hu _ fun v hv => ?_
    rw [wp_bind]
    exact wp_attempt (fun _ => hv) fun _ _ => hv

/-- The temporary file is found under its name. -/
theorem Busy.lookup (h : Busy s (n :: q) P t) (hq : s.machine.host.lookup (text dir) = some q) :
    t.machine.host.lookup (text dir) = some q ∧
      t.machine.host.lookup (text (n :: dir)) = some (n :: q) := by
  obtain ⟨f, hworking, -⟩ := h.file
  have hdir := (hworking.lookup dir).trans hq
  refine ⟨hdir, ?_⟩
  rw [lookup_host, Tree.walk_text] at hdir ⊢
  rw [List.reverse_cons, List.map_append]
  exact Tree.walk_of_reaches
    ((Tree.reaches_of_walk hdir).snoc hworking.entry_self fun _ h => by cases h)

/-- The mode of the temporary file is set. -/
theorem wp_chmod (h : Busy s (n :: q) P t) (hq : s.machine.host.lookup (text dir) = some q) :
    wp (chmod F (n :: dir) mode)
      (fun _ => Busy s (n :: q) fun g => ∃ f, P f ∧
        g = { f with mode := s.machine.modes.granted mode })
      (fun _ => Busy s (n :: q) P) t := by
  unfold chmod
  rw [wp_bind]
  refine wp_attempt (fun _ => ?_) fun _ _ => h
  rw [wp_bind]
  refine wp_find (fun p e hp he => ?_) (fun _ => h) fun _ _ _ => h
  rw [(h.lookup hq).2] at hp
  obtain rfl := Option.some.inj hp
  obtain ⟨f, hworking, -⟩ := h.file
  have hnode : t.machine.disk.node (n :: q) = s.machine.disk.next := by
    rw [hworking.node, Function.update_self]
  rw [wp_modify, hnode, ← hworking.same.modes]
  exact h.put fun f => { f with mode := t.machine.modes.granted mode }

/-- What the machine is like once the target leads to the file. -/
structure Placed (s : Server) (x : Place) (n : Name) (dir q : Place) (P : Regular → Prop)
    (t : Server) : Prop where
  entry : ∀ p, t.machine.disk.tree.entry p =
    if p = n :: q then some .regular else s.machine.disk.tree.entry p
  same : Machine.Same s.machine t.machine
  place : t.machine.host.lookup (text (n :: dir)) = some (n :: q)
  look : ∃ f, t.machine.look (text (n :: dir)) = some f ∧ P f
  seen : ∀ m ∈ t.seen, m ∈ s.seen ∨ Transient s.machine x m
  driver : t.driver = s.driver

private theorem wp_renameCall {k : Name} (h : Busy s (k :: q) P t)
    (hq : s.machine.host.lookup (text dir) = some q)
    (hloose : s.machine.disk.tree.Loose s.machine.maxLinks (n :: dir)) :
    wp (renameCall F (k :: dir) (n :: dir)) (fun _ => Placed s (k :: q) n dir q P)
      (fun _ => Busy s (k :: q) P) t := by
  obtain ⟨hdir, -⟩ := h.lookup hq
  unfold renameCall
  rw [wp_bind]
  refine wp_attempt (fun _ => ?_) fun _ _ => h
  rw [wp_bind]
  refine wp_spot (fun q₁ hq₁ => ?_) fun _ _ => h
  rw [hdir] at hq₁
  obtain rfl := Option.some.inj hq₁
  rw [wp_bind]
  refine wp_spot (fun q₂ hq₂ => ?_) fun _ _ => h
  rw [hdir] at hq₂
  obtain rfl := Option.some.inj hq₂
  refine wp_onDisk (fun d hd => ?_) fun _ _ => h
  obtain ⟨f, hworking, hf⟩ := h.file
  obtain ⟨hentry, hsame, hplace, hlook⟩ := hworking.rename hd hq hloose
  refine ⟨fun p => ?_, hsame, hplace, ⟨f, hlook, hf⟩, fun m hm => ?_, h.driver⟩
  · rw [Server.moved, Machine.disk_withDisk]
    exact hentry p
  · rcases List.mem_cons.mp hm with rfl | hm
    · exact .inr (.inr ⟨f, hworking⟩)
    · exact h.seen m hm

/-- What the machine is like when the temporary file has been cleaned up, if that did not fail. -/
structure Tidied (F : Faults) (s : Server) (x : Place) (t : Server) : Prop where
  entry : F.fails .tidy = none → ∀ p, t.machine.disk.tree.entry p = s.machine.disk.tree.entry p
  grown : ∀ p, (s.machine.disk.tree.entry p).isSome = true →
    t.machine.disk.tree.entry p = s.machine.disk.tree.entry p
  same : Machine.Same s.machine t.machine
  look : ∀ full, Apart s.machine full x → t.machine.look (text full) = s.machine.look (text full)
  seen : ∀ m ∈ t.seen, m ∈ s.seen ∨ Transient s.machine x m
  driver : t.driver = s.driver

private theorem Busy.tidied (h : Busy s x P t) (htidy : F.fails .tidy ≠ none) : Tidied F s x t := by
  obtain ⟨f, hworking, -⟩ := h.file
  refine ⟨fun hnone => absurd hnone htidy, fun p hp => hworking.entry_ne ?_, hworking.same,
    fun full => hworking.look, h.seen, h.driver⟩
  rintro rfl
  rw [hworking.free] at hp
  cases hp

private theorem wp_tidy {k : Name} {E : DriverError → Server → Prop} {Q : Unit → Server → Prop}
    (h : Busy s (k :: q) P t) (hq : s.machine.host.lookup (text dir) = some q)
    (hQ : ∀ u, Tidied F s (k :: q) u → Q () u) :
    wp (rescue (unlinkCall F .tidy (k :: dir)) fun _ => pure ()) Q E t := by
  obtain ⟨hdir, -⟩ := h.lookup hq
  rw [wp_rescue]
  unfold unlinkCall
  rw [wp_bind]
  refine wp_attempt (fun _ => ?_) fun fault hfails => ?_
  · rw [wp_bind]
    refine wp_spot (fun q₁ hq₁ => ?_) fun _ hnone => ?_
    · rw [hdir] at hq₁
      obtain rfl := Option.some.inj hq₁
      obtain ⟨f, hworking, -⟩ := h.file
      obtain ⟨d, hd⟩ := hworking.exists_unlink
      refine wp_onDisk (fun d hd => hQ _ ?_) fun errno herror => ?_
      · obtain ⟨hentry, hsame, hlook⟩ := hworking.unlink hd
        refine ⟨fun _ p => ?_, fun p _ => ?_, hsame, fun full _ => hlook full, fun m hm => ?_,
          h.driver⟩
        · rw [Server.moved, Machine.disk_withDisk]
          exact hentry p
        · rw [Server.moved, Machine.disk_withDisk]
          exact hentry p
        · rcases List.mem_cons.mp hm with rfl | hm
          · exact .inr (.inr ⟨f, hworking⟩)
          · exact h.seen m hm
      · rw [hd] at herror
        cases herror
    · rw [hdir] at hnone
      cases hnone
  · exact hQ t (h.tidied (by simp [hfails]))

/-- The temporary file is made under one of the drawn names, with its mode and nothing in it. -/
theorem wp_openTemp (names : List Name) :
    wp (openTemp F dir mode names)
      (fun r t => ∃ k ∈ names, ∃ q, r = (s.machine.disk.next, k :: dir) ∧
        s.machine.host.lookup (text dir) = some q ∧
        Busy s (k :: q) (fun f => f = { mode := s.machine.modes.created mode }) t)
      (fun _ t => t = s) s := by
  induction names with
  | nil => exact rfl
  | cons k names ih =>
      unfold openTemp
      rw [wp_rescue]
      have hagain : ∀ errno, wp (if errno = .exist then openTemp F dir mode names else throw errno)
          (fun r t => ∃ k' ∈ k :: names, ∃ q, r = (s.machine.disk.next, k' :: dir) ∧
            s.machine.host.lookup (text dir) = some q ∧
            Busy s (k' :: q) (fun f => f = { mode := s.machine.modes.created mode }) t)
          (fun _ t => t = s) s := by
        intro errno
        split
        · refine wp_mono ih (fun r t h => ?_) fun _ _ h => h
          obtain ⟨k', hk', h⟩ := h
          exact ⟨k', List.mem_cons_of_mem k hk', h⟩
        · exact rfl
      rw [wp_bind]
      refine wp_attempt (fun _ => ?_) fun fault _ => hagain fault.errno
      rw [wp_bind]
      refine wp_spot (fun q hq => ?_) fun errno _ => hagain errno
      rw [wp_bind, wp_get, wp_bind]
      refine wp_onDisk (fun d hd => ?_) fun errno _ => hagain errno
      refine ⟨k, List.mem_cons_self, q, rfl, hq, ⟨_, working_of_create hd, rfl⟩, fun m hm => ?_,
        rfl⟩
      rcases List.mem_cons.mp hm with rfl | hm
      · exact .inr (.inl rfl)
      · exact .inl hm

/-- What `_stat_regular` has found: nothing, or a regular file with the mode. -/
structure Found (m : Machine) (full : Place) (st : Option ℕ) : Prop where
  look : (m.look (text full)).map Regular.mode = st
  loose : m.disk.tree.Loose m.maxLinks full

/-- `_stat_regular` changes nothing and returns what it finds. -/
theorem wp_statRegular {c : Call} {path : String} :
    wp (LocalFsDriver.statRegular F c full path)
      (fun st t => t = s ∧ Found s.machine full st) (fun _ t => t = s) s := by
  unfold LocalFsDriver.statRegular
  rw [wp_bind, wp_rescue, wp_map]
  unfold stat
  rw [wp_bind]
  refine wp_attempt (fun _ => ?_) fun fault _ => ?_
  · refine wp_find (fun p e hp he => ?_) (fun hnone => ?_) fun p hp hmissing => ?_
    · have hloose : s.machine.disk.tree.isDir p = false →
          s.machine.disk.tree.Loose s.machine.maxLinks full := fun hdir =>
        .inr ⟨p, by rw [← lookup_host, hp], hdir⟩
      cases e with
      | directory st => exact rfl
      | regular =>
          refine ⟨rfl, ?_, hloose ?_⟩
          · unfold Machine.look
            simp only [hp, he]
            rfl
          · simp only [Tree.isDir, he]
      | special => exact rfl
      | link target => exact rfl
    · split
      · rename_i hnoent
        refine ⟨rfl, ?_, .inl ⟨?_, ?_⟩⟩
        · unfold Machine.look
          rw [hnone]
          rfl
        · rw [← lookup_host, hnone]
        · rw [← hnoent, Machine.blame, start, if_pos (isAbsolute_text full)]
      · exact rfl
    · rw [if_pos rfl]
      refine ⟨rfl, ?_, .inr ⟨p, by rw [← lookup_host, hp], Tree.isDir_of_none hmissing⟩⟩
      unfold Machine.look
      simp only [hp, hmissing, Option.map_none]
  · have hne : fault.errno ≠ .noent := by cases fault <;> simp [Fault.errno]
    rw [if_neg hne]
    exact rfl

end Calls

/-! ### Replacing the target -/

section Replace

variable {F : Faults} {s t : Server} {full : Place} {path : String} {content : List UInt8}
  {mode : ℕ}

/-- The states on the way had the temporary file at most. -/
def OnTheWay (F : Faults) (s : Server) (full : Place) (t : Server) : Prop :=
  ∀ m ∈ t.seen, m ∈ s.seen ∨ ∃ k ∈ F.names, ∃ q,
    s.machine.host.lookup (text full.tail) = some q ∧ Transient s.machine (k :: q) m

/-- The mode that the target ends up with. -/
def finalMode (m : Machine) (full : Place) (content : List UInt8) (createMode : ℕ) : ℕ :=
  match m.look (text full) with
  | some f => m.modes.granted f.mode
  | none => m.modes.filled (m.modes.created createMode) content

/-- The content is in place. -/
structure Stored (F : Faults) (s : Server) (full : Place) (content : List UInt8) (createMode : ℕ)
    (t : Server) : Prop where
  entry : ∃ n dir q, full = n :: dir ∧ s.machine.host.lookup (text dir) = some q ∧
    t.machine.host.lookup (text full) = some (n :: q) ∧ ∀ p, t.machine.disk.tree.entry p =
      if p = n :: q then some .regular else s.machine.disk.tree.entry p
  same : Machine.Same s.machine t.machine
  loose : s.machine.disk.tree.Loose s.machine.maxLinks full
  look : t.machine.look (text full) = some ⟨content, finalMode s.machine full content createMode⟩
  seen : OnTheWay F s full t
  driver : t.driver = s.driver

/-- Nothing has changed, apart from a temporary file whose clean-up failed. -/
structure Undone (F : Faults) (s : Server) (full : Place) (t : Server) : Prop where
  entry : F.fails .tidy = none → ∀ p, t.machine.disk.tree.entry p = s.machine.disk.tree.entry p
  grown : ∀ p, (s.machine.disk.tree.entry p).isSome = true →
    t.machine.disk.tree.entry p = s.machine.disk.tree.entry p
  same : Machine.Same s.machine t.machine
  look : (∀ k ∈ F.names, ∀ q, s.machine.host.lookup (text full.tail) = some q →
    Apart s.machine full (k :: q)) → t.machine.look (text full) = s.machine.look (text full)
  seen : OnTheWay F s full t
  driver : t.driver = s.driver

private theorem undone_refl (F : Faults) (s : Server) (full : Place) : Undone F s full s :=
  ⟨fun _ _ => rfl, fun _ _ => rfl, .refl _, fun _ => rfl, fun _ hm => .inl hm, rfl⟩

private theorem Tidied.undone {k : Name} {q : Place} (h : Tidied F s (k :: q) t) (hk : k ∈ F.names)
    (hq : s.machine.host.lookup (text full.tail) = some q) : Undone F s full t :=
  ⟨h.entry, h.grown, h.same, fun hapart => h.look full (hapart k hk q hq),
    fun m hm => (h.seen m hm).imp_right fun hm => ⟨k, hk, q, hq, hm⟩, h.driver⟩

/-- `_replace` puts the content in place, or undoes what it did. -/
theorem wp_replace : wp (LocalFsDriver.replace F full path content mode)
    (fun r t => r = ⟨content.length, (s.machine.look (text full)).isNone⟩ ∧
      Stored F s full content mode t)
    (fun _ t => Undone F s full t) s := by
  unfold LocalFsDriver.replace
  rw [wp_bind]
  refine wp_mono wp_statRegular ?_ ?_
  swap
  · rintro _ t rfl
    exact undone_refl F t full
  rintro st t ⟨rfl, hlook, hloose⟩
  obtain ⟨n, dir, rfl⟩ := List.exists_cons_of_ne_nil hloose.ne_nil
  rw [wp_bind, wp_rescue]
  refine wp_mono (wp_openTemp F.names) ?_ ?_
  swap
  · rintro _ u rfl
    exact undone_refl F _ _
  rintro _ u ⟨k, hk, q, rfl, hq, hbusy⟩
  -- Whatever fails from here on, the temporary file is all there is to remove.
  have htidy : ∀ {P : Regular → Prop} {v : Server} {errno : Errno} {Q : Unit → Server → Prop},
      Busy t (k :: q) P v → wp (do
        rescue (unlinkCall F .tidy (k :: dir)) fun _ => pure ()
        throw (translate path errno) : Serving Unit) Q
        (fun _ v => Undone F t (n :: dir) v) v := fun hv => by
    rw [wp_bind]
    exact wp_tidy hv hq fun w hw => hw.undone hk hq
  have hpartly : Busy t (k :: q) (Partly t.machine.modes content
      (t.machine.modes.created (if st.isNone then mode else 0o600))) u := by
    refine hbusy.mono ?_
    rintro f rfl
    exact ⟨List.nil_prefix, rfl⟩
  rw [wp_bind, wp_rescue, wp_bind]
  refine wp_mono (wp_writeTemp hpartly) (fun _ v hv => ?_) fun _ v hv => htidy hv
  have hplaced : ∀ {P : Regular → Prop} {w : Server}, Busy t (k :: q) P w →
      (∀ f, P f → f = ⟨content, finalMode t.machine (n :: dir) content mode⟩) →
      wp (renameCall F (k :: dir) (n :: dir))
        (fun _ w => Stored F t (n :: dir) content mode w) (fun _ => Busy t (k :: q) P) w :=
    fun hw hP => by
      refine wp_mono (wp_renameCall hw hq hloose) (fun _ w' hw' => ?_) fun _ _ h => h
      obtain ⟨f, hf, hPf⟩ := hw'.look
      exact ⟨⟨n, dir, q, rfl, hq, hw'.place, hw'.entry⟩, hw'.same, hloose,
        hf.trans (congrArg some (hP f hPf)),
        fun m hm => (hw'.seen m hm).imp_right fun hm => ⟨k, hk, q, hq, hm⟩, hw'.driver⟩
  cases hold : t.machine.look (text (n :: dir)) with
  | none =>
      rw [hold, Option.map_none] at hlook
      subst hlook
      refine wp_mono (hplaced hv ?_) (fun _ w hw => ⟨rfl, hw⟩) fun _ w hw => htidy hw
      rintro f rfl
      rw [finalMode, hold]
      rfl
  | some old =>
      rw [hold, Option.map_some] at hlook
      subst hlook
      rw [wp_bind]
      refine wp_mono (wp_chmod hv hq) (fun _ w hw => ?_) fun _ w hw => htidy hw
      refine wp_mono (hplaced hw ?_) (fun _ w' hw' => ⟨rfl, hw'⟩) fun _ w' hw' => htidy hw'
      rintro f ⟨g, rfl, rfl⟩
      rw [finalMode, hold]

private theorem wp_door {Q : Place → Server → Prop} {E : DriverError → Server → Prop}
    (hQ : ∀ drv, Q (s.machine.host.realpath path.toList) { s with driver := drv })
    (hE : ∀ drv e, E e { s with driver := drv }) : wp (LocalFsDriver.door path) Q E s := by
  unfold LocalFsDriver.door
  rw [wp_bind, wp_get, wp_bind, wp_set]
  cases hdoor : (s.driver.resolve s.machine.host path).2 with
  | ok full =>
      obtain ⟨rfl, -⟩ := resolve_eq_ok.mp hdoor
      exact hQ _
  | error e => exact hE _ _

/-- `_require` changes nothing and finds the file. -/
theorem wp_require {c : Call} : wp (LocalFsDriver.require F c full path)
    (fun mode t => t = s ∧ Found s.machine full (some mode)) (fun _ t => t = s) s := by
  unfold LocalFsDriver.require
  rw [wp_bind]
  refine wp_mono wp_statRegular ?_ fun _ _ h => h
  rintro st t ⟨rfl, hfound⟩
  cases st with
  | none => exact rfl
  | some mode => exact ⟨rfl, hfound⟩

/-- The content that is read is the one in view. -/
theorem wp_contents {f : Regular} (hf : s.machine.look (text full) = some f) :
    wp (LocalFsDriver.contents F full) (fun content t => t = s ∧ content = f.content)
      (fun _ t => t = s) s := by
  unfold LocalFsDriver.contents
  rw [wp_bind]
  refine wp_attempt (fun _ => ?_) fun _ _ => rfl
  rw [wp_bind]
  refine wp_find (fun p e hp he => ?_) (fun _ => rfl) fun _ _ _ => rfl
  rw [wp_bind]
  refine wp_attempt (fun _ => ?_) fun _ _ => rfl
  rw [wp_bind, wp_get, wp_pure]
  refine ⟨rfl, ?_⟩
  unfold Machine.look at hf
  simp only [hp, he] at hf
  cases e with
  | regular => rw [← Option.some.inj hf]
  | directory _ => cases hf
  | special => cases hf
  | link _ => cases hf

end Replace

/-! ### Atomicity -/

/-- A write or a copy. -/
inductive Writing
  | write (path : String) (content : List UInt8)
  | copy (src dst : String)
deriving Repr

namespace Writing

def run (F : Faults) : Writing → Serving WriteResult
  | write path content => LocalFsDriver.write F path content
  | copy src dst => LocalFsDriver.copy F src dst

/-- The resolved path of the target. -/
def target (m : Machine) : Writing → Place
  | write path _ => m.host.realpath path.toList
  | copy _ dst => m.host.realpath dst.toList

/-- What is to be written, and the mode of a fresh target before the umask. -/
def source (m : Machine) : Writing → Option Regular
  | write _ content => some ⟨content, 0o666⟩
  | copy src _ => m.look (text (m.host.realpath src.toList))

end Writing

/-- No name drawn for the temporary file is that of the target, where the target is missing. -/
def Unnamed (F : Faults) (m : Machine) (full : Place) : Prop :=
  ∀ k ∈ F.names, ∀ q, m.host.lookup (text full.tail) = some q → Apart m full (k :: q)

/-- The bits of a file that is replaced, or those that a fresh one is created with. -/
def expectedMode (m : Machine) (full : Place) (createMode : ℕ) : ℕ :=
  match m.look (text full) with
  | some f => f.mode
  | none => m.modes.created createMode

/-- The target has the content and the permission bits, and nothing else has changed. -/
structure Written (s : Server) (full : Place) (source : Regular) (w : WriteResult) (t : Server) :
    Prop where
  look : t.machine.look (text full) =
    some ⟨source.content, finalMode s.machine full source.content source.mode⟩
  bits : finalMode s.machine full source.content source.mode % 0o2000 =
    expectedMode s.machine full source.mode % 0o2000
  result : w = ⟨source.content.length, (s.machine.look (text full)).isNone⟩
  entry : ∀ p, t.machine.host.lookup (text full) ≠ some p →
    t.machine.disk.tree.entry p = s.machine.disk.tree.entry p

/-- The target is as it was, and so is everything else unless the clean-up failed. -/
structure Untouched (F : Faults) (s : Server) (full : Place) (t : Server) : Prop where
  look : t.machine.look (text full) = s.machine.look (text full)
  entry : F.fails .tidy = none → ∀ p, t.machine.disk.tree.entry p = s.machine.disk.tree.entry p

/-- Who looked at the target on the way saw it as it was. -/
def OldInView (s : Server) (full : Place) (t : Server) : Prop :=
  ∀ m ∈ t.seen, m ∈ s.seen ∨ m.look (text full) = s.machine.look (text full)

private theorem finalMode_bits (m : Machine) (full : Place) (content : List UInt8) (mode : ℕ) :
    finalMode m full content mode % 0o2000 = expectedMode m full mode % 0o2000 := by
  unfold finalMode expectedMode
  cases m.look (text full) with
  | some f => exact m.modes.granted_bits f.mode
  | none =>
      cases content with
      | nil => rfl
      | cons b content => exact m.modes.written_bits _

private theorem OnTheWay.oldInView {F : Faults} {s t : Server} {full : Place}
    (h : OnTheWay F s full t) (hunnamed : Unnamed F s.machine full) : OldInView s full t := by
  intro m hm
  refine (h m hm).imp_right ?_
  rintro ⟨k, hk, q, hq, rfl | ⟨f, hworking⟩⟩
  · rfl
  · exact hworking.look (hunnamed k hk q hq)

private theorem wp_replace_atomic {F : Faults} {s : Server} {full : Place} {path : String}
    (source : Regular) (hunnamed : Unnamed F s.machine full) :
    wp (LocalFsDriver.replace F full path source.content source.mode)
      (fun w t => Written s full source w t ∧ OldInView s full t)
      (fun _ t => Untouched F s full t ∧ OldInView s full t) s := by
  refine wp_mono wp_replace ?_ ?_
  · rintro w t ⟨hw, hstored⟩
    obtain ⟨n, dir, q, -, -, hplace, hentry⟩ := hstored.entry
    refine ⟨⟨hstored.look, finalMode_bits _ _ _ _, hw, fun p hp => ?_⟩,
      hstored.seen.oldInView hunnamed⟩
    rw [hentry, if_neg]
    rintro rfl
    exact hp hplace
  · rintro _ t hundone
    exact ⟨⟨hundone.look hunnamed, hundone.entry⟩, hundone.seen.oldInView hunnamed⟩

private theorem wp_writing {F : Faults} {s : Server} {op : Writing}
    (hunnamed : Unnamed F s.machine (op.target s.machine)) :
    wp (op.run F)
      (fun w t => (∃ source, op.source s.machine = some source ∧
        Written s (op.target s.machine) source w t) ∧ OldInView s (op.target s.machine) t)
      (fun _ t => Untouched F s (op.target s.machine) t ∧
        OldInView s (op.target s.machine) t) s := by
  have hrefl : ∀ full drv, Untouched F s full { s with driver := drv } ∧
      OldInView s full { s with driver := drv } := fun full drv =>
    ⟨⟨rfl, fun _ _ => rfl⟩, fun m hm => .inl hm⟩
  cases op with
  | write path content =>
      unfold Writing.run LocalFsDriver.write
      rw [wp_bind]
      refine wp_door (fun drv => ?_) fun drv _ => hrefl _ drv
      refine wp_mono (wp_replace_atomic ⟨content, 0o666⟩ hunnamed) ?_ ?_
      · rintro w t ⟨⟨hlook, hbits, hresult, hentry⟩, hview⟩
        exact ⟨⟨_, rfl, hlook, hbits, hresult, hentry⟩, hview⟩
      · rintro _ t ⟨⟨hlook, hentry⟩, hview⟩
        exact ⟨⟨hlook, hentry⟩, hview⟩
  | copy src dst =>
      unfold Writing.run LocalFsDriver.copy
      rw [wp_bind]
      refine wp_door (fun drv => ?_) fun drv _ => hrefl _ drv
      rw [wp_bind]
      refine wp_door (fun drv' => ?_) fun drv' _ => hrefl _ drv'
      split
      · exact hrefl _ drv'
      · rw [wp_bind]
        refine wp_mono wp_require ?_ ?_
        swap
        · rintro _ t rfl
          exact hrefl _ drv'
        rintro mode t ⟨rfl, hfound⟩
        obtain ⟨f, hf, rfl⟩ := Option.map_eq_some_iff.mp hfound.look
        rw [wp_bind, wp_rescue]
        refine wp_mono (wp_contents hf) ?_ ?_
        swap
        · rintro _ t rfl
          exact hrefl _ drv'
        rintro content t ⟨rfl, rfl⟩
        refine wp_mono (wp_replace_atomic f hunnamed) ?_ ?_
        · rintro w t ⟨⟨hlook, hbits, hresult, hentry⟩, hview⟩
          exact ⟨⟨f, hf, hlook, hbits, hresult, hentry⟩, hview⟩
        · rintro _ t ⟨⟨hlook, hentry⟩, hview⟩
          exact ⟨⟨hlook, hentry⟩, hview⟩

/-- Whatever fails on the way: a write or a copy that raises leaves the target as it was, with no
temporary file unless the clean-up failed; one that succeeds gives it the content and the bits; and
who looks at the target on the way sees it as it was. -/
theorem writing_atomic {F : Faults} {s : Server} {op : Writing}
    (h : Unnamed F s.machine (op.target s.machine)) :
    (∀ w t, outcome (op.run F) s = (.ok w, t) →
      (∃ source, op.source s.machine = some source ∧
        Written s (op.target s.machine) source w t) ∧ OldInView s (op.target s.machine) t) ∧
    ∀ e t, outcome (op.run F) s = (.error e, t) →
      Untouched F s (op.target s.machine) t ∧ OldInView s (op.target s.machine) t := by
  have hwp := wp_writing h
  constructor
  · intro w t hok
    rw [wp, hok] at hwp
    exact hwp
  · intro e t herror
    rw [wp, herror] at hwp
    exact hwp

def srv : Name := .of ['s', 'r', 'v']

def nameA : Name := .of ['a']

/-- `/srv/a`, a file of the mode `0o4755`; a write clears `S_ISUID` and `S_ISGID`. -/
def setuidServer : Server where
  driver := ⟨"/srv", []⟩
  machine :=
    { disk := .ofEntries ⟨0, 0, 0⟩ [([srv], .directory ⟨0, 1, 0⟩),
        ([nameA, srv], .regular)] (fun _ => ⟨[1], 0o4755⟩) (by decide)
      cwd := []
      cwd_isDir := rfl
      euid := 1
      maxLinks := 40
      modes :=
        { umask := 0o022
          written := fun mode => mode % 0o2000
          granted := id
          written_bits := fun mode => by omega
          granted_bits := fun _ => rfl
          written_written := fun mode => by omega }
      tempdir := ['/', 't', 'm', 'p']
      tempdir_absolute := rfl }

/-- Nothing fails; the names are drawn. -/
def smooth (names : List Name) : Faults where
  fails _ := none
  reached _ := 0
  names := names

/-- A name of a temporary file, as `secrets.token_hex(8)` might draw it. -/
def drawn : Name := .of ['.', 'j', 'e', 't', 't', 'y', '-', 't', 'm', 'p', '-', '0', '0', '1', '1',
  '2', '2', '3', '3', '4', '4', '5', '5', '6', '6', '7', '7']

def setuidCopy : Writing := .copy "/srv/a" "/srv/b"

def drawnWrite : Writing := .write "/srv/.jetty-tmp-0011223344556677" [2]

/-- A file with the set-user-ID bit is copied to a new name. -/
theorem writing_atomic_setuid :
    Unnamed (smooth [drawn]) setuidServer.machine (setuidCopy.target setuidServer.machine) ∧
      ∃ w t, outcome (setuidCopy.run (smooth [drawn])) setuidServer = (.ok w, t) ∧
        OldInView setuidServer (setuidCopy.target setuidServer.machine) t := by
  have hunnamed : Unnamed (smooth [drawn]) setuidServer.machine
      (setuidCopy.target setuidServer.machine) := by
    intro k hk q hq
    obtain rfl := List.mem_singleton.mp hk
    have hlookup : setuidServer.machine.host.lookup
        (text (setuidCopy.target setuidServer.machine)) =
          some [.of ['b'], .of ['s', 'r', 'v']] := by decide +kernel
    rw [Apart, hlookup]
    intro heq
    obtain ⟨hname, -⟩ := List.cons.inj (Option.some.inj heq)
    revert hname
    decide
  refine ⟨hunnamed, ?_⟩
  obtain ⟨w, t, hrun⟩ := exists_ok_of_isOk (x := setuidCopy.run (smooth [drawn]))
    (s := setuidServer) (by decide +kernel)
  exact ⟨w, t, hrun, ((writing_atomic hunnamed).1 w t hrun).2⟩

/-- The copy of a file with `S_ISUID` does not get all the bits it is created with; and where the
name drawn for the temporary file is that of a missing target, who looks at the target sees it
empty. -/
theorem not_all_bits_and_not_in_full :
    (¬ ∀ (F : Faults) (s : Server) (op : Writing) (w : WriteResult) (t : Server),
      outcome (op.run F) s = (.ok w, t) → ∃ source, op.source s.machine = some source ∧
        t.machine.look (text (op.target s.machine)) = some ⟨source.content,
          expectedMode s.machine (op.target s.machine) source.mode⟩) ∧
    ¬ ∀ (F : Faults) (s : Server) (op : Writing) (w : WriteResult) (t : Server),
      outcome (op.run F) s = (.ok w, t) → ∀ m ∈ t.seen, m ∈ s.seen ∨
        m.look (text (op.target s.machine)) = s.machine.look (text (op.target s.machine)) ∨
        m.look (text (op.target s.machine)) = t.machine.look (text (op.target s.machine)) := by
  constructor
  · intro h
    obtain ⟨w, t, hrun⟩ := exists_ok_of_isOk (x := setuidCopy.run (smooth [drawn]))
      (s := setuidServer) (by decide +kernel)
    obtain ⟨source, hsource, hlook⟩ := h _ _ _ w t hrun
    have hcopied : (outcome (setuidCopy.run (smooth [drawn])) setuidServer).2.machine.look
        (text (setuidCopy.target setuidServer.machine)) = some ⟨[1], 0o755⟩ := by
      decide +kernel
    have hread : setuidCopy.source setuidServer.machine = some ⟨[1], 0o4755⟩ := by
      decide +kernel
    have hbits : expectedMode setuidServer.machine (setuidCopy.target setuidServer.machine)
        0o4755 = 0o4755 := by
      decide +kernel
    rw [hread] at hsource
    obtain rfl := Option.some.inj hsource
    rw [hrun, hlook, hbits] at hcopied
    cases hcopied
  · intro h
    obtain ⟨w, t, hrun⟩ := exists_ok_of_isOk (x := drawnWrite.run (smooth [drawn]))
      (s := setuidServer) (by decide +kernel)
    have hempty : ((outcome (drawnWrite.run (smooth [drawn])) setuidServer).2.seen.any fun m =>
        m.look (text (drawnWrite.target setuidServer.machine)) = some ⟨[], 0o644⟩) = true := by
      decide +kernel
    have hlast : (outcome (drawnWrite.run (smooth [drawn])) setuidServer).2.machine.look
        (text (drawnWrite.target setuidServer.machine)) = some ⟨[2], 0o644⟩ := by
      decide +kernel
    have hfirst : setuidServer.machine.look
        (text (drawnWrite.target setuidServer.machine)) = none := by
      decide +kernel
    rw [hrun] at hempty hlast
    obtain ⟨m, hm, hlook⟩ := List.any_eq_true.mp hempty
    rw [decide_eq_true_iff] at hlook
    have hview := h _ _ _ w t hrun m hm
    rw [hlook, hfirst, hlast] at hview
    rcases hview with hseen | hold | hnew
    · cases hseen
    · cases hold
    · cases hnew

end Jetty.Filesystem
