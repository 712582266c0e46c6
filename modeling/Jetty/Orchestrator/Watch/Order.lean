import Jetty.Orchestrator.Watch.Stream

/-!
# The order of a walk

The sorted walk comes to the entries of a tree in one order, whatever order the directories were
listed in. The order is that of the paths, in which the entries of a directory come before what is
below it, directories first.
-/

namespace Jetty.Orchestrator.Watch

variable (o : NameOrder)

namespace NameOrder

/-- The strict order of the names. -/
def lt (a b : Name) : Prop := o.le a b = true ∧ a ≠ b

private theorem lt_asymm {a b : Name} (hab : o.lt a b) (hba : o.lt b a) : False :=
  hab.2 (o.antisymm hab.1 hba.1)

private theorem lt_trans {a b c : Name} (hab : o.lt a b) (hbc : o.lt b c) : o.lt a c := by
  refine ⟨o.trans hab.1 hbc.1, ?_⟩
  rintro rfl
  exact o.lt_asymm hab hbc

private theorem lt_of_not_le {a b : Name} (h : ¬o.le a b = true) : o.lt b a := by
  have htotal := o.total a b
  rw [Bool.or_eq_true] at htotal
  refine ⟨htotal.resolve_left h, ?_⟩
  rintro rfl
  exact h (htotal.elim id id)

/-- One step of a path: an entry of the directory, or a directory that is entered. -/
def stepLt (a b : ℕ × Name) : Prop := a.1 < b.1 ∨ a.1 = b.1 ∧ o.lt a.2 b.2

end NameOrder

instance : Std.Asymm o.stepLt where
  asymm a b hab hba := by
    rcases hab with hab | ⟨heq, hab⟩
    · rcases hba with hba | ⟨heq, -⟩
      · exact Nat.lt_asymm hab hba
      · exact Nat.ne_of_gt hab heq
    · rcases hba with hba | ⟨-, hba⟩
      · exact Nat.ne_of_gt hba heq
      · exact o.lt_asymm hab hba

def Kind.rank : Kind → ℕ
  | directory => 0
  | file _ => 1

/-- The steps to an entry. -/
def Entry.key (e : Entry) : List (ℕ × Name) :=
  e.parent.map (2, ·) ++ [(e.kind.rank, e.name)]

/-- One entry comes before the other. -/
def Before (e e' : Entry) : Prop := List.Lex o.stepLt e.key e'.key

private theorem Before.asymm {e e' : Entry} (h : Before o e e') : ¬Before o e' e :=
  Std.Asymm.asymm (r := List.Lex o.stepLt) _ _ h

/-- Two lists in this order with the same members are the same list. -/
theorem eq_of_pairwise_before {l l' : List Entry} (hl : l.Pairwise (Before o))
    (hl' : l'.Pairwise (Before o)) (hmem : ∀ e, e ∈ l ↔ e ∈ l') : l = l' := by
  have hne {e e' : Entry} (h : Before o e e') : e ≠ e' := by
    rintro rfl
    exact h.asymm o h
  have hperm : l.Perm l' :=
    (List.perm_ext_iff_of_nodup (hl.imp hne) (hl'.imp hne)).mpr hmem
  refine hperm.eq_of_pairwise ?_ hl hl'
  exact fun e e' _ _ h h' => absurd h' (h.asymm o)

namespace Dirs

/-- Every level in strict order. -/
def Sorted : Dirs → Prop
  | nil => True
  | link name rest => (∀ n ∈ rest.names, o.lt name n) ∧ rest.Sorted
  | dir name files subs rest => (∀ n ∈ rest.names, o.lt name n) ∧
      files.Pairwise (fun a b => o.lt a.1 b.1) ∧ subs.Sorted ∧ rest.Sorted

section Insert

variable {o} {name : Name} {cons : Dirs → Dirs}

private theorem mem_names_insert (hcons : ∀ rest, (cons rest).names = name :: rest.names) {n : Name}
    {ds : Dirs} : n ∈ (insert o name cons ds).names ↔ n = name ∨ n ∈ ds.names := by
  induction ds with
  | nil => simp [insert, hcons, names]
  | link name' rest ih =>
      rw [insert]
      split <;> simp [hcons, names, ih, or_left_comm]
  | dir name' files' subs' rest _ ih =>
      rw [insert]
      split <;> simp [hcons, names, ih, or_left_comm]

/-- A name that is put in its place leaves the order strict. -/
theorem Sorted.insert {P : Prop} (hP : P) (hcons : ∀ rest, (cons rest).names = name :: rest.names)
    (hsorted : ∀ rest, (cons rest).Sorted o ↔ (∀ n ∈ rest.names, o.lt name n) ∧ P ∧ rest.Sorted o)
    {ds : Dirs} (hname : name ∉ ds.names) (hds : ds.Sorted o) :
    (ds.insert o name cons).Sorted o := by
  induction ds with
  | nil => exact (hsorted nil).mpr ⟨nofun, hP, trivial⟩
  | link name' rest ih =>
      obtain ⟨hne, hrest⟩ := not_or.mp (List.mem_cons.not.mp hname)
      rw [Dirs.insert]
      split
      · rename_i hle
        have hlt : o.lt name name' := ⟨hle, hne⟩
        refine (hsorted _).mpr ⟨?_, hP, hds⟩
        exact List.forall_mem_cons.mpr ⟨hlt, fun n hn => o.lt_trans hlt (hds.1 n hn)⟩
      · rename_i hle
        refine ⟨fun n hn => ?_, ih hrest hds.2⟩
        rcases (mem_names_insert hcons).mp hn with rfl | hn
        · exact o.lt_of_not_le hle
        · exact hds.1 n hn
  | dir name' files' subs' rest _ ih =>
      obtain ⟨hne, hrest⟩ := not_or.mp (List.mem_cons.not.mp hname)
      rw [Dirs.insert]
      split
      · rename_i hle
        have hlt : o.lt name name' := ⟨hle, hne⟩
        refine (hsorted _).mpr ⟨?_, hP, hds⟩
        exact List.forall_mem_cons.mpr ⟨hlt, fun n hn => o.lt_trans hlt (hds.1 n hn)⟩
      · rename_i hle
        refine ⟨fun n hn => ?_, hds.2.1, hds.2.2.1, ih hrest hds.2.2.2⟩
        rcases (mem_names_insert hcons).mp hn with rfl | hn
        · exact o.lt_of_not_le hle
        · exact hds.1 n hn

end Insert

private theorem Sorted.names_pairwise {ds : Dirs} (h : ds.Sorted o) : ds.names.Pairwise o.lt := by
  induction ds with
  | nil => exact List.Pairwise.nil
  | link name rest ih => exact List.Pairwise.cons h.1 (ih h.2)
  | dir name files subs rest _ ih => exact List.Pairwise.cons h.1 (ih h.2.2.2)

@[simp] theorem mem_names_sort {n : Name} {ds : Dirs} : n ∈ (ds.sort o).names ↔ n ∈ ds.names := by
  induction ds with
  | nil => rfl
  | link name rest ih =>
      rw [sort, mem_names_insert fun _ => rfl, ih, names, List.mem_cons]
  | dir name files subs rest _ ih =>
      rw [sort, mem_names_insert fun _ => rfl, ih, names, List.mem_cons]

private theorem sortFiles_pairwise {files : List File} (hfiles : (files.map Prod.fst).Nodup) :
    (sortFiles o files).Pairwise fun a b => o.lt a.1 b.1 := by
  have hle : (sortFiles o files).Pairwise fun a b => o.le a.1 b.1 = true := by
    apply List.pairwise_mergeSort
    · exact fun _ _ _ => o.trans
    · exact fun a b => o.total a.1 b.1
  have hne : (sortFiles o files).Pairwise fun a b => a.1 ≠ b.1 := by
    have hperm := (List.mergeSort_perm files fun a b => o.le a.1 b.1).map Prod.fst
    exact List.pairwise_map.mp (hperm.nodup_iff.mpr hfiles)
  exact hle.and hne

/-- `sort` leaves every level in strict order. -/
theorem sort_sorted {ds : Dirs} (h : ds.Distinct) : (ds.sort o).Sorted o := by
  induction ds with
  | nil => trivial
  | link name rest ih =>
      have hname : name ∉ (rest.sort o).names := mt (mem_names_sort o).mp h.1
      refine Sorted.insert (P := True) trivial (fun _ => rfl) (fun rest => ?_) hname (ih h.2)
      rw [Sorted, true_and]
  | dir name files subs rest ihsubs ih =>
      obtain ⟨hfresh, hlevel, hsubs, hrest⟩ := h
      have hname : name ∉ (rest.sort o).names := mt (mem_names_sort o).mp hfresh
      have hlevels : (sortFiles o files).Pairwise (fun a b => o.lt a.1 b.1) ∧
          (subs.sort o).Sorted o :=
        ⟨sortFiles_pairwise o (List.nodup_append.mp hlevel).2.1, ihsubs hsubs⟩
      refine Sorted.insert hlevels (fun _ => rfl) (fun rest => ?_) hname (ih hrest)
      rw [Sorted, and_assoc]

end Dirs

private theorem entries_level (path : List Name) (subs : Dirs) (files : List File) :
    entries (level path subs files) = (subs.names.map fun name => ⟨path, name, .directory⟩) ++
      files.map fun file => ⟨path, file.1, .file file.2⟩ := by
  simp only [entries, level, List.filterMap_append, List.filterMap_map]
  simp [Function.comp_def, Token.entry?, List.filterMap_eq_map']

private theorem entries_dir (path : List Name) (name : Name) (files : List File)
    (subs rest : Dirs) : entries (walkBelow path (.dir name files subs rest)) =
      entries (level (path ++ [name]) subs files) ++ entries (walkBelow (path ++ [name]) subs) ++
        entries (walkBelow path rest) := by
  simp only [entries, walkBelow, List.filterMap_cons, List.filterMap_append, Token.entry?]

/-- Below a directory, every entry is behind one of the directories in it. -/
theorem key_below {path : List Name} {ds : Dirs} {e : Entry}
    (h : e ∈ entries (walkBelow path ds)) :
    ∃ name ∈ ds.names, ∃ tail, e.key = path.map (2, ·) ++ (2, name) :: tail := by
  induction ds generalizing path with
  | nil => exact absurd h List.not_mem_nil
  | link name rest ih =>
      obtain ⟨n, hn, tail, hkey⟩ := ih h
      exact ⟨n, List.mem_cons_of_mem _ hn, tail, hkey⟩
  | dir name files subs rest ihsubs ih =>
      rw [entries_dir, List.mem_append, List.mem_append] at h
      rcases h with (h | h) | h
      · have hparent : e.parent = path ++ [name] := by
          rw [entries_level, List.mem_append, List.mem_map, List.mem_map] at h
          rcases h with ⟨_, -, rfl⟩ | ⟨_, -, rfl⟩ <;> rfl
        refine ⟨name, List.mem_cons_self, [(e.kind.rank, e.name)], ?_⟩
        rw [Entry.key, hparent, List.map_append, List.append_assoc]
        rfl
      · obtain ⟨n, -, tail, hkey⟩ := ihsubs h
        refine ⟨name, List.mem_cons_self, (2, n) :: tail, ?_⟩
        rw [hkey, List.map_append, List.append_assoc]
        rfl
      · obtain ⟨n, hn, tail, hkey⟩ := ih h
        exact ⟨n, List.mem_cons_of_mem _ hn, tail, hkey⟩

/-- What is decided at one step of the path. -/
theorem before_of_step {e e' : Entry} {path : List Name} {a b : ℕ × Name}
    {tail tail' : List (ℕ × Name)} (he : e.key = path.map (2, ·) ++ a :: tail)
    (he' : e'.key = path.map (2, ·) ++ b :: tail') (hab : o.stepLt a b) : Before o e e' := by
  rw [Before, he, he']
  exact List.Lex.append_left _ (List.Lex.rel hab) _

/-- The step to an entry of a directory is the last one. -/
theorem key_level {path : List Name} {subs : Dirs} {files : List File} {e : Entry}
    (h : e ∈ entries (level path subs files)) :
    e.key = path.map (2, ·) ++ [(e.kind.rank, e.name)] := by
  rw [entries_level, List.mem_append, List.mem_map, List.mem_map] at h
  rcases h with ⟨_, -, rfl⟩ | ⟨_, -, rfl⟩ <;> rfl

private theorem level_pairwise {path : List Name} {subs : Dirs} {files : List File}
    (hsubs : subs.Sorted o) (hfiles : files.Pairwise fun a b => o.lt a.1 b.1) :
    (entries (level path subs files)).Pairwise (Before o) := by
  rw [entries_level, List.pairwise_append]
  refine ⟨?directories, ?plain, ?across⟩
  case directories =>
    refine List.pairwise_map.mpr ((hsubs.names_pairwise o).imp fun hlt => ?_)
    exact before_of_step o rfl rfl (.inr ⟨rfl, hlt⟩)
  case plain =>
    refine List.pairwise_map.mpr (hfiles.imp fun hlt => ?_)
    exact before_of_step o rfl rfl (.inr ⟨rfl, hlt⟩)
  case across =>
    intro e he e' he'
    obtain ⟨name, -, rfl⟩ := List.mem_map.mp he
    obtain ⟨file, -, rfl⟩ := List.mem_map.mp he'
    exact before_of_step o rfl rfl (.inl Nat.zero_lt_one)

/-- What is below a directory comes after its entries. -/
theorem level_before {path : List Name} {subs : Dirs} {files : List File} {e e' : Entry}
    (he : e ∈ entries (level path subs files)) (he' : e' ∈ entries (walkBelow path subs)) :
    Before o e e' := by
  obtain ⟨name, -, tail, hkey⟩ := key_below he'
  refine before_of_step o (key_level he) hkey (.inl ?_)
  cases e.kind with
  | directory => exact Nat.zero_lt_two
  | file stat => exact Nat.one_lt_two

private theorem walkBelow_pairwise {path : List Name} {ds : Dirs} (hds : ds.Sorted o) :
    (entries (walkBelow path ds)).Pairwise (Before o) := by
  induction ds generalizing path with
  | nil => exact List.Pairwise.nil
  | link name rest ih => exact ih hds.2
  | dir name files subs rest ihsubs ih =>
      obtain ⟨hname, hfiles, hsubs, hrest⟩ := hds
      -- what lies behind this directory is behind its name alone
      have hbehind {e e' : Entry} {tail : List (ℕ × Name)}
          (hkey : e.key = path.map (2, ·) ++ (2, name) :: tail)
          (he' : e' ∈ entries (walkBelow path rest)) : Before o e e' := by
        obtain ⟨n, hn, tail', hkey'⟩ := key_below he'
        exact before_of_step o hkey hkey' (.inr ⟨rfl, hname n hn⟩)
      rw [entries_dir, List.pairwise_append, List.pairwise_append]
      refine ⟨⟨level_pairwise o hsubs hfiles, ihsubs hsubs, ?_⟩, ih hrest, ?_⟩
      · exact fun e he e' he' => level_before o he he'
      · intro e he e' he'
        rcases List.mem_append.mp he with he | he
        · have hkey : e.key = path.map (2, ·) ++ (2, name) :: [(e.kind.rank, e.name)] := by
            rw [key_level he, List.map_append, List.append_assoc]
            rfl
          exact hbehind hkey he'
        · obtain ⟨n, -, tail, hkey⟩ := key_below he
          have hbelow : e.key = path.map (2, ·) ++ (2, name) :: (2, n) :: tail := by
            rw [hkey, List.map_append, List.append_assoc]
            rfl
          exact hbehind hbelow he'

private theorem entries_walk (files : List File) (subs : Dirs) : entries (walk files subs) =
    entries (level [] subs files) ++ entries (walkBelow [] subs) := by
  simp only [entries, walk, List.filterMap_cons, List.filterMap_append, Token.entry?]

/-- The walk of a tree comes to its entries in order. -/
theorem walk_pairwise (T : Tree) : (entries (T.walk o)).Pairwise (Before o) := by
  have hsubs := Dirs.sort_sorted o T.distinct
  have hfiles := Dirs.sortFiles_pairwise o (List.nodup_append.mp T.nodup).2.1
  rw [Tree.walk, entries_walk, List.pairwise_append]
  exact ⟨level_pairwise o hsubs hfiles, walkBelow_pairwise o hsubs,
    fun e he e' he' => level_before o he he'⟩

section Members

variable {o} {path : List Name} {e : Entry}

private theorem mem_entries_insert {name : Name} {cons : Dirs → Dirs} {l : List Entry}
    (hcons : ∀ rest, e ∈ entries (walkBelow path (cons rest)) ↔
      e ∈ l ∨ e ∈ entries (walkBelow path rest)) {ds : Dirs} :
    e ∈ entries (walkBelow path (ds.insert o name cons)) ↔
      e ∈ l ∨ e ∈ entries (walkBelow path ds) := by
  induction ds with
  | nil => exact hcons .nil
  | link name' rest ih =>
      rw [Dirs.insert]
      split
      · exact hcons _
      · exact ih
  | dir name' files' subs' rest _ ih =>
      rw [Dirs.insert]
      split
      · exact hcons _
      · simp only [entries_dir, List.mem_append, ih]
        exact or_left_comm

private theorem mem_entries_level {subs subs' : Dirs} {files files' : List File}
    (hsubs : ∀ n, n ∈ subs.names ↔ n ∈ subs'.names) (hfiles : files.Perm files') :
    e ∈ entries (level path subs files) ↔ e ∈ entries (level path subs' files') := by
  simp only [entries_level, List.mem_append, List.mem_map, hsubs, hfiles.mem_iff]

private theorem mem_entries_sort {ds : Dirs} :
    e ∈ entries (walkBelow path (ds.sort o)) ↔ e ∈ entries (walkBelow path ds) := by
  induction ds generalizing path with
  | nil => rfl
  | link name rest ih =>
      have hlink (ds : Dirs) : e ∈ entries (walkBelow path (.link name ds)) ↔
          e ∈ [] ∨ e ∈ entries (walkBelow path ds) := by
        rw [List.mem_nil_iff, false_or, walkBelow]
      rw [Dirs.sort, mem_entries_insert hlink, ih, hlink]
  | dir name files subs rest ihsubs ih =>
      have hdir (files : List File) (subs ds : Dirs) :
          e ∈ entries (walkBelow path (.dir name files subs ds)) ↔
            e ∈ entries (level (path ++ [name]) subs files) ++
              entries (walkBelow (path ++ [name]) subs) ∨ e ∈ entries (walkBelow path ds) := by
        rw [entries_dir, List.mem_append]
      have hlevel : e ∈ entries (level (path ++ [name]) (subs.sort o) (sortFiles o files)) ↔
          e ∈ entries (level (path ++ [name]) subs files) :=
        mem_entries_level (fun _ => Dirs.mem_names_sort o) (List.mergeSort_perm files _)
      rw [Dirs.sort, mem_entries_insert (hdir _ _), ih, hdir, List.mem_append, List.mem_append,
        hlevel, ihsubs]

end Members

/-- The entries of a tree, as its directories list them. -/
def Tree.entries (T : Tree) : List Entry := Watch.entries (Watch.walk T.files T.subs)

/-- The same directory names and the same files, with the same numbers, at the same paths. -/
def Same (T₁ T₂ : Tree) : Prop := ∀ e, e ∈ T₁.entries ↔ e ∈ T₂.entries

private theorem mem_entries_walk (T : Tree) (e : Entry) : e ∈ entries
    (T.walk o) ↔ e ∈ T.entries := by
  have hlevel : e ∈ entries (level [] (T.subs.sort o) (sortFiles o T.files)) ↔
      e ∈ entries (level [] T.subs T.files) :=
    mem_entries_level (fun _ => Dirs.mem_names_sort o) (List.mergeSort_perm T.files _)
  rw [Tree.walk, Tree.entries, entries_walk, entries_walk, List.mem_append, List.mem_append,
    hlevel, mem_entries_sort]

/-- Trees are the same if and only if their walks come to the same entries in turn. -/
theorem same_iff_entries_eq (T₁ T₂ : Tree) :
    Same T₁ T₂ ↔ entries (T₁.walk o) = entries (T₂.walk o) := by
  constructor
  · intro hsame
    refine eq_of_pairwise_before o (walk_pairwise o T₁) (walk_pairwise o T₂) fun e => ?_
    rw [mem_entries_walk, mem_entries_walk]
    exact hsame e
  · intro heq e
    rw [← mem_entries_walk o, heq, mem_entries_walk]

end Jetty.Orchestrator.Watch
