import Jetty.Core.Files.Edits
import Mathlib.Logic.Function.Basic

/-!
# Disks

A tree whose regular files have inodes, and what the system calls of a file server do at a place:
create, move, unlink, make and remove a directory. Why a call fails is in its error number.
-/

namespace Files

inductive Errno
  | noent
  | notdir
  | isdir
  | loop
  | exist
  | notempty
  /-- `EACCES`, `EPERM` and `EROFS`. -/
  | acces
  | xdev
  /-- `EIO`, `ENOSPC` and all others. -/
  | io
deriving DecidableEq, Repr

namespace Tree

variable {δ : Type} {t : Tree δ}

/-- Why a walk fails. -/
def blameWith (t : Tree δ) (follow : Place → List Part → Errno) : Place → List Part → Errno
  | _, [] => .noent
  | cur, .here :: rest => if t.isDir cur then blameWith t follow cur rest else .notdir
  | cur, .up :: rest => if t.isDir cur then blameWith t follow cur.tail rest else .notdir
  | cur, .name n :: rest =>
    match t.entry (n :: cur) with
    | none => if t.isDir cur then .noent else .notdir
    | some (.link target) => follow (start cur target) (parts target ++ rest)
    | some _ => blameWith t follow (n :: cur) rest

def blame (t : Tree δ) : ℕ → Place → List Part → Errno
  | 0 => t.blameWith fun _ _ => .loop
  | limit + 1 => t.blameWith (blame t limit)

variable {k l : ℕ} {cur c : Place} {ps : List Part}

/-- Where more links lead to the end, the walk fails for the links. -/
theorem blame_of_reaches (h : t.Reaches l cur ps c) (hwalk : t.walk k cur ps = none) :
    t.blame k cur ps = .loop := by
  induction h generalizing k with
  | done =>
      rw [walk_nil] at hwalk
      cases hwalk
  | @here l cur c rest hdir _ ih =>
      rw [walk_here, if_pos hdir] at hwalk
      have hrest := ih hwalk
      cases k <;> simp only [blame, blameWith, if_pos hdir] at hrest ⊢ <;> exact hrest
  | @up l cur c rest hdir _ ih =>
      rw [walk_up, if_pos hdir] at hwalk
      have hrest := ih hwalk
      cases k <;> simp only [blame, blameWith, if_pos hdir] at hrest ⊢ <;> exact hrest
  | missing hnone hdir =>
      rw [walk_missing hnone, if_pos ⟨hdir, rfl⟩] at hwalk
      cases hwalk
  | @enter l cur c n rest e hentry hlink _ ih =>
      rw [walk_enter hentry hlink] at hwalk
      have hrest := ih hwalk
      cases e with
      | link target => exact absurd rfl (hlink target)
      | _ => cases k <;> simp only [blame, blameWith, hentry] at hrest ⊢ <;> exact hrest
  | @follow l cur c n rest target hentry _ ih =>
      cases k with
      | zero => simp only [blame, blameWith, hentry]
      | succ k =>
          simp only [walk, walkWith, hentry] at hwalk
          have hrest := ih hwalk
          simp only [blame, blameWith, hentry]
          exact hrest

/-- The walk of the path misses its last name or a directory, or ends at what is no directory. -/
def Loose (t : Tree δ) (k : ℕ) (p : Place) : Prop :=
  (t.walk k [] (parts (text p)) = none ∧ t.blame k [] (parts (text p)) = .noent) ∨
    ∃ c, t.walk k [] (parts (text p)) = some c ∧ t.isDir c = false

/-- What a name stands for that the kernel finds loose, nothing on the way to a directory is. -/
theorem Loose.not_passes {n : Name} {dir q : Place} (h : t.Loose k (n :: dir))
    (hq : t.walk k [] (parts (text dir)) = some q) {cur c : Place} {ps : List Part}
    (hreach : t.Reaches l cur ps c) (hc : t.isDir c = true) : n :: q ∉ t.passes l cur ps := by
  intro hp
  rw [walk_text] at hq
  have hbegin := reaches_of_walk hq
  -- The name leads to a directory, by as many links as it takes.
  have hdirectory : ∃ i d, t.Reaches i [] (parts (text (n :: dir))) d ∧ t.isDir d = true := by
    have hparts : (n :: dir).reverse.map Part.name = dir.reverse.map .name ++ [.name n] := by
      rw [List.reverse_cons, List.map_append]
      rfl
    rcases hreach.leads hc hp with hdir | ⟨m, dir', target, i, d, heq, hentry, hbelow, hd⟩
    · obtain ⟨e, he, hlink⟩ := settled_of_isDir hdir
      refine ⟨k, n :: q, reaches_of_walk ?_, hdir⟩
      rw [walk_text, hparts]
      exact walk_of_reaches (hbegin.snoc he hlink)
    · obtain ⟨rfl, rfl⟩ := List.cons.inj heq
      have hname : t.Reaches (i + 1) q [.name n] d := by
        refine .follow hentry ?_
        rw [List.append_nil]
        exact hbelow
      refine ⟨k + (i + 1), d, reaches_of_walk ?_, hd⟩
      rw [walk_text, hparts]
      exact walk_of_reaches (hbegin.append hname hd)
  obtain ⟨i, d, hd, hdir⟩ := hdirectory
  rcases h with ⟨hnone, hblame⟩ | ⟨p, hp, hfile⟩
  · rw [blame_of_reaches hd hnone] at hblame
    cases hblame
  · rw [walk_unique hp (walk_of_reaches hd), hdir] at hfile
    cases hfile

/-- The top of the tree is in no directory. -/
theorem Loose.ne_nil {p : Place} (h : t.Loose k p) : p ≠ [] := by
  rintro rfl
  rw [Loose, walk_text_settled settled_top] at h
  rcases h with ⟨hnone, -⟩ | ⟨c, hc, hdir⟩
  · cases hnone
  · obtain rfl := Option.some.inj hc
    exact absurd (hdir.symm.trans isDir_top) Bool.false_ne_true

end Tree

/-- A regular file. -/
structure Regular where
  content : List UInt8 := []
  mode : ℕ
deriving DecidableEq, Repr

/-- The name with the given characters. -/
def Name.of (cs : List Char)
    (h : (cs ≠ [] ∧ '/' ∉ cs) ∧ cs ≠ ['.'] ∧ cs ≠ ['.', '.'] := by decide) : Name :=
  ⟨cs, h.1.1, h.1.2, h.2.1, h.2.2⟩

/-- A tree, the finitely many places where something is, and the inodes. -/
structure Disk (δ : Type) where
  tree : Tree δ
  places : List Place
  mem_places : ∀ p, (tree.entry p).isSome = true → p ∈ places
  /-- The inode of a regular file. -/
  node : Place → ℕ
  inode : ℕ → Regular
  /-- The inode numbers from here on are free. -/
  next : ℕ
  node_lt : ∀ p, tree.entry p = some .regular → node p < next

namespace Disk

variable {δ : Type}

/-- There is nothing in the directory. -/
def childless (d : Disk δ) (p : Place) : Bool :=
  d.places.all fun q => decide (q = []) || decide (q.tail ≠ p) || (d.tree.entry q).isNone

/-- A place is childless exactly if no name is in it. -/
theorem childless_iff {d : Disk δ} {p : Place} :
    d.childless p = true ↔ ∀ n, d.tree.entry (n :: p) = none := by
  simp only [childless, List.all_eq_true, Bool.or_eq_true, decide_eq_true_iff,
    Option.isNone_iff_eq_none]
  constructor
  · intro h n
    by_contra hsome
    have hmem := d.mem_places (n :: p) (Option.isSome_iff_ne_none.mpr hsome)
    rcases h (n :: p) hmem with (hnil | htail) | hnone
    · cases hnil
    · exact htail rfl
    · exact hsome hnone
  · intro h q _
    cases q with
    | nil => exact .inl (.inl rfl)
    | cons n q =>
        by_cases hq : q = p
        · exact .inr (hq ▸ h n)
        · exact .inl (.inr hq)

/-- Whether it is a directory that a name is to stand for. -/
def forDirectory : Option (Entry δ) → Bool
  | some (.directory _) => true
  | _ => false

def forRegular : Option (Entry δ) → Bool
  | some .regular => true
  | _ => false

/-- A name is bound anew, in a directory that exists; only a directory may have something below
it. The inode is that of a regular file. -/
def rebind (d : Disk δ) (p : Place) (e : Option (Entry δ)) (ino : ℕ) : Option (Disk δ) :=
  match p with
  | [] => none
  | n :: dir =>
    if h : d.tree.isDir dir = true ∧ (forDirectory e = true ∨ d.childless (n :: dir) = true) ∧
        (forRegular e = true → ino < d.next) then
      some {
        tree := d.tree.edit n dir e h.1 <| h.2.1.imp
          (fun hdirectory => by
            unfold forDirectory at hdirectory
            split at hdirectory
            · exact ⟨_, rfl⟩
            · cases hdirectory)
          childless_iff.mp
        places := (n :: dir) :: d.places
        mem_places := fun p hp => by
          by_cases hpn : p = n :: dir
          · exact hpn ▸ List.mem_cons_self
          · simp only [Tree.edit, if_neg hpn] at hp
            exact List.mem_cons_of_mem _ (d.mem_places p hp)
        node := Function.update d.node (n :: dir) ino
        inode := d.inode
        next := d.next
        node_lt := fun p hp => by
          by_cases hpn : p = n :: dir
          · rw [hpn, Function.update_self]
            simp only [Tree.edit, if_pos hpn] at hp
            exact h.2.2 (by rw [hp, forRegular])
          · rw [Function.update_of_ne hpn]
            simp only [Tree.edit, if_neg hpn] at hp
            exact d.node_lt p hp }
    else none

/-- What a disk with one name bound anew is like. -/
structure Rebound (d : Disk δ) (p : Place) (e : Option (Entry δ)) (ino : ℕ) (d' : Disk δ) :
    Prop where
  entry : ∀ q, d'.tree.entry q = if q = p then e else d.tree.entry q
  node : d'.node = Function.update d.node p ino
  inode : d'.inode = d.inode
  next : d'.next = d.next

/-- A successful rebinding changes that entry only. -/
theorem rebound_of_rebind {d d' : Disk δ} {p : Place} {e : Option (Entry δ)} {ino : ℕ}
    (h : d.rebind p e ino = some d') : Rebound d p e ino d' := by
  cases p with
  | nil => cases h
  | cons n dir =>
      simp only [rebind] at h
      split at h
      · obtain rfl := Option.some.inj h
        exact ⟨fun _ => rfl, rfl, rfl, rfl⟩
      · cases h

/-- An entry in a directory can be rebound, unless it is a directory that is not empty. -/
theorem rebind_isSome {d : Disk δ} {n : Name} {dir : Place} {e : Option (Entry δ)} {ino : ℕ}
    (hdir : d.tree.isDir dir = true)
    (hleaf : forDirectory e = true ∨ d.childless (n :: dir) = true)
    (hino : forRegular e = true → ino < d.next) : ∃ d', d.rebind (n :: dir) e ino = some d' :=
  ⟨_, dif_pos ⟨hdir, hleaf, hino⟩⟩

/-- A disk given by its entries, each regular file with an inode of its own. -/
def ofEntries (stat : δ) (entries : List (Place × Entry δ)) (inode : ℕ → Regular)
    (h : ∀ entry ∈ entries, entry.1.tail = [] ∨
      (match entries.lookup entry.1.tail with | some (.directory _) => true | _ => false) = true) :
    Disk δ where
  tree := .ofEntries stat entries h
  places := [] :: entries.map Prod.fst
  mem_places p hp := by
    simp only [Tree.ofEntries] at hp
    split at hp
    · rename_i hnil
      exact hnil ▸ List.mem_cons_self
    · obtain ⟨e, he⟩ := Option.isSome_iff_exists.mp hp
      obtain ⟨before, after, rfl, -⟩ := List.lookup_eq_some_iff.mp he
      simp
  node p := (entries.map Prod.fst).idxOf p
  inode := inode
  next := entries.length
  node_lt p hp := by
    simp only [Tree.ofEntries] at hp
    split at hp
    · cases hp
    · obtain ⟨before, after, rfl, -⟩ := List.lookup_eq_some_iff.mp hp
      have hmem : p ∈ (before ++ (p, .regular) :: after).map Prod.fst := by simp
      have hlt := List.idxOf_lt_length_iff.mpr hmem
      rwa [List.length_map] at hlt

/-! ### System calls -/

/-- A new inode. -/
def alloc (d : Disk δ) (f : Regular) : Disk δ :=
  { d with
    inode := Function.update d.inode d.next f
    next := d.next + 1
    node_lt := fun p hp => Nat.lt_succ_of_lt (d.node_lt p hp) }

/-- What is written to a file. -/
def put (d : Disk δ) (ino : ℕ) (f : Regular) : Disk δ :=
  { d with inode := Function.update d.inode ino f }

/-- `open(2)` with `O_CREAT` and `O_EXCL`; the inode is the next one. -/
def create (d : Disk δ) (p : Place) (mode : ℕ) : Except Errno (Disk δ) :=
  if (d.tree.entry p).isSome then .error .exist
  else
    match (d.alloc { mode }).rebind p (some .regular) d.next with
    | some d' => .ok d'
    | none => .error .notdir

/-- `unlink(2)`. -/
def unlink (d : Disk δ) (p : Place) : Except Errno (Disk δ) :=
  match d.tree.entry p with
  | none => .error .noent
  | some (.directory _) => .error .isdir
  | some _ =>
    match d.rebind p none 0 with
    | some d' => .ok d'
    | none => .error .notdir

/-- `rename(2)` of what is no directory. Two names of one file stay as they are. -/
def rename (d : Disk δ) (p q : Place) : Except Errno (Disk δ) :=
  match d.tree.entry p with
  | none => .error .noent
  | some (.directory _) => .error .isdir
  | some e =>
    if p = q ∨ forRegular (some e) = true ∧ forRegular (d.tree.entry q) = true ∧
        d.node p = d.node q then .ok d
    else if d.tree.isDir q then .error .isdir
    else
      match (d.rebind p none 0).bind fun d' => d'.rebind q (some e) (d.node p) with
      | some d' => .ok d'
      | none => .error .notdir

/-- `mkdir(2)`. -/
def mkdir (d : Disk δ) (p : Place) (stat : δ) : Except Errno (Disk δ) :=
  if (d.tree.entry p).isSome then .error .exist
  else
    match d.rebind p (some (.directory stat)) 0 with
    | some d' => .ok d'
    | none => .error .notdir

/-- `rmdir(2)`. -/
def rmdir (d : Disk δ) (p : Place) : Except Errno (Disk δ) :=
  match d.tree.entry p with
  | none => .error .noent
  | some (.directory _) =>
    if d.childless p then
      match d.rebind p none 0 with
      | some d' => .ok d'
      | none => .error .io
    else .error .notempty
  | some _ => .error .notdir

variable {d d' : Disk δ} {p q : Place}

private theorem ok_of_match {o : Option (Disk δ)} {e : Errno}
    (h : (match o with | some d' => Except.ok d' | none => .error e) = .ok d') : o = some d' := by
  cases o with
  | none => cases h
  | some d'' => exact congrArg some (Except.ok.inj h)

/-- What a successful `create` has found and done. -/
theorem create_ok {mode : ℕ} (h : d.create p mode = .ok d') :
    d.tree.entry p = none ∧ Rebound (d.alloc { mode }) p (some .regular) d.next d' := by
  unfold create at h
  split at h
  · cases h
  · rename_i hnone
    exact ⟨Option.not_isSome_iff_eq_none.mp hnone, rebound_of_rebind (ok_of_match h)⟩

/-- What a successful `unlink` has found and done. -/
theorem unlink_ok (h : d.unlink p = .ok d') :
    (d.tree.entry p).isSome = true ∧ d.tree.isDir p = false ∧ Rebound d p none 0 d' := by
  unfold unlink at h
  split at h
  · cases h
  · cases h
  · rename_i e hdirectory hentry
    refine ⟨by rw [hentry]; rfl, ?_, rebound_of_rebind (ok_of_match h)⟩
    simp only [Tree.isDir, hentry]
    split
    · exact absurd ‹_› (by simpa using hdirectory _)
    · rfl

/-- What a successful `rename` has found and done. -/
theorem rename_ok (h : d.rename p q = .ok d') :
    ∃ e, d.tree.entry p = some e ∧ (∀ stat, e ≠ .directory stat) ∧
      ((d' = d ∧ (p = q ∨ forRegular (some e) = true ∧ forRegular (d.tree.entry q) = true ∧
          d.node p = d.node q)) ∨
        p ≠ q ∧ d.tree.isDir q = false ∧
          ∃ c, Rebound d p none 0 c ∧ Rebound c q (some e) (d.node p) d') := by
  unfold rename at h
  split at h
  · cases h
  · cases h
  · rename_i e hdirectory hentry
    refine ⟨e, hentry, hdirectory, ?_⟩
    split at h
    · rename_i hsame
      obtain rfl := Except.ok.inj h
      exact .inl ⟨rfl, hsame⟩
    · rename_i hother
      split at h
      · cases h
      · rename_i hdir
        obtain ⟨c, hc, hd'⟩ := Option.bind_eq_some_iff.mp (ok_of_match h)
        exact .inr ⟨fun hpq => hother (.inl hpq), Bool.not_eq_true _ ▸ hdir, c,
          rebound_of_rebind hc, rebound_of_rebind hd'⟩

/-- What a successful `mkdir` has found and done. -/
theorem mkdir_ok {stat : δ} (h : d.mkdir p stat = .ok d') :
    d.tree.entry p = none ∧ Rebound d p (some (.directory stat)) 0 d' := by
  unfold mkdir at h
  split at h
  · cases h
  · rename_i hnone
    exact ⟨Option.not_isSome_iff_eq_none.mp hnone, rebound_of_rebind (ok_of_match h)⟩

/-- What a successful `rmdir` has found and done. -/
theorem rmdir_ok (h : d.rmdir p = .ok d') :
    d.tree.isDir p = true ∧ (∀ n, d.tree.entry (n :: p) = none) ∧ Rebound d p none 0 d' := by
  unfold rmdir at h
  split at h
  · cases h
  · rename_i stat hentry
    split at h
    · rename_i hempty
      exact ⟨by simp only [Tree.isDir, hentry], childless_iff.mp hempty,
        rebound_of_rebind (ok_of_match h)⟩
    · cases h
  · cases h

/-- An empty directory can be removed. -/
theorem exists_rmdir {n : Name} {dir : Place} {stat : δ}
    (hentry : d.tree.entry (n :: dir) = some (.directory stat))
    (hempty : d.childless (n :: dir) = true) : ∃ d', d.rmdir (n :: dir) = .ok d' := by
  obtain ⟨d', hd'⟩ := @rebind_isSome _ d n dir none 0 (Tree.isDir_of_entry hentry)
    (.inr hempty) nofun
  refine ⟨d', ?_⟩
  simp only [rmdir, hentry, hempty, if_true, hd']

end Disk

end Files
