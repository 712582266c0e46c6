import Jetty.Core.Files.Disk
import Jetty.Core.Files.Plain

/-!
# What a disk shows

A disk seen from outside: what each name stands for, with the content and the mode of a file, and
which names are names of one file. Inode numbers are not seen, and two disks with the same view
are the same file system. What a system call does to the disk is an update of its view.
-/

namespace Files

variable {δ : Type}

/-- A walk along names fails for a name that is missing, or for one that is no directory. -/
theorem Tree.Plain.blame {t : Tree δ} (h : t.Plain) (k : ℕ) (cur : Place) (ps : List Part) :
    t.blame k cur ps = .noent ∨ t.blame k cur ps = .notdir := by
  have hwith : ∀ (follow : Place → List Part → Errno) (ps : List Part) (cur : Place),
      t.blameWith follow cur ps = .noent ∨ t.blameWith follow cur ps = .notdir := by
    intro follow ps
    induction ps with
    | nil => exact fun _ => .inl rfl
    | cons part ps ih =>
        intro cur
        cases part with
        | here =>
            unfold blameWith
            split
            · exact ih cur
            · exact .inr rfl
        | up =>
            unfold blameWith
            split
            · exact ih cur.tail
            · exact .inr rfl
        | name n =>
            unfold blameWith
            split
            · split
              · exact .inl rfl
              · exact .inr rfl
            · rename_i target htarget
              exact absurd htarget (h _ target)
            · exact ih (n :: cur)
  cases k with
  | zero => exact hwith _ ps cur
  | succ k => exact hwith _ ps cur

/-- What a name stands for, with all that there is to see of it. -/
inductive Object (δ : Type)
  | directory (stat : δ)
  | file (f : Regular)
  | special
  | link (target : List Char)
deriving DecidableEq

/-- A disk without its inode numbers. -/
@[ext]
structure View (δ : Type) where
  object : Place → Option (Object δ)
  /-- Two names of one file. -/
  shared : Place → Place → Prop

/-- What is seen of an entry. -/
def Entry.shows (f : Regular) : Entry δ → Object δ
  | directory stat => .directory stat
  | regular => .file f
  | special => .special
  | link target => .link target

/-- What is seen of a disk. -/
def Disk.view (d : Disk δ) : View δ where
  object p := (d.tree.entry p).map (Entry.shows (d.inode (d.node p)))
  shared p q := d.tree.entry p = some .regular ∧ d.tree.entry q = some .regular ∧
    d.node p = d.node q

namespace View

variable {v : View δ} {p q r : Place} {f g : Regular}

def isDir (v : View δ) (p : Place) : Bool :=
  match v.object p with
  | some (.directory _) => true
  | _ => false

/-- A file that has no other name. -/
def Sole (v : View δ) (p : Place) : Prop := ∀ q, v.shared p q → q = p

/-- No name stands for a link. -/
def Plain (v : View δ) : Prop := ∀ p target, v.object p ≠ some (.link target)

/-- There is nothing below. -/
def Leaf (v : View δ) (p : Place) : Prop := ∀ n, v.object (n :: p) = none

/-- The name stands for a file of its own. -/
def store (v : View δ) (p : Place) (f : Regular) : View δ where
  object := Function.update v.object p (some (.file f))
  shared a b := if a = p ∨ b = p then a = b else v.shared a b

/-- The name stands for nothing. -/
def drop (v : View δ) (p : Place) : View δ where
  object := Function.update v.object p none
  shared a b := a ≠ p ∧ b ≠ p ∧ v.shared a b

/-- The file that the name `p` stands for gets the name `q` in its place. -/
def move (v : View δ) (p q : Place) : View δ where
  object := Function.update (Function.update v.object p none) q (v.object p)
  shared a b := a ≠ p ∧ b ≠ p ∧ v.shared (if a = q then p else a) (if b = q then p else b)

@[simp] theorem store_object_self : (v.store p f).object p = some (.file f) :=
  Function.update_self p _ v.object

/-- A stored file changes nothing elsewhere. -/
theorem store_object_of_ne (h : r ≠ p) : (v.store p f).object r = v.object r :=
  Function.update_of_ne h _ v.object

/-- A stored file is no directory elsewhere. -/
theorem store_isDir_of_ne (h : r ≠ p) : (v.store p f).isDir r = v.isDir r := by
  rw [isDir, isDir, store_object_of_ne h]

@[simp] theorem drop_object_self : (v.drop p).object p = none :=
  Function.update_self p _ v.object

/-- A dropped object changes nothing elsewhere. -/
theorem drop_object_of_ne (h : r ≠ p) : (v.drop p).object r = v.object r :=
  Function.update_of_ne h _ v.object

/-- What the name of a file shows once the file has been written, or made. -/
def write (v : View δ) (p : Place) (content : List UInt8) (fresh : ℕ) (kept : ℕ → ℕ) :
    Option (View δ) :=
  match v.object p with
  | some (.file f) => some (v.store p ⟨content, kept f.mode⟩)
  | none => if v.isDir p.tail then some (v.store p ⟨content, fresh⟩) else none
  | _ => none

open Classical in
/-- A file gets another name. -/
noncomputable def rename (v : View δ) (p q : Place) : Option (View δ) :=
  match v.object p with
  | some (.file _) =>
    if p = q ∨ v.shared p q then some v
    else if v.isDir q then none
    else if v.isDir q.tail then some (v.move p q)
    else none
  | _ => none

open Classical in
/-- A file goes, or an empty directory. -/
noncomputable def remove (v : View δ) (p : Place) : Option (View δ) :=
  match v.object p with
  | some (.file _) => some (v.drop p)
  | some (.directory _) => if v.Leaf p then some (v.drop p) else none
  | _ => none

/-- An empty directory is removed. -/
theorem remove_leaf {stat : δ} (hobject : v.object p = some (.directory stat)) (h : v.Leaf p) :
    v.remove p = some (v.drop p) := by
  rw [remove, hobject]
  exact if_pos h

/-- A directory with something in it is not. -/
theorem remove_of_not_leaf {stat : δ} (hobject : v.object p = some (.directory stat))
    (h : ¬ v.Leaf p) : v.remove p = none := by
  rw [remove, hobject]
  exact if_neg h

/-- A file that gets another name has been put there. -/
theorem move_store (hobject : v.object q = none) (hleft : ∀ r, ¬ v.shared q r)
    (hright : ∀ r, ¬ v.shared r q) (hne : q ≠ p) : (v.store q f).move q p = v.store p f := by
  refine View.ext (funext fun r => ?_) (funext fun a => funext fun b => propext ?_)
  · simp only [View.move, View.store, Function.update_apply]
    split
    · rfl
    · split
      · rename_i hr
        rw [hr, hobject]
      · rfl
  · simp only [View.move, View.store]
    by_cases ha : a = p
    · subst ha
      by_cases hb : b = a
      · simp [hb, hne.symm]
      · simp only [if_pos, if_neg hb, true_or]
        constructor
        · rintro ⟨-, hb', hqb⟩
          exact absurd hqb.symm hb'
        · rintro rfl
          exact absurd rfl hb
    · by_cases hb : b = p
      · subst hb
        simp only [if_neg ha, if_pos, or_true]
        constructor
        · rintro ⟨ha', -, haq⟩
          exact absurd haq ha'
        · rintro rfl
          exact absurd rfl ha
      · simp only [ha, hb, or_self, if_false]
        constructor
        · rintro ⟨ha', hb', hshared⟩
          rwa [if_neg (not_or.mpr ⟨ha', hb'⟩)] at hshared
        · intro hshared
          have ha' : a ≠ q := by
            rintro rfl
            exact hleft b hshared
          have hb' : b ≠ q := by
            rintro rfl
            exact hright a hshared
          rw [if_neg (not_or.mpr ⟨ha', hb'⟩)]
          exact ⟨ha', hb', hshared⟩

/-- A stored file leaves the view plain. -/
theorem Plain.store (h : v.Plain) (p : Place) (f : Regular) : (v.store p f).Plain := by
  intro r target
  simp only [View.store, Function.update_apply]
  split
  · exact nofun
  · exact h r target

/-- So does a dropped object. -/
theorem Plain.drop (h : v.Plain) (p : Place) : (v.drop p).Plain := by
  intro r target
  simp only [View.drop, Function.update_apply]
  split
  · exact nofun
  · exact h r target

/-- So does a moved one. -/
theorem Plain.move (h : v.Plain) (p q : Place) : (v.move p q).Plain := by
  intro r target
  simp only [View.move, Function.update_apply]
  split
  · exact h p target
  · split
    · exact nofun
    · exact h r target

/-- A file that has been made goes again. -/
theorem store_drop (hobject : v.object p = none)
    (hfree : ∀ a b, v.shared a b → a ≠ p ∧ b ≠ p) : (v.store p f).drop p = v := by
  refine View.ext (funext fun r => ?_) (funext fun a => funext fun b => propext ?_)
  · by_cases hr : r = p
    · subst hr
      rw [View.drop_object_self, hobject]
    · rw [View.drop_object_of_ne hr, View.store_object_of_ne hr]
  · simp only [View.drop, View.store]
    constructor
    · rintro ⟨ha, hb, hshared⟩
      rwa [if_neg (not_or.mpr ⟨ha, hb⟩)] at hshared
    · intro hshared
      obtain ⟨ha, hb⟩ := hfree a b hshared
      rw [if_neg (not_or.mpr ⟨ha, hb⟩)]
      exact ⟨ha, hb, hshared⟩

end View

namespace Disk

variable {d d' : Disk δ} {p q r : Place} {f : Regular} {ino : ℕ}

/-- The view has what the entries of the disk show. -/
theorem view_object (d : Disk δ) (p : Place) :
    d.view.object p = (d.tree.entry p).map (Entry.shows (d.inode (d.node p))) := rfl

/-- The view has a file exactly where the disk has a regular one. -/
theorem view_file : d.view.object p = some (.file f) ↔
    d.tree.entry p = some .regular ∧ d.inode (d.node p) = f := by
  rw [view_object]
  cases d.tree.entry p with
  | none => simp
  | some e => cases e <;> simp [Entry.shows]

@[simp] theorem view_isDir (d : Disk δ) (p : Place) : d.view.isDir p = d.tree.isDir p := by
  rw [View.isDir, Tree.isDir, view_object]
  cases d.tree.entry p with
  | none => rfl
  | some e => cases e <;> rfl

/-- The view has nothing exactly where the disk has nothing. -/
theorem view_none : d.view.object p = none ↔ d.tree.entry p = none := by
  rw [view_object, Option.map_eq_none_iff]

/-- The view has a directory exactly where the disk has one. -/
theorem view_directory {stat : δ} : d.view.object p = some (.directory stat) ↔
    d.tree.entry p = some (.directory stat) := by
  rw [view_object]
  cases d.tree.entry p with
  | none => simp
  | some e => cases e <;> simp [Entry.shows]

/-- The view is plain exactly if the disk is. -/
theorem view_plain : d.view.Plain ↔ d.tree.Plain := by
  refine forall_congr' fun p => forall_congr' fun target => not_congr ?_
  rw [view_object]
  cases d.tree.entry p with
  | none => simp
  | some e => cases e <;> simp [Entry.shows]

/-! ### Disks that differ at one name -/

private theorem shows_of_ne {e : Entry δ} {f g : Regular} (h : e ≠ .regular) :
    e.shows f = e.shows g := by
  cases e with
  | regular => exact absurd rfl h
  | _ => rfl

/-- The files of the other names stay as they are. -/
structure Keeps (d d' : Disk δ) (p : Place) : Prop where
  content : ∀ r, r ≠ p → d.tree.entry r = some .regular →
    d'.inode (d'.node r) = d.inode (d.node r)
  nodes : ∀ a b, a ≠ p → b ≠ p → d.tree.entry a = some .regular → d.tree.entry b = some .regular →
    (d'.node a = d'.node b ↔ d.node a = d.node b)

private theorem Keeps.object (h : Keeps d d' p) (hr : r ≠ p)
    (hentry : d'.tree.entry r = d.tree.entry r) : d'.view.object r = d.view.object r := by
  rw [view_object, view_object, hentry]
  cases he : d.tree.entry r with
  | none => rfl
  | some e =>
      by_cases hregular : e = .regular
      · subst hregular
        rw [h.content r hr he]
      · rw [Option.map_some, Option.map_some, shows_of_ne hregular]

private theorem Keeps.shared (h : Keeps d d' p) {a b : Place} (ha : a ≠ p) (hb : b ≠ p)
    (hentry : ∀ r, r ≠ p → d'.tree.entry r = d.tree.entry r) :
    d'.view.shared a b ↔ d.view.shared a b := by
  simp only [Disk.view, hentry a ha, hentry b hb]
  refine and_congr_right fun hregular => and_congr_right fun hregular' => ?_
  exact h.nodes a b ha hb hregular hregular'

/-- A disk on which a name stands for a file of its own. -/
theorem view_eq_store (h : Keeps d d' p)
    (hentry : ∀ r, d'.tree.entry r = if r = p then some .regular else d.tree.entry r)
    (hfile : d'.inode (d'.node p) = f)
    (hsole : ∀ r, r ≠ p → d.tree.entry r = some .regular → d'.node r ≠ d'.node p) :
    d'.view = d.view.store p f := by
  have hothers : ∀ r, r ≠ p → d'.tree.entry r = d.tree.entry r := fun r hr => by
    rw [hentry, if_neg hr]
  refine View.ext (funext fun r => ?_) (funext fun a => funext fun b => propext ?_)
  · by_cases hr : r = p
    · subst hr
      rw [View.store_object_self]
      exact view_file.mpr ⟨by rw [hentry, if_pos rfl], hfile⟩
    · rw [View.store_object_of_ne hr]
      exact h.object hr (hothers r hr)
  · simp only [View.store]
    split
    · rename_i hp
      constructor
      · rintro ⟨ha, hb, hnode⟩
        rcases hp with rfl | rfl
        · by_contra hne
          exact hsole b (Ne.symm hne) ((hothers b (Ne.symm hne)).symm.trans hb) hnode.symm
        · by_contra hne
          exact hsole a hne ((hothers a hne).symm.trans ha) hnode
      · rintro rfl
        have hregular : d'.tree.entry a = some .regular := by
          rw [hentry, if_pos (hp.elim id id)]
        exact ⟨hregular, hregular, rfl⟩
    · rename_i hp
      obtain ⟨ha, hb⟩ := not_or.mp hp
      exact h.shared ha hb hothers

/-- A disk without a name. -/
theorem view_eq_drop (h : Keeps d d' p)
    (hentry : ∀ r, d'.tree.entry r = if r = p then none else d.tree.entry r) :
    d'.view = d.view.drop p := by
  have hothers : ∀ r, r ≠ p → d'.tree.entry r = d.tree.entry r := fun r hr => by
    rw [hentry, if_neg hr]
  refine View.ext (funext fun r => ?_) (funext fun a => funext fun b => propext ?_)
  · by_cases hr : r = p
    · subst hr
      rw [View.drop_object_self]
      exact view_none.mpr (by rw [hentry, if_pos rfl])
    · rw [View.drop_object_of_ne hr]
      exact h.object hr (hothers r hr)
  · have hne : ∀ r, d'.tree.entry r = some .regular → r ≠ p := by
      rintro r hr rfl
      rw [hentry, if_pos rfl] at hr
      cases hr
    constructor
    · intro hshared
      have ha := hne a hshared.1
      have hb := hne b hshared.2.1
      exact ⟨ha, hb, (h.shared ha hb hothers).mp hshared⟩
    · rintro ⟨ha, hb, hshared⟩
      exact (h.shared ha hb hothers).mpr hshared

/-- On a disk that is given by its entries no file has two names. -/
theorem eq_of_shared_ofEntries {stat : δ} {entries : List (Place × Entry δ)} {inode : ℕ → Regular}
    (h : ∀ entry ∈ entries, entry.1.tail = [] ∨
      (match entries.lookup entry.1.tail with | some (.directory _) => true | _ => false) = true)
    (hshared : (ofEntries stat entries inode h).view.shared p q) : p = q := by
  obtain ⟨hp, -, hnode⟩ := hshared
  have hmem : p ∈ entries.map Prod.fst := by
    simp only [ofEntries, Tree.ofEntries] at hp
    split at hp
    · cases hp
    · obtain ⟨before, after, rfl, -⟩ := List.lookup_eq_some_iff.mp hp
      simp
  exact (List.idxOf_inj hmem).mp hnode

/-! ### What the system calls show -/

/-- What is written to a file with one name is seen under that name only. -/
theorem view_put (hentry : d.tree.entry p = some .regular) (hsole : d.view.Sole p) :
    (d.put (d.node p) f).view = d.view.store p f := by
  have hother : ∀ r, r ≠ p → d.tree.entry r = some .regular → d.node r ≠ d.node p :=
    fun r hr hregular hnode => hr (hsole r ⟨hentry, hregular, hnode.symm⟩)
  refine view_eq_store ⟨fun r hr hregular => ?_, fun _ _ _ _ _ _ => Iff.rfl⟩ (fun r => ?_) ?_ hother
  · exact Function.update_of_ne (hother r hr hregular) f d.inode
  · split
    · rename_i hr
      rw [hr]
      exact hentry
    · rfl
  · exact Function.update_self (d.node p) f d.inode

/-- Storing a file of one name as it is changes nothing. -/
theorem view_store_self (hentry : d.tree.entry p = some .regular) (hsole : d.view.Sole p) :
    d.view.store p (d.inode (d.node p)) = d.view := by
  rw [← view_put hentry hsole, put, Function.update_eq_self]

/-- `create` stores an empty file. -/
theorem view_create {mode : ℕ} (h : d.create p mode = .ok d') :
    d'.view = d.view.store p ⟨[], mode⟩ := by
  obtain ⟨-, hentry, hnode, hinode, -⟩ := create_ok h
  have hother : ∀ r, r ≠ p → d'.node r = d.node r := fun r hr => by
    rw [hnode, Function.update_of_ne hr]
    rfl
  have hold : ∀ r, d.tree.entry r = some .regular → d.node r ≠ d.next := fun r hr =>
    Nat.ne_of_lt (d.node_lt r hr)
  have hnew : d'.node p = d.next := by rw [hnode, Function.update_self]
  refine view_eq_store ⟨fun r hr hregular => ?_, fun a b ha hb _ _ => ?_⟩ hentry ?_
    fun r hr hregular => ?_
  · rw [hother r hr, hinode]
    exact Function.update_of_ne (hold r hregular) _ d.inode
  · rw [hother a ha, hother b hb]
  · rw [hnew, hinode]
    exact Function.update_self d.next _ d.inode
  · rw [hother r hr, hnew]
    exact hold r hregular

private theorem Rebound.keeps {e : Option (Entry δ)} (h : Rebound d p e ino d') : Keeps d d' p := by
  have hother : ∀ r, r ≠ p → d'.node r = d.node r := fun r hr => by
    rw [h.node, Function.update_of_ne hr]
  refine ⟨fun r hr _ => ?_, fun a b ha hb _ _ => ?_⟩
  · rw [hother r hr, h.inode]
  · rw [hother a ha, hother b hb]

/-- `unlink` drops the object. -/
theorem view_unlink (h : d.unlink p = .ok d') : d'.view = d.view.drop p := by
  obtain ⟨-, -, hrebound⟩ := unlink_ok h
  exact view_eq_drop hrebound.keeps hrebound.entry

/-- A directory that has been made is seen where nothing was. -/
theorem view_mkdir {stat : δ} (h : d.mkdir p stat = .ok d') :
    d.view.object p = none ∧
      d'.view.object = Function.update d.view.object p (some (.directory stat)) ∧
      ∀ a b, d'.view.shared a b → d.view.shared a b := by
  obtain ⟨hnone, hrebound⟩ := mkdir_ok h
  have hothers : ∀ r, r ≠ p → d'.tree.entry r = d.tree.entry r := fun r hr => by
    rw [hrebound.entry, if_neg hr]
  have hself : d'.tree.entry p = some (.directory stat) := by rw [hrebound.entry, if_pos rfl]
  refine ⟨view_none.mpr hnone, funext fun r => ?_, fun a b hshared => ?_⟩
  · by_cases hr : r = p
    · subst hr
      rw [Function.update_self]
      exact view_directory.mpr hself
    · rw [Function.update_of_ne hr]
      exact hrebound.keeps.object hr (hothers r hr)
  · have hne : ∀ r, d'.tree.entry r = some .regular → r ≠ p := by
      rintro r hr rfl
      rw [hself] at hr
      cases hr
    exact (hrebound.keeps.shared (hne a hshared.1) (hne b hshared.2.1) hothers).mp hshared

/-- `rmdir` drops the directory. -/
theorem view_rmdir (h : d.rmdir p = .ok d') : d'.view = d.view.drop p := by
  obtain ⟨-, -, hrebound⟩ := rmdir_ok h
  exact view_eq_drop hrebound.keeps hrebound.entry

/-- Only a regular file has an inode with content. -/
theorem forRegular_iff {e : Option (Entry δ)} : forRegular e = true ↔ e = some .regular := by
  cases e with
  | none => exact ⟨nofun, nofun⟩
  | some e => cases e <;> simp [forRegular]

/-- Two names of one file stay as they are. -/
theorem rename_same (hfile : d.tree.entry p = some .regular) (h : p = q ∨ d.view.shared p q) :
    d.rename p q = .ok d := by
  have hsame : p = q ∨ forRegular (some (Entry.regular : Entry δ)) = true ∧
      forRegular (d.tree.entry q) = true ∧ d.node p = d.node q :=
    h.imp_right fun hshared => ⟨rfl, forRegular_iff.mpr hshared.2.1, hshared.2.2⟩
  unfold rename
  rw [hfile]
  dsimp only
  rw [if_pos hsame]

/-- Else the file gets the other name. -/
theorem view_rename (h : d.rename p q = .ok d') (hfile : d.tree.entry p = some .regular)
    (hne : p ≠ q) (hshared : ¬ d.view.shared p q) : d'.view = d.view.move p q := by
  obtain ⟨e, hentry, -, ⟨-, hsame⟩ | ⟨-, -, c, hbound, hbound'⟩⟩ := rename_ok h
  · refine absurd hsame (not_or.mpr ⟨hne, ?_⟩)
    rintro ⟨-, hq, hnode⟩
    exact hshared ⟨hfile, forRegular_iff.mp hq, hnode⟩
  · obtain rfl := Option.some.inj (hfile.symm.trans hentry)
    have hentry' : ∀ r, d'.tree.entry r =
        if r = q then some .regular else if r = p then none else d.tree.entry r := fun r => by
      rw [hbound'.entry, hbound.entry]
    have hinode : d'.inode = d.inode := hbound'.inode.trans hbound.inode
    have hnode : ∀ r, r ≠ p → d'.node r = d.node (if r = q then p else r) := fun r hr => by
      rw [hbound'.node, hbound.node]
      by_cases hq : r = q
      · rw [hq, if_pos rfl, Function.update_self]
      · rw [if_neg hq, Function.update_of_ne hq, Function.update_of_ne hr]
    refine View.ext (funext fun r => ?_) (funext fun a => funext fun b => propext ?_)
    · simp only [View.move, Function.update_apply, view_object, hentry', hinode]
      by_cases hq : r = q
      · rw [hnode r (hq ▸ hne.symm), if_pos hq, if_pos hq, if_pos hq, hfile]
      · by_cases hp : r = p
        · rw [if_neg hq, if_neg hq, if_pos hp, if_pos hp]
          rfl
        · rw [hnode r hp, if_neg hq, if_neg hq, if_neg hq, if_neg hp, if_neg hp]
    · have hregular : ∀ r, d'.tree.entry r = some .regular ↔
          r ≠ p ∧ d.tree.entry (if r = q then p else r) = some .regular := fun r => by
        rw [hentry']
        by_cases hq : r = q
        · rw [if_pos hq, if_pos hq]
          exact ⟨fun _ => ⟨hq ▸ hne.symm, hfile⟩, fun _ => rfl⟩
        · rw [if_neg hq, if_neg hq]
          by_cases hp : r = p
          · rw [if_pos hp]
            exact ⟨nofun, fun h => absurd hp h.1⟩
          · rw [if_neg hp]
            exact ⟨fun h => ⟨hp, h⟩, And.right⟩
      simp only [Disk.view, View.move, hregular]
      constructor
      · rintro ⟨⟨ha, hafile⟩, ⟨hb, hbfile⟩, hab⟩
        rw [hnode a ha, hnode b hb] at hab
        exact ⟨ha, hb, hafile, hbfile, hab⟩
      · rintro ⟨ha, hb, hafile, hbfile, hab⟩
        rw [hnode a ha, hnode b hb]
        exact ⟨⟨ha, hafile⟩, ⟨hb, hbfile⟩, hab⟩

/-! ### When they succeed -/

/-- Nothing is in what is no directory. -/
theorem leaf_of_isDir_eq_false (h : d.tree.isDir p = false) (n : Name) :
    d.tree.entry (n :: p) = none := by
  by_contra hsome
  obtain ⟨stat, hstat⟩ := d.tree.parent n p (Option.isSome_iff_ne_none.mpr hsome)
  simp only [Tree.isDir, hstat] at h
  cases h

/-- A free name in a directory can be created. -/
theorem exists_create {n : Name} {dir : Place} (hdir : d.tree.isDir dir = true)
    (hnone : d.tree.entry (n :: dir) = none) (mode : ℕ) :
    ∃ d', d.create (n :: dir) mode = .ok d' := by
  have hleaf : (d.alloc { mode }).childless (n :: dir) = true :=
    childless_iff.mpr (leaf_of_isDir_eq_false (d := d) (Tree.isDir_of_none hnone))
  obtain ⟨d', hd'⟩ := @rebind_isSome _ (d.alloc { mode }) n dir (some .regular) d.next hdir
    (.inr hleaf) fun _ => Nat.lt_succ_self d.next
  refine ⟨d', ?_⟩
  unfold create
  rw [if_neg (by rw [hnone]; exact Bool.false_ne_true), hd']

/-- A regular file can be unlinked. -/
theorem exists_unlink {n : Name} {dir : Place} (hentry : d.tree.entry (n :: dir) = some .regular) :
    ∃ d', d.unlink (n :: dir) = .ok d' := by
  have hfile : d.tree.isDir (n :: dir) = false := by simp only [Tree.isDir, hentry]
  obtain ⟨d', hd'⟩ := @rebind_isSome _ d n dir none 0 (Tree.isDir_of_entry hentry)
    (.inr (childless_iff.mpr (leaf_of_isDir_eq_false hfile))) fun h => absurd h Bool.false_ne_true
  refine ⟨d', ?_⟩
  simp only [unlink, hentry, hd']

/-- A regular file can be renamed to what is no directory. -/
theorem exists_rename {m n : Name} {dir dir' : Place}
    (hentry : d.tree.entry (m :: dir) = some .regular) (hdir : d.tree.isDir dir' = true)
    (hfree : d.tree.isDir (n :: dir') = false) :
    ∃ d', d.rename (m :: dir) (n :: dir') = .ok d' := by
  have hfile : d.tree.isDir (m :: dir) = false := by simp only [Tree.isDir, hentry]
  obtain ⟨c, hc⟩ := @rebind_isSome _ d m dir none 0 (Tree.isDir_of_entry hentry)
    (.inr (childless_iff.mpr (leaf_of_isDir_eq_false hfile)))
    fun h => absurd h Bool.false_ne_true
  have hbound := rebound_of_rebind hc
  have hkept : c.tree.isDir dir' = true := by
    have hne : dir' ≠ m :: dir := by
      rintro rfl
      rw [hfile] at hdir
      cases hdir
    unfold Tree.isDir at hdir ⊢
    rwa [hbound.entry, if_neg hne]
  have hleaf : c.childless (n :: dir') = true := by
    refine childless_iff.mpr fun k => ?_
    rw [hbound.entry, leaf_of_isDir_eq_false hfree, ite_self]
  obtain ⟨d', hd'⟩ := @rebind_isSome _ c n dir' (some .regular) (d.node (m :: dir)) hkept
    (.inr hleaf) fun _ => hbound.next ▸ d.node_lt _ hentry
  unfold rename
  rw [hentry]
  dsimp only
  split
  · exact ⟨d, rfl⟩
  · rw [if_neg (by rw [hfree]; exact Bool.false_ne_true), hc, Option.bind_some, hd']
    exact ⟨d', rfl⟩

/-- `rename(2)` of a file is the renaming of what the disk shows. -/
theorem rename_shows {n : Name} {dir : Place} (hfile : d.view.object p = some (.file f)) :
    (∀ d', d.rename p (n :: dir) = .ok d' → d.view.rename p (n :: dir) = some d'.view) ∧
      ∀ e, d.rename p (n :: dir) = .error e → d.view.rename p (n :: dir) = none := by
  obtain ⟨hentry, -⟩ := view_file.mp hfile
  rw [View.rename, hfile]
  dsimp only
  by_cases hsame : p = n :: dir ∨ d.view.shared p (n :: dir)
  · rw [rename_same hentry hsame, if_pos hsame]
    refine ⟨fun d' hd' => ?_, nofun⟩
    rw [Except.ok.inj hd']
  rw [if_neg hsame]
  obtain ⟨hne, hshared⟩ := not_or.mp hsame
  by_cases htarget : d.view.isDir (n :: dir) = true
  · rw [if_pos htarget]
    refine ⟨fun d' hd' => ?_, fun _ _ => rfl⟩
    obtain ⟨e, hentry', -, ⟨-, hsame'⟩ | ⟨-, hfree, -⟩⟩ := rename_ok hd'
    · refine absurd hsame' (not_or.mpr ⟨hne, ?_⟩)
      rintro ⟨-, hq, -⟩
      rw [view_isDir, Tree.isDir, forRegular_iff.mp hq] at htarget
      cases htarget
    · rw [view_isDir, hfree] at htarget
      cases htarget
  · rw [if_neg htarget]
    rw [view_isDir, Bool.not_eq_true] at htarget
    by_cases hdir : d.view.isDir dir = true
    · rw [List.tail_cons, if_pos hdir]
      refine ⟨fun d' hd' => ?_, fun e he => ?_⟩
      · rw [view_rename hd' hentry hne hshared]
      · cases p with
        | nil =>
            obtain ⟨stat, htop⟩ := d.tree.top
            rw [htop] at hentry
            cases hentry
        | cons m dir' =>
            rw [view_isDir] at hdir
            obtain ⟨d', hd'⟩ := exists_rename hentry hdir htarget
            rw [hd'] at he
            cases he
    · rw [List.tail_cons, if_neg hdir]
      refine ⟨fun d' hd' => ?_, fun _ _ => rfl⟩
      refine absurd ?_ hdir
      have hview := view_rename hd' hentry hne hshared
      have hnew : d'.tree.entry (n :: dir) = some .regular := by
        have hobject := congrArg (fun v => View.object v (n :: dir)) hview
        simp only [View.move, Function.update_self, hfile] at hobject
        exact (view_file.mp hobject).1
      have hopen := Tree.isDir_of_entry hnew
      rw [← view_isDir, hview, View.isDir, View.move] at hopen
      simp only [Function.update_apply] at hopen
      rw [if_neg List.ne_cons_self] at hopen
      by_cases hp : dir = p
      · rw [if_pos hp] at hopen
        cases hopen
      · rw [if_neg hp] at hopen
        exact hopen

end Disk

end Files
