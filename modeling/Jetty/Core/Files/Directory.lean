import Mathlib.Algebra.Order.Ring.Rat
import Mathlib.Data.List.Basic
import Mathlib.Logic.Function.Basic

/-!
# A directory of regular files

A directory binds names to inodes, no two names to the same one. An inode outlives its name
while someone has it open: whoever opened a file keeps writing to its inode after a rename or
an unlink. Nothing here depends on a particular program.
-/

namespace Files

/-- A regular file. -/
structure Inode where
  data : List UInt8 := []
  mtime : ℚ := 0
deriving DecidableEq

/-- A directory without subdirectories and hard links. -/
structure Directory (ν : Type) where
  entry : ν → Option ℕ
  inode : ℕ → Inode
  /-- The inode numbers from here on are free. -/
  next : ℕ
  bound : ∀ n i, entry n = some i → i < next
  inj : ∀ n m i, entry n = some i → entry m = some i → n = m

/-- Writing a chunk into some data at an offset; what lies between the end of the data and the
offset is filled with zeros. -/
def writeAt (data : List UInt8) (offset : ℕ) (chunk : List UInt8) : List UInt8 :=
  (data ++ List.replicate (offset - data.length) 0).take offset ++ chunk ++
    data.drop (offset + chunk.length)

/-- A chunk written at the end is appended. -/
theorem writeAt_end (data chunk : List UInt8) :
    writeAt data data.length chunk = data ++ chunk := by
  have hdrop : data.drop (data.length + chunk.length) = [] := List.drop_eq_nil_of_le (by omega)
  simp [writeAt, hdrop]

/-- A chunk written into an empty file is its data. -/
theorem writeAt_self (chunk : List UInt8) : writeAt chunk 0 chunk = chunk := by
  simp [writeAt]

/-- Copying the next part of some content behind what was copied before. -/
theorem writeAt_take {content : List UInt8} {offset : ℕ} (h : offset ≤ content.length) (n : ℕ) :
    writeAt (content.take offset) offset ((content.drop offset).take n)
      = content.take (offset + ((content.drop offset).take n).length) := by
  have hlength : (content.take offset).length = offset := by simp [h]
  have hend := writeAt_end (content.take offset) ((content.drop offset).take n)
  rw [hlength] at hend
  rw [hend, List.take_add, List.append_cancel_left_eq, List.take_eq_take_iff, List.length_take]
  simp

namespace Directory

variable {ν : Type}

def empty : Directory ν where
  entry _ := none
  inode _ := {}
  next := 0
  bound := nofun
  inj := nofun

variable (d : Directory ν)

/-- The data of the file of that name. -/
def read (n : ν) : Option (List UInt8) := (d.entry n).map fun i => (d.inode i).data

/-- The inode that opening the name for writing gives. -/
def opened (n : ν) : ℕ := (d.entry n).getD d.next

/-- A write through a file that is open. -/
def write (i offset : ℕ) (chunk : List UInt8) (now : ℚ) : Directory ν :=
  { d with
    inode := Function.update d.inode i ⟨writeAt (d.inode i).data offset chunk, now⟩ }

/-- `os.utime`; nothing happens if the name is not there. -/
def utime (n : ν) (t : ℚ) : Directory ν :=
  match d.entry n with
  | some i => { d with inode := Function.update d.inode i { d.inode i with mtime := t } }
  | none => d

variable {d} {n m : ν} {i : ℕ} {now t : ℚ} {offset : ℕ} {chunk : List UInt8}

/-- A name reads as the data of its inode. -/
theorem read_eq_some {data : List UInt8} :
    d.read n = some data ↔ ∃ i, d.entry n = some i ∧ (d.inode i).data = data := by
  simp only [read, Option.map_eq_some_iff]

/-- What has no entry cannot be read. -/
theorem read_eq_none : d.read n = none ↔ d.entry n = none := by
  simp only [read, Option.map_eq_none_iff]

/-- What is opened is bound to no other name. -/
theorem opened_ne (hm : d.entry m = some i) (hne : m ≠ n) : d.opened n ≠ i := by
  rintro rfl
  unfold opened at hm
  cases hn : d.entry n with
  | some j =>
      rw [hn] at hm
      exact hne (d.inj m n j hm hn)
  | none =>
      rw [hn] at hm
      exact absurd (d.bound m _ hm) (by simp)

/-- An inode in use is opened only by the name that is bound to it. -/
theorem entry_of_opened (hi : i < d.next) (h : d.opened n = i) : d.entry n = some i := by
  unfold opened at h
  cases hn : d.entry n with
  | some j =>
      rw [hn] at h
      exact congrArg some h
  | none =>
      rw [hn] at h
      exact absurd hi (Nat.not_lt.mpr h.le)

/-! ### Writes and times -/

@[simp] theorem entry_write : (d.write i offset chunk now).entry = d.entry := rfl

@[simp] theorem data_write_self :
    ((d.write i offset chunk now).inode i).data = writeAt (d.inode i).data offset chunk := by
  simp only [write, Function.update_self]

/-- A write leaves the other inodes alone. -/
theorem inode_write {j : ℕ} (h : j ≠ i) : (d.write i offset chunk now).inode j = d.inode j := by
  simp only [write, Function.update_of_ne h]

/-- A name whose inode is written to reads as the new data. -/
theorem read_write_self (h : d.entry n = some i) :
    (d.write i offset chunk now).read n = some (writeAt (d.inode i).data offset chunk) :=
  read_eq_some.mpr ⟨i, h, data_write_self⟩

/-- A name with another inode reads as before. -/
theorem read_write (h : d.entry n ≠ some i) : (d.write i offset chunk now).read n = d.read n := by
  unfold read
  rw [entry_write]
  cases hn : d.entry n with
  | none => rfl
  | some j =>
      have hne : j ≠ i := by
        rintro rfl
        exact h hn
      simp only [Option.map_some, inode_write hne]

@[simp] theorem entry_utime : (d.utime n t).entry = d.entry := by
  unfold utime
  split <;> rfl

@[simp] theorem next_utime : (d.utime n t).next = d.next := by
  unfold utime
  split <;> rfl

@[simp] theorem data_utime : ((d.utime n t).inode i).data = (d.inode i).data := by
  unfold utime
  split
  · rename_i j _
    by_cases hi : i = j
    · subst hi
      simp only [Function.update_self]
    · simp only [Function.update_of_ne hi]
  · rfl

@[simp] theorem read_utime : (d.utime n t).read m = d.read m := by
  simp only [read, entry_utime, data_utime]

/-! ### Names -/

variable [DecidableEq ν] (d)

/-- `open(name, "wb")`: the file is truncated if it is there and created if not. -/
def openWrite (n : ν) (now : ℚ) : Directory ν where
  entry := Function.update d.entry n (some (d.opened n))
  inode := Function.update d.inode (d.opened n) ⟨[], now⟩
  next := max d.next (d.opened n + 1)
  bound m i h := by
    by_cases hm : m = n
    · subst hm
      obtain rfl : d.opened m = i := by simpa using h
      omega
    · rw [Function.update_of_ne hm] at h
      exact lt_max_of_lt_left (d.bound m i h)
  inj m m' i h h' := by
    by_cases hm : m = n
    · by_cases hm' : m' = n
      · rw [hm, hm']
      · subst hm
        rw [Function.update_of_ne hm'] at h'
        rw [Function.update_self, Option.some.injEq] at h
        exact absurd h (opened_ne h' hm')
    · rw [Function.update_of_ne hm] at h
      by_cases hm' : m' = n
      · subst hm'
        rw [Function.update_self, Option.some.injEq] at h'
        exact absurd h' (opened_ne h hm)
      · rw [Function.update_of_ne hm'] at h'
        exact d.inj m m' i h h'

/-- `unlink`. -/
def unlink (n : ν) : Directory ν :=
  { d with
    entry := Function.update d.entry n none
    bound := fun m i h => by
      by_cases hm : m = n
      · simp [hm] at h
      · rw [Function.update_of_ne hm] at h
        exact d.bound m i h
    inj := fun m m' i h h' => by
      by_cases hm : m = n
      · simp [hm] at h
      · by_cases hm' : m' = n
        · simp [hm'] at h'
        · rw [Function.update_of_ne hm] at h
          rw [Function.update_of_ne hm'] at h'
          exact d.inj m m' i h h' }

/-- `os.replace(n, m)` of two different names. -/
def replace (n m : ν) : Directory ν :=
  { d with
    entry := fun k => if k = n then none else if k = m then d.entry n else d.entry k
    bound := fun k i h => by
      split at h
      · cases h
      · split at h
        · exact d.bound n i h
        · exact d.bound k i h
    inj := fun k k' i h h' => by
      split at h
      · cases h
      · rename_i hk
        split at h'
        · cases h'
        · rename_i hk'
          split at h
          · split at h'
            · simp_all
            · exact absurd (d.inj n k' i h h').symm hk'
          · split at h'
            · exact absurd (d.inj n k i h' h).symm hk
            · exact d.inj k k' i h h' }

variable {d}

@[simp] theorem entry_openWrite_self : (d.openWrite n now).entry n = some (d.opened n) := by
  simp only [openWrite, Function.update_self]

/-- Opening a name for writing leaves the other entries alone. -/
theorem entry_openWrite (h : m ≠ n) : (d.openWrite n now).entry m = d.entry m := by
  simp only [openWrite, Function.update_of_ne h]

@[simp] theorem data_openWrite_self : ((d.openWrite n now).inode (d.opened n)).data = [] := by
  simp only [openWrite, Function.update_self]

/-- Opening a name for writing leaves the other inodes alone. -/
theorem inode_openWrite (h : i ≠ d.opened n) : (d.openWrite n now).inode i = d.inode i := by
  simp only [openWrite, Function.update_of_ne h]

/-- A name that is opened for writing is empty. -/
theorem read_openWrite_self : (d.openWrite n now).read n = some [] :=
  read_eq_some.mpr ⟨_, entry_openWrite_self, data_openWrite_self⟩

/-- The other names read as before. -/
theorem read_openWrite (h : m ≠ n) : (d.openWrite n now).read m = d.read m := by
  unfold read
  rw [entry_openWrite h]
  cases hm : d.entry m with
  | none => rfl
  | some i => simp only [Option.map_some, inode_openWrite (opened_ne hm h).symm]

/-- An inode that was used stays so. -/
theorem lt_next_openWrite (h : i < d.next) : i < (d.openWrite n now).next :=
  lt_max_of_lt_left h

/-- The opened inode is used. -/
theorem opened_lt_next : d.opened n < (d.openWrite n now).next :=
  lt_max_of_lt_right (Nat.lt_succ_self _)

@[simp] theorem entry_unlink_self : (d.unlink n).entry n = none := by
  simp only [unlink, Function.update_self]

/-- Removing a name leaves the other entries alone. -/
theorem entry_unlink (h : m ≠ n) : (d.unlink n).entry m = d.entry m := by
  simp only [unlink, Function.update_of_ne h]

/-- An unlink binds nothing. -/
theorem entry_of_unlink (h : (d.unlink n).entry m = some i) : m ≠ n ∧ d.entry m = some i := by
  by_cases hm : m = n
  · subst hm
    simp at h
  · exact ⟨hm, (entry_unlink hm).symm.trans h⟩

/-- The other names read as before. -/
theorem read_unlink (h : m ≠ n) : (d.unlink n).read m = d.read m := by
  simp only [read, unlink, Function.update_of_ne h]

/-- What is still read is another name. -/
theorem read_of_unlink {data : List UInt8} (h : (d.unlink n).read m = some data) :
    m ≠ n ∧ d.read m = some data := by
  obtain ⟨i, hi, hdata⟩ := read_eq_some.mp h
  obtain ⟨hne, hm⟩ := entry_of_unlink hi
  exact ⟨hne, read_eq_some.mpr ⟨i, hm, hdata⟩⟩

/-- Replacing a name by another leaves the rest of the entries alone. -/
theorem entry_replace {k : ν} (hn : k ≠ n) (hm : k ≠ m) :
    (d.replace n m).entry k = d.entry k := by
  simp only [replace, if_neg hn, if_neg hm]

/-- What a name is bound to was bound to it before, or was renamed to it. -/
theorem entry_of_replace {k : ν} (h : (d.replace n m).entry k = some i) :
    d.entry n = some i ∨ d.entry k = some i := by
  simp only [replace] at h
  split at h
  · cases h
  · split at h
    · exact .inl h
    · exact .inr h

/-- The destination reads as the source did. -/
theorem read_replace_dest (h : n ≠ m) : (d.replace n m).read m = d.read n := by
  simp only [read, replace, if_neg h.symm, if_true]

/-- The other names read as before. -/
theorem read_replace {k : ν} (hn : k ≠ n) (hm : k ≠ m) : (d.replace n m).read k = d.read k := by
  simp only [read, replace, if_neg hn, if_neg hm]

end Directory

end Files
