import Jetty.Orchestrator.Watch.Order

/-!
# Changes that a signature sees

The signature of a directory sees a change of the tree unless the two walks spell their entries
alike: the records are told apart by the NUL in front of each, but within a record the name, the
numbers and the paths of the directories entered next run together.
-/

namespace Jetty.Orchestrator.Watch

variable (o : NameOrder) (digest : Bytes → String)

/-- Two records of one kind that spell the same. -/
def SpeltAlike (l l' : Line) : Prop :=
  l.entry.kind.mark = l'.entry.kind.mark ∧
    l.entry.name.bytes ++ l.entry.kind.numbers ++ l.entered.flatMap relpath =
      l'.entry.name.bytes ++ l'.entry.kind.numbers ++ l'.entered.flatMap relpath

private theorem spelt_alike_iff (l l' : Line) : SpeltAlike l l' ↔ l.text = l'.text := by
  rw [Line.text, Line.text, List.cons_eq_cons, SpeltAlike]

private theorem forall₂_spelt_alike_iff (ls ls' : List Line) :
    List.Forall₂ SpeltAlike ls ls' ↔ ls.map Line.text = ls'.map Line.text := by
  have hrel : SpeltAlike = fun l l' => l.text = l'.text :=
    funext₂ fun l l' => propext (spelt_alike_iff l l')
  calc List.Forall₂ SpeltAlike ls ls'
    _ ↔ List.Forall₂ Eq (ls.map Line.text) (ls'.map Line.text) := by
      rw [List.forall₂_map_left_iff, List.forall₂_map_right_iff, hrel]
    _ ↔ ls.map Line.text = ls'.map Line.text := by rw [List.forall₂_eq_eq_eq]

/-- As many records in the one walk as in the other, which spell alike one after the other, though
not all are about the same. -/
def Blurred (T₁ T₂ : Tree) : Prop :=
  List.Forall₂ SpeltAlike (lines (T₁.walk o)) (lines (T₂.walk o)) ∧
    entries (T₁.walk o) ≠ entries (T₂.walk o)

/-- The signatures see every change between two trees. -/
def SeesChanges (T₁ T₂ : Tree) : Prop :=
  (T₁.stream o = T₂.stream o → Same T₁ T₂) ∧
    (¬Same T₁ T₂ →
      (pathSig o digest (.directory T₁)).1 ≠ (pathSig o digest (.directory T₂)).1)

/-- Only the watched directory is entered before the first record. -/
theorem lead_walk (T : Tree) : lead (T.walk o) = [[]] := by
  have hlevel (files : List File) (subs : Dirs) :
      lead (level [] subs files ++ walkBelow [] subs) = [] := by
    cases subs with
    | nil => cases files <;> rfl
    | link name rest => rfl
    | dir name files subs rest => rfl
  rw [Tree.walk, walk, lead, hlevel]

private theorem stream_eq_iff (T₁ T₂ : Tree) : T₁.stream o = T₂.stream o ↔
    List.Forall₂ SpeltAlike (lines (T₁.walk o)) (lines (T₂.walk o)) := by
  have hnul (T : Tree) : ∀ t ∈ (lines (T.walk o)).map Line.text, 0 ∉ t := by
    intro t ht
    obtain ⟨l, -, rfl⟩ := List.mem_map.mp ht
    exact nul_not_mem_text l
  rw [forall₂_spelt_alike_iff, Tree.stream, Tree.stream, flatMap_bytes, flatMap_bytes, lead_walk,
    lead_walk, List.append_cancel_left_eq]
  constructor
  · exact flatMap_zero_inj (hnul T₁) (hnul T₂)
  · intro h
    rw [h]

/-- The hash takes two trees with different streams for one. -/
def Collides (T₁ T₂ : Tree) : Prop :=
  T₁.stream o ≠ T₂.stream o ∧ digest (T₁.stream o) = digest (T₂.stream o)

section Lone

/-- A directory with one file in it. -/
def lone (name : Name) (stat : Stat) : Tree :=
  ⟨[(name, some stat)], .nil, List.nodup_singleton name, trivial⟩

private theorem walk_lone (name : Name) (stat : Stat) :
    (lone name stat).walk o = [.enter [], .entry ⟨[], name, .file (some stat)⟩] := by
  rw [Tree.walk, lone, sortFiles, List.mergeSort_singleton]
  rfl

/-- The names in the order of their bytes. -/
def byteOrder : NameOrder where
  le a b := decide (a.bytes ≤ b.bytes)
  trans hab hbc := by
    rw [decide_eq_true_eq] at hab hbc ⊢
    exact le_trans hab hbc
  total a b := by
    rw [Bool.or_eq_true, decide_eq_true_eq, decide_eq_true_eq]
    exact le_total _ _
  antisymm {a b} hab hba := by
    rw [decide_eq_true_eq] at hab hba
    cases a
    cases b
    congr 1
    exact le_antisymm hab hba

def nameA : Name := ⟨[0x61], nofun, by decide, by decide⟩

def nameA1 : Name := ⟨[0x61, 0x31], nofun, by decide, by decide⟩

/-- The bytes themselves, as a digest without collisions among ASCII. -/
def asText (bs : Bytes) : String := String.ofList (bs.map Char.ofNat)

/-- A directory with the file `a` in it and, in its directory `a1`, a file `a`. -/
def housed (stat : Stat) : Tree :=
  ⟨[(nameA, some ⟨12, 0, 5⟩)], .dir nameA1 [(nameA, some stat)] .nil .nil,
    (by decide : [nameA1, nameA].Nodup), by simp [Dirs.Distinct, Dirs.names]⟩

private theorem walk_housed (stat : Stat) :
    (housed stat).walk byteOrder = [.enter [], .entry ⟨[], nameA1, .directory⟩,
      .entry ⟨[], nameA, .file (some ⟨12, 0, 5⟩)⟩, .enter [nameA1],
      .entry ⟨[nameA1], nameA, .file (some stat)⟩] := by
  rw [Tree.walk, housed, sortFiles, List.mergeSort_singleton, Dirs.sort, sortFiles,
    List.mergeSort_singleton]
  rfl

end Lone

end Jetty.Orchestrator.Watch
