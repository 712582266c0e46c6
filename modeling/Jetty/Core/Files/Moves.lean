import Jetty.Core.Files.Disk

/-!
# Moving directories

What is below a directory goes with it when the directory is moved.
-/

namespace Files

variable {δ : Type}

/-- The place with its end `q` replaced by `p`. -/
def regraft (q p r : Place) : Place := r.take (r.length - q.length) ++ p

@[simp] theorem regraft_append (q p above : Place) : regraft q p (above ++ q) = above ++ p := by
  simp [regraft]

namespace Tree

variable {t : Tree δ} {p q r : Place}

/-- A directory may go to the place: it is not moved into itself, and what is there is empty. -/
structure Graftable (t : Tree δ) (p q : Place) : Prop where
  top : p ≠ []
  outside : ¬ p <:+ q
  source : t.isDir p = true
  target : q ≠ []
  parent : t.isDir q.tail = true
  leaf : ∀ m, t.entry (m :: q) = none

/-- What is at a place after the move. -/
def grafted (t : Tree δ) (p q r : Place) : Option (Entry δ) :=
  if q <:+ r then t.entry (regraft q p r) else if p <:+ r then none else t.entry r

private theorem grafted_above (above : Place) : t.grafted p q (above ++ q) = t.entry
    (above ++ p) := by
  rw [grafted, if_pos (List.suffix_append above q), regraft_append]

private theorem grafted_apart (hq : ¬ q <:+ r) (hp : ¬ p <:+ r) : t.grafted p q r = t.entry r := by
  rw [grafted, if_neg hq, if_neg hp]

private theorem Graftable.parent_grafted (h : t.Graftable p q) (n : Name) (r : Place)
    (hsome : (t.grafted p q (n :: r)).isSome = true) :
    ∃ stat, t.grafted p q r = some (.directory stat) := by
  by_cases hq : q <:+ n :: r
  · rcases List.suffix_cons_iff.mp hq with rfl | ⟨above, rfl⟩
    · -- The directory that the moved one is put in is not moved itself.
      have hr : ¬ n :: r <:+ r := fun hsuffix =>
        absurd hsuffix.length_le (Nat.not_succ_le_self r.length)
      have hp : ¬ p <:+ r := fun hsuffix => h.outside (hsuffix.trans (List.suffix_cons n r))
      have hdir := h.parent
      rw [grafted_apart hr hp]
      unfold isDir at hdir
      split at hdir
      · rename_i stat hstat
        exact ⟨stat, hstat⟩
      · cases hdir
    · rw [← List.cons_append, grafted_above, List.cons_append] at hsome
      rw [grafted_above]
      exact t.parent n _ hsome
  · have hr : ¬ q <:+ r := fun hsuffix => hq (hsuffix.trans (List.suffix_cons n r))
    rw [grafted, if_neg hq] at hsome
    split at hsome
    · cases hsome
    · rename_i hp
      rw [grafted_apart hr fun hsuffix => hp (hsuffix.trans (List.suffix_cons n r))]
      exact t.parent n r hsome

/-- The tree with a directory moved. -/
def graft (t : Tree δ) (p q : Place) (h : t.Graftable p q) : Tree δ where
  entry := t.grafted p q
  top := by
    have hq : ¬ q <:+ [] := fun hsuffix => h.target (List.suffix_nil.mp hsuffix)
    have hp : ¬ p <:+ [] := fun hsuffix => h.top (List.suffix_nil.mp hsuffix)
    rw [grafted_apart hq hp]
    exact t.top
  parent := h.parent_grafted
  links := t.links.map (regraft p q) ++ t.links
  mem_links r target hlink := by
    by_cases hq : q <:+ r
    · obtain ⟨above, rfl⟩ := hq
      rw [grafted_above] at hlink
      refine List.mem_append_left _ (List.mem_map.mpr ⟨above ++ p, t.mem_links _ target hlink, ?_⟩)
      exact regraft_append p q above
    · rw [grafted, if_neg hq] at hlink
      split at hlink
      · cases hlink
      · exact List.mem_append_right _ (t.mem_links r target hlink)

end Tree

namespace Disk

variable {d : Disk δ} {p q : Place}

/-- `rename(2)` may move the directory, or has nothing to do. -/
def Movable (d : Disk δ) (p q : Place) : Prop :=
  d.tree.isDir p = true ∧ (p = q ∨ p ≠ [] ∧ ¬ p <:+ q ∧ q ≠ [] ∧ d.tree.isDir q.tail = true ∧
    ((d.tree.entry q).isNone = true ∨ d.tree.isDir q = true ∧ d.childless q = true))

instance (d : Disk δ) (p q : Place) : Decidable (d.Movable p q) :=
  inferInstanceAs (Decidable (_ ∧ _))

private theorem Movable.graftable (h : d.Movable p q) (hne : p ≠ q) : d.tree.Graftable p q := by
  obtain ⟨hsource, hsame | ⟨htop, houtside, htarget, hparent, hfree⟩⟩ := h
  · exact absurd hsame hne
  · refine ⟨htop, houtside, hsource, htarget, hparent, fun m => ?_⟩
    rcases hfree with hnone | ⟨-, hempty⟩
    · by_contra hsome
      have hdir := Tree.isDir_of_entry (Option.ne_none_iff_exists'.mp hsome).choose_spec
      rw [Tree.isDir_of_none (Option.isNone_iff_eq_none.mp hnone)] at hdir
      cases hdir
    · exact childless_iff.mp hempty m

/-- The disk with a directory moved. -/
def graft (d : Disk δ) (p q : Place) (h : d.tree.Graftable p q) : Disk δ where
  tree := d.tree.graft p q h
  places := d.places.map (regraft p q) ++ d.places
  mem_places r hr := by
    change (d.tree.grafted p q r).isSome = true at hr
    by_cases hq : q <:+ r
    · obtain ⟨above, rfl⟩ := hq
      rw [Tree.grafted_above] at hr
      refine List.mem_append_left _ (List.mem_map.mpr ⟨above ++ p, d.mem_places _ hr, ?_⟩)
      exact regraft_append p q above
    · rw [Tree.grafted, if_neg hq] at hr
      split at hr
      · cases hr
      · exact List.mem_append_right _ (d.mem_places r hr)
  node r := if q <:+ r then d.node (regraft q p r) else d.node r
  inode := d.inode
  next := d.next
  node_lt r hr := by
    change d.tree.grafted p q r = _ at hr
    by_cases hq : q <:+ r
    · rw [if_pos hq]
      rw [Tree.grafted, if_pos hq] at hr
      exact d.node_lt _ hr
    · rw [if_neg hq]
      rw [Tree.grafted, if_neg hq] at hr
      split at hr
      · cases hr
      · exact d.node_lt r hr

/-- `rename(2)` of a directory. -/
def renameDirectory (d : Disk δ) (p q : Place) : Except Errno (Disk δ) :=
  if h : d.Movable p q then
    if hne : p = q then .ok d else .ok (d.graft p q (h.graftable hne))
  else if p = [] ∨ p <:+ q then .error .io
  else
    match d.tree.entry q with
    | none => .error .noent
    | some (.directory _) => .error .notempty
    | some _ => .error .notdir

/-- `rename(2)`. -/
def replace (d : Disk δ) (p q : Place) : Except Errno (Disk δ) :=
  if d.tree.isDir p then d.renameDirectory p q else d.rename p q

/-- A directory that cannot be moved is not renamed. -/
theorem renameDirectory_error (h : ¬ d.Movable p q) : ∃ e, d.renameDirectory p q = .error e := by
  rw [renameDirectory, dif_neg h]
  split
  · exact ⟨_, rfl⟩
  · split <;> exact ⟨_, rfl⟩

end Disk

end Files
