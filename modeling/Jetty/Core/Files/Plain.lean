import Jetty.Core.Files.Edits

/-!
# Trees without links

Where no name stands for a link, a normal path leads to the place whose text it is, for the kernel
as for the resolution.
-/

namespace Files

namespace Tree

variable {δ : Type} {t : Tree δ} {k : ℕ} {cur c : Place} {n : Name} {dir p : Place}

/-- No name stands for a link. -/
def Plain (t : Tree δ) : Prop := ∀ p target, t.entry p ≠ some (.link target)

/-- A disk that is given without links is plain. -/
theorem plain_ofEntries {stat : δ} {entries : List (Place × Entry δ)}
    (h : ∀ entry ∈ entries, entry.1.tail = [] ∨
      (match entries.lookup entry.1.tail with | some (.directory _) => true | _ => false) = true)
    (hlinks : ∀ entry ∈ entries, ∀ target, entry.2 ≠ .link target) :
    (ofEntries stat entries h).Plain := by
  intro p target hp
  simp only [ofEntries] at hp
  split at hp
  · cases hp
  · obtain ⟨before, after, rfl, -⟩ := List.lookup_eq_some_iff.mp hp
    exact hlinks _ (List.mem_append_right _ List.mem_cons_self) target rfl

/-- A walk along names does not leave them. -/
theorem Plain.eq_of_reaches (h : t.Plain) {names : List Name}
    (hreach : t.Reaches k cur (names.map .name) c) : c = names.reverse ++ cur := by
  induction names generalizing cur with
  | nil =>
      cases hreach
      rfl
  | cons n names ih =>
      rw [List.map_cons] at hreach
      rw [List.reverse_cons, List.append_assoc, List.singleton_append]
      generalize hrest : names.map Part.name = rest at hreach
      cases hreach with
      | missing hnone hdir =>
          obtain rfl := List.map_eq_nil_iff.mp hrest
          rfl
      | enter hentry hlink hreach => exact ih (hrest ▸ hreach)
      | follow hentry hreach => exact absurd hentry (h _ _)

/-- The kernel gets to a place whose directory is there, and to no other. -/
theorem Plain.walk_text (h : t.Plain) (k : ℕ) (n : Name) (dir : Place) :
    t.walk k [] (parts (text (n :: dir))) =
      if t.isDir dir = true then some (n :: dir) else none := by
  have hnames : (n :: dir).reverse.map Part.name = dir.reverse.map .name ++ [.name n] := by
    rw [List.reverse_cons, List.map_append]
    rfl
  rw [Tree.walk_text, hnames]
  split
  · rename_i hdir
    have hsettled : t.Settled (dir ++ []) := by simpa using settled_of_isDir hdir
    rw [walk_settled (.inr hsettled), List.append_nil]
    cases hentry : t.entry (n :: dir) with
    | none => rw [walk_missing hentry, if_pos ⟨hdir, rfl⟩]
    | some e => rw [walk_enter hentry fun target he => h _ target (he ▸ hentry), walk_nil]
  · rename_i hdir
    by_contra hsome
    obtain ⟨c, hc⟩ := Option.ne_none_iff_exists'.mp hsome
    obtain ⟨mid, l, -, hbegin, hend⟩ := (reaches_of_walk hc).split
    have hmid : mid = dir := by simpa using h.eq_of_reaches hbegin
    subst hmid
    cases hend with
    | missing _ hmid => exact hdir hmid
    | enter hentry => exact hdir (isDir_of_entry hentry)
    | follow hentry => exact h _ _ hentry

/-- Names are put below a path one after the other. -/
theorem lexical_names (base : Place) (below names : List Name) :
    lexical base below (names.map .name) = (base, names.reverse ++ below) := by
  induction names generalizing below with
  | nil => rfl
  | cons n names ih =>
      rw [List.map_cons, lexical, ih, List.reverse_cons, List.append_assoc]
      rfl

/-- The resolution of names gets to the end, or stops at a name with names left. -/
theorem Plain.resolveWith_names (h : t.Plain)
    {deeper : Place → Place → List Part → Option Outcome} (names : List Name) (cur : Place) :
    t.resolveWith deeper cur (names.map .name) = .resolved (names.reverse ++ cur) ∨
      ∃ (dir : Place) (n : Name) (rest : List Name),
        t.resolveWith deeper cur (names.map .name) = .stuck dir n (rest.map .name) ∧
        rest.reverse ++ n :: dir = names.reverse ++ cur := by
  induction names generalizing cur with
  | nil => exact .inl rfl
  | cons n names ih =>
      rw [List.reverse_cons, List.append_assoc, List.singleton_append, List.map_cons, resolveWith]
      split
      · exact .inr ⟨cur, n, names, rfl, rfl⟩
      · rename_i target hentry
        exact absurd hentry (h _ target)
      · exact ih (n :: cur)

/-- A normal path is resolved to its place, whether it is there or not. -/
theorem Plain.realpath_text (h : t.Plain) (p : Place) : t.realpath [] (text p) = p := by
  obtain ⟨heres, hheres, hparts⟩ := parts_text p
  have hskip : ∀ {deeper : Place → Place → List Part → Option Outcome} (rest : List Part),
      t.resolveWith deeper [] (heres ++ rest) = t.resolveWith deeper [] rest := by
    intro deeper rest
    clear hparts
    induction heres with
    | nil => rfl
    | cons part heres ih =>
        obtain ⟨rfl, htail⟩ := List.forall_mem_cons.mp hheres
        rw [List.cons_append, resolveWith]
        exact ih htail
  have hresolve : ∀ depth, t.resolve depth [] [] (parts (text p)) = .resolved p ∨
      ∃ (dir : Place) (n : Name) (rest : List Name),
        t.resolve depth [] [] (parts (text p)) = .stuck dir n (rest.map .name) ∧
        rest.reverse ++ n :: dir = p := by
    intro depth
    rw [hparts]
    cases depth <;>
      · rw [resolve, hskip]
        simpa using h.resolveWith_names p.reverse []
  unfold realpath
  rcases hresolve t.links.length with hresolved | ⟨dir, n, rest, hstuck, hp⟩
  · rw [hresolved]
  · rw [hstuck]
    simp only [lexical_names, List.append_nil]
    exact hp

end Tree

end Files
