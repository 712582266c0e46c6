import Jetty.Core.Files.Walks

/-!
# Editing a tree

One name of a directory is bound anew. A walk that ends in a directory goes through directories and
along links that lead to directories; it takes notice of an edit only where it goes through.
-/

namespace Files

namespace Tree

variable {δ : Type} {t : Tree δ}

section Edit

/-- The tree with another entry, or none, for a name in a directory; what had something below it
stays a directory. -/
def edit (t : Tree δ) (n : Name) (dir : Place) (e : Option (Entry δ)) (hdir : t.isDir dir = true)
    (hleaf : (∃ stat, e = some (.directory stat)) ∨ ∀ m, t.entry (m :: n :: dir) = none) :
    Tree δ where
  entry p := if p = n :: dir then e else t.entry p
  top := by
    rw [if_neg (List.cons_ne_nil n dir).symm]
    exact t.top
  parent m p hsome := by
    have hparent : ∃ stat, t.entry p = some (.directory stat) ∨ p = n :: dir := by
      by_cases hp : m :: p = n :: dir
      · obtain ⟨-, rfl⟩ := List.cons.inj hp
        unfold isDir at hdir
        split at hdir
        · rename_i stat hstat
          exact ⟨stat, .inl hstat⟩
        · cases hdir
      · rw [if_neg hp] at hsome
        obtain ⟨stat, hstat⟩ := t.parent m p hsome
        exact ⟨stat, .inl hstat⟩
    by_cases hp : p = n :: dir
    · subst hp
      rw [if_pos rfl]
      rcases hleaf with hdirectory | hleaf
      · exact hdirectory
      · have hne : m :: n :: dir ≠ n :: dir := fun h => by
          have hlength := congrArg List.length h
          simp at hlength
        rw [if_neg hne, hleaf m] at hsome
        cases hsome
    · rw [if_neg hp]
      obtain ⟨stat, hstat⟩ := hparent
      exact ⟨stat, hstat.resolve_right hp⟩
  links := (n :: dir) :: t.links
  mem_links p target hlink := by
    by_cases hp : p = n :: dir
    · rw [hp]
      exact List.mem_cons_self
    · rw [if_neg hp] at hlink
      exact List.mem_cons_of_mem _ (t.mem_links p target hlink)

end Edit

section Reach

/-- What has no entry is no directory. -/
theorem isDir_of_none {p : Place} (h : t.entry p = none) : t.isDir p = false := by
  simp only [isDir, h]

/-- A directory is not where there is nothing. -/
theorem ne_of_isDir {p q : Place} (h : t.isDir p = true) (hnone : t.entry q = none) : q ≠ p := by
  rintro rfl
  rw [isDir_of_none hnone] at h
  cases h

/-- The walk gets to the place, following at most so many links. -/
inductive Reaches (t : Tree δ) : ℕ → Place → List Part → Place → Prop
  | done {k : ℕ} {c : Place} : Reaches t k c [] c
  | here {k : ℕ} {cur c : Place} {rest : List Part} (hdir : t.isDir cur = true)
    (hrest : Reaches t k cur rest c) : Reaches t k cur (.here :: rest) c
  | up {k : ℕ} {cur c : Place} {rest : List Part} (hdir : t.isDir cur = true)
    (hrest : Reaches t k cur.tail rest c) : Reaches t k cur (.up :: rest) c
  | missing {k : ℕ} {cur : Place} {n : Name} (hnone : t.entry (n :: cur) = none)
    (hdir : t.isDir cur = true) : Reaches t k cur [.name n] (n :: cur)
  | enter {k : ℕ} {cur c : Place} {n : Name} {rest : List Part} {e : Entry δ}
    (hentry : t.entry (n :: cur) = some e) (hlink : ∀ target, e ≠ .link target)
    (hrest : Reaches t k (n :: cur) rest c) : Reaches t k cur (.name n :: rest) c
  | follow {k : ℕ} {cur c : Place} {n : Name} {rest : List Part} {target : List Char}
    (hentry : t.entry (n :: cur) = some (.link target))
    (hrest : Reaches t k (start cur target) (parts target ++ rest) c) :
    Reaches t (k + 1) cur (.name n :: rest) c

variable {k : ℕ} {cur c : Place} {ps rest : List Part}

/-- What is reached is where the walk ends. -/
theorem walk_of_reaches (h : t.Reaches k cur ps c) : t.walk k cur ps = some c := by
  induction h with
  | done => exact walk_nil
  | here hdir _ ih => rw [walk_here, if_pos hdir, ih]
  | up hdir _ ih => rw [walk_up, if_pos hdir, ih]
  | missing hnone hdir => rw [walk_missing hnone, if_pos ⟨hdir, rfl⟩]
  | enter hentry hlink _ ih => rw [walk_enter hentry hlink, ih]
  | follow hentry _ ih => simp only [walk, walkWith, hentry, ih]

private theorem reaches_of_walkWith {follow : Place → List Part → Option Place}
    (hfollow : ∀ cur n target rest c, t.entry (n :: cur) = some (.link target) →
      follow (start cur target) (parts target ++ rest) = some c →
        t.Reaches k cur (.name n :: rest) c) (ps : List Part) :
    ∀ cur c, t.walkWith follow cur ps = some c → t.Reaches k cur ps c := by
  induction ps with
  | nil =>
      intro cur c h
      obtain rfl := Option.some.inj h
      exact .done
  | cons part ps ih =>
      intro cur c h
      cases part with
      | here =>
          unfold walkWith at h
          split at h
          · rename_i hdir
            exact .here hdir (ih cur c h)
          · cases h
      | up =>
          unfold walkWith at h
          split at h
          · rename_i hdir
            exact .up hdir (ih cur.tail c h)
          · cases h
      | name n =>
          unfold walkWith at h
          split at h
          · rename_i hnone
            split at h
            · rename_i hlast
              obtain ⟨hdir, rfl⟩ := hlast
              obtain rfl := Option.some.inj h
              exact .missing hnone hdir
            · cases h
          · rename_i target hentry
            exact hfollow cur n target ps c hentry h
          · rename_i e hlink hentry
            exact .enter hentry hlink (ih (n :: cur) c h)

/-- Where the walk ends is reached. -/
theorem reaches_of_walk (h : t.walk k cur ps = some c) : t.Reaches k cur ps c := by
  induction k generalizing cur ps c with
  | zero => exact reaches_of_walkWith (fun _ _ _ _ _ _ h => by cases h) ps cur c h
  | succ k ih =>
      exact reaches_of_walkWith (fun _ _ _ _ _ hentry h => .follow hentry (ih h)) ps cur c h

/-- More links do not change where a walk gets. -/
theorem Reaches.mono (h : t.Reaches k cur ps c) {l : ℕ} (hkl : k ≤ l) : t.Reaches l cur ps c := by
  induction h generalizing l with
  | done => exact .done
  | here hdir _ ih => exact .here hdir (ih hkl)
  | up hdir _ ih => exact .up hdir (ih hkl)
  | missing hnone hdir => exact .missing hnone hdir
  | enter hentry hlink _ ih => exact .enter hentry hlink (ih hkl)
  | follow hentry _ ih =>
      obtain ⟨l, rfl⟩ := Nat.exists_eq_add_of_le' (Nat.le_of_add_left_le hkl)
      exact .follow hentry (ih (Nat.le_of_add_le_add_right hkl))

/-- Two walks of one path do not part. -/
theorem walk_unique {k l : ℕ} {c d : Place} (hc : t.walk k cur ps = some c)
    (hd : t.walk l cur ps = some d) : c = d := by
  have hc' := walk_of_reaches ((reaches_of_walk hc).mono (Nat.le_max_left k l))
  rw [walk_of_reaches ((reaches_of_walk hd).mono (Nat.le_max_right k l))] at hc'
  exact (Option.some.inj hc').symm

/-- A walk that ends in a directory begins in one. -/
theorem Reaches.from_isDir (h : t.Reaches k cur ps c) (hc : t.isDir c = true) :
    t.isDir cur = true := by
  cases h with
  | done => exact hc
  | here hdir => exact hdir
  | up hdir => exact hdir
  | missing _ hdir => exact hdir
  | enter hentry => exact isDir_of_entry hentry
  | follow hentry => exact isDir_of_entry hentry

/-- A walk passes by where its beginning gets. -/
theorem Reaches.split {k : ℕ} {cur c : Place} {ps rest : List Part}
    (h : t.Reaches k cur (ps ++ rest) c) :
    ∃ mid l, l ≤ k ∧ t.Reaches k cur ps mid ∧ t.Reaches l mid rest c := by
  generalize hall : ps ++ rest = all at h
  induction h generalizing ps with
  | @done k c =>
      obtain ⟨rfl, rfl⟩ := List.append_eq_nil_iff.mp hall
      exact ⟨c, k, Nat.le_refl k, .done, .done⟩
  | here hdir hrest ih =>
      rcases List.append_eq_cons_iff.mp hall with ⟨rfl, rfl⟩ | ⟨ps, rfl, hps⟩
      · exact ⟨_, _, Nat.le_refl _, .done, .here hdir hrest⟩
      · obtain ⟨mid, l, hl, hbegin, hend⟩ := ih hps.symm
        exact ⟨mid, l, hl, .here hdir hbegin, hend⟩
  | up hdir hrest ih =>
      rcases List.append_eq_cons_iff.mp hall with ⟨rfl, rfl⟩ | ⟨ps, rfl, hps⟩
      · exact ⟨_, _, Nat.le_refl _, .done, .up hdir hrest⟩
      · obtain ⟨mid, l, hl, hbegin, hend⟩ := ih hps.symm
        exact ⟨mid, l, hl, .up hdir hbegin, hend⟩
  | missing hnone hdir =>
      rcases List.append_eq_cons_iff.mp hall with ⟨rfl, rfl⟩ | ⟨ps, rfl, hps⟩
      · exact ⟨_, _, Nat.le_refl _, .done, .missing hnone hdir⟩
      · obtain ⟨rfl, rfl⟩ := List.append_eq_nil_iff.mp hps.symm
        exact ⟨_, _, Nat.le_refl _, .missing hnone hdir, .done⟩
  | enter hentry hlink hrest ih =>
      rcases List.append_eq_cons_iff.mp hall with ⟨rfl, rfl⟩ | ⟨ps, rfl, hps⟩
      · exact ⟨_, _, Nat.le_refl _, .done, .enter hentry hlink hrest⟩
      · obtain ⟨mid, l, hl, hbegin, hend⟩ := ih hps.symm
        exact ⟨mid, l, hl, .enter hentry hlink hbegin, hend⟩
  | follow hentry hrest ih =>
      rcases List.append_eq_cons_iff.mp hall with ⟨rfl, rfl⟩ | ⟨ps, rfl, rfl⟩
      · exact ⟨_, _, Nat.le_refl _, .done, .follow hentry hrest⟩
      · obtain ⟨mid, l, hl, hbegin, hend⟩ := ih (List.append_assoc _ _ _)
        exact ⟨mid, l, Nat.le_succ_of_le hl, .follow hentry hbegin, hend⟩

/-- A name that stands for no link is where a walk to its directory goes on to. -/
theorem Reaches.snoc {n : Name} {mid : Place} {e : Entry δ} (h : t.Reaches k cur ps mid)
    (hentry : t.entry (n :: mid) = some e) (hlink : ∀ target, e ≠ .link target) :
    t.Reaches k cur (ps ++ [.name n]) (n :: mid) := by
  induction h with
  | done => exact .enter hentry hlink .done
  | here hdir _ ih => exact .here hdir (ih hentry)
  | up hdir _ ih => exact .up hdir (ih hentry)
  | missing hnone =>
      exact absurd rfl (ne_of_isDir (isDir_of_entry hentry) hnone)
  | enter hentry' hlink' _ ih => exact .enter hentry' hlink' (ih hentry)
  | follow hentry' _ ih =>
      refine .follow hentry' ?_
      have hrest := ih hentry
      rw [List.append_assoc] at hrest
      exact hrest

/-- A walk goes on from where another one ends. -/
theorem Reaches.append {l : ℕ} {mid : Place} (h : t.Reaches k cur ps mid)
    (hrest : t.Reaches l mid rest c) (hc : t.isDir c = true) :
    t.Reaches (k + l) cur (ps ++ rest) c := by
  induction h with
  | done => exact hrest.mono (Nat.le_add_left l _)
  | here hdir _ ih => exact .here hdir (ih hrest)
  | up hdir _ ih => exact .up hdir (ih hrest)
  | missing hnone => exact absurd rfl (ne_of_isDir (hrest.from_isDir hc) hnone)
  | enter hentry hlink _ ih => exact .enter hentry hlink (ih hrest)
  | @follow k cur mid n rest' target hentry _ ih =>
      have hall := ih hrest
      rw [List.append_assoc] at hall
      rw [Nat.add_right_comm]
      exact .follow hentry hall

end Reach

section Passes

/-- The places that a walk looks at. -/
def passesWith (t : Tree δ) (follow : Place → List Part → List Place) :
    Place → List Part → List Place
  | cur, [] => [cur]
  | cur, .here :: rest => cur :: passesWith t follow cur rest
  | cur, .up :: rest => cur :: passesWith t follow cur.tail rest
  | cur, .name n :: rest =>
    match t.entry (n :: cur) with
    | none => [n :: cur, cur]
    | some (.link target) => (n :: cur) :: follow (start cur target) (parts target ++ rest)
    | some _ => (n :: cur) :: passesWith t follow (n :: cur) rest

def passes (t : Tree δ) : ℕ → Place → List Part → List Place
  | 0 => t.passesWith fun _ _ => []
  | limit + 1 => t.passesWith (passes t limit)

variable {k : ℕ} {cur c p : Place} {ps rest : List Part} {n : Name}

@[simp] theorem passes_nil : t.passes k cur [] = [cur] := by
  cases k <;> rfl

@[simp] theorem passes_here : t.passes k cur (.here :: rest) = cur :: t.passes k cur rest := by
  cases k <;> rfl

@[simp] theorem passes_up : t.passes k cur (.up :: rest) = cur :: t.passes k cur.tail rest := by
  cases k <;> rfl

private theorem passes_missing (h : t.entry (n :: cur) = none) :
    t.passes k cur (.name n :: rest) = [n :: cur, cur] := by
  cases k <;> simp only [passes, passesWith, h]

private theorem passes_enter {e : Entry δ} (h : t.entry (n :: cur) = some e)
    (hlink : ∀ target, e ≠ .link target) :
    t.passes k cur (.name n :: rest) = (n :: cur) :: t.passes k (n :: cur) rest := by
  cases e with
  | link target => exact absurd rfl (hlink target)
  | _ => cases k <;> simp only [passes, passesWith, h]

private theorem passes_follow {target : List Char} (h : t.entry (n :: cur) = some (.link target)) :
    t.passes (k + 1) cur (.name n :: rest) =
      (n :: cur) :: t.passes k (start cur target) (parts target ++ rest) := by
  simp only [passes, passesWith, h]

/-- A walk that looks at a missing name ends there. -/
theorem Reaches.eq_of_missing (h : t.Reaches k cur ps c) (hcur : (t.entry cur).isSome = true)
    (hp : p ∈ t.passes k cur ps) (hnone : t.entry p = none) : p = c := by
  have hne : ∀ q, (t.entry q).isSome = true → p ≠ q := by
    rintro q hq rfl
    rw [hnone] at hq
    cases hq
  induction h with
  | done =>
      rw [passes_nil, List.mem_singleton] at hp
      exact hp
  | here hdir _ ih =>
      rw [passes_here, List.mem_cons] at hp
      exact ih hcur (hp.resolve_left (hne _ hcur))
  | up hdir _ ih =>
      rw [passes_up, List.mem_cons] at hp
      refine ih ?_ (hp.resolve_left (hne _ hcur))
      obtain ⟨e, he, -⟩ := (settled_of_isDir hdir).tail
      rw [he]
      rfl
  | missing hmissing hdir =>
      rw [passes_missing hmissing, List.mem_cons, List.mem_singleton] at hp
      exact hp.resolve_right (hne _ hcur)
  | @enter k cur c n rest e hentry hlink _ ih =>
      have hsome : (t.entry (n :: cur)).isSome = true := by
        rw [hentry]
        rfl
      rw [passes_enter hentry hlink, List.mem_cons] at hp
      exact ih hsome (hp.resolve_left (hne _ hsome))
  | @follow k cur c n rest target hentry _ ih =>
      have hsome : (t.entry (n :: cur)).isSome = true := by
        rw [hentry]
        rfl
      rw [passes_follow hentry, List.mem_cons] at hp
      refine ih ?_ (hp.resolve_left (hne _ hsome))
      obtain ⟨e, he, -⟩ := (settled_of_isDir (isDir_of_entry hentry)).start target
      rw [he]
      rfl

/-- What a walk to a directory looks at is a directory, or a link that leads to one. -/
theorem Reaches.leads (h : t.Reaches k cur ps c) (hc : t.isDir c = true)
    (hp : p ∈ t.passes k cur ps) : t.isDir p = true ∨ ∃ n dir target l d,
      p = n :: dir ∧ t.entry p = some (.link target) ∧
        t.Reaches l (start dir target) (parts target) d ∧ t.isDir d = true := by
  induction h with
  | done =>
      rw [passes_nil, List.mem_singleton] at hp
      exact .inl (hp ▸ hc)
  | here hdir _ ih =>
      rw [passes_here, List.mem_cons] at hp
      rcases hp with rfl | hp
      · exact .inl hdir
      · exact ih hc hp
  | up hdir _ ih =>
      rw [passes_up, List.mem_cons] at hp
      rcases hp with rfl | hp
      · exact .inl hdir
      · exact ih hc hp
  | missing hnone => exact absurd rfl (ne_of_isDir hc hnone)
  | enter hentry hlink hrest ih =>
      rw [passes_enter hentry hlink, List.mem_cons] at hp
      rcases hp with rfl | hp
      · exact .inl (hrest.from_isDir hc)
      · exact ih hc hp
  | @follow k cur c n rest target hentry hrest ih =>
      rw [passes_follow hentry, List.mem_cons] at hp
      rcases hp with rfl | hp
      · obtain ⟨d, l, -, hbegin, hend⟩ := hrest.split
        exact .inr ⟨n, cur, target, k, d, rfl, hentry, hbegin, hend.from_isDir hc⟩
      · exact ih hc hp

/-- The walk passes where it ends. -/
theorem Reaches.mem_passes (h : t.Reaches k cur ps c) : c ∈ t.passes k cur ps := by
  induction h with
  | done => simp only [passes_nil, List.mem_singleton]
  | here _ _ ih =>
      rw [passes_here]
      exact List.mem_cons_of_mem _ ih
  | up _ _ ih =>
      rw [passes_up]
      exact List.mem_cons_of_mem _ ih
  | missing hnone _ =>
      rw [passes_missing hnone]
      exact List.mem_cons_self
  | enter hentry hlink _ ih =>
      rw [passes_enter hentry hlink]
      exact List.mem_cons_of_mem _ ih
  | follow hentry _ ih =>
      rw [passes_follow hentry]
      exact List.mem_cons_of_mem _ ih

variable {u : Tree δ}

/-- A walk takes notice only of what it looks at. -/
theorem Reaches.agree (h : t.Reaches k cur ps c)
    (hagree : ∀ p ∈ t.passes k cur ps, u.entry p = t.entry p) : u.Reaches k cur ps c := by
  have hdirs : ∀ p, u.entry p = t.entry p → u.isDir p = t.isDir p := fun p hp => by
    simp only [isDir, hp]
  induction h with
  | done => exact .done
  | @here k cur c rest hdir _ ih =>
      rw [passes_here, List.forall_mem_cons] at hagree
      exact .here ((hdirs cur hagree.1).trans hdir) (ih hagree.2)
  | @up k cur c rest hdir _ ih =>
      rw [passes_up, List.forall_mem_cons] at hagree
      exact .up ((hdirs cur hagree.1).trans hdir) (ih hagree.2)
  | @missing k cur n hnone hdir =>
      rw [passes_missing hnone, List.forall_mem_cons, List.forall_mem_singleton] at hagree
      exact .missing (hagree.1.trans hnone) ((hdirs cur hagree.2).trans hdir)
  | enter hentry hlink _ ih =>
      rw [passes_enter hentry hlink, List.forall_mem_cons] at hagree
      exact .enter (hagree.1.trans hentry) hlink (ih hagree.2)
  | follow hentry _ ih =>
      rw [passes_follow hentry, List.forall_mem_cons] at hagree
      exact .follow (hagree.1.trans hentry) (ih hagree.2)

private theorem Reaches.ends_missing {d : Place} (h : t.Reaches k cur (.name n :: rest) d)
    (hnone : t.entry (n :: cur) = none) : d = n :: cur := by
  cases h with
  | missing => rfl
  | enter hentry =>
      rw [hnone] at hentry
      cases hentry
  | follow hentry =>
      rw [hnone] at hentry
      cases hentry

private theorem Reaches.in_directory {d : Place} (h : t.Reaches k cur (.name n :: rest) d) :
    t.isDir cur = true := by
  cases h with
  | missing _ hdir => exact hdir
  | enter hentry => exact isDir_of_entry hentry
  | follow hentry => exact isDir_of_entry hentry

/-- Where something that a walk looked at is gone, the walk ends in no directory. -/
theorem Reaches.broken (h : t.Reaches k cur ps c) {d : Place} (hu : u.Reaches k cur ps d)
    (hagree : ∀ q, q ≠ p → u.entry q = t.entry q) (hgone : u.entry p = none)
    (hp : p ∈ t.passes k cur ps) : u.isDir d = false := by
  induction h with
  | done =>
      rw [passes_nil, List.mem_singleton] at hp
      cases hu
      exact isDir_of_none (hp ▸ hgone)
  | here hdir _ ih =>
      cases hu with
      | here hdir' hrest' =>
          rw [passes_here, List.mem_cons] at hp
          exact ih hrest' (hp.resolve_left (ne_of_isDir hdir' hgone))
  | up hdir _ ih =>
      cases hu with
      | up hdir' hrest' =>
          rw [passes_up, List.mem_cons] at hp
          exact ih hrest' (hp.resolve_left (ne_of_isDir hdir' hgone))
  | missing hnone =>
      rw [passes_missing hnone, List.mem_cons, List.mem_singleton] at hp
      have hpn := hp.resolve_right (ne_of_isDir hu.in_directory hgone)
      rw [hpn] at hgone
      rw [hu.ends_missing hgone]
      exact isDir_of_none hgone
  | @enter k cur c n rest e hentry hlink _ ih =>
      rw [passes_enter hentry hlink, List.mem_cons] at hp
      by_cases hpn : p = n :: cur
      · rw [hpn] at hgone
        rw [hu.ends_missing hgone]
        exact isDir_of_none hgone
      · have hsame := (hagree (n :: cur) (Ne.symm hpn)).trans hentry
        cases hu with
        | missing hnone =>
            rw [hnone] at hsame
            cases hsame
        | enter _ _ hrest' => exact ih hrest' (hp.resolve_left hpn)
        | follow hentry' =>
            rw [hentry'] at hsame
            exact absurd (Option.some.inj hsame).symm (hlink _)
  | @follow k cur c n rest target hentry _ ih =>
      rw [passes_follow hentry, List.mem_cons] at hp
      by_cases hpn : p = n :: cur
      · rw [hpn] at hgone
        rw [hu.ends_missing hgone]
        exact isDir_of_none hgone
      · have hsame := (hagree (n :: cur) (Ne.symm hpn)).trans hentry
        cases hu with
        | missing hnone =>
            rw [hnone] at hsame
            cases hsame
        | enter hentry' hlink' =>
            rw [hentry'] at hsame
            exact absurd (Option.some.inj hsame) (hlink' _)
        | follow hentry' hrest' =>
            rw [hentry'] at hsame
            obtain rfl := Entry.link.inj (Option.some.inj hsame)
            exact ih hrest' (hp.resolve_left hpn)

/-- A new regular file is in nobody's way. -/
theorem walk_eq_of_added (hnone : t.entry p = none) (hadded : u.entry p = some .regular)
    (hagree : ∀ q, q ≠ p → u.entry q = t.entry q) : u.walk k cur ps = t.walk k cur ps := by
  have hdirs : ∀ q, u.isDir q = t.isDir q := fun q => by
    by_cases hq : q = p
    · simp only [isDir, hq, hnone, hadded]
    · simp only [isDir, hagree q hq]
  have hclosed : u.isDir p = false := by simp only [isDir, hadded]
  apply Option.ext
  intro c
  constructor
  · intro h
    apply walk_of_reaches
    have hreach := reaches_of_walk h
    clear h
    induction hreach with
    | done => exact .done
    | @here k cur c rest hdir _ ih => exact .here ((hdirs cur).symm.trans hdir) ih
    | @up k cur c rest hdir _ ih => exact .up ((hdirs cur).symm.trans hdir) ih
    | @missing k cur n hmissing hdir =>
        refine .missing ?_ ((hdirs cur).symm.trans hdir)
        by_cases hn : n :: cur = p
        · exact hn ▸ hnone
        · exact (hagree _ hn).symm.trans hmissing
    | @enter k cur c n rest e hentry hlink hrest ih =>
        by_cases hn : n :: cur = p
        · have hin := (hdirs cur).symm.trans (isDir_of_entry hentry)
          rw [hn] at hrest
          cases hrest with
          | done => exact hn ▸ .missing (hn ▸ hnone) hin
          | here hdir => exact absurd (hclosed.symm.trans hdir) Bool.false_ne_true
          | up hdir => exact absurd (hclosed.symm.trans hdir) Bool.false_ne_true
          | missing _ hdir => exact absurd (hclosed.symm.trans hdir) Bool.false_ne_true
          | enter hentry' =>
              exact absurd (hclosed.symm.trans (isDir_of_entry hentry')) Bool.false_ne_true
          | follow hentry' =>
              exact absurd (hclosed.symm.trans (isDir_of_entry hentry')) Bool.false_ne_true
        · exact .enter ((hagree _ hn).symm.trans hentry) hlink ih
    | @follow k cur c n rest target hentry _ ih =>
        refine .follow ((hagree _ ?_).symm.trans hentry) ih
        intro hn
        rw [hn, hadded] at hentry
        cases hentry
  · intro h
    apply walk_of_reaches
    have hreach := reaches_of_walk h
    clear h
    induction hreach with
    | done => exact .done
    | @here k cur c rest hdir _ ih => exact .here ((hdirs cur).trans hdir) ih
    | @up k cur c rest hdir _ ih => exact .up ((hdirs cur).trans hdir) ih
    | @missing k cur n hmissing hdir =>
        by_cases hn : n :: cur = p
        · exact .enter (hn ▸ hadded) (fun _ h => by cases h) .done
        · exact .missing ((hagree _ hn).trans hmissing) ((hdirs cur).trans hdir)
    | @enter k cur c n rest e hentry hlink _ ih =>
        refine .enter ((hagree _ ?_).trans hentry) hlink ih
        intro hn
        rw [hn, hnone] at hentry
        cases hentry
    | @follow k cur c n rest target hentry _ ih =>
        refine .follow ((hagree _ ?_).trans hentry) ih
        intro hn
        rw [hn, hnone] at hentry
        cases hentry

end Passes

end Tree

end Files
