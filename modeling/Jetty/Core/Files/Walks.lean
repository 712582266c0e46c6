import Jetty.Core.Files.Tree
import Mathlib.Data.List.Perm.Subperm

/-!
# Walking and resolving

Where the kernel finds its way, the resolution finds the same place. A resolution that stops
at a link stops because the link leads to itself, and no walk gets past such a link.
-/

namespace Files

namespace Tree

variable {δ : Type} {t : Tree δ}

section Equations

variable {k : ℕ} {cur : Place} {n : Name} {rest : List Part}

@[simp] theorem walk_nil : t.walk k cur [] = some cur := by
  cases k <;> rfl

/-- `.` stays in a directory. -/
theorem walk_here : t.walk k cur (.here :: rest) =
    if t.isDir cur then t.walk k cur rest else none := by
  cases k <;> rfl

/-- `..` leads out of a directory. -/
theorem walk_up : t.walk k cur (.up :: rest) =
    if t.isDir cur then t.walk k cur.tail rest else none := by
  cases k <;> rfl

/-- A name that is not there ends the walk. -/
theorem walk_missing (h : t.entry (n :: cur) = none) : t.walk k cur (.name n :: rest) =
    if t.isDir cur ∧ rest = [] then some (n :: cur) else none := by
  cases k <;> simp only [walk, walkWith, h]

/-- A name that is no link is entered. -/
theorem walk_enter {e : Entry δ} (h : t.entry (n :: cur) = some e)
    (he : ∀ target, e ≠ .link target) :
    t.walk k cur (.name n :: rest) = t.walk k (n :: cur) rest := by
  cases e with
  | link target => exact absurd rfl (he target)
  | _ => cases k <;> simp only [walk, walkWith, h]

private theorem walk_link {target : List Char} (h : t.entry (n :: cur) = some (.link target))
    {c : Place} (hwalk : t.walk k cur (.name n :: rest) = some c) :
    ∃ k', k = k' + 1 ∧ t.walk k' (start cur target) (parts target ++ rest) = some c := by
  cases k with
  | zero =>
      simp only [walk, walkWith, h] at hwalk
      cases hwalk
  | succ k =>
      simp only [walk, walkWith, h] at hwalk
      exact ⟨k, rfl, hwalk⟩

end Equations

/-- Where an outcome leaves a walk that has more to go. -/
def Outcome.left : Outcome → List Part → Place × List Part
  | .resolved p, extra => (p, extra)
  | .stuck dir n rest, extra => (dir, .name n :: (rest ++ extra))

private theorem Outcome.left_append (dir : Place) (n : Name) (rest rest' extra : List Part) :
    (Outcome.stuck dir n (rest' ++ rest)).left extra =
      (Outcome.stuck dir n rest').left (rest ++ extra) := by
  simp [left]

private theorem walk_resolveWith {deeper : Place → Place → List Part → Option Outcome}
    (hdeeper : ∀ link p target o, deeper link p target = some o → ∀ k extra c,
      t.walk k p (target ++ extra) = some c →
        ∃ k' ≤ k, t.walk k' (o.left extra).1 (o.left extra).2 = some c)
    (rest : List Part) : ∀ cur k extra c, t.walk k cur (rest ++ extra) = some c →
      ∃ k' ≤ k, t.walk k' ((t.resolveWith deeper cur rest).left extra).1
        ((t.resolveWith deeper cur rest).left extra).2 = some c := by
  induction rest with
  | nil => exact fun cur k extra c h => ⟨k, Nat.le_refl k, h⟩
  | cons part rest ih =>
      intro cur k extra c h
      rw [List.cons_append] at h
      cases part with
      | here =>
          rw [walk_here] at h
          split at h
          · exact ih cur k extra c h
          · cases h
      | up =>
          rw [walk_up] at h
          split at h
          · exact ih cur.tail k extra c h
          · cases h
      | name n =>
          unfold resolveWith
          split
          · exact ⟨k, Nat.le_refl k, h⟩
          · rename_i target hentry
            obtain ⟨k₁, rfl, h₁⟩ := walk_link hentry h
            split
            · rename_i p hdeep
              obtain ⟨k₂, hk₂, h₂⟩ := hdeeper _ _ _ _ hdeep k₁ (rest ++ extra) c h₁
              obtain ⟨k₃, hk₃, h₃⟩ := ih p k₂ extra c h₂
              exact ⟨k₃, by omega, h₃⟩
            · rename_i dir m rest' hdeep
              obtain ⟨k₂, hk₂, h₂⟩ := hdeeper _ _ _ _ hdeep k₁ (rest ++ extra) c h₁
              rw [Outcome.left_append]
              exact ⟨k₂, by omega, h₂⟩
            · exact ⟨k₁ + 1, Nat.le_refl _, h⟩
          · rename_i e hlink hentry
            rw [walk_enter hentry hlink] at h
            exact ih (n :: cur) k extra c h

/-- A walk passes by where the resolution gets to. -/
theorem walk_resolve (depth : ℕ) : ∀ opened cur rest k extra c,
    t.walk k cur (rest ++ extra) = some c →
      ∃ k' ≤ k, t.walk k' ((t.resolve depth opened cur rest).left extra).1
        ((t.resolve depth opened cur rest).left extra).2 = some c := by
  induction depth with
  | zero =>
      intro opened cur rest
      exact walk_resolveWith (by simp) rest cur
  | succ depth ih =>
      intro opened cur rest
      refine walk_resolveWith ?_ rest cur
      intro link p target o ho k extra c h
      split at ho
      · cases ho
      · obtain rfl := Option.some.inj ho
        exact ih (link :: opened) p target k extra c h

section Settled

/-- There is something at the place, and it is no link. -/
def Settled (t : Tree δ) (p : Place) : Prop :=
  ∃ e, t.entry p = some e ∧ ∀ target, e ≠ .link target

/-- A directory is settled. -/
theorem settled_of_isDir {p : Place} (h : t.isDir p = true) : t.Settled p := by
  unfold isDir at h
  split at h
  · rename_i stat hentry
    exact ⟨.directory stat, hentry, by simp⟩
  · cases h

/-- The top of the tree is a directory. -/
theorem isDir_top : t.isDir [] = true := by
  obtain ⟨stat, htop⟩ := t.top
  simp only [isDir, htop]

/-- What has an entry in it is a directory. -/
theorem isDir_of_entry {n : Name} {p : Place} {e : Entry δ} (h : t.entry (n :: p) = some e) :
    t.isDir p = true := by
  obtain ⟨stat, hparent⟩ := t.parent n p (by simp [h])
  simp only [isDir, hparent]

/-- The top of the tree is settled. -/
theorem settled_top : t.Settled [] := settled_of_isDir isDir_top

/-- What is above a settled place is settled. -/
theorem Settled.tail {p : Place} (h : t.Settled p) : t.Settled p.tail := by
  cases p with
  | nil => exact h
  | cons n p =>
      obtain ⟨e, he, -⟩ := h
      exact settled_of_isDir (isDir_of_entry he)

/-- A walk from a settled place begins at one. -/
theorem Settled.start {p : Place} (h : t.Settled p) (target : List Char) :
    t.Settled (start p target) := by
  unfold Files.start
  split
  · exact settled_top
  · exact h

/-- Along settled names the walk stays on them. -/
theorem walk_settled {k : ℕ} {cur : Place} {rest : List Part} {q : Place}
    (h : q = [] ∨ t.Settled (q ++ cur)) :
    t.walk k cur (q.reverse.map .name ++ rest) = t.walk k (q ++ cur) rest := by
  induction q generalizing rest with
  | nil => rfl
  | cons n q ih =>
      obtain ⟨e, he, hlink⟩ := h.resolve_left (List.cons_ne_nil n q)
      have hq : t.Settled (q ++ cur) := settled_of_isDir (isDir_of_entry he)
      rw [List.reverse_cons, List.map_append, List.append_assoc, ih (.inr hq)]
      exact walk_enter he hlink

/-- A walk ends at something that is no link, or where a file would be created. -/
def Lands (t : Tree δ) (p : Place) : Prop :=
  t.Settled p ∨ ∃ n dir, p = n :: dir ∧ t.isDir dir = true ∧ t.entry p = none

private theorem walkWith_lands {follow : Place → List Part → Option Place}
    (hfollow : ∀ cur ps c, t.Settled cur → follow cur ps = some c → t.Lands c) (ps : List Part) :
    ∀ cur c, t.Settled cur → t.walkWith follow cur ps = some c → t.Lands c := by
  induction ps with
  | nil =>
      intro cur c hcur h
      obtain rfl := Option.some.inj h
      exact .inl hcur
  | cons part ps ih =>
      intro cur c hcur h
      cases part with
      | here =>
          unfold walkWith at h
          split at h
          · exact ih cur c hcur h
          · cases h
      | up =>
          unfold walkWith at h
          split at h
          · exact ih cur.tail c hcur.tail h
          · cases h
      | name n =>
          unfold walkWith at h
          split at h
          · rename_i hnone
            split at h
            · rename_i hlast
              obtain rfl := Option.some.inj h
              exact .inr ⟨n, cur, rfl, hlast.1, hnone⟩
            · cases h
          · exact hfollow _ _ c (hcur.start _) h
          · rename_i e hlink hentry
            exact ih (n :: cur) c ⟨e, hentry, hlink⟩ h

/-- A walk from a settled place ends where a name can be. -/
theorem walk_lands {cur c : Place} (hcur : t.Settled cur) (k : ℕ) (ps : List Part)
    (h : t.walk k cur ps = some c) : t.Lands c := by
  induction k generalizing cur c ps with
  | zero => exact walkWith_lands (by simp) ps cur c hcur h
  | succ k ih =>
      exact walkWith_lands (fun cur ps c hcur hfollow => ih hcur ps hfollow) ps cur c hcur h

/-- The walk of a normal path is that of its names. -/
theorem walk_text (k : ℕ) (p : Place) :
    t.walk k [] (parts (text p)) = t.walk k [] (p.reverse.map .name) := by
  obtain ⟨heres, hheres, heq⟩ := parts_text p
  rw [heq]
  clear heq
  induction heres with
  | nil => rfl
  | cons part heres ih =>
      obtain ⟨rfl, htail⟩ := List.forall_mem_cons.mp hheres
      rw [List.cons_append, walk_here, if_pos isDir_top]
      exact ih htail

/-- The text of a settled place leads to it. -/
theorem walk_text_settled {k : ℕ} {p : Place} (h : t.Settled p) :
    t.walk k [] (parts (text p)) = some p := by
  have hwalk : t.walk k [] (p.reverse.map .name ++ []) = t.walk k (p ++ []) [] :=
    walk_settled (.inr (by simpa using h))
  rw [List.append_nil, List.append_nil, walk_nil] at hwalk
  rw [walk_text, hwalk]

end Settled

section Stuck

/-- Where the resolution gets to is settled. -/
def Outcome.SettledIn (t : Tree δ) : Outcome → Prop
  | .resolved p => t.Settled p
  | .stuck dir n _ => t.Settled dir ∧
      (t.entry (n :: dir) = none ∨ ∃ target, t.entry (n :: dir) = some (.link target))

private theorem resolveWith_settled {deeper : Place → Place → List Part → Option Outcome}
    (hdeeper : ∀ link p target o, deeper link p target = some o → t.Settled p → o.SettledIn t)
    (rest : List Part) : ∀ cur, t.Settled cur → (t.resolveWith deeper cur rest).SettledIn t := by
  induction rest with
  | nil => exact fun _ h => h
  | cons part rest ih =>
      intro cur hcur
      cases part with
      | here => exact ih cur hcur
      | up => exact ih cur.tail hcur.tail
      | name n =>
          unfold resolveWith
          split
          · rename_i hentry
            exact ⟨hcur, .inl hentry⟩
          · rename_i target hentry
            split
            · rename_i p hdeep
              exact ih p (hdeeper _ _ _ _ hdeep (hcur.start target))
            · rename_i dir m rest' hdeep
              have hstuck := hdeeper _ _ _ _ hdeep (hcur.start target)
              exact hstuck
            · exact ⟨hcur, .inr ⟨target, hentry⟩⟩
          · rename_i e hlink hentry
            exact ih (n :: cur) ⟨e, hentry, hlink⟩

private theorem resolve_settled (depth : ℕ) : ∀ opened cur rest, t.Settled cur →
    (t.resolve depth opened cur rest).SettledIn t := by
  induction depth with
  | zero =>
      intro opened cur rest
      exact resolveWith_settled (by simp) rest cur
  | succ depth ih =>
      intro opened cur rest
      refine resolveWith_settled ?_ rest cur
      intro link p target o ho hp
      split at ho
      · cases ho
      · obtain rfl := Option.some.inj ho
        exact ih (link :: opened) p target hp

/-- The open links are links of the tree, and `depth` of them are not open. -/
structure Opened (t : Tree δ) (depth : ℕ) (opened : List Place) : Prop where
  nodup : opened.Nodup
  subset : opened ⊆ t.links
  depth : t.links.length ≤ opened.length + depth

/-- A link at which the resolution is stuck is open, or its own target got stuck at it. -/
def Blames (t : Tree δ) (opened : List Place) : Outcome → Prop
  | .resolved _ => True
  | .stuck dir n _ => ∀ target, t.entry (n :: dir) = some (.link target) →
      n :: dir ∈ opened ∨ ∃ depth opened' rest,
        t.resolve depth opened' (start dir target) (parts target) = .stuck dir n rest

private theorem resolveWith_blames {opened : List Place}
    {deeper : Place → Place → List Part → Option Outcome}
    (hnone : ∀ dir n p target target', t.entry (n :: dir) = some (.link target) →
      deeper (n :: dir) p target' = none → n :: dir ∈ opened)
    (hdeeper : ∀ dir n target o, t.entry (n :: dir) = some (.link target) →
      deeper (n :: dir) (start dir target) (parts target) = some o → t.Blames opened o)
    (rest : List Part) : ∀ cur, t.Blames opened (t.resolveWith deeper cur rest) := by
  induction rest with
  | nil => exact fun _ => trivial
  | cons part rest ih =>
      intro cur
      cases part with
      | here => exact ih cur
      | up => exact ih cur.tail
      | name n =>
          unfold resolveWith
          split
          · rename_i hentry
            intro target htarget
            rw [hentry] at htarget
            cases htarget
          · rename_i target hentry
            split
            · rename_i p hdeep
              exact ih p
            · rename_i dir m rest' hdeep
              have hstuck := hdeeper _ _ _ _ hentry hdeep
              exact hstuck
            · rename_i hdeep
              exact fun _ _ => .inl (hnone _ _ _ _ _ hentry hdeep)
          · exact ih (n :: cur)

private theorem resolve_blames (depth : ℕ) : ∀ opened, t.Opened depth opened → ∀ cur rest,
    t.Blames opened (t.resolve depth opened cur rest) := by
  induction depth with
  | zero =>
      intro opened hopened cur rest
      refine resolveWith_blames ?_ (by simp) rest cur
      intro dir n p target target' hentry _
      have hsubperm := List.subperm_of_subset hopened.nodup hopened.subset
      have hperm := hsubperm.perm_of_length_le hopened.depth
      exact hperm.mem_iff.mpr (t.mem_links _ _ hentry)
  | succ depth ih =>
      intro opened hopened cur rest
      refine resolveWith_blames ?_ ?_ rest cur
      · intro dir n p target target' hentry hdeep
        by_contra hnot
        rw [if_neg hnot] at hdeep
        cases hdeep
      · intro dir n target o hentry hdeep
        split at hdeep
        · cases hdeep
        · rename_i hnot
          obtain rfl := Option.some.inj hdeep
          have hopened' : t.Opened depth ((n :: dir) :: opened) := by
            refine ⟨List.nodup_cons.mpr ⟨hnot, hopened.nodup⟩, ?_, ?_⟩
            · exact List.cons_subset.mpr ⟨t.mem_links _ _ hentry, hopened.subset⟩
            · have hdepth := hopened.depth
              rw [List.length_cons]
              omega
          have hblames := ih _ hopened' (start dir target) (parts target)
          cases houtcome : t.resolve depth ((n :: dir) :: opened) (start dir target)
            (parts target) with
          | resolved p => trivial
          | stuck dir' m rest' =>
              rw [houtcome] at hblames
              intro target' htarget'
              rcases hblames target' htarget' with hmem | hexists
              · rcases List.mem_cons.mp hmem with heq | hmem
                · obtain ⟨rfl, rfl⟩ := List.cons.inj heq
                  rw [hentry] at htarget'
                  cases htarget'
                  exact .inr ⟨depth, _, rest', houtcome⟩
                · exact .inl hmem
              · exact .inr hexists

/-- No walk gets past a link whose own target got stuck at it. -/
theorem walk_eq_none_of_loop {dir : Place} {n : Name} {target : List Char}
    (hentry : t.entry (n :: dir) = some (.link target)) {depth : ℕ} {opened : List Place}
    {rest : List Part}
    (hloop : t.resolve depth opened (start dir target) (parts target) = .stuck dir n rest)
    (k : ℕ) (extra : List Part) : t.walk k dir (.name n :: extra) = none := by
  induction k using Nat.strongRecOn generalizing extra with
  | ind k ih =>
      rw [Option.eq_none_iff_forall_ne_some]
      intro c hc
      obtain ⟨k', rfl, hc'⟩ := walk_link hentry hc
      obtain ⟨k'', hle, hagain⟩ := walk_resolve depth opened _ _ k' extra c hc'
      rw [hloop] at hagain
      have hnone := ih k'' (by omega) (rest ++ extra)
      rw [Outcome.left, hnone] at hagain
      cases hagain

/-- No walk gets past a link at which a resolution is stuck. -/
theorem walk_eq_none_of_stuck {cur dir : Place} {n : Name} {ps rest : List Part}
    (hstuck : t.resolve t.links.length [] cur ps = .stuck dir n rest) {target : List Char}
    (hentry : t.entry (n :: dir) = some (.link target)) (k : ℕ) (extra : List Part) :
    t.walk k dir (.name n :: extra) = none := by
  have hopened : t.Opened t.links.length [] := ⟨List.nodup_nil, List.nil_subset _, by simp⟩
  have hblames := resolve_blames _ _ hopened cur ps
  rw [hstuck] at hblames
  rcases hblames target hentry with hmem | ⟨depth, opened, rest', hloop⟩
  · cases hmem
  · exact walk_eq_none_of_loop hentry hloop k extra

end Stuck

section Realpath

variable {cur : Place} {path : List Char} {k : ℕ}

private theorem lexical_suffix (rest : List Part) :
    ∀ base below, (lexical base below rest).1 <:+ base := by
  induction rest with
  | nil => exact fun base _ => List.suffix_refl base
  | cons part rest ih =>
      intro base below
      cases part with
      | here => exact ih base below
      | name n => exact ih base (n :: below)
      | up =>
          cases below with
          | nil => exact (ih base.tail []).trans (List.tail_suffix base)
          | cons n below => exact ih base below

/-- Every place above a settled one is settled. -/
theorem Settled.suffix {p q : Place} (h : t.Settled q) (hp : p <:+ q) : t.Settled p := by
  induction q with
  | nil => rwa [List.suffix_nil.mp hp]
  | cons n q ih =>
      rcases List.suffix_cons_iff.mp hp with rfl | hp
      · exact h
      · exact ih h.tail hp

/-- Where the kernel finds its way, the resolution is to the place it finds. -/
theorem realpath_of_walk (hcur : t.Settled cur) {c : Place}
    (h : t.walk k cur (parts path) = some c) : t.realpath cur path = c := by
  rw [← List.append_nil (parts path)] at h
  obtain ⟨k', -, hwalk⟩ := walk_resolve t.links.length [] cur (parts path) k [] c h
  have hsettled := resolve_settled t.links.length [] cur (parts path) hcur
  unfold realpath
  cases houtcome : t.resolve t.links.length [] cur (parts path) with
  | resolved p =>
      rw [houtcome, Outcome.left, walk_nil] at hwalk
      exact Option.some.inj hwalk
  | stuck dir n rest =>
      rw [houtcome, Outcome.left, List.append_nil] at hwalk
      rw [houtcome] at hsettled
      obtain ⟨-, hnone | ⟨target, hlink⟩⟩ := hsettled
      · rw [walk_missing hnone] at hwalk
        split at hwalk
        · rename_i hlast
          obtain rfl := Option.some.inj hwalk
          rw [hlast.2]
          rfl
        · cases hwalk
      · rw [walk_eq_none_of_stuck houtcome hlink] at hwalk
        cases hwalk

/-- The resolution stops, and what is left climbs back over the name it stopped at: up to `base`,
with the names `below` from there. -/
def Detour (t : Tree δ) (cur : Place) (path : List Char) (base : Place) (below : List Name) :
    Prop :=
  ∃ dir n rest, t.resolve t.links.length [] cur (parts path) = .stuck dir n rest ∧
    lexical (n :: dir) [] rest = (base, below) ∧ base ≠ n :: dir

/-- `realpath` resolves a detour. -/
theorem Detour.realpath {base : Place} {below : List Name} (h : t.Detour cur path base below) :
    t.realpath cur path = below ++ base := by
  obtain ⟨dir, n, rest, hstuck, hlexical, -⟩ := h
  simp only [Tree.realpath, hstuck, hlexical]

private theorem Detour.settled {base : Place} {below : List Name} (h : t.Detour cur path base below)
    (hcur : t.Settled cur) : t.Settled base := by
  obtain ⟨dir, n, rest, hstuck, hlexical, hne⟩ := h
  have hsettled := resolve_settled t.links.length [] cur (parts path) hcur
  rw [hstuck] at hsettled
  have hsuffix : base <:+ n :: dir := by
    have hbase := lexical_suffix rest (n :: dir) []
    rwa [hlexical] at hbase
  exact hsettled.1.suffix ((List.suffix_cons_iff.mp hsuffix).resolve_left hne)

/-- The kernel walks on from where a detour begins. -/
theorem Detour.walk {base : Place} {below : List Name} (h : t.Detour cur path base below)
    (hcur : t.Settled cur) : t.walk k [] (parts (text (t.realpath cur path))) =
      t.walk k base (below.reverse.map .name) := by
  have hbase : t.Settled (base ++ []) := by simpa using h.settled hcur
  rw [h.realpath, walk_text, List.reverse_append, List.map_append, walk_settled (.inr hbase),
    List.append_nil]

/-- Without a detour, the kernel finds no other place than the resolution names. -/
theorem eq_realpath_of_walk_text (hcur : t.Settled cur)
    (hdetour : ∀ base below, ¬ t.Detour cur path base below) {c : Place}
    (h : t.walk k [] (parts (text (t.realpath cur path))) = some c) :
    c = t.realpath cur path := by
  have hsettled := resolve_settled t.links.length [] cur (parts path) hcur
  cases houtcome : t.resolve t.links.length [] cur (parts path) with
  | resolved p =>
      have hp : t.realpath cur path = p := by simp only [realpath, houtcome]
      rw [houtcome] at hsettled
      rw [hp] at h ⊢
      rw [walk_text_settled hsettled] at h
      exact (Option.some.inj h).symm
  | stuck dir n rest =>
      rw [houtcome] at hsettled
      rcases hlexical : lexical (n :: dir) [] rest with ⟨base, below⟩
      by_cases hbase : base = n :: dir
      · have hp : t.realpath cur path = below ++ n :: dir := by
          simp only [realpath, houtcome, hlexical, hbase]
        have hdir : t.Settled (dir ++ []) := by simpa using hsettled.1
        rw [hp, walk_text, List.reverse_append, List.reverse_cons, List.append_assoc,
          List.map_append, walk_settled (.inr hdir), List.append_nil] at h
        obtain ⟨-, hnone | ⟨target, hlink⟩⟩ := hsettled
        · rw [List.singleton_append, List.map_cons, walk_missing hnone] at h
          split at h
          · rename_i hlast
            have hbelow : below = [] := by simpa using hlast.2
            rw [hp, hbelow]
            exact (Option.some.inj h).symm
          · cases h
        · rw [List.singleton_append, List.map_cons, walk_eq_none_of_stuck houtcome hlink] at h
          cases h
      · exact absurd ⟨dir, n, rest, houtcome, hlexical, hbase⟩ (hdetour base below)

end Realpath

end Tree

end Files
