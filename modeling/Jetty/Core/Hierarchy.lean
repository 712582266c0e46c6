import Mathlib.Data.List.Basic
import Mathlib.Data.List.Infix
import Mathlib.Data.List.Nodup
import Mathlib.Data.List.Perm.Basic

/-!
# Processes in a hierarchy of groups

A process belongs to one group of a tree of groups, and its children start in the group of their
parent. Unlike a session or a process group, which it leaves by calls of its own, a group is left
only by a write to the hierarchy itself. What a process descends from is a ghost, and so is
whether it has been moved to the group it is meant for yet; nothing of the table depends on the
former.
-/

namespace Hierarchy

variable {κ : Type*}

/-- A group, by the names on the way to it. -/
abbrev Group := List String

/-- An entry of the table. A process that ends leaves it at once. -/
structure Member (κ : Type*) where
  pid : ℕ
  group : Group
  session : ℕ
  /-- The process group, which is none of the hierarchy's. -/
  pgroup : ℕ
  /-- The child is still to be moved to its group; until then it runs no code of its own. -/
  settling : Bool := false
  /-- What the process descends from, if anything that is told apart here. -/
  origin : Option κ
deriving DecidableEq

/-- The process is in the group or in one below it. -/
def Member.Under (p : Member κ) (g : Group) : Prop := g <+: p.group

instance (p : Member κ) (g : Group) : Decidable (p.Under g) :=
  inferInstanceAs (Decidable (_ <+: _))

/-- A process table. -/
structure Table (κ : Type*) where
  procs : List (Member κ)
  nodup : (procs.map Member.pid).Nodup

namespace Table

variable {K T : Table κ} {p r : Member κ} {q child : ℕ} {g : Group}

/-- A pid names one process. -/
theorem eq_of_pid (hp : p ∈ K.procs) (hr : r ∈ K.procs) (hpr : p.pid = r.pid) : p = r :=
  List.inj_on_of_nodup_map K.nodup hp hr hpr

/-- The pid is not taken. -/
def Free (K : Table κ) (q : ℕ) : Prop := q ∉ K.procs.map Member.pid

instance (K : Table κ) (q : ℕ) : Decidable (K.Free q) := inferInstanceAs (Decidable (¬ _))

/-- The process of a pid, once it runs code of its own. -/
def settled (K : Table κ) (q : ℕ) : Option (Member κ) :=
  K.procs.find? fun p => p.pid == q && !p.settling

/-- The process of a pid that has settled is in the table. -/
theorem settled_some (h : K.settled q = some p) :
    p ∈ K.procs ∧ p.pid = q ∧ p.settling = false := by
  have hp := List.find?_some h
  rw [Bool.and_eq_true, beq_iff_eq, Bool.not_eq_true'] at hp
  exact ⟨List.mem_of_find?_eq_some h, hp⟩

/-- A new process. -/
def add (K : Table κ) (p : Member κ) (h : K.Free p.pid) : Table κ where
  procs := p :: K.procs
  nodup := List.nodup_cons.mpr ⟨h, K.nodup⟩

/-- The process of the pid `q` is written into a group. -/
def move (K : Table κ) (q : ℕ) (g : Group) : Table κ where
  procs := K.procs.map fun p =>
    if p.pid = q then { p with group := g, settling := false } else p
  nodup := by
    rw [List.map_map, List.map_congr_left (g := Member.pid)]
    · exact K.nodup
    · intro p _
      dsimp only [Function.comp]
      split <;> rfl

/-- The process of the pid `q` gets another session or process group. -/
def regroup (K : Table κ) (q session pgroup : ℕ) : Table κ where
  procs := K.procs.map fun p =>
    if p.pid = q then { p with session := session, pgroup := pgroup } else p
  nodup := by
    rw [List.map_map, List.map_congr_left (g := Member.pid)]
    · exact K.nodup
    · intro p _
      dsimp only [Function.comp]
      split <;> rfl

/-- The processes that meet a test end. -/
def kill (K : Table κ) (test : Member κ → Bool) : Table κ where
  procs := K.procs.filter fun p => !test p
  nodup := K.nodup.sublist (List.filter_sublist.map _)

private theorem mem_add {h : K.Free p.pid} : r ∈ (K.add p h).procs ↔ r = p ∨ r ∈ K.procs :=
  List.mem_cons

/-- A kill leaves those that it does not name. -/
theorem mem_kill {test : Member κ → Bool} :
    p ∈ (K.kill test).procs ↔ p ∈ K.procs ∧ test p = false := by
  simp only [kill, List.mem_filter, Bool.not_eq_true']

/-- Whoever is in the table behind a move was in it before, or is the one that moved. -/
theorem mem_move (hp : p ∈ (K.move q g).procs) : ∃ r ∈ K.procs, p.pid = r.pid ∧
    p.origin = r.origin ∧ (r.pid = q ∧ p.group = g ∧ p.settling = false ∨ r.pid ≠ q ∧ p = r) := by
  obtain ⟨r, hr, rfl⟩ := List.mem_map.mp hp
  refine ⟨r, hr, ?_⟩
  by_cases hq : r.pid = q
  · simp only [hq, if_true, ne_eq, not_true_eq_false, false_and, or_false, and_self]
  · simp only [hq, if_false, false_and, ne_eq, not_false_eq_true, and_self, or_true]

/-- Sessions and process groups are nothing to the hierarchy. -/
theorem mem_regroup {session pgroup : ℕ} (hp : p ∈ (K.regroup q session pgroup).procs) :
    ∃ r ∈ K.procs, p.pid = r.pid ∧ p.group = r.group ∧ p.settling = r.settling ∧
      p.origin = r.origin := by
  obtain ⟨r, hr, rfl⟩ := List.mem_map.mp hp
  refine ⟨r, hr, ?_⟩
  split <;> exact ⟨rfl, rfl, rfl, rfl⟩

end Table

/-! ### Subtrees of one origin -/

/-- What a family of subtrees contains is exactly what has settled of each origin. -/
structure Separated (dir : κ → Group) (known : κ → Prop) (K : Table κ) : Prop where
  exact : ∀ p ∈ K.procs, ∀ k, known k → (p.Under (dir k) ↔ p.origin = some k ∧ p.settling = false)
  known : ∀ p ∈ K.procs, ∀ k, p.origin = some k → known k

namespace Separated

variable {dir : κ → Group} {known : κ → Prop} {K : Table κ} {p : Member κ} {q : ℕ} {g : Group}

/-- A table none of whose processes is of one of the origins, or below their groups. -/
theorem of_strangers (horigin : ∀ p ∈ K.procs, p.origin = none)
    (hunder : ∀ p ∈ K.procs, ∀ k, known k → ¬ p.Under (dir k)) : Separated dir known K where
  exact p hp k hk := by
    rw [horigin p hp]
    exact ⟨fun h => absurd h (hunder p hp k hk), fun h => by cases h.1⟩
  known p hp k h := by
    rw [horigin p hp] at h
    cases h

/-- A kill keeps the groups separated. -/
theorem kill (h : Separated dir known K) (test : Member κ → Bool) :
    Separated dir known (K.kill test) where
  exact p hp := h.exact p (Table.mem_kill.mp hp).1
  known p hp := h.known p (Table.mem_kill.mp hp).1

/-- Another session or process group keeps the groups separated. -/
theorem regroup (h : Separated dir known K) (session pgroup : ℕ) :
    Separated dir known (K.regroup q session pgroup) where
  exact p hp k hk := by
    obtain ⟨r, hr, -, hgroup, hsettling, horigin⟩ := Table.mem_regroup hp
    rw [Member.Under, hgroup, hsettling, horigin]
    exact h.exact r hr k hk
  known p hp k hk := by
    obtain ⟨r, hr, -, -, -, horigin⟩ := Table.mem_regroup hp
    exact h.known r hr k (horigin ▸ hk)

/-- A child of a settled process is in the same group, and of the same origin. -/
theorem fork (h : Separated dir known K) (hp : p ∈ K.procs) (hsettled : p.settling = false)
    {child : ℕ} (hfree : K.Free child) :
    Separated dir known (K.add { p with pid := child, settling := false } hfree) where
  exact r hr k hk := by
    rcases Table.mem_add.mp hr with rfl | hr
    · have hexact := h.exact p hp k hk
      rw [hsettled] at hexact
      exact hexact
    · exact h.exact r hr k hk
  known r hr k hk := by
    rcases Table.mem_add.mp hr with rfl | hr
    · exact h.known p hp k hk
    · exact h.known r hr k hk

/-- A child that is still to be moved starts outside of all the subtrees. -/
theorem start (h : Separated dir known K) {k : κ} (hk : known k) (hfree : K.Free p.pid)
    (horigin : p.origin = some k) (hsettling : p.settling = true)
    (hout : ∀ k, known k → ¬ p.Under (dir k)) : Separated dir known (K.add p hfree) where
  exact r hr j hj := by
    rcases Table.mem_add.mp hr with rfl | hr
    · rw [hsettling]
      exact ⟨fun hu => absurd hu (hout j hj), fun hu => by cases hu.2⟩
    · exact h.exact r hr j hj
  known r hr j hj := by
    rcases Table.mem_add.mp hr with rfl | hr
    · obtain rfl := Option.some.inj (horigin.symm.trans hj)
      exact hk
    · exact h.known r hr j hj

/-- A move into the subtree of the process's own origin, and of no other. -/
theorem move (h : Separated dir known K)
    (hto : ∀ p ∈ K.procs, p.pid = q → ∀ k, known k → (dir k <+: g ↔ p.origin = some k)) :
    Separated dir known (K.move q g) where
  exact p hp k hk := by
    obtain ⟨r, hr, -, horigin, ⟨hq, hgroup, hsettled⟩ | ⟨-, rfl⟩⟩ := Table.mem_move hp
    · rw [Member.Under, hgroup, horigin, hsettled, hto r hr hq k hk]
      exact ⟨fun hk => ⟨hk, rfl⟩, And.left⟩
    · exact h.exact p hr k hk
  known p hp k hk := by
    obtain ⟨r, hr, -, horigin, -⟩ := Table.mem_move hp
    exact h.known r hr k (horigin ▸ hk)

end Separated

/-! ### Walking the groups -/

/-- The groups there are, none of them twice, and each with the one above it. -/
structure Tree (dirs : List Group) : Prop where
  nodup : dirs.Nodup
  closed : ∀ d ∈ dirs, d ≠ [] → d.dropLast ∈ dirs

/-- The groups directly below a group. -/
def children (dirs : List Group) (g : Group) : List Group :=
  dirs.filter fun d => d.dropLast = g ∧ d ≠ []

/-- No group of a list is below another one of it. -/
def Apart (stack : List Group) : Prop :=
  stack.Pairwise fun g h => ¬ g <+: h ∧ ¬ h <+: g

/-- The group is one of the list or below one. -/
def Covers (stack : List Group) (d : Group) : Prop := ∃ g ∈ stack, g <+: d

instance (stack : List Group) (d : Group) : Decidable (Covers stack d) :=
  inferInstanceAs (Decidable (∃ g ∈ stack, g <+: d))

section Walk

variable {dirs stack : List Group} {g d : Group}

/-- The children of a group are the ones one name below it. -/
theorem mem_children : d ∈ children dirs g ↔ d ∈ dirs ∧ ∃ name, d = g ++ [name] := by
  simp only [children, List.mem_filter, decide_eq_true_eq]
  refine and_congr_right fun _ => ⟨fun ⟨hlast, hne⟩ => ?_, fun ⟨name, h⟩ => ?_⟩
  · exact ⟨d.getLast hne, by rw [← hlast, List.dropLast_append_getLast]⟩
  · rw [h]
    exact ⟨List.dropLast_concat, List.concat_ne_nil _ _⟩

private theorem covers_cons : Covers (g :: stack) d ↔ g <+: d ∨ Covers stack d := by
  simp only [Covers, List.mem_cons, exists_eq_or_imp]

/-- A group covers what is below it. -/
theorem covers_singleton : Covers [g] d ↔ g <+: d := by
  simp only [Covers, List.mem_singleton, exists_eq_left]

private theorem covers_append {more : List Group} :
    Covers (more ++ stack) d ↔ Covers more d ∨ Covers stack d := by
  simp only [Covers, List.mem_append, or_and_right, exists_or]

namespace Tree

/-- With a group there are all the ones above it. -/
theorem mem_of_prefix (h : Tree dirs) (hd : d ∈ dirs) (hg : g <+: d) : g ∈ dirs := by
  induction d using List.reverseRecOn with
  | nil => rwa [List.prefix_nil.mp hg]
  | append_singleton d name ih =>
      rcases List.prefix_concat_iff.mp hg with rfl | hg
      · exact hd
      · have habove := h.closed _ hd (List.concat_ne_nil _ _)
        rw [List.dropLast_concat] at habove
        exact ih habove hg

/-- A group is created below one that there is. -/
theorem mkdir (h : Tree dirs) (hnew : d ∉ dirs) (habove : d.dropLast ∈ dirs) :
    Tree (dirs ++ [d]) where
  nodup := List.nodup_append.mpr ⟨h.nodup, List.nodup_singleton d, fun a ha b hb heq => by
    rw [List.mem_singleton.mp hb] at heq
    exact hnew (heq ▸ ha)⟩
  closed a ha hne := by
    rcases List.mem_append.mp ha with ha | ha
    · exact List.mem_append_left _ (h.closed a ha hne)
    · rw [List.mem_singleton.mp ha]
      exact List.mem_append_left _ habove

/-- A group with none below it is removed. -/
theorem rmdir (h : Tree dirs) (hleaf : children dirs d = []) : Tree (dirs.filter (· ≠ d)) where
  nodup := h.nodup.filter _
  closed a ha hne := by
    have hmem := (List.mem_filter.mp ha).1
    refine List.mem_filter.mpr ⟨h.closed a hmem hne, decide_eq_true fun heq => ?_⟩
    have hchild : a ∈ children dirs d :=
      List.mem_filter.mpr ⟨hmem, decide_eq_true ⟨heq, hne⟩⟩
    rw [hleaf] at hchild
    cases hchild

/-- What is below a group is the group itself or below one of the groups directly below it. -/
theorem prefix_iff (h : Tree dirs) (hd : d ∈ dirs) :
    g <+: d ↔ d = g ∨ Covers (children dirs g) d := by
  constructor
  · rintro ⟨rest, rfl⟩
    cases rest with
    | nil => exact .inl (List.append_nil g)
    | cons name rest =>
        have hstep : g ++ [name] <+: g ++ name :: rest :=
          (List.prefix_append_right_inj g).mpr ⟨rest, rfl⟩
        exact .inr ⟨g ++ [name], mem_children.mpr ⟨h.mem_of_prefix hd hstep, name, rfl⟩, hstep⟩
  · rintro (rfl | ⟨s, hs, hsd⟩)
    · exact List.prefix_rfl
    · obtain ⟨-, name, rfl⟩ := mem_children.mp hs
      exact (List.prefix_append g [name]).trans hsd

/-- The groups directly below the first one stay apart from each other and from the rest. -/
theorem apart_children (h : Tree dirs) (hstack : Apart (g :: stack)) :
    Apart ((children dirs g).reverse ++ stack) := by
  obtain ⟨hg, hrest⟩ := List.pairwise_cons.mp hstack
  refine List.pairwise_append.mpr ⟨List.pairwise_reverse.mpr ?_, hrest, fun s hs r hr => ?_⟩
  · refine (h.nodup.filter _).imp_of_mem fun {s r} hs hr hne => ?_
    obtain ⟨-, x, rfl⟩ := mem_children.mp hs
    obtain ⟨-, y, rfl⟩ := mem_children.mp hr
    have hlength : (g ++ [x]).length = (g ++ [y]).length := by
      rw [List.length_append, List.length_append, List.length_singleton, List.length_singleton]
    exact ⟨fun hp => hne (hp.eq_of_length hlength.symm).symm,
      fun hp => hne (hp.eq_of_length hlength)⟩
  · obtain ⟨-, x, rfl⟩ := mem_children.mp (List.mem_reverse.mp hs)
    refine ⟨fun hp => (hg r hr).1 ((List.prefix_append g [x]).trans hp), fun hp => ?_⟩
    rcases List.prefix_concat_iff.mp hp with rfl | hp
    · exact (hg _ hr).1 (List.prefix_append g [x])
    · exact (hg r hr).2 hp

/-- No group below another one of the stack is the first of the stack. -/
theorem not_covers_self (hstack : Apart (g :: stack)) :
    ¬ Covers ((children dirs g).reverse ++ stack) g := by
  rintro ⟨s, hs, hsg⟩
  rcases List.mem_append.mp hs with hs | hs
  · obtain ⟨-, name, rfl⟩ := mem_children.mp (List.mem_reverse.mp hs)
    have hlength := hsg.length_le
    rw [List.length_append, List.length_singleton] at hlength
    omega
  · exact ((List.pairwise_cons.mp hstack).1 s hs).2 hsg

/-- Going on from the first group of the stack to those directly below it leaves out that group
only. -/
theorem covers_children (h : Tree dirs) (hstack : Apart (g :: stack)) (hd : d ∈ dirs) :
    Covers ((children dirs g).reverse ++ stack) d ↔ Covers (g :: stack) d ∧ d ≠ g := by
  have hreverse : Covers (children dirs g).reverse d ↔ Covers (children dirs g) d := by
    simp only [Covers, List.mem_reverse]
  have hfirst := h.prefix_iff hd (g := g)
  have hself : ¬ Covers ((children dirs g).reverse ++ stack) g := not_covers_self hstack
  rw [covers_append, covers_cons, hfirst, hreverse, or_assoc]
  constructor
  · intro hcovers
    refine ⟨.inr hcovers, ?_⟩
    rintro rfl
    exact hself (covers_append.mpr (hcovers.imp_left hreverse.mpr))
  · rintro ⟨heq | hbelow | hrest, hne⟩
    · exact absurd heq hne
    · exact .inl hbelow
    · exact .inr hrest

end Tree

end Walk

namespace Table

variable {K : Table κ} {dirs stack : List Group} {g : Group}

/-- The processes in one of the groups or below. -/
def within (K : Table κ) (stack : List Group) : List (Member κ) :=
  K.procs.filter fun p => Covers stack p.group

/-- No process is within no group. -/
theorem within_nil : K.within [] = [] := by
  refine List.filter_eq_nil_iff.mpr fun p _ => ?_
  rw [decide_eq_true_eq]
  rintro ⟨g, hg, -⟩
  cases hg

/-- The process of a pid is found under it. -/
theorem find?_pid {p : Member κ} (hp : p ∈ K.procs) :
    (K.procs.find? fun r => r.pid == p.pid) = some p := by
  obtain ⟨r, hr⟩ := Option.isSome_iff_exists.mp
    (List.find?_isSome.mpr ⟨p, hp, beq_self_eq_true _⟩ :
      (K.procs.find? fun r => r.pid == p.pid).isSome = true)
  have hpid : r.pid = p.pid := by simpa using List.find?_some hr
  rw [hr, eq_of_pid (List.mem_of_find?_eq_some hr) hp hpid]

/-- A pid names one process. -/
theorem filter_pid [DecidableEq κ] {p : Member κ} (hp : p ∈ K.procs) :
    (K.procs.filter fun r => r.pid == p.pid) = [p] := by
  have hsame : (K.procs.filter fun r => r.pid == p.pid) = K.procs.filter fun r => r == p := by
    refine List.filter_congr fun r hr => ?_
    rw [Bool.eq_iff_iff, beq_iff_eq, beq_iff_eq]
    exact ⟨fun h => eq_of_pid hr hp h, fun h => by rw [h]⟩
  rw [hsame, List.filter_beq, List.count_eq_one_of_mem K.nodup.of_map hp]
  rfl

/-- One step of a walk: the processes in the first group, and what is left to find. -/
theorem within_cons_perm (h : Tree dirs) (hstack : Apart (g :: stack))
    (hprocs : ∀ p ∈ K.procs, p.group ∈ dirs) :
    (K.within (g :: stack)).Perm ((K.procs.filter fun p => p.group = g) ++
      K.within ((children dirs g).reverse ++ stack)) := by
  have hsplit := List.filter_append_perm (fun p : Member κ => decide (p.group = g))
    (K.within (g :: stack))
  refine hsplit.symm.trans (.of_eq ?_)
  simp only [within, List.filter_filter]
  congr 1
  · refine List.filter_congr fun p _ => ?_
    rw [Bool.and_eq_left_iff_imp]
    intro hp
    rw [decide_eq_true_eq, covers_cons, of_decide_eq_true hp]
    exact .inl List.prefix_rfl
  · refine List.filter_congr fun p hp => ?_
    rw [Bool.eq_iff_iff, Bool.and_eq_true, Bool.not_eq_true', decide_eq_false_iff_not,
      decide_eq_true_eq, decide_eq_true_eq, h.covers_children hstack (hprocs p hp)]
    exact and_comm

end Table

/-- The groups that a walk has yet to come to. -/
def ahead (dirs stack : List Group) : ℕ := (dirs.filter fun d => Covers stack d).length

/-- Putting the children of a group in its place brings the walk nearer to its end. -/
theorem Tree.ahead_children {dirs stack : List Group} {g : Group} (h : Tree dirs)
    (hstack : Apart (g :: stack)) (hg : g ∈ dirs) :
    ahead dirs ((children dirs g).reverse ++ stack) < ahead dirs (g :: stack) := by
  have heq : dirs.filter (fun d => Covers ((children dirs g).reverse ++ stack) d) =
      (dirs.filter fun d => Covers (g :: stack) d).filter fun d => d ≠ g := by
    rw [List.filter_filter]
    refine List.filter_congr fun d hd => ?_
    rw [Bool.eq_iff_iff, Bool.and_eq_true, decide_eq_true_eq, decide_eq_true_eq,
      decide_eq_true_eq, h.covers_children hstack hd]
    exact and_comm
  rw [ahead, ahead, heq]
  refine List.length_filter_lt_length_iff_exists.mpr ⟨g, ?_, ?_⟩
  · exact List.mem_filter.mpr ⟨hg, decide_eq_true ⟨g, List.mem_cons_self, List.prefix_rfl⟩⟩
  · rw [decide_eq_true_eq]
    exact fun h => h rfl

end Hierarchy
