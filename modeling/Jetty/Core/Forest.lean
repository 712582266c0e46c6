import Mathlib.Data.List.Basic
import Mathlib.Data.List.DropRight
import Mathlib.Data.List.Nodup
import Mathlib.Data.List.Perm.Subperm
import Mathlib.Data.List.Zip

/-!
# Forests by their parents

Nodes that name a parent each, or none, are walked in depth from those that name none. The walk
comes to every node that goes back to one of these, once, and its depths tell the parents again.
-/

namespace Forest

variable {α β γ : Type*}

/-- A node of a walk: what the levels above have handed down, and whether it is the last one of its
siblings. -/
structure Visit (β α : Type*) where
  above : β
  last : Bool
  node : α
deriving DecidableEq, Repr

/-- Siblings, each with whether it is the last one. -/
def marked (nodes : List α) : List (Bool × α) :=
  nodes.zipIdx.map fun (n, i) => (i + 1 == nodes.length, n)

/-- The walk in depth, to as many levels. -/
def walk (children : α → List α) (down : β → Bool → β) : ℕ → β → List α → List (Visit β α)
  | 0, _, _ => []
  | fuel + 1, above, nodes =>
    (marked nodes).flatMap fun m =>
      ⟨above, m.1, m.2⟩ :: walk children down fuel (down above m.1) (children m.2)

@[simp] theorem map_snd_marked (nodes : List α) : (marked nodes).map Prod.snd = nodes := by
  unfold marked
  rw [List.map_map]
  exact List.zipIdx_map_fst 0 nodes

private theorem mem_of_mem_marked {nodes : List α} {m : Bool × α} (h : m ∈ marked nodes) :
    m.2 ∈ nodes := by
  rw [← map_snd_marked nodes]
  exact List.mem_map_of_mem h

private theorem exists_mem_marked {nodes : List α} {n : α} (h : n ∈ nodes) :
    ∃ last, (last, n) ∈ marked nodes := by
  rw [← map_snd_marked nodes] at h
  obtain ⟨⟨last, _⟩, hm, rfl⟩ := List.mem_map.mp h
  exact ⟨last, hm⟩

section Walk

variable {children : α → List α} {down : β → Bool → β} {nodes : List α} {n c : α} {fuel : ℕ}
  {above : β}

private theorem mem_walk_succ {v : Visit β α} :
    v ∈ walk children down (fuel + 1) above nodes ↔ ∃ m ∈ marked nodes,
      v = ⟨above, m.1, m.2⟩ ∨ v ∈ walk children down fuel (down above m.1) (children m.2) := by
  simp only [walk, List.mem_flatMap, List.mem_cons]

/-- What is handed down may be looked at as something simpler. -/
theorem map_walk (down' : γ → Bool → γ) (f : β → γ)
    (hf : ∀ b last, f (down b last) = down' (f b) last) :
    (walk children down fuel above nodes).map (fun v => (⟨f v.above, v.last, v.node⟩ : Visit γ α)) =
      walk children down' fuel (f above) nodes := by
  induction fuel generalizing above nodes with
  | zero => rfl
  | succ fuel ih =>
      simp only [walk, List.map_flatMap, List.map_cons]
      refine List.flatMap_congr fun m _ => ?_
      rw [ih, hf]

/-- What holds of what is handed down to the first level and from level to level, holds at every
visit. -/
theorem forall_above (P : β → Prop) (hdown : ∀ b last, P b → P (down b last)) (habove : P above) :
    ∀ v ∈ walk children down fuel above nodes, P v.above := by
  induction fuel generalizing above nodes with
  | zero => exact fun _ h => absurd h List.not_mem_nil
  | succ fuel ih =>
      intro v hv
      obtain ⟨m, -, rfl | hbelow⟩ := mem_walk_succ.mp hv
      · exact habove
      · exact ih (hdown _ _ habove) v hbelow

/-- The walk comes to the nodes it begins with. -/
theorem mem_walk_of_mem (h : n ∈ nodes) :
    n ∈ (walk children down (fuel + 1) above nodes).map Visit.node := by
  obtain ⟨last, hm⟩ := exists_mem_marked h
  exact List.mem_map.mpr ⟨_, mem_walk_succ.mpr ⟨_, hm, .inl rfl⟩, rfl⟩

end Walk

/-! ### Parents -/

private theorem rtake_append (extra path : List α) : (extra ++ path).rtake path.length = path := by
  rw [List.rtake_eq_reverse_take_reverse, List.reverse_append, ← @List.length_reverse _ path,
    List.take_left, List.reverse_reverse]

section Lineage

variable {up : α → Option α} {path : List α} {a b : α}

/-- The way from a node up to one that names no parent. -/
inductive Lineage (up : α → Option α) : List α → Prop
  | root {a : α} (h : up a = none) : Lineage up [a]
  | child {a b : α} {path : List α} (h : up a = some b) (hpath : Lineage up (b :: path)) :
    Lineage up (a :: b :: path)

/-- The node goes back to one that names no parent. -/
def Rooted (up : α → Option α) (a : α) : Prop := ∃ path, Lineage up (a :: path)

private theorem Lineage.up_eq (h : Lineage up (a :: path)) : up a = path.head? := by
  cases h with
  | root hnone => exact hnone
  | child hsome _ => exact hsome

/-- There is one way up. -/
theorem Lineage.unique {path' : List α} (h : Lineage up (a :: path))
    (h' : Lineage up (a :: path')) : path = path' := by
  induction path generalizing a path' with
  | nil =>
      cases h with
      | root hnone =>
          cases h' with
          | root _ => rfl
          | child hsome _ =>
              rw [hnone] at hsome
              cases hsome
  | cons b path ih =>
      cases h with
      | child hsome hpath =>
          cases h' with
          | root hnone =>
              rw [hsome] at hnone
              cases hnone
          | child hsome' hpath' =>
              obtain rfl := Option.some.inj (hsome.symm.trans hsome')
              rw [ih hpath hpath']

private theorem Lineage.of_suffix {front : List α} (h : Lineage up (front ++ a :: path)) :
    Lineage up (a :: path) := by
  induction front with
  | nil => exact h
  | cons b front ih =>
      refine ih ?_
      rw [List.cons_append] at h
      cases hrest : front ++ a :: path with
      | nil => exact absurd hrest (List.append_ne_nil_of_right_ne_nil _ (List.cons_ne_nil a path))
      | cons c rest =>
          rw [hrest] at h
          cases h with
          | child _ hpath => exact hpath

/-- Nobody is an ancestor of its own. -/
theorem Lineage.nodup (h : Lineage up path) : path.Nodup := by
  induction h with
  | root _ => exact List.nodup_singleton _
  | @child a b path hsome hpath ih =>
      refine List.nodup_cons.mpr ⟨fun hmem => ?_, ih⟩
      obtain ⟨front, rest, hsplit⟩ := List.append_of_mem hmem
      have hlong : Lineage up (a :: b :: path) := .child hsome hpath
      have hshort : Lineage up (a :: rest) := by
        rw [hsplit] at hpath
        exact hpath.of_suffix
      have hlength := congrArg List.length (hlong.unique hshort)
      have hlength' := congrArg List.length hsplit
      simp only [List.length_append, List.length_cons] at hlength hlength'
      omega

private theorem Lineage.subset {nodes : List α} (hup : ∀ a b, up a = some b → b ∈ nodes)
    (h : Lineage up (a :: path)) : path ⊆ nodes := by
  induction path generalizing a with
  | nil => exact List.nil_subset nodes
  | cons b path ih =>
      cases h with
      | child hsome hpath => exact List.cons_subset.mpr ⟨hup _ _ hsome, ih hpath⟩

/-- The way ends with a node that names no parent. -/
theorem Lineage.exists_root (h : Lineage up path) : ∃ r, up r = none ∧ [r] <:+ path := by
  induction h with
  | @root r hnone => exact ⟨r, hnone, List.suffix_rfl⟩
  | child _ _ ih =>
      obtain ⟨r, hnone, hsuffix⟩ := ih
      exact ⟨r, hnone, hsuffix.trans (List.suffix_cons _ _)⟩

private theorem Lineage.length_lt {nodes : List α} (hup : ∀ a b, up a = some b → b ∈ nodes)
    (ha : a ∈ nodes) (h : Lineage up (a :: path)) : path.length < nodes.length := by
  have hsub : a :: path ⊆ nodes := List.cons_subset.mpr ⟨ha, h.subset hup⟩
  exact (List.Nodup.subperm h.nodup hsub).length_le

/-- Where parents come before their children, every node goes back. -/
theorem rooted_of_rank (rank : α → ℕ) (hrank : ∀ a b, up a = some b → rank b < rank a) (a : α) :
    Rooted up a := by
  induction hn : rank a using Nat.strong_induction_on generalizing a with
  | _ n ih =>
      cases hparent : up a with
      | none => exact ⟨[], .root hparent⟩
      | some b =>
          obtain ⟨path, hpath⟩ := ih (rank b) (hn ▸ hrank a b hparent) b rfl
          exact ⟨b :: path, .child hparent hpath⟩

end Lineage

section Parents

variable [DecidableEq α] {up : α → Option α} {nodes path siblings : List α} {a : α}
  {down : β → Bool → β} {above : β} {fuel fuel' : ℕ}

/-- The nodes that name this one as their parent, or none. -/
def childrenOf (nodes : List α) (up : α → Option α) (parent : Option α) : List α :=
  nodes.filter fun n => up n = parent

/-- The walk from the nodes that name no parent. -/
def tour (nodes : List α) (up : α → Option α) (down : β → Bool → β) (above : β) :
    List (Visit β α) :=
  walk (fun n => childrenOf nodes up (some n)) down (nodes.length + 1) above
    (childrenOf nodes up none)

private theorem mem_childrenOf {parent : Option α} :
    a ∈ childrenOf nodes up parent ↔ a ∈ nodes ∧ up a = parent := by
  simp only [childrenOf, List.mem_filter, decide_eq_true_eq]

/-- The nodes are ones whose parent is the first of the path, if there is one. -/
def Below (nodes : List α) (up : α → Option α) (path siblings : List α) : Prop :=
  ∀ n ∈ siblings, n ∈ nodes ∧ Lineage up (n :: path)

/-- The roots of a forest are the children of nobody. -/
theorem below_roots : Below nodes up [] (childrenOf nodes up none) := by
  intro n hn
  obtain ⟨hmem, hnone⟩ := mem_childrenOf.mp hn
  exact ⟨hmem, .root hnone⟩

private theorem Below.children (h : Below nodes up path siblings) (ha : a ∈ siblings) :
    Below nodes up (a :: path) (childrenOf nodes up (some a)) := by
  intro n hn
  obtain ⟨hmem, hsome⟩ := mem_childrenOf.mp hn
  exact ⟨hmem, .child hsome (h a ha).2⟩

/-- There are no more levels than nodes. -/
theorem walk_eq_walk (hup : ∀ a b, up a = some b → b ∈ nodes)
    (h : Below nodes up path siblings) (hfuel : nodes.length < fuel + path.length)
    (hfuel' : nodes.length < fuel' + path.length) :
    walk (fun n => childrenOf nodes up (some n)) down fuel above siblings =
      walk (fun n => childrenOf nodes up (some n)) down fuel' above siblings := by
  have hdeep : ∀ n ∈ siblings, path.length < nodes.length := fun n hn =>
    (h n hn).2.length_lt hup (h n hn).1
  induction fuel generalizing fuel' path siblings above with
  | zero =>
      cases siblings with
      | nil => cases fuel' <;> rfl
      | cons n siblings =>
          have := hdeep n List.mem_cons_self
          omega
  | succ fuel ih =>
      cases fuel' with
      | zero =>
          cases siblings with
          | nil => rfl
          | cons n siblings =>
              have := hdeep n List.mem_cons_self
              omega
      | succ fuel' =>
          unfold walk
          refine List.flatMap_congr fun m hm => congrArg _ ?_
          have hchildren := h.children (mem_of_mem_marked hm)
          refine ih hchildren ?_ ?_ fun c hc => ?_
          · rw [List.length_cons]
            omega
          · rw [List.length_cons]
            omega
          · exact (hchildren c hc).2.length_lt hup (hchildren c hc).1

/-- Who is visited goes back through one of the nodes that the walk begins with. -/
theorem lineage_of_mem_walk (h : Below nodes up path siblings) {v : Visit β α}
    (hv : v ∈ walk (fun n => childrenOf nodes up (some n)) down fuel above siblings) :
    v.node ∈ nodes ∧ ∃ a ∈ siblings, ∃ rest, Lineage up (v.node :: rest) ∧
      a :: path <:+ v.node :: rest := by
  induction fuel generalizing path siblings above with
  | zero => exact absurd hv List.not_mem_nil
  | succ fuel ih =>
      obtain ⟨m, hm, rfl | hbelow⟩ := mem_walk_succ.mp hv
      · have hsibling := mem_of_mem_marked hm
        exact ⟨(h _ hsibling).1, m.2, hsibling, path, (h _ hsibling).2, List.suffix_rfl⟩
      · have hsibling := mem_of_mem_marked hm
        obtain ⟨hmem, c, -, rest, hlineage, hsuffix⟩ := ih (h.children hsibling) hbelow
        exact ⟨hmem, m.2, hsibling, rest, hlineage, (List.suffix_cons c _).trans hsuffix⟩

/-- Nobody is visited twice. -/
theorem nodup_walk (hnodes : nodes.Nodup) (h : Below nodes up path siblings)
    (hsiblings : siblings.Nodup) :
    ((walk (fun n => childrenOf nodes up (some n)) down fuel above siblings).map
      Visit.node).Nodup := by
  induction fuel generalizing path siblings above with
  | zero => exact List.nodup_nil
  | succ fuel ih =>
      rw [walk, List.map_flatMap, List.nodup_flatMap]
      constructor
      · intro m hm
        have hsibling := mem_of_mem_marked hm
        rw [List.map_cons, List.nodup_cons]
        refine ⟨fun hmem => ?_, ih (h.children hsibling) (hnodes.filter _)⟩
        -- Below a node everybody has the node among the ancestors, which it is not itself.
        obtain ⟨v, hv, hnode⟩ := List.mem_map.mp hmem
        obtain ⟨-, c, hc, rest, hlineage, hsuffix⟩ :=
          lineage_of_mem_walk (h.children hsibling) hv
        rw [hnode] at hlineage hsuffix
        obtain rfl := hlineage.unique (h _ hsibling).2
        have hlength := hsuffix.length_le
        simp only [List.length_cons] at hlength
        omega
      · have hmarked : (marked siblings).Pairwise fun m m' => m.2 ≠ m'.2 := by
          rw [← List.pairwise_map (f := Prod.snd) (R := fun a b => a ≠ b), map_snd_marked]
          exact hsiblings
        refine hmarked.imp_of_mem fun {m m'} hm hm' hne => ?_
        -- Two siblings have nobody below them in common.
        have hthrough : ∀ {x : Bool × α}, x ∈ marked siblings → ∀ {q : α},
            q ∈ (⟨above, x.1, x.2⟩ :: walk (fun n => childrenOf nodes up (some n)) down fuel
              (down above x.1) (childrenOf nodes up (some x.2))).map Visit.node →
            ∃ rest, Lineage up (q :: rest) ∧ x.2 :: path <:+ q :: rest := by
          intro x hx q hq
          have hsibling := mem_of_mem_marked hx
          obtain ⟨v, hv, rfl⟩ := List.mem_map.mp hq
          rcases List.mem_cons.mp hv with rfl | hv
          · exact ⟨path, (h _ hsibling).2, List.suffix_rfl⟩
          · obtain ⟨-, c, -, rest, hlineage, hsuffix⟩ :=
              lineage_of_mem_walk (h.children hsibling) hv
            exact ⟨rest, hlineage, (List.suffix_cons c _).trans hsuffix⟩
        intro q hq hq'
        obtain ⟨rest, hlineage, hsuffix⟩ := hthrough hm hq
        obtain ⟨rest', hlineage', hsuffix'⟩ := hthrough hm' hq'
        obtain rfl := hlineage.unique hlineage'
        have hsame := (List.suffix_of_suffix_length_le hsuffix hsuffix' le_rfl).eq_of_length rfl
        exact hne (List.cons.inj hsame).1

/-- Who goes back through one of the nodes is visited. -/
theorem mem_walk_of_lineage (hup : ∀ a b, up a = some b → b ∈ nodes)
    (h : Below nodes up path siblings) (hfuel : nodes.length < fuel + path.length)
    {q : α} {rest : List α} (hq : q ∈ nodes) (hlineage : Lineage up (q :: rest))
    (ha : a ∈ siblings) (hsuffix : a :: path <:+ q :: rest) :
    q ∈ (walk (fun n => childrenOf nodes up (some n)) down fuel above siblings).map
      Visit.node := by
  induction fuel generalizing path siblings above a with
  | zero =>
      have := (h a ha).2.length_lt hup (h a ha).1
      omega
  | succ fuel ih =>
      obtain ⟨front, hfront⟩ := hsuffix
      rcases front.eq_nil_or_concat with rfl | ⟨front, c, rfl⟩
      · obtain ⟨rfl, rfl⟩ := List.cons.inj hfront
        exact mem_walk_of_mem ha
      · rw [List.concat_eq_append, List.append_assoc, List.singleton_append] at hfront
        have hc : Lineage up (c :: a :: path) := by
          rw [← hfront] at hlineage
          exact hlineage.of_suffix
        have hmem : c ∈ nodes := by
          have hsub : q :: rest ⊆ nodes := List.cons_subset.mpr ⟨hq, hlineage.subset hup⟩
          refine hsub ?_
          rw [← hfront]
          exact List.mem_append_right _ List.mem_cons_self
        obtain ⟨last, hm⟩ := exists_mem_marked ha
        have hbelow : q ∈ (walk (fun n => childrenOf nodes up (some n)) down fuel
            (down above last) (childrenOf nodes up (some a))).map Visit.node :=
          ih (h.children ha) (by rw [List.length_cons]; omega)
            (mem_childrenOf.mpr ⟨hmem, hc.up_eq⟩) ⟨front, hfront⟩
        obtain ⟨v, hv, rfl⟩ := List.mem_map.mp hbelow
        exact List.mem_map.mpr ⟨v, mem_walk_succ.mpr ⟨_, hm, .inr hv⟩, rfl⟩

/-! ### Reading the depths -/

/-- The parents, from the nodes in the order of a walk with their depths: the stack has the
ancestors of the last one, and as many of them are left as the next one is deep. -/
def parentsOf : List α → List (ℕ × α) → List (α × Option α)
  | _, [] => []
  | stack, (depth, n) :: rest =>
    (n, (stack.rtake depth).head?) :: parentsOf (n :: stack.rtake depth) rest

/-- A walk that keeps count of the levels. -/
def levels (fuel : ℕ) (nodes : List α) (up : α → Option α) (depth : ℕ) (siblings : List α) :
    List (Visit ℕ α) :=
  walk (fun n => childrenOf nodes up (some n)) (fun d _ => d + 1) fuel depth siblings

/-- A visit as it is read. -/
def Visit.read (v : Visit ℕ α) : ℕ × α := (v.above, v.node)

private theorem parentsOf_walk (h : Below nodes up path siblings) (extra : List α)
    (rest : List (ℕ × α)) :
    ∃ extra', parentsOf (extra ++ path)
        ((levels fuel nodes up path.length siblings).map Visit.read ++ rest) =
      (levels fuel nodes up path.length siblings).map (fun v => (v.node, up v.node)) ++
        parentsOf (extra' ++ path) rest := by
  induction fuel generalizing path siblings extra rest with
  | zero => exact ⟨extra, rfl⟩
  | succ fuel ih =>
      have hloop : ∀ (ms : List (Bool × α)), (∀ m ∈ ms, m.2 ∈ siblings) → ∀ extra rest,
          ∃ extra', parentsOf (extra ++ path) ((ms.flatMap fun m =>
              (⟨path.length, m.1, m.2⟩ : Visit ℕ α) :: levels fuel nodes up (path.length + 1)
                (childrenOf nodes up (some m.2))).map Visit.read ++ rest) =
            (ms.flatMap fun m => (⟨path.length, m.1, m.2⟩ : Visit ℕ α) :: levels fuel nodes up
              (path.length + 1) (childrenOf nodes up (some m.2))).map
                (fun v => (v.node, up v.node)) ++ parentsOf (extra' ++ path) rest := by
        intro ms
        induction ms with
        | nil => exact fun _ extra rest => ⟨extra, rfl⟩
        | cons m ms ihms =>
            intro hms extra rest
            obtain ⟨hm, hms⟩ := List.forall_mem_cons.mp hms
            obtain ⟨extra₁, h₁⟩ := ih (h.children hm) [] ((ms.flatMap fun m =>
              (⟨path.length, m.1, m.2⟩ : Visit ℕ α) :: levels fuel nodes up (path.length + 1)
                (childrenOf nodes up (some m.2))).map Visit.read ++ rest)
            obtain ⟨extra₂, h₂⟩ := ihms hms (extra₁ ++ [m.2]) rest
            rw [List.length_cons, List.nil_append] at h₁
            rw [List.append_assoc, List.singleton_append] at h₂
            refine ⟨extra₂, ?_⟩
            rw [List.flatMap_cons, List.cons_append, List.map_cons, List.map_append, Visit.read,
              List.cons_append, List.append_assoc, parentsOf, rtake_append, h₁, h₂,
              ← (h _ hm).2.up_eq, List.map_cons, List.map_append, List.cons_append,
              List.append_assoc]
      obtain ⟨extra', hextra⟩ :=
        hloop (marked siblings) (fun m hm => mem_of_mem_marked hm) extra rest
      exact ⟨extra', hextra⟩

/-! ### The whole walk -/

/-- The walk from the nodes without parents comes to those that go back to one of them, once, and
however it is drawn, its depths tell the parent of each. -/
theorem tour_spec (hnodes : nodes.Nodup) (hup : ∀ a b, up a = some b → b ∈ nodes) (depth : β → ℕ)
    (hdepth : ∀ b last, depth (down b last) = depth b + 1) (habove : depth above = 0) :
    ((tour nodes up down above).map Visit.node).Nodup ∧
      (∀ q, q ∈ (tour nodes up down above).map Visit.node ↔ q ∈ nodes ∧ Rooted up q) ∧
      parentsOf [] ((tour nodes up down above).map fun v => (depth v.above, v.node)) =
        (tour nodes up down above).map fun v => (v.node, up v.node) := by
  have hroots : Below nodes up [] (childrenOf nodes up none) := below_roots
  refine ⟨nodup_walk hnodes hroots (hnodes.filter _), fun q => ⟨fun hq => ?_, ?_⟩, ?_⟩
  · obtain ⟨v, hv, rfl⟩ := List.mem_map.mp hq
    obtain ⟨hmem, -, -, rest, hlineage, -⟩ := lineage_of_mem_walk hroots hv
    exact ⟨hmem, rest, hlineage⟩
  · rintro ⟨hq, rest, hlineage⟩
    -- The last of the ancestors is where the walk begins.
    obtain ⟨r, hnone, hsuffix⟩ := hlineage.exists_root
    have hsub : q :: rest ⊆ nodes := List.cons_subset.mpr ⟨hq, hlineage.subset hup⟩
    exact mem_walk_of_lineage hup hroots (Nat.lt_succ_self _) hq hlineage
      (mem_childrenOf.mpr ⟨hsub (hsuffix.subset List.mem_cons_self), hnone⟩) hsuffix
  · have hmap : (tour nodes up down above).map
        (fun v => (⟨depth v.above, v.last, v.node⟩ : Visit ℕ α)) =
          levels (nodes.length + 1) nodes up 0 (childrenOf nodes up none) := by
      rw [tour, map_walk (fun d _ => d + 1) depth hdepth, habove]
      rfl
    obtain ⟨extra, hextra⟩ := parentsOf_walk hroots [] []
    rw [List.length_nil, ← hmap, List.append_nil, List.append_nil, parentsOf, List.append_nil,
      List.map_map, List.map_map] at hextra
    exact hextra

end Parents

end Forest
