import Jetty.Fsspec.Local
import Mathlib.Data.List.TakeWhile
import Mathlib.Data.Set.List

/-!
# What the methods of the client are for

A file system seen from outside, and what a method makes of it. The local file system and the
sidecar do what is said here, each where it treats the paths of the method as it should.
-/

namespace Jetty.Fsspec

open Files Effects Filesystem

/-! ### Paths -/

private theorem not_mem_of_mem_splitOn {c : Char} {cs seg : List Char} (h : seg ∈ cs.splitOn c) :
    c ∉ seg := by
  induction cs generalizing seg with
  | nil =>
      rw [List.splitOn_nil, List.mem_singleton] at h
      rw [h]
      exact List.not_mem_nil
  | cons d cs ih =>
      rw [List.splitOn_cons_eq_if_modifyHead] at h
      split at h
      · rcases List.mem_cons.mp h with rfl | h
        · exact List.not_mem_nil
        · exact ih h
      · rename_i hne
        obtain ⟨front, rest, hsplit⟩ := List.exists_cons_of_ne_nil (List.splitOn_ne_nil c cs)
        rw [hsplit, List.modifyHead_cons] at h
        rcases List.mem_cons.mp h with rfl | h
        · rw [List.mem_cons, not_or]
          refine ⟨fun heq => hne (by rw [heq, beq_self_eq_true]), ih ?_⟩
          rw [hsplit]
          exact List.mem_cons_self
        · refine ih ?_
          rw [hsplit]
          exact List.mem_cons_of_mem _ h

/-- What the surface lets in is the normal path of a place. -/
theorem exists_text_of_checkPath {path : String} (h : (checkPath path).isOk = true) :
    ∃ n dir, path.toList = text (n :: dir) := by
  unfold checkPath at h
  simp only at h
  split at h
  · cases h
  rename_i hsyntax
  obtain ⟨hhead, hmore⟩ := not_or.mp hsyntax
  obtain ⟨-, hmore⟩ := not_or.mp hmore
  obtain ⟨-, hsegments⟩ := not_or.mp hmore
  obtain ⟨rest, hrest⟩ := List.head?_eq_some_iff.mp (not_not.mp hhead)
  rw [hrest, List.tail_cons, List.any_eq_true] at hsegments
  have hnames : ∀ seg ∈ rest.splitOn '/', seg ∈ Set.range Name.chars := by
    intro seg hseg
    have hplain : seg ∉ ([[], ['.'], ['.', '.']] : List (List Char)) := fun hmem =>
      hsegments ⟨seg, hseg, decide_eq_true hmem⟩
    simp only [List.mem_cons, List.not_mem_nil, or_false, not_or] at hplain
    exact ⟨⟨seg, hplain.1, not_mem_of_mem_splitOn hseg, hplain.2.1, hplain.2.2⟩, rfl⟩
  obtain ⟨names, hmap⟩ : rest.splitOn '/' ∈ Set.range (List.map Name.chars) := by
    rw [Set.range_list_map]
    exact hnames
  have hne : names.map Name.chars ≠ [] := by
    rw [hmap]
    exact List.splitOn_ne_nil _ _
  have hslashed : slashed names = '/' :: rest := by
    rw [slashed_eq_intercalate, List.intercalate_cons_of_ne_nil hne, hmap, List.intercalate_splitOn]
    rfl
  have hsome : names.reverse ≠ [] := fun heq => by
    rw [List.reverse_eq_nil_iff.mp heq] at hne
    exact hne rfl
  obtain ⟨n, dir, hreverse⟩ := List.exists_cons_of_ne_nil hsome
  refine ⟨n, dir, ?_⟩
  rw [hrest, ← hslashed, text_cons, ← List.reverse_cons, ← hreverse, List.reverse_reverse]

/-- The place that a path means where there are no links. -/
def placeOf (path : String) : Place := (Tree.lexical [] [] (parts path.toList)).2

private theorem lexical_heres {heres : List Part} (h : ∀ part ∈ heres, part = .here)
    (rest : List Part) : Tree.lexical [] [] (heres ++ rest) = Tree.lexical [] [] rest := by
  induction heres with
  | nil => rfl
  | cons part heres ih =>
      obtain ⟨rfl, htail⟩ := List.forall_mem_cons.mp h
      rw [List.cons_append, Tree.lexical]
      exact ih htail

/-- The place of a path is read back from its text. -/
theorem placeOf_text {path : String} {p : Place} (h : path.toList = text p) : placeOf path = p := by
  obtain ⟨heres, hheres, hparts⟩ := parts_text p
  rw [placeOf, h, hparts, lexical_heres hheres, Tree.lexical_names, List.append_nil,
    List.reverse_reverse]

/-! ### Methods -/

section Meaning

variable (strip : String → String) (rules : ModeRules) (v : View Stat)

/-- The file has got the content, or is made with it. -/
def replaced (p : Place) (content : List UInt8) : Option (View Stat) :=
  v.write p content (rules.filled (rules.created 0o666) content) rules.granted

/-- The file is read. -/
def reading (p : Place) : Option (List UInt8 × View Stat) :=
  (fileAt v p).map fun f => (f.content, v)

/-- A file is opened, written and closed. -/
def opening (p : Place) (body : List UInt8) : OpenMode → Option (List UInt8 × View Stat)
  | .rb => reading v p
  | .wb => (replaced rules v p body).map (Prod.mk [])
  | .ab => (replaced rules v p ((fileAt v p).elim [] Regular.content ++ body)).map (Prod.mk [])
  | .xb => (create rules v p body).map (Prod.mk [])

/-- What a method returns and leaves, or that it raises. -/
noncomputable def Method.meaning : Method → Option (Value × View Stat)
  | catFile path start stop =>
    (reading v (placeOf (strip path))).map
      (Prod.map (fun data => .bytes (sliced start stop data)) id)
  | pipeFile path value => (replaced rules v (placeOf (strip path)) value).map (Prod.mk .none)
  | rmFile path => (v.remove (placeOf (strip path))).map (Prod.mk .none)
  | mv path1 path2 =>
    (v.rename (placeOf (strip path1)) (placeOf (strip path2))).map (Prod.mk .none)
  | cpFile path1 path2 =>
    (copied v (placeOf (strip path1)) (placeOf (strip path2))
      (fun f => rules.filled (rules.created f.mode) f.content) rules.granted).map (Prod.mk .none)
  | exists_ path => some (.bool (v.object (placeOf (strip path))).isSome, v)
  | info path => (v.object (placeOf (strip path))).map fun o =>
      (.info (.of (strip path) (statOf o)), v)
  | open_ path mode body =>
    (opening rules v (placeOf (strip path)) body mode).map (Prod.map .bytes id)

/-- The paths of a method. -/
def Method.paths : Method → List String
  | catFile path _ _ | pipeFile path _ | rmFile path | exists_ path | info path
  | open_ path _ _ => [strip path]
  | mv path1 path2 | cpFile path1 path2 => [strip path1, strip path2]

/-- Those of them that go through a URL. -/
def Method.urls (m : Method) : List String :=
  match m with
  | mv _ _ | cpFile _ _ => []
  | _ => m.paths strip

/-- Writing through the name leaves what replacing the file does. -/
structure Replaceable (p : Place) (kept : ℕ → ℕ) : Prop where
  special : v.object p ≠ some .special
  sole : ∀ f, v.object p = some (.file f) → v.Sole p
  mode : ∀ f, v.object p = some (.file f) → kept f.mode = rules.granted f.mode

end Meaning

/-- Writing and appending, moving and copying come to the same on the local file system and through
the sidecar. -/
def Method.Fair (strip : String → String) (s : Server) (m : Method) : Prop :=
  let v := s.machine.disk.view
  let rules := s.machine.modes
  match m with
  | catFile path _ _ | rmFile path | open_ path .rb _ =>
    v.object (placeOf (strip path)) ≠ some .special
  | pipeFile path _ | open_ path .wb _ => Replaceable rules v (placeOf (strip path)) rules.written
  | open_ path .ab body =>
    Replaceable rules v (placeOf (strip path)) fun mode => rules.filled mode body
  | mv path1 path2 =>
    v.object (placeOf (strip path1)) ≠ some .special ∧
      v.object (placeOf (strip path2)) ≠ some .special ∧
      ¬ s.machine.disk.Movable (placeOf (strip path1)) (placeOf (strip path2))
  | cpFile path1 path2 =>
    v.object (placeOf (strip path1)) ≠ some .special ∧
      ∀ f, fileAt v (placeOf (strip path1)) = some f →
        placeOf (strip path1) ≠ placeOf (strip path2) →
          Replaceable rules v (placeOf (strip path2)) rules.written ∧
            (v.object (placeOf (strip path2)) = none →
              rules.filled (rules.created f.mode) f.content =
                rules.filled (rules.created 0o666) f.content)
  | exists_ _ | info _ | open_ _ .xb _ => True

/-! ### What is done and what is said -/

section Does

variable {α β : Type} {strip : String → String} {rules : ModeRules} {v : View Stat} {s : Server}
  {o : Option (α × View Stat)} {x : Session α} {n : Name} {dir : Place}

/-- The call does what is said, and raises where nothing is. -/
def Does (rules : ModeRules) (v : View Stat) (o : Option (α × View Stat)) (x : Session α)
    (s : Server) : Prop :=
  wp x (fun r t => ∃ w, o = some (r, w) ∧ Shows rules w t)
    (fun _ t => o = none ∧ Shows rules v t) s

private theorem Does.map (h : Does rules v o x s) (g : α → β) :
    Does rules v (o.map (Prod.map g id)) (g <$> x) s := by
  unfold Does
  rw [wp_map]
  refine wp_mono h ?_ ?_
  · rintro r t ⟨w, rfl, hw⟩
    exact ⟨w, rfl, hw⟩
  · rintro _ t ⟨rfl, hv⟩
    exact ⟨rfl, hv⟩

private theorem does_of_view {o : Option (View Stat)} (r : α)
    (h : wp x (fun r' t => r' = r ∧ ∃ w, o = some w ∧ Shows rules w t)
      (fun _ t => o = none ∧ Shows rules v t) s) : Does rules v (o.map (Prod.mk r)) x s := by
  refine wp_mono h ?_ ?_
  · rintro _ t ⟨rfl, w, rfl, hw⟩
    exact ⟨w, rfl, hw⟩
  · rintro _ t ⟨rfl, hv⟩
    exact ⟨rfl, hv⟩

/-- A call that returns nothing of use. -/
theorem does_of_effect {x : Session Unit} {o : Option (View Stat)} (r : β)
    (h : wp x (fun _ t => ∃ w, o = some w ∧ Shows rules w t)
      (fun _ t => o = none ∧ Shows rules v t) s) :
    Does rules v (o.map (Prod.mk r)) ((fun _ => r) <$> x) s := by
  refine does_of_view r ?_
  rw [wp_map]
  exact wp_mono h (fun _ _ hw => ⟨rfl, hw⟩) fun _ _ he => he

/-- A call that tells what is there, or that there is nothing. -/
theorem does_read {ο : Type} {found : Option ο} {g : ο → α} (h : Shows rules v s)
    (hx : wp x (fun r t => t = s ∧ ∃ f, found = some f ∧ r = g f)
      (fun _ t => t = s ∧ found = none) s) :
    Does rules v (found.map fun f => (g f, v)) x s := by
  refine wp_mono hx ?_ ?_
  · rintro _ t ⟨rfl, f, rfl, rfl⟩
    exact ⟨v, rfl, h⟩
  · rintro _ t ⟨rfl, rfl⟩
    exact ⟨rfl, h⟩

private theorem Replaceable.write_eq {p : Place} {kept : ℕ → ℕ} (h : Replaceable rules v p kept)
    (content : List UInt8) (fresh : ℕ) :
    v.write p content fresh kept = v.write p content fresh rules.granted := by
  unfold View.write
  cases hobject : v.object p with
  | none => rfl
  | some o =>
      cases o with
      | file f =>
          dsimp only
          rw [h.mode f hobject]
      | _ => rfl

private theorem Replaceable.append_eq {p : Place} {body : List UInt8}
    (h : Replaceable rules v p fun mode => rules.filled mode body) :
    append rules v p body =
      replaced rules v p ((fileAt v p).elim [] Regular.content ++ body) := by
  unfold append replaced View.write fileAt
  cases hobject : v.object p with
  | none => rfl
  | some o =>
      cases o with
      | file f =>
          dsimp only
          rw [appended, ← h.mode f hobject]
          rfl
      | _ => rfl

/-! ### The local file system does what is said -/

variable {L : Surroundings} {path : String}

private theorem does_pipe (hcalm : L.faults.Calm) (h : Shows rules v s) (hplain : v.Plain)
    (hpath : path.toList = text (n :: dir))
    (hfair : Replaceable rules v (n :: dir) rules.written) (value : List UInt8) (r : β) :
    Does rules v ((replaced rules v (n :: dir) value).map (Prod.mk r))
      ((fun _ => r) <$> Fallback.pipe L path value) s := by
  refine does_of_effect r ?_
  unfold Fallback.pipe
  rw [absolute_text hpath, pure_bind, hpath, replaced, ← hfair.write_eq]
  exact wp_system (wp_overwrite_plain hcalm h hplain hfair.special hfair.sole)

/-- A file that is opened to be written to. -/
theorem does_opened {y : Calls α} {z : α → Calls Unit} {o : Option (View Stat)}
    (h : wp (y >>= z) (fun _ t => ∃ w, o = some w ∧ Shows rules w t)
      (fun _ t => o = none ∧ Shows rules v t) s) :
    Does rules v (o.map (Prod.mk [])) (system do
      let target ← y
      z target
      return ([] : List UInt8)) s := by
  refine does_of_view [] (wp_system ?_)
  rw [← bind_assoc, wp_bind]
  exact wp_mono h (fun _ _ hw => ⟨rfl, hw⟩) fun _ _ he => he

/-- `open` on the local file system. -/
theorem does_fallback_open (hcalm : L.faults.Calm) (h : Shows rules v s) (hplain : v.Plain)
    (hpath : (strip path).toList = text (n :: dir)) {mode : OpenMode} {body : List UInt8}
    (hfair : (Method.open_ path mode body).Fair strip s) :
    Does rules v (opening rules v (n :: dir) body mode)
      (Fallback.opened L mode (strip path) body) s := by
  obtain ⟨hview, hmodes⟩ := id h
  subst hview hmodes
  have hplace := placeOf_text hpath
  cases mode with
  | rb =>
      change _ ≠ _ at hfair
      rw [hplace] at hfair
      exact does_read h (wp_cat_plain hcalm h hplain hpath hfair)
  | wb =>
      change Replaceable _ _ _ _ at hfair
      rw [hplace] at hfair
      unfold Fallback.opened opening
      rw [absolute_text hpath, pure_bind, hpath, replaced, ← hfair.write_eq]
      exact does_opened (wp_overwrite_plain hcalm h hplain hfair.special hfair.sole)
  | ab =>
      change Replaceable _ _ _ _ at hfair
      rw [hplace] at hfair
      unfold Fallback.opened opening
      rw [absolute_text hpath, pure_bind, hpath]
      dsimp only
      rw [← hfair.append_eq]
      exact does_opened (wp_append_plain hcalm h hplain hfair.special hfair.sole)
  | xb =>
      unfold Fallback.opened
      rw [absolute_text hpath, pure_bind, hpath]
      exact does_opened (wp_create_plain hcalm h hplain)

/-- `cp_file` on the local file system. -/
theorem does_fallback_cp (hcalm : L.faults.Calm) (h : Shows rules v s) (hplain : v.Plain)
    {src dst : String} {m : Name} {dir' : Place} (hsrc : (strip src).toList = text (n :: dir))
    (hdst : (strip dst).toList = text (m :: dir')) (hfair : (Method.cpFile src dst).Fair strip s)
    (r : β) :
    Does rules v ((copied v (n :: dir) (m :: dir')
      (fun f => rules.filled (rules.created f.mode) f.content) rules.granted).map (Prod.mk r))
      ((fun _ => r) <$> Fallback.cp L (strip src) (strip dst)) s := by
  obtain ⟨hview, hmodes⟩ := id h
  subst hview hmodes
  obtain ⟨hspecial, htarget⟩ := hfair
  rw [placeOf_text hsrc] at hspecial htarget
  rw [placeOf_text hdst] at htarget
  have hsame : copied s.machine.disk.view (n :: dir) (m :: dir')
      (fun f => s.machine.modes.filled (s.machine.modes.created f.mode) f.content)
        s.machine.modes.granted =
      copied s.machine.disk.view (n :: dir) (m :: dir')
        (fun f => s.machine.modes.filled (s.machine.modes.created 0o666) f.content)
          s.machine.modes.written := by
    unfold copied
    split
    · rfl
    · rename_i hne
      cases hfile : fileAt s.machine.disk.view (n :: dir) with
      | none => rfl
      | some f =>
          obtain ⟨hreplaceable, hmode⟩ := htarget f hfile hne
          rw [Option.bind_some, Option.bind_some, hreplaceable.write_eq]
          unfold View.write
          split
          · rfl
          · rename_i hnone
            dsimp only
            rw [hmode hnone]
          · rfl
  rw [hsame]
  refine does_of_effect r (wp_cp_plain hcalm h hplain hsrc hdst hspecial ?_ ?_)
  · intro f hfile
    by_cases hne : n :: dir = m :: dir'
    · rw [← hne]
      exact hspecial
    · exact (htarget f hfile hne).1.special
  · exact fun f hfile hne => (htarget f hfile hne).1.sole

/-- Where it can, the local file system does what is said of a method; where it raises it has
changed nothing, and there was nothing to change. -/
theorem fallback_does (hcalm : L.faults.Calm) (h : Shows rules v s) (hplain : v.Plain)
    {m : Method} (hpaths : ∀ path ∈ m.paths strip, ∃ n dir, path.toList = text (n :: dir))
    (hfair : m.Fair strip s) :
    wp (m.fallback strip L)
      (fun r t => ∃ w, m.meaning strip rules v = some (r, w) ∧ Shows rules w t)
      (fun _ t => Shows rules v t ∧ ∀ r w, m.meaning strip rules v = some (r, w) → w = v) s := by
  have hdoes : ∀ {x : Session Value}, Does rules v (m.meaning strip rules v) x s →
      wp x (fun r t => ∃ w, m.meaning strip rules v = some (r, w) ∧ Shows rules w t)
        (fun _ t => Shows rules v t ∧ ∀ r w, m.meaning strip rules v = some (r, w) → w = v) s := by
    intro x hx
    refine wp_mono hx (fun _ _ ht => ht) fun _ t ht => ⟨ht.2, fun r w hsome => ?_⟩
    rw [ht.1] at hsome
    cases hsome
  cases m with
  | catFile path start stop =>
      obtain ⟨n, dir, hpath⟩ := hpaths _ List.mem_cons_self
      have hspecial : s.machine.disk.view.object (placeOf (strip path)) ≠ some .special := hfair
      rw [h.view, placeOf_text hpath] at hspecial
      refine hdoes ?_
      rw [Method.meaning, placeOf_text hpath, Method.fallback, ← map_eq_pure_bind]
      exact (does_read h (wp_cat_plain hcalm h hplain hpath hspecial)).map _
  | pipeFile path value =>
      obtain ⟨n, dir, hpath⟩ := hpaths _ List.mem_cons_self
      have hreplaceable : Replaceable s.machine.modes s.machine.disk.view (placeOf (strip path))
        s.machine.modes.written := hfair
      rw [h.view, h.modes, placeOf_text hpath] at hreplaceable
      refine hdoes ?_
      rw [Method.meaning, placeOf_text hpath]
      exact does_pipe hcalm h hplain hpath hreplaceable value _
  | rmFile path =>
      obtain ⟨n, dir, hpath⟩ := hpaths _ List.mem_cons_self
      have hspecial : s.machine.disk.view.object (placeOf (strip path)) ≠ some .special := hfair
      rw [h.view, placeOf_text hpath] at hspecial
      refine hdoes ?_
      rw [Method.meaning, placeOf_text hpath]
      exact does_of_effect _ (wp_rm_plain hcalm h hplain hpath hspecial)
  | mv path1 path2 =>
      obtain ⟨n, dir, hpath⟩ := hpaths _ List.mem_cons_self
      obtain ⟨n', dir', hpath'⟩ := hpaths _ (List.mem_cons_of_mem _ List.mem_cons_self)
      obtain ⟨hspecial, hspecial', hmovable⟩ := hfair
      rw [h.view, placeOf_text hpath] at hspecial
      rw [h.view, placeOf_text hpath'] at hspecial'
      rw [placeOf_text hpath, placeOf_text hpath'] at hmovable
      refine hdoes ?_
      rw [Method.meaning, placeOf_text hpath, placeOf_text hpath']
      exact does_of_effect _
        (wp_mv_plain hcalm h hplain hpath hpath' hspecial hspecial' hmovable)
  | cpFile path1 path2 =>
      obtain ⟨n, dir, hpath⟩ := hpaths _ List.mem_cons_self
      obtain ⟨n', dir', hpath'⟩ := hpaths _ (List.mem_cons_of_mem _ List.mem_cons_self)
      refine hdoes ?_
      rw [Method.meaning, placeOf_text hpath, placeOf_text hpath']
      exact does_fallback_cp hcalm h hplain hpath hpath' hfair _
  | exists_ path =>
      -- Below a file there is nothing, and the kernel says so in another way.
      obtain ⟨n, dir, hpath⟩ := hpaths _ List.mem_cons_self
      rw [Method.meaning, placeOf_text hpath, Method.fallback, wp_map, existing, wp_rescue, wp_bind]
      refine wp_mono (wp_stat_local_plain hcalm h hplain hpath) ?_ ?_
      · rintro _ t ⟨rfl, o, hobject, -⟩
        rw [hobject]
        exact ⟨v, rfl, h⟩
      · rintro e t ⟨rfl, hnone⟩
        rw [hnone]
        split
        · exact ⟨v, rfl, h⟩
        · exact ⟨h, fun r w hsome => (congrArg Prod.snd (Option.some.inj hsome)).symm⟩
  | info path =>
      obtain ⟨n, dir, hpath⟩ := hpaths _ List.mem_cons_self
      refine hdoes ?_
      have hstat := (does_read h (wp_stat_local_plain hcalm h hplain hpath)).map
        fun st => Value.info (.of (strip path) st)
      rw [Option.map_map] at hstat
      rw [Method.meaning, placeOf_text hpath]
      exact hstat
  | open_ path mode body =>
      obtain ⟨n, dir, hpath⟩ := hpaths _ List.mem_cons_self
      refine hdoes ?_
      rw [Method.meaning, placeOf_text hpath]
      exact (does_fallback_open hcalm h hplain hpath hfair).map _

/-! ### The sidecar does what is said -/

variable {F F' : Faults}

/-- The surface lets the path in, it lies inside the root, and a name for the temporary file is
drawn that is free. -/
structure Ready (F F' : Faults) (v : View Stat) (s : Server) (path : String) (p : Place) :
    Prop where
  checked : (checkPath path).isOk = true
  inside : Inside s path p
  first : v.isDir p.tail = true → ∃ k ∈ F.names, v.object (k :: p.tail) = none
  second : v.isDir p.tail = true → ∃ k ∈ F'.names, v.object (k :: p.tail) = none

private theorem wp_request {paths : List String} {y : Serving α} {Q : α → Server → Prop}
    {E : Raised → Server → Prop} (hchecked : ∀ path ∈ paths, (checkPath path).isOk = true)
    (h : wp y Q (fun error => E (.ofDriver error)) s) : wp (request paths y) Q E s := by
  unfold request
  rw [if_pos (List.all_eq_true.mpr hchecked), wp_rescue]
  exact h

private theorem routed_eq (hline : '\n' ∉ path.toList) : routed path = some path := by
  have hnone : path.toList.dropWhile (· ≠ '\n') = [] := by
    refine List.dropWhile_eq_nil_iff.mpr fun c hc => decide_eq_true ?_
    rintro rfl
    exact hline hc
  unfold routed
  rw [hnone]

/-- A request on one line with a path that is let in reaches its handler. -/
theorem wp_requestAt {y : String → Serving α} {Q : α → Server → Prop} {E : Raised → Server → Prop}
    (hline : '\n' ∉ path.toList) (hchecked : (checkPath path).isOk = true)
    (h : wp (y path) Q (fun error => E (.ofDriver error)) s) : wp (requestAt path y) Q E s := by
  unfold requestAt
  rw [routed_eq hline]
  exact wp_request (by simpa using hchecked) h

/-- The sidecar returns the content of the file, or there is none. -/
theorem wp_remote_cat (hcalm : F.Calm) (h : Shows rules v s) (hplain : v.Plain)
    (hready : Ready F F' v s path (n :: dir)) (hline : '\n' ∉ path.toList) :
    wp (Remote.cat F path)
      (fun r t => t = s ∧ ∃ f, fileAt v (n :: dir) = some f ∧ r = f.content)
      (fun e t => t = s ∧ fileAt v (n :: dir) = none ∧
        (e = .fileNotFound ∨ Refuses v (n :: dir))) s := by
  refine wp_requestAt hline hready.checked ?_
  refine wp_mono (wp_read_plain hcalm h hplain hready.inside) (fun _ _ ht => ht) ?_
  rintro _ t ⟨rfl, hnone, rfl | hrefuses⟩
  · exact ⟨rfl, hnone, .inl rfl⟩
  · exact ⟨rfl, hnone, .inr hrefuses⟩

private theorem wp_remote_pipe (hcalm : F'.Calm) (h : Shows rules v s) (hplain : v.Plain)
    (hready : Ready F F' v s path (n :: dir)) (hline : '\n' ∉ path.toList)
    (value : List UInt8) :
    wp (Remote.pipe F' path value)
      (fun _ t => ∃ w, replaced rules v (n :: dir) value = some w ∧ Shows rules w t)
      (fun _ t => replaced rules v (n :: dir) value = none ∧ Shows rules v t) s := by
  refine wp_requestAt hline hready.checked ?_
  rw [wp_map]
  exact wp_write_plain hcalm h hplain hready.inside hready.second

private theorem wp_remote_stat (hcalm : F.Calm) (h : Shows rules v s) (hplain : v.Plain)
    (hready : Ready F F' v s path (n :: dir)) (hline : '\n' ∉ path.toList) :
    wp (Remote.stat F path)
      (fun r t => t = s ∧ ∃ o, v.object (n :: dir) = some o ∧ r = statOf o)
      (fun e t => t = s ∧ v.object (n :: dir) = none ∧ e = .fileNotFound) s := by
  refine wp_requestAt hline hready.checked ?_
  refine wp_mono (wp_stat_plain hcalm h hplain hready.inside) (fun _ _ ht => ht) ?_
  rintro _ t ⟨rfl, hnone, rfl⟩
  exact ⟨rfl, hnone, rfl⟩

/-- The sidecar finds what is at the path. -/
theorem wp_remote_exists (hcalm : F.Calm) (h : Shows rules v s) (hplain : v.Plain)
    (hready : Ready F F' v s path (n :: dir)) (hline : '\n' ∉ path.toList)
    {Q : Bool → Server → Prop} {E : Raised → Server → Prop}
    (hQ : Q (v.object (n :: dir)).isSome s) :
    wp (existing (Remote.stat F path)) Q E s := by
  unfold existing
  rw [wp_rescue, wp_bind]
  refine wp_mono (wp_remote_stat hcalm h hplain hready hline) ?_ ?_
  · rintro _ t ⟨rfl, o, hobject, -⟩
    rw [hobject] at hQ
    exact hQ
  · rintro _ t ⟨rfl, hnone, rfl⟩
    rw [hnone] at hQ
    exact hQ

/-- `open` through the sidecar. -/
theorem does_remote_open (hcalm : F.Calm) (hcalm' : F'.Calm) (h : Shows rules v s)
    (hplain : v.Plain) (hready : Ready F F' v s path (n :: dir)) (hline : '\n' ∉ path.toList)
    (hstrip : strip path = path) (mode : OpenMode) (body : List UInt8) :
    Does rules v (opening rules v (n :: dir) body mode)
      (Remote.opened strip F F' mode path body) s := by
  have hpipe : ∀ value, Does rules v ((replaced rules v (n :: dir) value).map (Prod.mk []))
      (do
        Remote.pipe F' path value
        return ([] : List UInt8)) s := by
    intro value
    rw [← map_eq_pure_bind]
    exact does_of_effect [] (wp_remote_pipe hcalm' h hplain hready hline value)
  unfold Remote.opened
  rw [hstrip]
  cases mode with
  | rb =>
      refine does_read h (wp_mono (wp_remote_cat hcalm h hplain hready hline)
        (fun _ _ ht => ht) ?_)
      exact fun _ _ he => ⟨he.1, he.2.1⟩
  | wb => exact hpipe body
  | ab =>
      unfold Does opening
      dsimp only
      rw [wp_bind, wp_rescue]
      refine wp_mono (wp_remote_cat hcalm h hplain hready hline) ?_ ?_
      · rintro _ t ⟨rfl, f, hfile, rfl⟩
        rw [hfile]
        exact hpipe _
      · rintro e t ⟨rfl, hnone, he⟩
        rw [hnone]
        split
        · exact hpipe _
        · rename_i hne
          obtain hnot | hrefuses := he
          · exact absurd hnot hne
          · refine ⟨?_, h⟩
            rw [replaced, hrefuses]
            rfl
  | xb =>
      unfold Does opening
      dsimp only
      rw [wp_bind]
      refine wp_remote_exists hcalm h hplain hready hline ?_
      cases hobject : v.object (n :: dir) with
      | some o =>
          rw [create_of_some hobject]
          exact ⟨rfl, h⟩
      | none =>
          have hsame : create rules v (n :: dir) body = replaced rules v (n :: dir) body := by
            rw [create_of_none hobject, replaced, View.write, hobject]
            rfl
          rw [hsame]
          exact hpipe body

/-- The sidecar does what is said of a method. -/
theorem remote_does (hstrip : ∀ path, isAbsolute (strip path).toList = true →
      strip (strip path) = strip path)
    (hcalm : F.Calm) (hcalm' : F'.Calm) (h : Shows rules v s) (hplain : v.Plain) {m : Method}
    (hpaths : ∀ path ∈ m.paths strip, ∃ n dir, Ready F F' v s path (n :: dir))
    (hlines : ∀ path ∈ m.urls strip, '\n' ∉ path.toList)
    (hspecial : ∀ path1 path2, m = .mv path1 path2 →
      v.object (placeOf (strip path2)) ≠ some .special) :
    Does rules v (m.meaning strip rules v) (m.remote strip F F') s := by
  cases m with
  | catFile path start stop =>
      obtain ⟨n, dir, hready⟩ := hpaths _ List.mem_cons_self
      have hline := hlines _ List.mem_cons_self
      rw [Method.meaning, placeOf_text hready.inside.path, Method.remote, ← map_eq_pure_bind]
      refine (does_read h (wp_mono (wp_remote_cat hcalm h hplain hready hline)
        (fun _ _ ht => ht) ?_)).map _
      exact fun _ _ he => ⟨he.1, he.2.1⟩
  | pipeFile path value =>
      obtain ⟨n, dir, hready⟩ := hpaths _ List.mem_cons_self
      rw [Method.meaning, placeOf_text hready.inside.path]
      exact does_of_effect _ (wp_remote_pipe (F := F) hcalm h hplain
        ⟨hready.checked, hready.inside, hready.first, hready.first⟩
        (hlines _ List.mem_cons_self) value)
  | rmFile path =>
      obtain ⟨n, dir, hready⟩ := hpaths _ List.mem_cons_self
      rw [Method.meaning, placeOf_text hready.inside.path]
      exact does_of_effect _ (wp_requestAt (hlines _ List.mem_cons_self) hready.checked
        (wp_delete_plain hcalm h hplain hready.inside))
  | mv path1 path2 =>
      obtain ⟨n, dir, hready⟩ := hpaths _ List.mem_cons_self
      obtain ⟨n', dir', hready'⟩ := hpaths _ (List.mem_cons_of_mem _ List.mem_cons_self)
      have hspecial' := hspecial _ _ rfl
      rw [placeOf_text hready'.inside.path] at hspecial'
      rw [Method.meaning, placeOf_text hready.inside.path, placeOf_text hready'.inside.path]
      refine does_of_effect _ (wp_request (by simpa using ⟨hready.checked, hready'.checked⟩) ?_)
      rw [wp_map]
      exact wp_rename_plain hcalm h hplain hready.inside hready'.inside hspecial'
  | cpFile path1 path2 =>
      obtain ⟨n, dir, hready⟩ := hpaths _ List.mem_cons_self
      obtain ⟨n', dir', hready'⟩ := hpaths _ (List.mem_cons_of_mem _ List.mem_cons_self)
      rw [Method.meaning, placeOf_text hready.inside.path, placeOf_text hready'.inside.path]
      refine does_of_effect _ (wp_request (by simpa using ⟨hready.checked, hready'.checked⟩) ?_)
      rw [wp_map]
      exact wp_copy_plain hcalm h hplain hready.inside hready'.inside hready'.first
  | exists_ path =>
      obtain ⟨n, dir, hready⟩ := hpaths _ List.mem_cons_self
      rw [Method.meaning, placeOf_text hready.inside.path]
      unfold Does
      rw [Method.remote, wp_map]
      exact wp_remote_exists hcalm h hplain hready (hlines _ List.mem_cons_self) ⟨v, rfl, h⟩
  | info path =>
      obtain ⟨n, dir, hready⟩ := hpaths _ List.mem_cons_self
      have hstat := (does_read h (wp_mono (wp_remote_stat hcalm h hplain hready
        (hlines _ List.mem_cons_self)) (fun _ _ ht => ht) fun _ _ he => ⟨he.1, he.2.1⟩)).map
          fun st => Value.info (.of (strip path) st)
      rw [Option.map_map] at hstat
      rw [Method.meaning, placeOf_text hready.inside.path]
      exact hstat
  | open_ path mode body =>
      obtain ⟨n, dir, hready⟩ := hpaths _ List.mem_cons_self
      have habsolute : isAbsolute (strip path).toList = true := by
        rw [hready.inside.path]
        exact isAbsolute_text _
      rw [Method.meaning, placeOf_text hready.inside.path]
      exact (does_remote_open hcalm hcalm' h hplain hready (hlines _ List.mem_cons_self)
        (hstrip path habsolute) mode body).map _

/-! ### No links are made -/

private theorem plain_of_write {p : Place} {content : List UInt8} {fresh : ℕ} {kept : ℕ → ℕ}
    {w : View Stat} (h : v.write p content fresh kept = some w) (hplain : v.Plain) : w.Plain := by
  unfold View.write at h
  split at h
  · obtain rfl := Option.some.inj h
    exact hplain.store _ _
  · split at h
    · obtain rfl := Option.some.inj h
      exact hplain.store _ _
    · cases h
  · cases h

private theorem plain_of_remove {p : Place} {w : View Stat} (h : v.remove p = some w)
    (hplain : v.Plain) : w.Plain := by
  unfold View.remove at h
  split at h
  · obtain rfl := Option.some.inj h
    exact hplain.drop _
  · split at h
    · obtain rfl := Option.some.inj h
      exact hplain.drop _
    · cases h
  · cases h

private theorem plain_of_rename {p q : Place} {w : View Stat} (h : v.rename p q = some w)
    (hplain : v.Plain) : w.Plain := by
  unfold View.rename at h
  split at h
  · split at h
    · obtain rfl := Option.some.inj h
      exact hplain
    · split at h
      · cases h
      · split at h
        · obtain rfl := Option.some.inj h
          exact hplain.move _ _
        · cases h
  · cases h

private theorem plain_of_opening {p : Place} {body content : List UInt8} {mode : OpenMode}
    {w : View Stat}
    (h : opening rules v p body mode = some (content, w)) (hplain : v.Plain) : w.Plain := by
  cases mode with
  | rb =>
      obtain ⟨f, -, hf⟩ := Option.map_eq_some_iff.mp h
      obtain ⟨-, rfl⟩ := Prod.mk.inj hf
      exact hplain
  | wb =>
      obtain ⟨w, hw, heq⟩ := Option.map_eq_some_iff.mp h
      obtain ⟨-, rfl⟩ := Prod.mk.inj heq
      exact plain_of_write hw hplain
  | ab =>
      obtain ⟨w, hw, heq⟩ := Option.map_eq_some_iff.mp h
      obtain ⟨-, rfl⟩ := Prod.mk.inj heq
      exact plain_of_write hw hplain
  | xb =>
      obtain ⟨w, hw, heq⟩ := Option.map_eq_some_iff.mp h
      obtain ⟨-, rfl⟩ := Prod.mk.inj heq
      unfold create at hw
      split at hw
      · cases hw
      · exact plain_of_write hw hplain

/-- What a method means leaves a plain view plain. -/
theorem plain_of_meaning {m : Method} {r : Value} {w : View Stat}
    (h : m.meaning strip rules v = some (r, w)) (hplain : v.Plain) : w.Plain := by
  cases m with
  | catFile path start stop =>
      obtain ⟨⟨data, u⟩, hu, heq⟩ := Option.map_eq_some_iff.mp h
      obtain ⟨-, rfl⟩ := Prod.mk.inj heq
      have hopen : opening rules v (placeOf (strip path)) [] .rb = some (data, u) := hu
      exact plain_of_opening hopen hplain
  | pipeFile path value =>
      obtain ⟨u, hu, heq⟩ := Option.map_eq_some_iff.mp h
      obtain ⟨-, rfl⟩ := Prod.mk.inj heq
      exact plain_of_write hu hplain
  | rmFile path =>
      obtain ⟨u, hu, heq⟩ := Option.map_eq_some_iff.mp h
      obtain ⟨-, rfl⟩ := Prod.mk.inj heq
      exact plain_of_remove hu hplain
  | mv path1 path2 =>
      obtain ⟨u, hu, heq⟩ := Option.map_eq_some_iff.mp h
      obtain ⟨-, rfl⟩ := Prod.mk.inj heq
      exact plain_of_rename hu hplain
  | cpFile path1 path2 =>
      obtain ⟨u, hu, heq⟩ := Option.map_eq_some_iff.mp h
      obtain ⟨-, rfl⟩ := Prod.mk.inj heq
      unfold copied at hu
      split at hu
      · cases hu
      · obtain ⟨f, -, hf⟩ := Option.bind_eq_some_iff.mp hu
        exact plain_of_write hf hplain
  | exists_ path =>
      obtain ⟨-, rfl⟩ := Prod.mk.inj (Option.some.inj h)
      exact hplain
  | info path =>
      obtain ⟨o, -, ho⟩ := Option.map_eq_some_iff.mp h
      obtain ⟨-, rfl⟩ := Prod.mk.inj ho
      exact hplain
  | open_ path mode body =>
      obtain ⟨⟨data, u⟩, hu, heq⟩ := Option.map_eq_some_iff.mp h
      obtain ⟨-, rfl⟩ := Prod.mk.inj heq
      exact plain_of_opening hu hplain

end Does

end Jetty.Fsspec
