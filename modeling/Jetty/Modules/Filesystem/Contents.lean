import Jetty.Modules.Filesystem.Calm
import Jetty.Modules.Filesystem.Footprint

/-!
# Contents

What the driver's operations do to the contents of the files on a tree without links, whatever
system calls fail on the way: all of it or none of it, but for a temporary file whose clean-up
failed.
-/

namespace Jetty.Filesystem

open Files Effects

/-! ### Contents of a view -/

/-- The contents of files, by their places. -/
abbrev Contents := Place → Option (List UInt8)

/-- What the files have in them. -/
def contentsOf (v : View Stat) : Contents := fun p => (fileAt v p).map Regular.content

/-- No name stands for a link, and no file has two names. -/
structure Clean (v : View Stat) : Prop where
  plain : v.Plain
  apart : ∀ p q, v.shared p q → p = q

section Views

variable {v w : View Stat} {p q : Place} {f : Regular} {content : List UInt8}

private theorem fileAt_congr (h : w.object q = v.object p) : fileAt w q = fileAt v p := by
  rw [fileAt, fileAt, h]

/-- A stored file has its content. -/
theorem contentsOf_store (v : View Stat) (p : Place) (f : Regular) :
    contentsOf (v.store p f) = Function.update (contentsOf v) p (some f.content) := by
  funext r
  by_cases hr : r = p
  · subst hr
    rw [Function.update_self, contentsOf, fileAt_eq_some.mpr View.store_object_self]
    rfl
  · rw [Function.update_of_ne hr, contentsOf, contentsOf, fileAt_congr (View.store_object_of_ne hr)]

/-- A dropped file has none. -/
theorem contentsOf_drop (v : View Stat) (p : Place) :
    contentsOf (v.drop p) = Function.update (contentsOf v) p none := by
  funext r
  by_cases hr : r = p
  · subst hr
    rw [Function.update_self, contentsOf, fileAt, View.drop_object_self]
    rfl
  · rw [Function.update_of_ne hr, contentsOf, contentsOf, fileAt_congr (View.drop_object_of_ne hr)]

private theorem contentsOf_move (v : View Stat) (p q : Place) :
    contentsOf (v.move p q) =
      Function.update (Function.update (contentsOf v) p none) q (contentsOf v p) := by
  funext r
  by_cases hr : r = q
  · subst hr
    rw [Function.update_self, contentsOf, contentsOf]
    exact congrArg _ (fileAt_congr (Function.update_self r _ _))
  rw [Function.update_of_ne hr]
  have hq : (v.move p q).object r = Function.update v.object p none r :=
    Function.update_of_ne hr _ _
  by_cases hp : r = p
  · subst hp
    rw [Function.update_self] at hq
    rw [Function.update_self, contentsOf, fileAt, hq]
    rfl
  · rw [Function.update_of_ne hp] at hq
    rw [Function.update_of_ne hp, contentsOf, contentsOf, fileAt_congr hq]

private theorem contentsOf_eq_none : contentsOf v p = none ↔ fileAt v p = none := by
  rw [contentsOf, Option.map_eq_none_iff]

private theorem contentsOf_of_object_none (h : v.object p = none) : contentsOf v p = none := by
  rw [contentsOf, fileAt, h]
  rfl

/-- A view with one more file is clean. -/
theorem Clean.store (h : Clean v) (p : Place) (f : Regular) : Clean (v.store p f) := by
  refine ⟨h.plain.store p f, fun a b hshared => ?_⟩
  simp only [View.store] at hshared
  split at hshared
  · exact hshared
  · exact h.apart a b hshared

/-- A view with one file less is clean. -/
theorem Clean.drop (h : Clean v) (p : Place) : Clean (v.drop p) :=
  ⟨h.plain.drop p, fun a b hshared => h.apart a b hshared.2.2⟩

private theorem Clean.move (h : Clean v) (p q : Place) : Clean (v.move p q) := by
  refine ⟨h.plain.move p q, ?_⟩
  rintro a b ⟨ha, hb, hshared⟩
  have heq := h.apart _ _ hshared
  split at heq
  · rename_i haq
    split at heq
    · rename_i hbq
      exact haq.trans hbq.symm
    · exact absurd heq.symm hb
  · split at heq
    · exact absurd heq ha
    · exact heq

end Views

/-! ### Calls that may fail -/

section Calls

variable {F : Faults} {s t : Server} {rules : ModeRules} {v : View Stat} {n k : Name} {dir : Place}
  {c : Call} {path : String} {content : List UInt8} {f : Regular}

/-- The same names are drawn, and no call fails that could have been done. -/
def Faults.calmed (F : Faults) : Faults := { F with fails := fun _ => none }

private theorem calm_calmed (F : Faults) : F.calmed.Calm := fun _ => rfl

/-- A call that fails at once has done nothing, and otherwise it goes on as if none could fail. -/
theorem wp_of_attempt {α : Type} {x : Calls α} {Q : α → Server → Prop} {E : Errno → Server → Prop}
    (hfails : ∀ fault, F.fails c = some fault → E fault.errno s)
    (hx : wp (attempt F.calmed c >>= fun _ => x) Q E s) :
    wp (attempt F c >>= fun _ => x) Q E s := by
  rw [attempt_calm (calm_calmed F), pure_bind] at hx
  rw [wp_bind]
  exact wp_attempt (fun _ => hx) hfails

private theorem Shows.look (h : Shows rules v s) (hplain : v.Plain) (p : Place) :
    s.machine.look (text p) = fileAt v p := by
  have hentry : s.machine.host.lookup (text p) = some p →
      s.machine.look (text p) = fileAt v p := by
    intro hlookup
    unfold Machine.look fileAt
    rw [hlookup, ← h.view, Disk.view_object]
    dsimp only
    cases s.machine.disk.tree.entry p with
    | none => rfl
    | some e => cases e <;> rfl
  cases p with
  | nil => exact hentry (h.lookup_directory (by rw [← h.isDir]; exact Tree.isDir_top))
  | cons n dir =>
      by_cases hdir : v.isDir dir = true
      · exact hentry (by rw [h.lookup hplain, if_pos hdir])
      · unfold Machine.look fileAt
        rw [h.lookup hplain, if_neg hdir, h.object_of_not_isDir hdir]

/-- What a path leads to that has been let in. -/
theorem wp_door_clean (h : Shows rules v s) (hplain : v.Plain) {p : Place}
    (hpath : path.toList = text p) {Q : Place → Server → Prop} {E : DriverError → Server → Prop}
    (hQ : ∀ t, Shows rules v t → Q p t) (hE : ∀ e t, Shows rules v t → E (.outside e) t) :
    wp (LocalFsDriver.door path) Q E s := by
  have hfull : s.machine.host.realpath path.toList = p := by
    rw [Host.realpath, hpath, start, if_pos (isAbsolute_text p)]
    exact (h.plain hplain).realpath_text p
  unfold LocalFsDriver.door
  rw [wp_bind, wp_get, wp_bind, wp_set]
  cases hdoor : (s.driver.resolve s.machine.host path).2 with
  | ok full =>
      obtain ⟨rfl, -⟩ := resolve_eq_ok.mp hdoor
      rw [hfull]
      exact hQ _ ⟨h.view, h.modes⟩
  | error e => exact hE e _ ⟨h.view, h.modes⟩

/-- A regular file is found, or nothing. -/
theorem wp_statRegular_clean (h : Shows rules v s) (hplain : v.Plain) :
    wp (LocalFsDriver.statRegular F c (n :: dir) path)
      (fun st t => t = s ∧ ((∃ f, v.object (n :: dir) = some (.file f) ∧ st = some f.mode) ∨
        v.object (n :: dir) = none ∧ st = none))
      (fun _ t => t = s) s := by
  have hcalm : wp (LocalFsDriver.statRegular F.calmed c (n :: dir) path) _ _ s :=
    wp_statRegular_plain (calm_calmed F) h hplain
  unfold LocalFsDriver.statRegular at hcalm ⊢
  rw [wp_bind, wp_rescue, wp_map] at hcalm ⊢
  refine wp_of_attempt (fun fault _ => ?_) (wp_mono hcalm ?_ ?_)
  · have hne : fault.errno ≠ .noent := by cases fault <;> simp [Fault.errno]
    rw [if_neg hne]
    exact rfl
  · exact fun st t ht => wp_mono ht (fun _ _ hr => hr) fun _ _ he => he.1
  · exact fun errno t ht => wp_mono ht (fun st t hst => wp_mono hst (fun _ _ hr => hr)
      fun _ _ he => he.1) fun _ _ he => he.1

/-- A file may be left over that was made under a drawn name. -/
def Leftover (F : Faults) (v w : View Stat) : Prop :=
  w = v ∨ ∃ k ∈ F.names, ∃ dir f, v.object (k :: dir) = none ∧ w = v.store (k :: dir) f

/-- The temporary file is removed, or it is left over. -/
theorem wp_tidy_clean (h : Shows rules v s) {P : Regular → Prop} (hbusy : Busy s (k :: dir) P t)
    (hk : k ∈ F.names) {E : DriverError → Server → Prop} {Q : Unit → Server → Prop}
    (hQ : ∀ u w, Leftover F v w → Shows rules w u → Q () u) :
    wp (rescue (unlinkCall F .tidy (k :: dir)) fun _ => pure ()) Q E t := by
  obtain ⟨f, -, hshows⟩ := hbusy.shows h
  obtain ⟨_, hworking, -⟩ := hbusy.file
  have hfree : v.object (k :: dir) = none := h.entry_none.mp hworking.free
  rw [wp_rescue]
  refine wp_of_attempt (fun _ _ => hQ t _ (.inr ⟨k, hk, dir, f, hfree, rfl⟩) hshows) ?_
  refine wp_mono (wp_unlinkCall_plain (E := fun _ _ => False) (calm_calmed F) hshows
    (fileAt_eq_some.mpr View.store_object_self)) (fun _ u hu => ?_) fun _ _ he => he.elim
  rw [View.store_drop hfree] at hu
  · exact hQ u v (.inl rfl) hu
  · intro a b hshared
    rw [← h.view] at hshared
    refine ⟨?_, ?_⟩
    · rintro rfl
      exact absurd (hworking.free.symm.trans hshared.1) (Option.some_ne_none _).symm
    · rintro rfl
      exact absurd (hworking.free.symm.trans hshared.2.1) (Option.some_ne_none _).symm

/-- The temporary file gets the name of the target, or it stays. -/
theorem wp_renameTemp_clean (h : Shows rules v s) {P : Regular → Prop}
    (hbusy : Busy s (k :: dir) P t) (hdir : v.isDir dir = true)
    (htarget : v.isDir (n :: dir) = false) :
    wp (renameCall F (k :: dir) (n :: dir))
      (fun _ u => ∃ f, P f ∧ Shows rules (v.store (n :: dir) f) u)
      (fun _ => Busy s (k :: dir) P) t := by
  refine wp_of_attempt (fun _ _ => hbusy) ?_
  obtain ⟨f, hworking, hf⟩ := hbusy.file
  have hthis : Busy s (k :: dir) (· = f) t := ⟨⟨f, hworking, rfl⟩, hbusy.seen, hbusy.driver⟩
  exact wp_mono (wp_renameTemp_calm (calm_calmed F) h hthis hdir htarget)
    (fun _ u hu => ⟨f, hf, hu⟩) fun _ _ he => he.elim

/-- The file gets the content in one piece, or nothing is changed. -/
theorem wp_replace_clean (h : Shows rules v s) (hplain : v.Plain) {mode : ℕ} :
    wp (LocalFsDriver.replace F (n :: dir) path content mode)
      (fun r t => r = ⟨content.length, (contentsOf v (n :: dir)).isNone⟩ ∧
        ∃ f, f.content = content ∧ Shows rules (v.store (n :: dir) f) t)
      (fun _ t => ∃ w, Leftover F v w ∧ Shows rules w t) s := by
  have hsame : ∃ w, Leftover F v w ∧ Shows rules w s := ⟨v, .inl rfl, h⟩
  unfold LocalFsDriver.replace
  rw [wp_bind]
  refine wp_mono (wp_statRegular_clean h hplain) ?_ ?_
  swap
  · rintro _ t rfl
    exact hsame
  rintro st t ⟨rfl, hst⟩
  have htarget : v.isDir (n :: dir) = false := by
    unfold View.isDir
    rcases hst with ⟨f, hobject, -⟩ | ⟨hobject, -⟩ <;> rw [hobject]
  have hisNone : st.isNone = (contentsOf v (n :: dir)).isNone := by
    unfold contentsOf fileAt
    rcases hst with ⟨f, hobject, rfl⟩ | ⟨hobject, rfl⟩ <;> rw [hobject] <;> rfl
  rw [wp_bind, wp_rescue]
  refine wp_mono (wp_openTemp F.names) ?_ ?_
  swap
  · rintro _ u rfl
    exact hsame
  rintro _ u ⟨k, hk, q, rfl, hq, hbusy⟩
  obtain rfl := h.eq_of_lookup hplain hq
  have hdir : v.isDir q = true := by
    obtain ⟨f, hworking, -⟩ := hbusy.file
    exact (h.isDir q).symm.trans hworking.isDir
  -- Whatever fails from here on, the temporary file is all there is to remove.
  have htidy : ∀ {P : Regular → Prop} {x : Server} {errno : Errno} {Q : Unit → Server → Prop},
      Busy t (k :: q) P x → wp (do
        rescue (unlinkCall F .tidy (k :: q)) fun _ => pure ()
        throw (translate path errno) : Serving Unit) Q
        (fun _ x => ∃ w, Leftover F v w ∧ Shows rules w x) x := fun hx => by
    rw [wp_bind]
    exact wp_tidy_clean h hx hk fun y w hw hy => ⟨w, hw, hy⟩
  have hpartly : Busy t (k :: q) (Partly t.machine.modes content
      (t.machine.modes.created (if st.isNone then mode else 0o600))) u := by
    refine hbusy.mono ?_
    rintro f rfl
    exact ⟨List.nil_prefix, rfl⟩
  dsimp only
  rw [wp_bind, wp_rescue, wp_bind]
  refine wp_mono (wp_writeTemp hpartly) (fun _ x hx => ?_) fun _ x hx => htidy hx
  have hplaced : ∀ {P : Regular → Prop} {y : Server}, Busy t (k :: q) P y →
      (∀ f, P f → f.content = content) →
      wp (renameCall F (k :: q) (n :: q))
        (fun _ y => ∃ f, f.content = content ∧ Shows rules (v.store (n :: q) f) y)
        (fun _ => Busy t (k :: q) P) y := fun hy hP =>
    wp_mono (wp_renameTemp_clean h hy hdir htarget)
      (fun _ z hz => hz.imp fun f hf => ⟨hP f hf.1, hf.2⟩) fun _ _ he => he
  rcases hst with ⟨old, -, rfl⟩ | ⟨-, rfl⟩
  · dsimp only
    rw [wp_bind]
    refine wp_mono (wp_chmod hx (h.lookup_directory hdir)) (fun _ y hy => ?_) fun _ y hy => htidy hy
    refine wp_mono (hplaced hy ?_) (fun _ z hz => ⟨by rw [← hisNone], hz⟩) fun _ z hz => htidy hz
    rintro f ⟨g, rfl, rfl⟩
    rfl
  · refine wp_mono (hplaced hx ?_) (fun _ z hz => ⟨by rw [← hisNone], hz⟩) fun _ z hz => htidy hz
    rintro f rfl
    rfl

end Calls

/-! ### Operations -/

section Operations

variable {F : Faults} {s t : Server} {rules : ModeRules} {v : View Stat} {n m : Name}
  {dir dir' : Place} {path src dst : String} {content : List UInt8}

/-- The refusal has a reason: a call failed, the path is outside, or there is no file. -/
def Reasoned (F : Faults) (f : Contents) (p : Place) (e : DriverError) : Prop :=
  F.Calm → f p = none ∨ ∃ outside, e = .outside outside

private theorem reasoned_of_fails {f : Contents} {p : Place} {e : DriverError} {c : Call}
    {fault : Fault} (h : F.fails c = some fault) : Reasoned F f p e := by
  intro hcalm
  rw [hcalm c] at h
  cases h

/-- `read` returns the content, or is refused for a reason. -/
theorem wp_read_clean (h : Shows rules v s) (hplain : v.Plain)
    (hpath : path.toList = text (n :: dir)) :
    wp (LocalFsDriver.read F path)
      (fun data t => contentsOf v (n :: dir) = some data ∧ Shows rules v t)
      (fun e t => Reasoned F (contentsOf v) (n :: dir) e ∧ Shows rules v t) s := by
  unfold LocalFsDriver.read
  rw [wp_bind]
  refine wp_door_clean h hplain hpath (fun t ht => ?_) fun e _ ht => ⟨fun _ => .inr ⟨e, rfl⟩, ht⟩
  rw [wp_bind]
  by_cases hcalm : F.Calm
  · refine wp_mono (wp_require_plain hcalm ht hplain) ?_ ?_
    · rintro _ u ⟨rfl, f, hfile, -⟩
      rw [wp_rescue]
      exact wp_contents_plain hcalm ht hplain hfile ⟨by rw [contentsOf, hfile]; rfl, ht⟩
    · rintro e u ⟨rfl, hnone, -⟩
      exact ⟨fun _ => .inl (by rw [contentsOf, hnone]; rfl), ht⟩
  · refine wp_mono wp_require ?_ ?_
    · rintro mode u ⟨rfl, hfound⟩
      obtain ⟨f, hlook, -⟩ := Option.map_eq_some_iff.mp hfound.look
      have hfile : fileAt v (n :: dir) = some f := (ht.look hplain _).symm.trans hlook
      rw [wp_rescue]
      refine wp_mono (wp_contents hlook) ?_ ?_
      · rintro _ u ⟨rfl, rfl⟩
        exact ⟨by rw [contentsOf, hfile]; rfl, ht⟩
      · rintro _ u rfl
        exact ⟨fun h => absurd h hcalm, ht⟩
    · rintro _ u rfl
      exact ⟨fun h => absurd h hcalm, ht⟩

/-- `stat` tells of a file exactly if there is one, or is refused for a reason. -/
theorem wp_stat_clean (h : Shows rules v s) (hplain : v.Plain)
    (hpath : path.toList = text (n :: dir)) :
    wp (LocalFsDriver.stat F path)
      (fun found t => found.file.map Regular.content = contentsOf v (n :: dir) ∧ Shows rules v t)
      (fun e t => Reasoned F (contentsOf v) (n :: dir) e ∧ Shows rules v t) s := by
  unfold LocalFsDriver.stat
  rw [wp_bind]
  refine wp_door_clean h hplain hpath (fun t ht => ?_) fun e _ ht => ⟨fun _ => .inr ⟨e, rfl⟩, ht⟩
  rw [wp_bind, wp_rescue]
  refine wp_of_attempt (fun _ hfails => ⟨reasoned_of_fails hfails, ht⟩) ?_
  rw [attempt_calm (calm_calmed F), pure_bind]
  refine wp_find_plain ht hplain (fun e he => ?_) fun hnone _ _ =>
    ⟨fun _ => .inl (contentsOf_of_object_none hnone), ht⟩
  have hobject := ht.object_of_entry he
  dsimp only
  rw [wp_bind, wp_get]
  unfold contentsOf fileAt
  rw [hobject]
  cases e <;> exact ⟨rfl, ht⟩

/-- `write` stores the content and says whether it is new, or leaves a temporary file at most. -/
theorem wp_write_clean (h : Shows rules v s) (hplain : v.Plain)
    (hpath : path.toList = text (n :: dir)) :
    wp (LocalFsDriver.write F path content)
      (fun r t => r = ⟨content.length, (contentsOf v (n :: dir)).isNone⟩ ∧
        ∃ f, f.content = content ∧ Shows rules (v.store (n :: dir) f) t)
      (fun _ t => ∃ w, Leftover F v w ∧ Shows rules w t) s := by
  unfold LocalFsDriver.write
  rw [wp_bind]
  exact wp_door_clean h hplain hpath (fun t ht => wp_replace_clean ht hplain)
    fun _ _ ht => ⟨v, .inl rfl, ht⟩

/-- `delete` drops the file, or is refused for a reason. -/
theorem wp_delete_clean (h : Shows rules v s) (hplain : v.Plain)
    (hpath : path.toList = text (n :: dir)) :
    wp (LocalFsDriver.delete F path) (fun _ => Shows rules (v.drop (n :: dir)))
      (fun e t => Reasoned F (contentsOf v) (n :: dir) e ∧ Shows rules v t) s := by
  unfold LocalFsDriver.delete
  rw [wp_bind]
  refine wp_door_clean h hplain hpath (fun t ht => ?_) fun e _ ht => ⟨fun _ => .inr ⟨e, rfl⟩, ht⟩
  rw [wp_bind, wp_rescue]
  refine wp_of_attempt (fun _ hfails => ⟨reasoned_of_fails hfails, ht⟩) ?_
  rw [attempt_calm (calm_calmed F), pure_bind]
  refine wp_find_plain ht hplain (fun e he => ?_) fun hnone _ _ =>
    ⟨fun _ => .inl (contentsOf_of_object_none hnone), ht⟩
  have hobject := ht.object_of_entry he
  have hnone : (∀ f, v.object (n :: dir) ≠ some (.file f)) → contentsOf v (n :: dir) = none := by
    intro hnot
    rw [contentsOf_eq_none, Option.eq_none_iff_forall_ne_some]
    exact fun f hf => hnot f (fileAt_eq_some.mp hf)
  cases e with
  | directory st =>
      dsimp only
      have hdirectory := hnone fun f hf => by cases hobject.symm.trans hf
      rw [wp_bind, wp_rescue]
      refine wp_of_attempt (fun _ _ => ⟨fun _ => .inl hdirectory, ht⟩) ?_
      refine wp_mono (wp_rmdirCall_plain (calm_calmed F) ht hobject) (fun _ u hu => ?_)
        fun _ u hu => ⟨fun _ => .inl hdirectory, hu.2⟩
      rw [wp_modify]
      exact ⟨hu.2.view, hu.2.modes⟩
  | regular =>
      dsimp only
      rw [wp_rescue]
      refine wp_of_attempt (fun _ hfails => ⟨reasoned_of_fails hfails, ht⟩) ?_
      exact wp_mono (wp_unlinkCall_plain (E := fun _ _ => False) (calm_calmed F) ht
        (fileAt_eq_some.mpr hobject)) (fun _ u hu => hu) fun _ _ he => he.elim
  | special => exact ⟨fun _ => .inl (hnone fun f hf => by cases hobject.symm.trans hf), ht⟩
  | link target => exact absurd hobject (hplain _ target)

/-- `rename` moves the content and says whether its name is new, or does nothing. -/
theorem wp_rename_clean (h : Shows rules v s) (hclean : Clean v)
    (hsrc : src.toList = text (n :: dir)) (hdst : dst.toList = text (m :: dir')) :
    wp (LocalFsDriver.rename F src dst)
      (fun r t => r = (contentsOf v (m :: dir')).isNone ∧ (contentsOf v (n :: dir)).isSome ∧
        ∃ w, Clean w ∧ contentsOf w = Function.update (Function.update (contentsOf v) (n :: dir)
          none) (m :: dir') (contentsOf v (n :: dir)) ∧ Shows rules w t)
      (fun _ => Shows rules v) s := by
  have hplain := hclean.plain
  unfold LocalFsDriver.rename
  rw [wp_bind]
  refine wp_door_clean h hplain hsrc (fun t ht => ?_) fun _ _ ht => ht
  rw [wp_bind]
  refine wp_door_clean ht hplain hdst (fun t ht => ?_) fun _ _ ht => ht
  rw [wp_bind]
  refine wp_mono wp_require ?_ ?_
  swap
  · rintro _ u rfl
    exact ht
  rintro mode u ⟨rfl, hfound⟩
  obtain ⟨f, hlook, -⟩ := Option.map_eq_some_iff.mp hfound.look
  have hfile : fileAt v (n :: dir) = some f := (ht.look hplain _).symm.trans hlook
  rw [wp_bind]
  refine wp_mono (wp_statRegular_clean ht hplain) ?_ ?_
  swap
  · rintro _ u rfl
    exact ht
  rintro st u ⟨rfl, hst⟩
  have hspecial : v.object (m :: dir') ≠ some .special := by
    rcases hst with ⟨g, hobject, -⟩ | ⟨hobject, -⟩ <;> rw [hobject] <;> exact nofun
  have hisNone : st.isNone = (contentsOf v (m :: dir')).isNone := by
    unfold contentsOf fileAt
    rcases hst with ⟨g, hobject, rfl⟩ | ⟨hobject, rfl⟩ <;> rw [hobject] <;> rfl
  have hsome : (contentsOf v (n :: dir)).isSome = true := by
    rw [contentsOf, hfile]
    rfl
  rw [wp_bind, wp_rescue]
  have hany : ∀ errno u, Shows rules v u → wp (if errno = .xdev then throw (.crossing src dst)
      else throw (translate (src ++ " -> " ++ dst) errno) : Serving Unit)
        (fun _ u => wp (pure st.isNone : Serving Bool)
          (fun r t => r = (contentsOf v (m :: dir')).isNone ∧ (contentsOf v (n :: dir)).isSome ∧
            ∃ w, Clean w ∧ contentsOf w = Function.update (Function.update (contentsOf v)
              (n :: dir) none) (m :: dir') (contentsOf v (n :: dir)) ∧ Shows rules w t)
          (fun _ => Shows rules v) u) (fun _ => Shows rules v) u := by
    intro errno u hu
    split <;> exact hu
  refine wp_of_attempt (fun fault _ => hany fault.errno u ht) ?_
  refine wp_mono (wp_renameCall_plain (calm_calmed F) ht hplain hfile hspecial) ?_
    fun errno x hx => hany errno x hx.2
  rintro _ x ⟨w, hw, hx⟩
  refine ⟨hisNone, hsome, w, ?_⟩
  unfold View.rename at hw
  rw [fileAt_eq_some.mp hfile] at hw
  dsimp only at hw
  split at hw
  · rename_i hsame
    obtain rfl := Option.some.inj hw
    have heq : n :: dir = m :: dir' := hsame.elim id (hclean.apart _ _)
    rw [heq]
    refine ⟨hclean, ?_, hx⟩
    rw [Function.update_idem, Function.update_eq_self]
  · split at hw
    · cases hw
    · split at hw
      · obtain rfl := Option.some.inj hw
        exact ⟨hclean.move _ _, contentsOf_move v _ _, hx⟩
      · cases hw

/-- `copy` stores the content of the one file under the other name, or leaves a temporary file at
most. -/
theorem wp_copy_clean (h : Shows rules v s) (hplain : v.Plain)
    (hsrc : src.toList = text (n :: dir)) (hdst : dst.toList = text (m :: dir')) :
    wp (LocalFsDriver.copy F src dst)
      (fun r t => n :: dir ≠ m :: dir' ∧ ∃ content, contentsOf v (n :: dir) = some content ∧
        r = ⟨content.length, (contentsOf v (m :: dir')).isNone⟩ ∧
          ∃ f, f.content = content ∧ Shows rules (v.store (m :: dir') f) t)
      (fun _ t => ∃ w, Leftover F v w ∧ Shows rules w t) s := by
  have hsame : ∀ {t : Server}, Shows rules v t → ∃ w, Leftover F v w ∧ Shows rules w t :=
    fun ht => ⟨v, .inl rfl, ht⟩
  unfold LocalFsDriver.copy
  rw [wp_bind]
  refine wp_door_clean h hplain hsrc (fun t ht => ?_) fun _ _ ht => hsame ht
  rw [wp_bind]
  refine wp_door_clean ht hplain hdst (fun t ht => ?_) fun _ _ ht => hsame ht
  by_cases hne : n :: dir = m :: dir'
  · rw [if_pos hne]
    exact hsame ht
  rw [if_neg hne, wp_bind]
  refine wp_mono wp_require ?_ ?_
  swap
  · rintro _ u rfl
    exact hsame ht
  rintro mode u ⟨rfl, hfound⟩
  obtain ⟨f, hlook, -⟩ := Option.map_eq_some_iff.mp hfound.look
  have hfile : fileAt v (n :: dir) = some f := (ht.look hplain _).symm.trans hlook
  rw [wp_bind, wp_rescue]
  refine wp_mono (wp_contents hlook) ?_ ?_
  swap
  · rintro _ u rfl
    exact hsame ht
  rintro data u ⟨rfl, rfl⟩
  refine wp_mono (wp_replace_clean ht hplain) (fun r x hx => ?_) fun _ _ he => he
  exact ⟨hne, f.content, by rw [contentsOf, hfile]; rfl, hx⟩

/-- `mkdtemp` changes no file's content. -/
theorem wp_mkdtemp_clean {dev ino : ℕ} (h : Shows rules v s) (hclean : Clean v) :
    wp (LocalFsDriver.mkdtemp F dev ino)
      (fun _ t => ∃ w, Clean w ∧ contentsOf w = contentsOf v ∧ Shows rules w t)
      (fun _ t => ∃ w, Clean w ∧ contentsOf w = contentsOf v ∧ Shows rules w t) s := by
  unfold LocalFsDriver.mkdtemp
  rw [wp_bind, wp_rescue]
  refine wp_mono (wp_makeTemp F.names) ?_ ?_
  swap
  · rintro _ t rfl
    exact ⟨v, hclean, rfl, h⟩
  rintro path t ⟨k, p, d, -, hd, rfl, rfl⟩
  obtain ⟨hnew, hobject, hshared⟩ := Disk.view_mkdir hd
  rw [h.view] at hnew hobject hshared
  have hmade : ∃ w, Clean w ∧ contentsOf w = contentsOf v ∧ Shows rules w (s.moved d) := by
    refine ⟨d.view, ⟨fun q target => ?_, fun a b hab => ?_⟩, funext fun q => ?_, h.moved rfl⟩
    · rw [hobject, Function.update_apply]
      split
      · exact nofun
      · exact hclean.plain q target
    · exact hclean.apart a b (hshared a b hab)
    · by_cases hq : q = k :: p
      · rw [hq, contentsOf_of_object_none hnew, contentsOf, fileAt, hobject, Function.update_self]
        rfl
      · rw [contentsOf, contentsOf, fileAt_congr ((congrFun hobject q).trans
          (Function.update_of_ne hq _ _))]
  obtain ⟨w, hw, hcontents, hshows⟩ := hmade
  have hkept : ∀ drv, ∃ w, Clean w ∧ contentsOf w = contentsOf v ∧
      Shows rules w { s.moved d with driver := drv } :=
    fun drv => ⟨w, hw, hcontents, hshows.view, hshows.modes⟩
  rw [wp_bind, wp_rescue]
  refine wp_attempt (fun _ => ?_) fun _ _ => hkept _
  rw [wp_bind, wp_get]
  dsimp only
  split
  · rw [wp_bind, wp_set]
    exact hkept _
  · exact hkept _

end Operations

end Jetty.Filesystem
