import Jetty.Fsspec.Methods
import Jetty.Modules.Filesystem.Calm

/-!
# The local file system undisturbed

What the calls of the fallback do on a tree without links when none of them fails that could have
been done, told by what the disk shows.
-/

namespace Jetty.Fsspec

open Files Effects Filesystem

variable {L : Surroundings} {s t : Server} {rules : ModeRules} {v : View Stat} {n m : Name}
  {dir dir' : Place}

private theorem splitOn_text (n : Name) (dir : Place) :
    ((text (n :: dir)).splitOn '/').reverse = n.chars :: (dir.map Name.chars ++ [[]]) := by
  have hslash : ∀ l ∈ [] :: (dir.reverse ++ [n]).map Name.chars, '/' ∉ l := by
    rw [List.forall_mem_cons, List.forall_mem_map]
    exact ⟨List.not_mem_nil, fun n _ => n.no_slash⟩
  rw [text_cons, slashed_eq_intercalate, List.splitOn_intercalate _ hslash (List.cons_ne_nil _ _)]
  simp

/-- The last name of a normal path is the name of its place. -/
theorem wp_lastName_plain (h : Shows rules v s) (hplain : v.Plain)
    {Q : Place × Bool → Server → Prop} {E : Errno → Server → Prop}
    (hQ : v.isDir dir = true → Q (n :: dir, false) s)
    (hE : ¬ v.isDir dir = true → ∀ errno, E errno s) :
    wp (lastName (text (n :: dir))) Q E s := by
  have hway : (dir.map Name.chars ++ [[]]).reverse.map Part.ofChars =
      .here :: dir.reverse.map .name := by
    simp [Function.comp_def]
  have hchars : n.chars.isEmpty = false := by
    rw [List.isEmpty_eq_false_iff]
    exact n.ne_nil
  have hstart : start s.machine.cwd (text (n :: dir)) = [] := if_pos (isAbsolute_text _)
  have hwalk : s.machine.disk.tree.walk s.machine.maxLinks []
      (.here :: dir.reverse.map .name) = s.machine.host.lookup (text dir) := by
    rw [lookup_host, Tree.walk_text, Tree.walk_here, if_pos Tree.isDir_top]
  unfold lastName
  simp only [splitOn_text, List.dropWhile_cons, hchars, Bool.false_eq_true, if_false,
    Part.ofChars_name, hway]
  rw [wp_bind, wp_get, hstart, hwalk]
  cases hlookup : s.machine.host.lookup (text dir) with
  | none =>
      refine hE (fun hdir => ?_) _
      rw [h.lookup_directory hdir] at hlookup
      cases hlookup
  | some q =>
      obtain rfl := h.eq_of_lookup hplain hlookup
      dsimp only
      split
      · rename_i hdir
        rw [h.isDir] at hdir
        have hhead : ((n.chars :: (q.map Name.chars ++ [[]])).head? == some []) = false := by
          simp [n.ne_nil]
        rw [hhead]
        exact hQ hdir
      · rename_i hdir
        rw [h.isDir] at hdir
        exact hE hdir _

/-- A system call of the fallback raises what its error number says. -/
theorem wp_system {α : Type} {x : Calls α} {Q : α → Server → Prop} {E : Raised → Server → Prop}
    (h : wp x Q (fun errno => E (.ofErrno errno)) s) : wp (system x) Q E s := by
  unfold system
  rw [wp_rescue]
  exact h

/-- The fallback lets absolute paths in. -/
theorem absolute_text {path : String} {p : Place} (h : path.toList = text p) :
    Fallback.absolute path = pure () := by
  unfold Fallback.absolute
  rw [h, if_pos (isAbsolute_text p)]

/-! ### Reading -/

private theorem wp_openIn_plain (hcalm : L.faults.Calm) (h : Shows rules v s) (hplain : v.Plain)
    (hspecial : v.object (n :: dir) ≠ some .special) :
    wp (openIn L (text (n :: dir)))
      (fun r t => t = s ∧ r = (n :: dir, .regular) ∧ ∃ f, fileAt v (n :: dir) = some f)
      (fun _ t => t = s ∧ fileAt v (n :: dir) = none) s := by
  unfold openIn
  rw [attempt_calm hcalm, pure_bind, wp_bind]
  refine wp_find_plain h hplain (fun e he => ?_) fun hnone _ _ => ⟨rfl, ?_⟩
  · have hobject := h.object_of_entry he
    cases e with
    | directory st =>
        refine ⟨rfl, ?_⟩
        unfold fileAt
        rw [hobject]
        rfl
    | regular => exact ⟨rfl, rfl, _, fileAt_eq_some.mpr hobject⟩
    | special => exact absurd hobject hspecial
    | link target => exact absurd hobject (hplain _ target)
  · unfold fileAt
    rw [hnone]

private theorem wp_readIn_plain (hcalm : L.faults.Calm) (h : Shows rules v s) {p : Place}
    {f : Regular}
    (hfile : fileAt v p = some f) {Q : List UInt8 → Server → Prop} {E : Errno → Server → Prop}
    (hQ : Q f.content s) : wp (readIn L p .regular) Q E s := by
  unfold readIn
  rw [attempt_calm hcalm, pure_bind]
  dsimp only
  rw [wp_bind, wp_get, wp_pure, (h.inode hfile).2]
  exact hQ

/-- `cat_file` returns the content of the file, or there is none. -/
theorem wp_cat_plain (hcalm : L.faults.Calm) (h : Shows rules v s) (hplain : v.Plain)
    {path : String} (hpath : path.toList = text (n :: dir))
    (hspecial : v.object (n :: dir) ≠ some .special) :
    wp (Fallback.cat L path)
      (fun r t => t = s ∧ ∃ f, fileAt v (n :: dir) = some f ∧ r = f.content)
      (fun _ t => t = s ∧ fileAt v (n :: dir) = none) s := by
  unfold Fallback.cat
  rw [absolute_text hpath, pure_bind, hpath]
  refine wp_system ?_
  rw [wp_bind]
  refine wp_mono (wp_openIn_plain hcalm h hplain hspecial) ?_ fun _ _ he => he
  rintro _ t ⟨rfl, rfl, f, hfile⟩
  exact wp_readIn_plain hcalm h hfile ⟨rfl, f, hfile, rfl⟩

/-! ### Writing -/

/-- The name stands for a file of its own that has been opened. -/
structure Opened (rules : ModeRules) (v : View Stat) (p : Place) (ino : ℕ) (f : Regular)
    (t : Server) : Prop where
  shows : Shows rules (v.store p f) t
  node : t.machine.disk.node p = ino

private theorem store_store (v : View Stat) (p : Place) (f g : Regular) :
    (v.store p f).store p g = v.store p g := by
  refine View.ext (Function.update_idem _ _ _) (funext fun a => funext fun b => propext ?_)
  simp only [View.store]
  split <;> rfl

private theorem sole_store (v : View Stat) (p : Place) (f : Regular) : (v.store p f).Sole p := by
  intro q hq
  simp only [View.store, true_or, if_true] at hq
  exact hq.symm

private theorem Opened.inode {p : Place} {ino : ℕ} {f : Regular} (h : Opened rules v p ino f t) :
    t.machine.disk.tree.entry p = some .regular ∧ t.machine.disk.inode ino = f := by
  rw [← h.node]
  exact h.shows.inode (fileAt_eq_some.mpr View.store_object_self)

/-- What is put into the file is seen. -/
theorem Opened.put {p : Place} {ino : ℕ} {f : Regular} (h : Opened rules v p ino f t)
    (g : Regular) : Opened rules v p ino g (t.moved (t.machine.disk.put ino g)) := by
  obtain ⟨hentry, -⟩ := h.inode
  have hsole : t.machine.disk.view.Sole p := by
    rw [h.shows.view]
    exact sole_store v p f
  refine ⟨h.shows.moved ?_, ?_⟩
  · rw [← h.node, Disk.view_put hentry hsole, h.shows.view, store_store]
  · rw [Server.moved, Machine.disk_withDisk]
    exact h.node

/-- The mode of a file to which the value has been appended. -/
def appended (rules : ModeRules) (f : Regular) (value : List UInt8) : Regular :=
  ⟨f.content ++ value, rules.filled f.mode value⟩

private theorem filled_written (rules : ModeRules) (mode : ℕ) (value : List UInt8) :
    rules.filled (rules.written mode) value = rules.written mode := by
  cases value with
  | nil => rfl
  | cons b value => exact rules.written_written mode

private theorem advanced_appended (rules : ModeRules) (f : Regular) (value : List UInt8)
    (count : ℕ) : advanced rules (f.content ++ value) (f.content ++ value).length
      (advanced rules (f.content ++ value) count f) = appended rules f value := by
  have hall : ∀ k, (f.content ++ value).take (max k (f.content ++ value).length) =
      f.content ++ value := fun k => List.take_of_length_le (Nat.le_max_right _ _)
  cases value with
  | nil =>
      have hold : advanced rules (f.content ++ []) count f = f := by
        simp only [advanced, List.append_nil, List.take_of_length_le (Nat.le_max_left _ _), if_true]
      rw [hold]
      simp only [advanced, hall]
      rw [List.append_nil, if_pos rfl, appended, List.append_nil]
      rfl
  | cons b value =>
      have hne : f.content ++ b :: value ≠ f.content := by simp
      simp only [advanced, hall, appended, ModeRules.filled]
      generalize (f.content ++ b :: value).take (max f.content.length count) = front
      refine congrArg (Regular.mk _) ?_
      by_cases hdone : f.content ++ b :: value = front
      · rw [if_pos hdone, ← hdone, if_neg hne]
      · rw [if_neg hdone]
        split
        · rfl
        · exact rules.written_written f.mode

private theorem wp_advance_opened {p : Place} {ino : ℕ} {f : Regular} (h : Opened rules v p ino f t)
    {content : List UInt8} {count : ℕ} {Q : Unit → Server → Prop} {E : Errno → Server → Prop}
    (hQ : ∀ u, Opened rules v p ino (advanced rules content count f) u → Q () u) :
    wp (advance ino content count) Q E t := by
  unfold advance
  rw [wp_modify]
  apply hQ
  have hput := h.put (advanced rules content count f)
  obtain ⟨-, hinode⟩ := h.inode
  rw [← hinode, ← h.shows.modes] at hput
  rw [← hinode, ← h.shows.modes]
  exact hput

private theorem wp_writeOut_plain (hcalm : L.faults.Calm) {p : Place} {ino : ℕ} {f : Regular}
    (h : Opened rules v p ino f t) {value : List UInt8} {E : Errno → Server → Prop} :
    wp (writeOut L (some ino) value)
      (fun _ => Shows rules (v.store p (appended rules f value))) E t := by
  obtain ⟨-, hinode⟩ := h.inode
  unfold writeOut
  dsimp only
  rw [wp_bind, wp_get, hinode]
  unfold save
  rw [hcalm .close, Option.isNone_none, if_pos rfl, wp_bind, wp_rescue, wp_bind]
  refine wp_advance_opened h fun u hu => ?_
  rw [attempt_calm hcalm, wp_pure, wp_bind]
  refine wp_advance_opened hu fun w hw => ?_
  rw [attempt_calm hcalm, wp_pure]
  rw [advanced_appended] at hw
  exact hw.shows

/-- The file that is opened, as it is then. -/
def Opens (rules : ModeRules) (v : View Stat) (n : Name) (dir : Place) (truncate : Bool)
    (f : Regular) : Prop :=
  (∃ g, v.object (n :: dir) = some (.file g) ∧
    f = if truncate then ⟨[], rules.written g.mode⟩ else g) ∨
  v.object (n :: dir) = none ∧ v.isDir dir = true ∧ f = ⟨[], rules.created 0o666⟩

private theorem Opens.write {f : Regular} (h : Opens rules v n dir true f) (value : List UInt8) :
    v.write (n :: dir) value (rules.filled (rules.created 0o666) value) rules.written =
      some (v.store (n :: dir) (appended rules f value)) := by
  rcases h with ⟨g, hobject, rfl⟩ | ⟨hobject, hdir, rfl⟩
  · rw [View.write, hobject, if_pos rfl, appended, filled_written]
    rfl
  · rw [View.write, hobject]
    exact if_pos hdir

private theorem opened_of_create (h : Shows rules v s) {p : Place} {mode : ℕ} {d : Disk Stat}
    (hd : s.machine.disk.create p mode = .ok d) :
    Opened rules v p s.machine.disk.next ⟨[], mode⟩ (s.moved d) := by
  obtain ⟨-, -, hnode, -⟩ := Disk.create_ok hd
  refine ⟨h.moved ?_, ?_⟩
  · rw [Disk.view_create hd, h.view]
  · rw [Server.moved, Machine.disk_withDisk, hnode, Function.update_self]

private theorem wp_openOut_plain (hcalm : L.faults.Calm) (h : Shows rules v s) (hplain : v.Plain)
    {truncate : Bool} (hspecial : v.object (n :: dir) ≠ some .special)
    (hsole : ∀ f, v.object (n :: dir) = some (.file f) → v.Sole (n :: dir)) :
    wp (openOut L truncate (text (n :: dir)))
      (fun target t => ∃ ino f, target = some ino ∧ Opened rules v (n :: dir) ino f t ∧
        Opens rules v n dir truncate f)
      (fun _ t => t = s ∧ Refuses v (n :: dir)) s := by
  have hlookup := h.lookup hplain n dir
  unfold openOut
  rw [attempt_calm hcalm, pure_bind, wp_bind, wp_get]
  by_cases hdir : v.isDir dir = true
  · rw [if_pos hdir] at hlookup
    rw [hlookup]
    dsimp only
    have hobject := Disk.view_object s.machine.disk (n :: dir)
    rw [h.view] at hobject
    cases hentry : s.machine.disk.tree.entry (n :: dir) with
    | none =>
        rw [hentry, Option.map_none] at hobject
        dsimp only
        rw [wp_bind]
        refine wp_onDisk (fun d hd => ?_) fun errno herror => ?_
        · rw [h.modes] at hd
          exact ⟨_, _, rfl, opened_of_create h hd, .inr ⟨hobject, hdir, rfl⟩⟩
        · obtain ⟨d, hd⟩ := Disk.exists_create ((h.isDir dir).trans hdir) hentry
            (s.machine.modes.created 0o666)
          rw [hd] at herror
          cases herror
    | some e =>
        rw [hentry, Option.map_some] at hobject
        cases e with
        | regular =>
            have hown := hsole _ hobject
            rw [← h.view] at hown
            have hopened : Opened rules v (n :: dir) (s.machine.disk.node (n :: dir))
                (s.machine.disk.inode (s.machine.disk.node (n :: dir))) s := by
              refine ⟨⟨?_, h.modes⟩, rfl⟩
              rw [← h.view, Disk.view_store_self hentry hown]
            dsimp only
            rw [wp_bind, wp_set]
            refine ⟨_, _, rfl, ?_, .inl ⟨_, hobject, rfl⟩⟩
            cases truncate with
            | true =>
                have hput := hopened.put ⟨[], rules.written
                  (s.machine.disk.inode (s.machine.disk.node (n :: dir))).mode⟩
                rw [← h.modes] at hput
                rw [← h.modes]
                exact hput
            | false => exact hopened
        | directory st =>
            refine ⟨rfl, fun content fresh kept => ?_⟩
            rw [View.write, hobject]
            rfl
        | special => exact absurd hobject hspecial
        | link target => exact absurd hobject (hplain _ target)
  · rw [if_neg hdir] at hlookup
    rw [hlookup]
    exact ⟨rfl, h.refuses hdir⟩

private theorem wp_createOut_plain (hcalm : L.faults.Calm) (h : Shows rules v s)
    (hplain : v.Plain) : wp (createOut L (text (n :: dir)))
      (fun target t => ∃ ino, target = some ino ∧
        Opened rules v (n :: dir) ino ⟨[], rules.created 0o666⟩ t ∧
        v.object (n :: dir) = none ∧ v.isDir dir = true)
      (fun _ t => t = s ∧ ¬ (v.object (n :: dir) = none ∧ v.isDir dir = true)) s := by
  unfold createOut
  rw [attempt_calm hcalm, pure_bind, wp_bind]
  refine wp_lastName_plain h hplain (fun hdir => ?_) fun hdir _ => ⟨rfl, fun hboth => hdir hboth.2⟩
  dsimp only
  rw [if_neg Bool.false_ne_true, wp_bind, wp_get, wp_bind]
  refine wp_onDisk (fun d hd => ?_) fun errno herror => ⟨rfl, fun hboth => ?_⟩
  · obtain ⟨hnone, -⟩ := Disk.create_ok hd
    rw [h.modes] at hd
    exact ⟨_, rfl, opened_of_create h hd, h.entry_none.mp hnone, hdir⟩
  · obtain ⟨d, hd⟩ := Disk.exists_create ((h.isDir dir).trans hdir) (h.entry_none.mpr hboth.1)
      (s.machine.modes.created 0o666)
    rw [hd] at herror
    cases herror

/-- What writing a file in one piece shows. -/
theorem wp_overwrite_plain (hcalm : L.faults.Calm) (h : Shows rules v s) (hplain : v.Plain)
    {value : List UInt8} (hspecial : v.object (n :: dir) ≠ some .special)
    (hsole : ∀ f, v.object (n :: dir) = some (.file f) → v.Sole (n :: dir)) :
    wp (do
        let target ← openOut L true (text (n :: dir))
        writeOut L target value)
      (fun _ t => ∃ w, v.write (n :: dir) value (rules.filled (rules.created 0o666) value)
        rules.written = some w ∧ Shows rules w t)
      (fun _ t => v.write (n :: dir) value (rules.filled (rules.created 0o666) value)
        rules.written = none ∧ Shows rules v t) s := by
  rw [wp_bind]
  refine wp_mono (wp_openOut_plain hcalm h hplain hspecial hsole) ?_ ?_
  · rintro _ t ⟨ino, f, rfl, hopened, hopens⟩
    exact wp_mono (wp_writeOut_plain hcalm hopened (E := fun _ _ => False))
      (fun _ u hu => ⟨_, hopens.write value, hu⟩) fun _ _ he => he.elim
  · rintro _ t ⟨rfl, hrefuses⟩
    exact ⟨hrefuses _ _ _, h⟩

/-- What appending shows. -/
def append (rules : ModeRules) (v : View Stat) (p : Place) (value : List UInt8) :
    Option (View Stat) :=
  match v.object p with
  | some (.file f) => some (v.store p (appended rules f value))
  | none =>
    if v.isDir p.tail then some (v.store p ⟨value, rules.filled (rules.created 0o666) value⟩)
    else none
  | _ => none

private theorem append_of_refuses {p : Place} (h : Refuses v p) (value : List UInt8) :
    append rules v p value = none := by
  have hnone := h [] 0 id
  unfold View.write at hnone
  unfold append
  split at hnone
  · cases hnone
  · rename_i hobject
    rw [hobject]
    split at hnone
    · cases hnone
    · rename_i hdir
      exact if_neg hdir
  · rename_i hfile hmissing
    split
    · rename_i f hobject
      exact absurd hobject (hfile f)
    · rename_i hobject
      exact absurd hobject hmissing
    · rfl

/-- Opened for appending, the file is longer by the value, or the view is as it was. -/
theorem wp_append_plain (hcalm : L.faults.Calm) (h : Shows rules v s) (hplain : v.Plain)
    {value : List UInt8} (hspecial : v.object (n :: dir) ≠ some .special)
    (hsole : ∀ f, v.object (n :: dir) = some (.file f) → v.Sole (n :: dir)) :
    wp (do
        let target ← openOut L false (text (n :: dir))
        writeOut L target value)
      (fun _ t => ∃ w, append rules v (n :: dir) value = some w ∧ Shows rules w t)
      (fun _ t => append rules v (n :: dir) value = none ∧ Shows rules v t) s := by
  rw [wp_bind]
  refine wp_mono (wp_openOut_plain hcalm h hplain hspecial hsole) ?_ ?_
  · rintro _ t ⟨ino, f, rfl, hopened, hopens⟩
    refine wp_mono (wp_writeOut_plain hcalm hopened (E := fun _ _ => False))
      (fun _ u hu => ⟨_, ?_, hu⟩) fun _ _ he => he.elim
    rcases hopens with ⟨g, hobject, rfl⟩ | ⟨hobject, hdir, rfl⟩
    · rw [append, hobject]
    · rw [append, hobject]
      exact if_pos hdir
  · rintro _ t ⟨rfl, hrefuses⟩
    exact ⟨append_of_refuses hrefuses value, h⟩

/-- What creating a file shows. -/
def create (rules : ModeRules) (v : View Stat) (p : Place) (value : List UInt8) :
    Option (View Stat) :=
  if (v.object p).isSome then none
  else v.write p value (rules.filled (rules.created 0o666) value) id

/-- Nothing is created where something is. -/
theorem create_of_some {p : Place} {o : Object Stat} (h : v.object p = some o)
    (value : List UInt8) : create rules v p value = none := by
  rw [create, h]
  rfl

/-- A file is created where nothing is, if its directory is one. -/
theorem create_of_none (h : v.object (n :: dir) = none) (value : List UInt8) :
    create rules v (n :: dir) value = if v.isDir dir = true then
      some (v.store (n :: dir) ⟨value, rules.filled (rules.created 0o666) value⟩) else none := by
  rw [create, View.write, h]
  rfl

/-- Opened exclusively, the file is created, or the view is as it was. -/
theorem wp_create_plain (hcalm : L.faults.Calm) (h : Shows rules v s) (hplain : v.Plain)
    {value : List UInt8} :
    wp (do
        let target ← createOut L (text (n :: dir))
        writeOut L target value)
      (fun _ t => ∃ w, create rules v (n :: dir) value = some w ∧ Shows rules w t)
      (fun _ t => create rules v (n :: dir) value = none ∧ Shows rules v t) s := by
  rw [wp_bind]
  refine wp_mono (wp_createOut_plain hcalm h hplain) ?_ ?_
  · rintro _ t ⟨ino, rfl, hopened, hobject, hdir⟩
    refine wp_mono (wp_writeOut_plain hcalm hopened (E := fun _ _ => False))
      (fun _ u hu => ⟨_, ?_, hu⟩) fun _ _ he => he.elim
    rw [create_of_none hobject, if_pos hdir]
    rfl
  · rintro _ t ⟨rfl, hnot⟩
    refine ⟨?_, h⟩
    cases hobject : v.object (n :: dir) with
    | none => rw [create_of_none hobject, if_neg fun hdir => hnot ⟨hobject, hdir⟩]
    | some o => exact create_of_some hobject value

/-! ### Removing, moving and copying -/

private theorem wp_isdir_plain (hcalm : L.faults.Calm) (h : Shows rules v s) (hplain : v.Plain)
    {Q : Bool → Server → Prop} {E : Errno → Server → Prop} (hQ : Q (v.isDir (n :: dir)) s) :
    wp (isdir L (text (n :: dir))) Q E s := by
  unfold isdir
  rw [wp_rescue, attempt_calm hcalm, pure_bind, wp_bind]
  refine wp_find_plain h hplain (fun e he => ?_) fun hnone _ _ => ?_
  · have hobject := h.object_of_entry he
    rw [View.isDir, hobject] at hQ
    cases e <;> exact hQ
  · rw [View.isDir, hnone] at hQ
    exact hQ

private theorem exists_of_isDir {p : Place} (h : v.isDir p = true) :
    ∃ st, v.object p = some (.directory st) := by
  unfold View.isDir at h
  split at h
  · rename_i st hobject
    exact ⟨st, hobject⟩
  · cases h

/-- Something is in a directory only. -/
theorem isDir_of_object (h : Shows rules v s) (hsome : v.object (n :: dir) ≠ none) :
    v.isDir dir = true := by
  by_contra hdir
  exact hsome (h.object_of_not_isDir hdir)

private theorem object_of_other (hplain : v.Plain) {p : Place}
    (hspecial : v.object p ≠ some .special)
    (hfile : fileAt v p = none) (hdir : ¬ v.isDir p = true) : v.object p = none := by
  unfold fileAt at hfile
  unfold View.isDir at hdir
  cases hobject : v.object p with
  | none => rfl
  | some o =>
      rw [hobject] at hfile hdir
      cases o with
      | directory st => exact absurd rfl hdir
      | file f => cases hfile
      | special => exact absurd hobject hspecial
      | link target => exact absurd hobject (hplain p target)

/-- `rm_file` leaves the view that its meaning says, or the view as it was. -/
theorem wp_rm_plain (hcalm : L.faults.Calm) (h : Shows rules v s) (hplain : v.Plain)
    {path : String} (hpath : path.toList = text (n :: dir))
    (hspecial : v.object (n :: dir) ≠ some .special) :
    wp (Fallback.rm L path)
      (fun _ t => ∃ w, v.remove (n :: dir) = some w ∧ Shows rules w t)
      (fun _ t => v.remove (n :: dir) = none ∧ Shows rules v t) s := by
  unfold Fallback.rm
  rw [absolute_text hpath, pure_bind, hpath]
  refine wp_system ?_
  rw [wp_bind]
  refine wp_isdir_plain hcalm h hplain ?_
  by_cases hdirectory : v.isDir (n :: dir) = true
  · rw [if_pos hdirectory]
    obtain ⟨st, hobject⟩ := exists_of_isDir hdirectory
    have hdir := isDir_of_object h (by rw [hobject]; exact Option.some_ne_none _)
    unfold rmdirPath
    rw [attempt_calm hcalm, pure_bind, wp_bind]
    refine wp_lastName_plain h hplain (fun _ => ?_) fun hnot => absurd hdir hnot
    refine wp_mono (wp_rmdir_plain h hobject) (fun _ t ht => ?_) fun _ t ht => ?_
    · exact ⟨_, View.remove_leaf hobject ht.1, ht.2⟩
    · exact ⟨View.remove_of_not_leaf hobject ht.1, ht.2⟩
  · rw [if_neg hdirectory]
    unfold removePath
    rw [attempt_calm hcalm, pure_bind, wp_bind]
    refine wp_lastName_plain h hplain (fun _ => ?_) fun hnot errno => ⟨?_, h⟩
    · dsimp only
      rw [if_neg Bool.false_ne_true]
      cases hfile : fileAt v (n :: dir) with
      | some f =>
          refine wp_mono (wp_unlink_plain h hfile (E := fun _ _ => False))
            (fun _ t ht => ⟨_, ?_, ht⟩) fun _ _ he => he.elim
          rw [View.remove, fileAt_eq_some.mp hfile]
      | none =>
          have hnone := object_of_other hplain hspecial hfile hdirectory
          have hentry := h.entry_none.mpr hnone
          refine wp_onDisk (fun d hd => ?_) fun errno _ => ⟨?_, h⟩
          · obtain ⟨hsome, -⟩ := Disk.unlink_ok hd
            rw [hentry] at hsome
            cases hsome
          · rw [View.remove, hnone]
    · rw [View.remove, h.object_of_not_isDir hnot]

/-- `mv` leaves the view that its meaning says, or the view as it was. -/
theorem wp_mv_plain (hcalm : L.faults.Calm) (h : Shows rules v s) (hplain : v.Plain)
    {src dst : String} (hsrc : src.toList = text (n :: dir)) (hdst : dst.toList = text (m :: dir'))
    (hspecial : v.object (n :: dir) ≠ some .special)
    (hspecial' : v.object (m :: dir') ≠ some .special)
    (hmovable : ¬ s.machine.disk.Movable (n :: dir) (m :: dir')) :
    wp (Fallback.mv L src dst)
      (fun _ t => ∃ w, v.rename (n :: dir) (m :: dir') = some w ∧ Shows rules w t)
      (fun _ t => v.rename (n :: dir) (m :: dir') = none ∧ Shows rules v t) s := by
  have hother : ∀ {q : Place}, fileAt v (n :: dir) = none → v.rename (n :: dir) q = none := by
    intro q hnone
    unfold View.rename
    split
    · rename_i f hobject
      rw [fileAt_eq_some.mpr hobject] at hnone
      cases hnone
    · rfl
  unfold Fallback.mv
  rw [absolute_text hsrc, pure_bind, absolute_text hdst, pure_bind, hsrc, hdst]
  refine wp_system ?_
  unfold replacePath
  rw [attempt_calm hcalm, pure_bind, wp_bind]
  refine wp_lastName_plain h hplain (fun _ => ?_) fun hnot _ => ⟨hother ?_, h⟩
  · dsimp only
    rw [wp_bind]
    refine wp_lastName_plain h hplain (fun _ => ?_) fun hnot _ => ⟨?_, h⟩
    · dsimp only
      rw [wp_bind, wp_get, Bool.or_self, Bool.false_and, Bool.false_and, if_neg Bool.false_ne_true]
      cases hfile : fileAt v (n :: dir) with
      | some f =>
          have hnot : s.machine.disk.tree.isDir (n :: dir) = false := by
            rw [h.isDir, View.isDir, fileAt_eq_some.mp hfile]
          obtain ⟨hok, herror⟩ := h.renamed hfile
          refine wp_onDisk (fun d hd => ?_) fun errno he => ?_
          · rw [Disk.replace, if_neg (by rw [hnot]; exact Bool.false_ne_true)] at hd
            exact hok d hd
          · rw [Disk.replace, if_neg (by rw [hnot]; exact Bool.false_ne_true)] at he
            exact herror errno he
      | none =>
          refine wp_onDisk (fun d hd => ?_) fun errno _ => ⟨hother hfile, h⟩
          by_cases hdirectory : v.isDir (n :: dir) = true
          · rw [Disk.replace, h.isDir, if_pos hdirectory] at hd
            obtain ⟨e, he⟩ := Disk.renameDirectory_error hmovable
            rw [he] at hd
            cases hd
          · rw [Disk.replace, h.isDir, if_neg hdirectory] at hd
            have hnone := object_of_other hplain hspecial hfile hdirectory
            obtain ⟨e, hentry, -⟩ := Disk.rename_ok hd
            rw [h.entry_none.mpr hnone] at hentry
            cases hentry
    · cases hfile : fileAt v (n :: dir) with
      | some f => exact rename_of_refuses h hplain hfile hspecial' (h.refuses hnot)
      | none => exact hother hfile
  · exact fileAt_of_refuses (h.refuses hnot)

/-- Two names of one file, or one name twice. -/
def Same (v : View Stat) (p q : Place) : Prop := p = q ∧ v.object p ≠ none ∨ v.shared p q

private theorem same_iff (h : Shows rules v s) {p q : Place} {e e' : Entry Stat}
    (he : s.machine.disk.tree.entry p = some e) (he' : s.machine.disk.tree.entry q = some e') :
    (decide (p = q) || (Disk.forRegular (some e) && Disk.forRegular (some e') &&
      decide (s.machine.disk.node p = s.machine.disk.node q))) = true ↔ Same v p q := by
  have hsome : v.object p ≠ none := by
    rw [Ne, ← h.entry_none, he]
    exact Option.some_ne_none e
  have hshared : v.shared p q ↔ (e = .regular ∧ e' = .regular) ∧
      s.machine.disk.node p = s.machine.disk.node q := by
    rw [← h.view]
    simp only [Disk.view, he, he', Option.some.injEq, and_assoc]
  rw [Same, hshared, and_iff_left hsome]
  simp only [Bool.or_eq_true, Bool.and_eq_true, decide_eq_true_iff, Disk.forRegular_iff,
    Option.some.injEq]

private theorem wp_samefile_plain (hcalm : L.faults.Calm) (h : Shows rules v s) (hplain : v.Plain)
    {Q : Bool → Server → Prop} {E : Errno → Server → Prop}
    (htrue : Same v (n :: dir) (m :: dir') → Q true s)
    (hfalse : ¬ Same v (n :: dir) (m :: dir') → Q false s) :
    wp (samefile L (text (n :: dir)) (text (m :: dir'))) Q E s := by
  unfold samefile
  rw [wp_rescue, attempt_calm hcalm, pure_bind, wp_bind]
  refine wp_find_plain h hplain (fun e he => ?_) fun hnone _ _ => hfalse ?_
  · dsimp only
    rw [attempt_calm hcalm, pure_bind, wp_bind]
    refine wp_find_plain h hplain (fun e' he' => ?_) fun hnone _ _ => hfalse ?_
    · dsimp only
      rw [wp_bind, wp_get, wp_pure]
      cases hvalue : (decide (n :: dir = m :: dir') || (Disk.forRegular (some e) &&
          Disk.forRegular (some e') && decide
            (s.machine.disk.node (n :: dir) = s.machine.disk.node (m :: dir')))) with
      | true => exact htrue ((same_iff h he he').mp hvalue)
      | false =>
          refine hfalse fun hsame => ?_
          rw [(same_iff h he he').mpr hsame] at hvalue
          cases hvalue
    · rintro (⟨heq, hsome⟩ | hshared)
      · rw [heq] at hsome
        exact hsome hnone
      · obtain ⟨f, hfile⟩ := h.shared hshared
        rw [fileAt_eq_some.mp hfile] at hnone
        cases hnone
  · rintro (⟨-, hsome⟩ | hshared)
    · exact hsome hnone
    · rw [← h.view, Disk.view_none] at hnone
      rw [← h.view] at hshared
      exact absurd (hnone.symm.trans hshared.1) (Option.some_ne_none _).symm

private theorem store_fileAt_of_ne {p q : Place} (h : p ≠ q) (f : Regular) :
    fileAt (v.store q f) p = fileAt v p := by
  unfold fileAt
  rw [View.store_object_of_ne h]

/-- What a copy shows, two names of one file being none. -/
theorem copied_of_same (h : Shows rules v s) {p q : Place} (hsame : Same v p q)
    (hsole : ∀ f, fileAt v p = some f → p ≠ q → v.Sole q) (fresh : Regular → ℕ) (kept : ℕ → ℕ) :
    copied v p q fresh kept = none := by
  unfold copied
  split
  · rfl
  · rename_i hne
    rcases hsame with ⟨heq, -⟩ | hshared
    · exact absurd heq hne
    · have hback : v.shared q p := by
        rw [← h.view] at hshared ⊢
        exact ⟨hshared.2.1, hshared.1, hshared.2.2.symm⟩
      obtain ⟨f, hfile⟩ := h.shared hback
      exact absurd (hsole f hfile hne p hback) hne

/-- `cp_file` leaves the view that its meaning says, or the view as it was. -/
theorem wp_cp_plain (hcalm : L.faults.Calm) (h : Shows rules v s) (hplain : v.Plain)
    {src dst : String} (hsrc : src.toList = text (n :: dir)) (hdst : dst.toList = text (m :: dir'))
    (hspecial : v.object (n :: dir) ≠ some .special)
    (hspecial' : ∀ f, fileAt v (n :: dir) = some f → v.object (m :: dir') ≠ some .special)
    (hsole : ∀ f, fileAt v (n :: dir) = some f → n :: dir ≠ m :: dir' →
      ∀ g, v.object (m :: dir') = some (.file g) → v.Sole (m :: dir')) :
    wp (Fallback.cp L src dst)
      (fun _ t => ∃ w, copied v (n :: dir) (m :: dir')
        (fun f => rules.filled (rules.created 0o666) f.content) rules.written = some w ∧
          Shows rules w t)
      (fun _ t => copied v (n :: dir) (m :: dir')
        (fun f => rules.filled (rules.created 0o666) f.content) rules.written = none ∧
          Shows rules v t) s := by
  unfold Fallback.cp
  rw [absolute_text hsrc, pure_bind, absolute_text hdst, pure_bind, hsrc, hdst, wp_bind]
  refine wp_system (wp_samefile_plain hcalm h hplain (fun hsame => ?_) fun hother => ?_)
  · rw [if_pos rfl, wp_throw]
    refine ⟨copied_of_same h hsame (fun f hfile hne => ?_) _ _, h⟩
    rcases hsame with ⟨heq, -⟩ | hshared
    · exact absurd heq hne
    · obtain ⟨g, hg⟩ := h.shared hshared
      exact hsole f hfile hne g (fileAt_eq_some.mp hg)
  · rw [if_neg Bool.false_ne_true]
    refine wp_system ?_
    unfold copyfile
    rw [wp_bind]
    refine wp_mono (wp_openIn_plain hcalm h hplain hspecial) ?_ ?_
    · rintro _ t ⟨rfl, rfl, f, hfile⟩
      have hne : n :: dir ≠ m :: dir' := fun heq => hother (.inl ⟨heq, by
        rw [fileAt_eq_some.mp hfile]
        exact Option.some_ne_none _⟩)
      dsimp only
      rw [wp_bind]
      refine wp_mono (wp_openOut_plain hcalm h hplain (hspecial' f hfile) (hsole f hfile hne)) ?_ ?_
      · rintro _ t ⟨ino, g, rfl, hopened, hopens⟩
        rw [wp_bind]
        refine wp_readIn_plain hcalm hopened.shows
          ((store_fileAt_of_ne hne g).trans hfile) ?_
        refine wp_mono (wp_writeOut_plain hcalm hopened (E := fun _ _ => False))
          (fun _ u hu => ⟨_, ?_, hu⟩) fun _ _ he => he.elim
        rw [copied, if_neg hne, hfile, Option.bind_some]
        exact hopens.write f.content
      · rintro _ t ⟨rfl, hrefuses⟩
        refine ⟨?_, h⟩
        rw [copied, if_neg hne, hfile, Option.bind_some]
        exact hrefuses _ _ _
    · rintro _ t ⟨rfl, hnone⟩
      refine ⟨?_, h⟩
      unfold copied
      rw [hnone]
      exact ite_self _

/-- `info` tells what is at the path, or nothing is. -/
theorem wp_stat_local_plain (hcalm : L.faults.Calm) (h : Shows rules v s) (hplain : v.Plain)
    {path : String} (hpath : path.toList = text (n :: dir)) :
    wp (Fallback.stat L path)
      (fun r t => t = s ∧ ∃ o, v.object (n :: dir) = some o ∧ r = statOf o)
      (fun _ t => t = s ∧ v.object (n :: dir) = none) s := by
  unfold Fallback.stat
  rw [absolute_text hpath, pure_bind, hpath]
  refine wp_system ?_
  rw [attempt_calm hcalm, pure_bind, wp_bind]
  refine wp_find_plain h hplain (fun e he => ?_) fun hnone _ _ => ⟨rfl, hnone⟩
  have hobject := h.object_of_entry he
  dsimp only
  rw [wp_bind, wp_get]
  cases e <;> exact ⟨rfl, _, hobject, rfl⟩

end Jetty.Fsspec
