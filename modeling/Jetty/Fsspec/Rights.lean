import Jetty.Fsspec.Meaning

/-!
# What the kernel grants

The kernel grants or refuses each process its calls. A file is written to where it is on the local
file system and replaced through the sidecar, so the two need different rights for the same method;
where one of them is refused a call, the method raises and leaves the files alone.
-/

namespace Jetty.Fsspec

open Files Effects Filesystem

/-- What the kernel grants a process at the places of its paths. -/
structure Rights where
  /-- The directories on the way to the place can be searched. -/
  search : Place → Bool
  /-- A file at the place can be opened for reading. -/
  read : Place → Bool
  /-- A file at the place can be opened for writing. -/
  write : Place → Bool
  /-- In the directory of the place names can be made, and this one replaced and taken away. -/
  change : Place → Bool

namespace Rights

variable (R : Rights) (v : View Stat) (p q : Place)

/-- `open` for reading. -/
def reads : Bool := R.search p && ((v.object p).isNone || R.read p)

/-- `open` for writing, which makes the file where there is none. -/
def stores : Bool := R.search p && if (v.object p).isNone then R.change p else R.write p

/-- `open` for exclusive creation. -/
def makes : Bool := R.search p && ((v.object p).isSome || R.change p)

/-- The name is made, replaced or taken away. -/
def alters : Bool := R.search p && R.change p

/-- What is refused to a request that reads. -/
def refusesRead : Call → Bool
  | .stat => !R.search p
  | .open_ => !R.reads v p
  | _ => false

/-- What is refused to a request that writes: the temporary file is made next to the target. -/
def refusesWrite : Call → Bool
  | .statTarget => !R.search p
  | .create => !R.alters p
  | _ => false

def refusesRemoval : Call → Bool
  | .stat => !R.search p
  | .unlink | .rmdir => !R.alters p
  | _ => false

def refusesRename : Call → Bool
  | .stat => !R.search p
  | .statTarget => !R.search q
  | .rename => !(R.alters p && R.alters q)
  | _ => false

def refusesCopy : Call → Bool
  | .stat => !R.search p
  | .open_ => !R.reads v p
  | .statTarget => !R.search q
  | .create => !R.alters q
  | _ => false

end Rights

section Methods

variable (strip : String → String) (R : Rights) (v : View Stat)

/-- The calls that the kernel refuses to a method on the local file system. -/
def Method.refusedHere : Method → Call → Bool
  | catFile path _ _, .open_ | open_ path .rb _, .open_ => !R.reads v (placeOf (strip path))
  | pipeFile path _, .create | open_ path .wb _, .create | open_ path .ab _, .create =>
    !R.stores v (placeOf (strip path))
  | open_ path .xb _, .create => !R.makes v (placeOf (strip path))
  | rmFile path, c => R.refusesRemoval (placeOf (strip path)) c
  | mv path1 path2, .rename =>
    !(R.alters (placeOf (strip path1)) && R.alters (placeOf (strip path2)))
  | cpFile path _, .stat | exists_ path, .stat | info path, .stat =>
    !R.search (placeOf (strip path))
  | cpFile _ path, .statTarget => !R.search (placeOf (strip path))
  | cpFile path _, .open_ => !R.reads v (placeOf (strip path))
  | cpFile _ path, .create => !R.stores v (placeOf (strip path))
  | _, _ => false

/-- The calls that the kernel refuses to the sidecar for the first request of a method. -/
def Method.refusedThere : Method → Call → Bool
  | catFile path _ _ | open_ path .rb _ | open_ path .ab _ =>
    R.refusesRead v (placeOf (strip path))
  | pipeFile path _ => R.refusesWrite (placeOf (strip path))
  | rmFile path => R.refusesRemoval (placeOf (strip path))
  | mv path1 path2 => R.refusesRename (placeOf (strip path1)) (placeOf (strip path2))
  | cpFile path1 path2 => R.refusesCopy v (placeOf (strip path1)) (placeOf (strip path2))
  | exists_ path | info path | open_ path .xb _ => fun c =>
    decide (c = .stat) && !R.search (placeOf (strip path))
  | open_ _ .wb _ => fun _ => false

/-- Those that it refuses for the upload when an opened file is closed. -/
def Method.refusedUpload : Method → Call → Bool
  | open_ _ .rb _ => fun _ => false
  | open_ path _ _ => R.refusesWrite (placeOf (strip path))
  | _ => fun _ => false

/-- All that the method needs on the local file system is granted. -/
def Method.grantedHere : Method → Bool
  | catFile path _ _ | open_ path .rb _ => R.reads v (placeOf (strip path))
  | pipeFile path _ | open_ path .wb _ | open_ path .ab _ => R.stores v (placeOf (strip path))
  | open_ path .xb _ => R.makes v (placeOf (strip path))
  | rmFile path => R.alters (placeOf (strip path))
  | mv path1 path2 => R.alters (placeOf (strip path1)) && R.alters (placeOf (strip path2))
  | cpFile path1 path2 => R.reads v (placeOf (strip path1)) && R.stores v (placeOf (strip path2))
  | exists_ path | info path => R.search (placeOf (strip path))

/-- All that the method needs of the sidecar is granted. -/
def Method.grantedThere : Method → Bool
  | catFile path _ _ | open_ path .rb _ => R.reads v (placeOf (strip path))
  | pipeFile path _ | open_ path .wb _ | open_ path .xb _ | rmFile path =>
    R.alters (placeOf (strip path))
  | open_ path .ab _ => R.reads v (placeOf (strip path)) && R.alters (placeOf (strip path))
  | mv path1 path2 => R.alters (placeOf (strip path1)) && R.alters (placeOf (strip path2))
  | cpFile path1 path2 => R.reads v (placeOf (strip path1)) && R.alters (placeOf (strip path2))
  | exists_ path | info path => R.search (placeOf (strip path))

/-- Nothing is in the way of what the method writes. -/
def Method.Lands : Method → Prop
  | pipeFile path _ | open_ path .wb _ | open_ path .ab _ | cpFile _ path =>
    v.isDir (placeOf (strip path)) = false
  | open_ path .xb _ => v.object (placeOf (strip path)) = none
  | _ => True

end Methods

/-- The calls that fail are those that are refused. -/
def Governed (F : Faults) (refused : Call → Bool) : Prop :=
  ∀ c, F.fails c = if refused c then some .denied else none

section Refused

variable {α : Type} {strip : String → String} {R : Rights} {rules : ModeRules} {v : View Stat}
  {s : Server} {F F' : Faults} {L : Surroundings} {refused : Call → Bool} {c : Call} {n : Name}
  {dir : Place} {path : String} {m : Method}

private theorem Governed.calm (h : Governed F refused) (hnone : ∀ c, refused c = false) :
    F.Calm := by
  intro c
  rw [h c, hnone c]
  rfl

private theorem Governed.attempt (h : Governed F refused) (hc : refused c = true) :
    attempt F c = throw .acces := by
  unfold Filesystem.attempt
  rw [h c, hc]
  rfl

private theorem Governed.fails_eq_none (h : Governed F refused) (hc : refused c = false) :
    F.fails c = none := by
  rw [h c, hc]
  rfl

/-! ### What is granted -/

private theorem Rights.search_of_reads {p : Place} (h : R.reads v p = true) : R.search p = true :=
  ((Bool.and_eq_true _ _).mp h).1

private theorem Rights.search_of_stores {p : Place} (h : R.stores v p = true) : R.search p = true :=
  ((Bool.and_eq_true _ _).mp h).1

private theorem Rights.search_of_alters {p : Place} (h : R.alters p = true) : R.search p = true :=
  ((Bool.and_eq_true _ _).mp h).1

/-- Where the method is granted here, none of its calls is refused here. -/
theorem refusedHere_eq_false (h : m.grantedHere strip R v = true) (c : Call) :
    m.refusedHere strip R v c = false := by
  cases m with
  | open_ path mode body =>
      cases mode <;> cases c <;> simp_all [Method.grantedHere, Method.refusedHere]
  | rmFile path =>
      have hsearch := Rights.search_of_alters h
      cases c <;> simp_all [Method.grantedHere, Method.refusedHere, Rights.refusesRemoval]
  | cpFile path1 path2 =>
      obtain ⟨hsrc, hdst⟩ := (Bool.and_eq_true _ _).mp h
      have hsearch := Rights.search_of_reads hsrc
      have hsearch' := Rights.search_of_stores hdst
      cases c <;> simp_all [Method.refusedHere]
  | _ => cases c <;> simp_all [Method.grantedHere, Method.refusedHere]

private theorem refusesRead_eq_false {p : Place} (h : R.reads v p = true) (c : Call) :
    R.refusesRead v p c = false := by
  have hsearch := Rights.search_of_reads h
  cases c <;> simp_all [Rights.refusesRead]

private theorem refusesWrite_eq_false {p : Place} (h : R.alters p = true) (c : Call) :
    R.refusesWrite p c = false := by
  have hsearch := Rights.search_of_alters h
  cases c <;> simp_all [Rights.refusesWrite]

/-- Where the method is granted there, none of its calls is refused there. -/
theorem refusedThere_eq_false (h : m.grantedThere strip R v = true) (c : Call) :
    m.refusedThere strip R v c = false := by
  cases m with
  | catFile path start stop => exact refusesRead_eq_false h c
  | pipeFile path value => exact refusesWrite_eq_false h c
  | rmFile path =>
      have hsearch := Rights.search_of_alters h
      cases c <;> simp_all [Method.grantedThere, Method.refusedThere, Rights.refusesRemoval]
  | mv path1 path2 =>
      obtain ⟨hsrc, hdst⟩ := (Bool.and_eq_true _ _).mp h
      have hsearch := Rights.search_of_alters hsrc
      have hsearch' := Rights.search_of_alters hdst
      cases c <;> simp_all [Method.refusedThere, Rights.refusesRename]
  | cpFile path1 path2 =>
      obtain ⟨hsrc, hdst⟩ := (Bool.and_eq_true _ _).mp h
      have hsearch := Rights.search_of_reads hsrc
      have hsearch' := Rights.search_of_alters hdst
      cases c <;> simp_all [Method.refusedThere, Rights.refusesCopy]
  | exists_ path | info path => simp_all [Method.grantedThere, Method.refusedThere]
  | open_ path mode body =>
      cases mode with
      | rb => exact refusesRead_eq_false h c
      | wb => rfl
      | ab => exact refusesRead_eq_false ((Bool.and_eq_true _ _).mp h).1 c
      | xb =>
          have hsearch := Rights.search_of_alters h
          simp_all [Method.refusedThere]

/-- Where the method is granted there, none of its uploads is refused. -/
theorem refusedUpload_eq_false (h : m.grantedThere strip R v = true) (c : Call) :
    m.refusedUpload strip R c = false := by
  cases m with
  | open_ path mode body =>
      cases mode with
      | rb => rfl
      | wb | xb => exact refusesWrite_eq_false h c
      | ab => exact refusesWrite_eq_false ((Bool.and_eq_true _ _).mp h).2 c
  | _ => rfl

/-! ### What is refused -/

/-- The program raises, and the server is as it was. -/
def Refused {ε : Type} (x : Program ε Server α) (s : Server) : Prop :=
  wp x (fun _ _ => False) (fun _ t => t = s) s

private theorem Refused.bind {ε β : Type} {x : Program ε Server α} (h : Refused x s)
    (f : α → Program ε Server β) : Refused (x >>= f) s := by
  unfold Refused
  rw [wp_bind]
  exact wp_mono h (fun _ _ hfalse => hfalse.elim) fun _ _ ht => ht

/-- What comes first leaves the server alone, and what comes then raises. -/
theorem Refused.after {ε β : Type} {x : Program ε Server β} {f : β → Program ε Server α}
    (hx : wp x (fun _ t => t = s) (fun _ t => t = s) s) (h : ∀ b, Refused (f b) s) :
    Refused (x >>= f) s := by
  unfold Refused
  rw [wp_bind]
  refine wp_mono hx ?_ fun _ _ ht => ht
  rintro b t rfl
  exact h b

private theorem Refused.map {ε β : Type} {x : Program ε Server α} (h : Refused x s) (g : α → β) :
    Refused (g <$> x) s := by
  rw [map_eq_pure_bind]
  exact h.bind _

private theorem Refused.rescue {ε ζ : Type} {x : Program ζ Server α} (h : Refused x s) (g : ζ → ε) :
    Refused (Effects.rescue x fun e => (throw (g e) : Program ε Server α)) s := by
  unfold Refused
  rw [wp_rescue]
  exact h

private theorem refused_throw {ε : Type} (e : ε) : Refused (throw e : Program ε Server α) s := rfl

/-! ### On the local file system -/

private theorem idle_seek (path : List Char) :
    wp (seek path) (fun _ t => t = s) (fun _ t => t = s) s := by
  unfold seek
  rw [wp_bind, wp_get]
  split
  · exact rfl
  · split <;> exact rfl

private theorem idle_attempt : wp (attempt F c) (fun _ t => t = s) (fun _ t => t = s) s :=
  wp_attempt (fun _ => rfl) fun _ _ => rfl

private theorem idle_openIn (path : List Char) :
    wp (openIn L path) (fun _ t => t = s) (fun _ t => t = s) s := by
  unfold openIn
  rw [wp_bind]
  refine wp_mono idle_attempt ?_ fun _ _ ht => ht
  rintro _ t rfl
  rw [wp_bind]
  refine wp_mono (idle_seek path) ?_ fun _ _ ht => ht
  rintro ⟨p, e⟩ t rfl
  cases e <;> exact rfl

private theorem refused_openIn (h : Governed L.faults refused) (hc : refused .open_ = true)
    (path : List Char) : Refused (openIn L path) s := by
  unfold openIn
  rw [h.attempt hc]
  exact (refused_throw _).bind _

private theorem refused_openOut (h : Governed L.faults refused) (hc : refused .create = true)
    (truncate : Bool) (path : List Char) : Refused (openOut L truncate path) s := by
  unfold openOut
  rw [h.attempt hc]
  exact (refused_throw _).bind _

private theorem refused_createOut (h : Governed L.faults refused) (hc : refused .create = true)
    (path : List Char) : Refused (createOut L path) s := by
  unfold createOut
  rw [h.attempt hc]
  exact (refused_throw _).bind _

private theorem idle_isdir (path : List Char) :
    wp (isdir L path) (fun _ t => t = s) (fun _ t => t = s) s := by
  unfold isdir
  rw [wp_rescue, wp_bind]
  refine wp_mono idle_attempt ?_ fun _ _ ht => ht
  rintro _ t rfl
  rw [wp_bind]
  exact wp_mono (idle_seek path) (fun _ _ ht => ht) fun _ _ ht => ht

private theorem idle_samefile (src dst : List Char) :
    wp (samefile L src dst) (fun _ t => t = s) (fun _ t => t = s) s := by
  unfold samefile
  rw [wp_rescue, wp_bind]
  refine wp_mono idle_attempt ?_ fun _ _ ht => ht
  rintro _ t rfl
  rw [wp_bind]
  refine wp_mono (idle_seek src) ?_ fun _ _ ht => ht
  rintro ⟨p, e⟩ t rfl
  rw [wp_bind]
  refine wp_mono idle_attempt ?_ fun _ _ ht => ht
  rintro _ t rfl
  rw [wp_bind]
  exact wp_mono (idle_seek dst) (fun _ _ ht => ht) fun _ _ ht => ht

private theorem refused_rmdirPath (h : Governed L.faults refused) (hc : refused .rmdir = true)
    (path : List Char) : Refused (rmdirPath L path) s := by
  unfold rmdirPath
  rw [h.attempt hc]
  exact (refused_throw _).bind _

private theorem refused_removePath (h : Governed L.faults refused) (hc : refused .unlink = true)
    (path : List Char) : Refused (removePath L path) s := by
  unfold removePath
  rw [h.attempt hc]
  exact (refused_throw _).bind _

private theorem refused_replacePath (h : Governed L.faults refused) (hc : refused .rename = true)
    (src dst : List Char) : Refused (replacePath L src dst) s := by
  unfold replacePath
  rw [h.attempt hc]
  exact (refused_throw _).bind _

private theorem refused_copyfile (h : Governed L.faults refused)
    (hc : refused .open_ = true ∨ refused .create = true) (src dst : List Char) :
    Refused (copyfile L src dst) s := by
  unfold copyfile
  rcases hc with hc | hc
  · exact (refused_openIn h hc src).bind _
  · exact .after (idle_openIn src) fun r => (refused_openOut h hc true dst).bind _

private theorem idle_absolute (path : String) :
    wp (Fallback.absolute path) (fun _ t => t = s) (fun _ t => t = s) s := by
  unfold Fallback.absolute
  split <;> exact rfl

/-- A stat that is refused does not say that the file is missing. -/
theorem wp_stat_refused (h : Governed L.faults refused) (hc : refused .stat = true)
    (path : String) :
    wp (Fallback.stat L path) (fun _ _ => False) (fun e t => t = s ∧ e ≠ .fileNotFound) s := by
  unfold Fallback.stat Fallback.absolute
  rw [h.attempt hc]
  split
  · exact ⟨rfl, nofun⟩
  · exact ⟨rfl, nofun⟩

/-- A method that is refused something on the local file system. -/
theorem fallback_refused (h : Governed L.faults (m.refusedHere strip R v))
    (hgranted : m.grantedHere strip R v = false) : Refused (m.fallback strip L) s := by
  cases m with
  | catFile path start stop =>
      have hc : (Method.catFile path start stop).refusedHere strip R v .open_ = true := by
        simpa [Method.refusedHere, Method.grantedHere] using hgranted
      exact (Refused.after (idle_absolute _) fun _ =>
        ((refused_openIn h hc _).bind _).rescue _).bind _
  | pipeFile path value =>
      have hc : (Method.pipeFile path value).refusedHere strip R v .create = true := by
        simpa [Method.refusedHere, Method.grantedHere] using hgranted
      exact (Refused.after (idle_absolute _) fun _ =>
        ((refused_openOut h hc _ _).bind _).rescue _).map _
  | rmFile path =>
      have halters : R.alters (placeOf (strip path)) = false := hgranted
      have hunlink : (Method.rmFile path).refusedHere strip R v .unlink = true := by
        simp [Method.refusedHere, Rights.refusesRemoval, halters]
      have hrmdir : (Method.rmFile path).refusedHere strip R v .rmdir = true := hunlink
      refine (Refused.after (idle_absolute _) fun _ =>
        (Refused.after (idle_isdir _) fun b => ?_).rescue _).map _
      cases b with
      | true => exact refused_rmdirPath h hrmdir _
      | false => exact refused_removePath h hunlink _
  | mv path1 path2 =>
      have hc : (Method.mv path1 path2).refusedHere strip R v .rename = true := by
        simp only [Method.refusedHere, Bool.not_eq_true']
        exact hgranted
      exact (Refused.after (idle_absolute _) fun _ => .after (idle_absolute _) fun _ =>
        (refused_replacePath h hc _ _).rescue _).map _
  | cpFile path1 path2 =>
      have hc : (Method.cpFile path1 path2).refusedHere strip R v .open_ = true ∨
          (Method.cpFile path1 path2).refusedHere strip R v .create = true := by
        simp only [Method.refusedHere, Bool.not_eq_true']
        exact Bool.and_eq_false_iff.mp hgranted
      refine (Refused.after (idle_absolute _) fun _ => .after (idle_absolute _) fun _ =>
        .after ?_ fun b => ?_).map _
      · unfold system
        rw [wp_rescue]
        exact idle_samefile _ _
      · cases b with
        | true => exact refused_throw _
        | false => exact (refused_copyfile h hc _ _).rescue _
  | exists_ path =>
      have hc : (Method.exists_ path).refusedHere strip R v .stat = true := by
        simpa [Method.refusedHere, Method.grantedHere] using hgranted
      refine Refused.map ?_ _
      unfold Refused existing
      rw [wp_rescue, wp_bind]
      refine wp_mono (wp_stat_refused h hc _) (fun _ _ hfalse => hfalse.elim) ?_
      rintro e t ⟨rfl, hne⟩
      rw [if_neg hne]
      exact rfl
  | info path =>
      have hc : (Method.info path).refusedHere strip R v .stat = true := by
        simpa [Method.refusedHere, Method.grantedHere] using hgranted
      exact Refused.map (wp_mono (wp_stat_refused h hc _) (fun _ _ hfalse => hfalse)
        fun _ _ he => he.1) _
  | open_ path mode body =>
      refine Refused.map (.after (idle_absolute _) fun _ => ?_) _
      cases mode with
      | rb =>
          have hc : (Method.open_ path .rb body).refusedHere strip R v .open_ = true := by
            simpa [Method.refusedHere, Method.grantedHere] using hgranted
          exact ((refused_openIn h hc _).bind _).rescue _
      | wb =>
          have hc : (Method.open_ path .wb body).refusedHere strip R v .create = true := by
            simpa [Method.refusedHere, Method.grantedHere] using hgranted
          exact ((refused_openOut h hc _ _).bind _).rescue _
      | ab =>
          have hc : (Method.open_ path .ab body).refusedHere strip R v .create = true := by
            simpa [Method.refusedHere, Method.grantedHere] using hgranted
          exact ((refused_openOut h hc _ _).bind _).rescue _
      | xb =>
          have hc : (Method.open_ path .xb body).refusedHere strip R v .create = true := by
            simpa [Method.refusedHere, Method.grantedHere] using hgranted
          exact ((refused_createOut h hc _).bind _).rescue _

/-! ### Through the sidecar -/

private theorem refused_request {y : Serving α} (h : Refused y s) (paths : List String) :
    Refused (request paths y) s := by
  unfold request
  split
  · exact h.rescue _
  · exact refused_throw _

private theorem refused_door {p : Place} (h : Shows rules v s) (hplain : v.Plain)
    (hin : Inside s path p) {f : Place → Serving α} (hf : Refused (f p) s) :
    Refused (LocalFsDriver.door path >>= f) s := by
  unfold Refused
  rw [wp_bind]
  exact wp_door_plain h hplain hin hf

private theorem idle_require {full : Place} {path : String} :
    wp (LocalFsDriver.require F c full path) (fun _ t => t = s) (fun _ t => t = s) s :=
  wp_mono wp_require (fun _ _ ht => ht.1) fun _ _ ht => ht

private theorem refused_contents (h : Governed F refused) (hc : refused .open_ = true)
    (full : Place) : Refused (LocalFsDriver.contents F full) s := by
  unfold LocalFsDriver.contents
  rw [h.attempt hc]
  exact (refused_throw _).bind _

private theorem idle_contents (full : Place) :
    wp (LocalFsDriver.contents F full) (fun _ t => t = s) (fun _ t => t = s) s := by
  unfold LocalFsDriver.contents
  rw [wp_bind]
  refine wp_attempt (fun _ => ?_) fun _ _ => rfl
  rw [wp_bind]
  refine wp_find (fun p e _ _ => ?_) (fun _ => rfl) fun _ _ _ => rfl
  rw [wp_bind]
  exact wp_attempt (fun _ => rfl) fun _ _ => rfl

private theorem refused_openTemp (h : Governed F refused) (hc : refused .create = true)
    (dir : Place) (mode : ℕ) (names : List Name) : Refused (openTemp F dir mode names) s := by
  cases names with
  | nil => exact refused_throw _
  | cons k names =>
      unfold openTemp Refused
      rw [h.attempt hc]
      exact rfl

private theorem refused_replace (h : Governed F refused) (hc : refused .create = true)
    (full : Place) (path : String) (content : List UInt8) (mode : ℕ) :
    Refused (LocalFsDriver.replace F full path content mode) s := by
  unfold LocalFsDriver.replace
  refine .after (wp_mono wp_statRegular (fun _ _ ht => ht.1) fun _ _ ht => ht) fun st => ?_
  exact ((refused_openTemp h hc _ _ _).rescue _).bind _

/-- What is there is not missed. -/
theorem wp_statRegular_found (hfails : F.fails c = none) (h : Shows rules v s) (hplain : v.Plain)
    (hsome : v.object (n :: dir) ≠ none) (path : String) :
    wp (LocalFsDriver.statRegular F c (n :: dir) path) (fun st t => t = s ∧ st ≠ none)
      (fun e t => t = s ∧ ∀ q, e ≠ .fileMissing q) s := by
  unfold LocalFsDriver.statRegular
  rw [wp_bind, wp_rescue, wp_map]
  unfold Filesystem.stat
  rw [wp_bind]
  refine wp_attempt (fun _ => ?_) fun fault hfault => ?_
  · refine wp_find_plain h hplain (fun e _ => ?_) fun hnone => absurd hnone hsome
    cases e with
    | regular => exact ⟨rfl, Option.some_ne_none _⟩
    | _ => exact ⟨rfl, nofun⟩
  · rw [hfails] at hfault
    cases hfault

/-- A read that is refused does not say that the file is missing. -/
theorem wp_read_refused (hgoverned : Governed F (R.refusesRead v (n :: dir)))
    (hreads : R.reads v (n :: dir) = false) (h : Shows rules v s) (hplain : v.Plain)
    (hin : Inside s path (n :: dir)) :
    wp (LocalFsDriver.read F path) (fun _ _ => False)
      (fun e t => t = s ∧ ∀ q, e ≠ .fileMissing q) s := by
  have hopen : R.refusesRead v (n :: dir) .open_ = true := by
    rw [Rights.refusesRead, hreads]
    rfl
  unfold LocalFsDriver.read
  rw [wp_bind]
  refine wp_door_plain h hplain hin ?_
  rw [wp_bind]
  unfold LocalFsDriver.require
  rw [wp_bind]
  cases hsearch : R.search (n :: dir) with
  | false =>
      have hstat : R.refusesRead v (n :: dir) .stat = true := by
        rw [Rights.refusesRead, hsearch]
        rfl
      unfold LocalFsDriver.statRegular Filesystem.stat
      rw [hgoverned.attempt hstat]
      exact ⟨rfl, nofun⟩
  | true =>
      have hstat : R.refusesRead v (n :: dir) .stat = false := by
        rw [Rights.refusesRead, hsearch]
        rfl
      have hsome : v.object (n :: dir) ≠ none := by
        intro hnone
        rw [Rights.reads, hsearch, hnone] at hreads
        cases hreads
      refine wp_mono (wp_statRegular_found (hgoverned.fails_eq_none hstat) h hplain hsome path) ?_
        fun _ _ he => he
      rintro (_ | mode) t ⟨rfl, hst⟩
      · exact absurd rfl hst
      · unfold LocalFsDriver.contents
        rw [hgoverned.attempt hopen]
        exact ⟨rfl, nofun⟩

/-- A request that reads is refused. -/
theorem wp_remote_cat_refused (hgoverned : Governed F (R.refusesRead v (n :: dir)))
    (hreads : R.reads v (n :: dir) = false) (h : Shows rules v s) (hplain : v.Plain)
    (hready : Ready F F' v s path (n :: dir)) (hline : '\n' ∉ path.toList) :
    wp (Remote.cat F path) (fun _ _ => False) (fun e t => t = s ∧ e ≠ .fileNotFound) s := by
  refine wp_requestAt hline hready.checked ?_
  refine wp_mono (wp_read_refused hgoverned hreads h hplain hready.inside)
    (fun _ _ hfalse => hfalse) ?_
  rintro e t ⟨rfl, hne⟩
  refine ⟨rfl, ?_⟩
  cases e with
  | fileMissing q => exact absurd rfl (hne q)
  | _ => nofun

/-- An upload is refused. -/
theorem refused_pipe (hgoverned : Governed F (R.refusesWrite (n :: dir)))
    (halters : R.alters (n :: dir) = false) (h : Shows rules v s) (hplain : v.Plain)
    (hready : Ready F' F v s path (n :: dir)) (hline : '\n' ∉ path.toList) (value : List UInt8) :
    Refused (Remote.pipe F path value) s := by
  have hc : R.refusesWrite (n :: dir) .create = true := by
    rw [Rights.refusesWrite, halters]
    rfl
  refine wp_requestAt hline hready.checked ?_
  exact Refused.map (refused_door h hplain hready.inside (refused_replace hgoverned hc _ _ _ _)) _

/-- A removal is refused. -/
theorem refused_delete (hgoverned : Governed F (R.refusesRemoval (n :: dir)))
    (halters : R.alters (n :: dir) = false) (h : Shows rules v s) (hplain : v.Plain)
    (hin : Inside s path (n :: dir)) : Refused (LocalFsDriver.delete F path) s := by
  have hunlink : R.refusesRemoval (n :: dir) .unlink = true := by
    rw [Rights.refusesRemoval, halters]
    rfl
  have hrmdir : R.refusesRemoval (n :: dir) .rmdir = true := hunlink
  unfold LocalFsDriver.delete
  refine refused_door h hplain hin (.after ?_ fun r => ?_)
  · rw [wp_rescue]
    unfold Filesystem.stat
    rw [wp_bind]
    refine wp_attempt (fun _ => ?_) fun _ _ => rfl
    exact wp_find (fun _ _ _ _ => rfl) (fun _ => rfl) fun _ _ _ => rfl
  · obtain ⟨p, e⟩ := r
    cases e with
    | directory st =>
        unfold rmdirCall
        rw [hgoverned.attempt hrmdir]
        exact ((refused_throw _).rescue _).bind _
    | regular =>
        unfold unlinkCall
        rw [hgoverned.attempt hunlink]
        exact (refused_throw _).rescue _
    | _ => exact refused_throw _

/-- A rename is refused. -/
theorem refused_rename {src dst : String} {m : Name} {dir' : Place}
    (hgoverned : Governed F (R.refusesRename (n :: dir) (m :: dir')))
    (halters : (R.alters (n :: dir) && R.alters (m :: dir')) = false) (h : Shows rules v s)
    (hplain : v.Plain) (hsrc : Inside s src (n :: dir)) (hdst : Inside s dst (m :: dir')) :
    Refused (LocalFsDriver.rename F src dst) s := by
  have hc : R.refusesRename (n :: dir) (m :: dir') .rename = true := by
    rw [Rights.refusesRename, halters]
    rfl
  unfold LocalFsDriver.rename
  refine refused_door h hplain hsrc (refused_door h hplain hdst (.after idle_require fun _ => ?_))
  refine .after (wp_mono wp_statRegular (fun _ _ ht => ht.1) fun _ _ ht => ht) fun st => ?_
  refine Refused.bind ?_ _
  unfold renameCall Refused
  rw [hgoverned.attempt hc]
  exact rfl

/-- A copy is refused. -/
theorem refused_copy {src dst : String} {m : Name} {dir' : Place}
    (hgoverned : Governed F (R.refusesCopy v (n :: dir) (m :: dir')))
    (hgranted : (R.reads v (n :: dir) && R.alters (m :: dir')) = false) (h : Shows rules v s)
    (hplain : v.Plain) (hsrc : Inside s src (n :: dir)) (hdst : Inside s dst (m :: dir')) :
    Refused (LocalFsDriver.copy F src dst) s := by
  unfold LocalFsDriver.copy
  refine refused_door h hplain hsrc (refused_door h hplain hdst ?_)
  split
  · exact refused_throw _
  · refine .after idle_require fun mode => ?_
    rcases Bool.and_eq_false_iff.mp hgranted with hreads | halters
    · have hc : R.refusesCopy v (n :: dir) (m :: dir') .open_ = true := by
        rw [Rights.refusesCopy, hreads]
        rfl
      exact ((refused_contents hgoverned hc _).rescue _).bind _
    · have hc : R.refusesCopy v (n :: dir) (m :: dir') .create = true := by
        rw [Rights.refusesCopy, halters]
        rfl
      refine .after ?_ fun content => refused_replace hgoverned hc _ _ _ _
      rw [wp_rescue]
      exact idle_contents _

/-- A stat is refused. -/
theorem wp_remote_stat_refused (hgoverned : Governed F refused) (hc : refused .stat = true)
    (h : Shows rules v s) (hplain : v.Plain) (hready : Ready F F' v s path (n :: dir))
    (hline : '\n' ∉ path.toList) :
    wp (Remote.stat F path) (fun _ _ => False) (fun e t => t = s ∧ e ≠ .fileNotFound) s := by
  refine wp_requestAt hline hready.checked ?_
  unfold LocalFsDriver.stat
  rw [wp_bind]
  refine wp_door_plain h hplain hready.inside ?_
  unfold Filesystem.stat
  rw [hgoverned.attempt hc]
  exact ⟨rfl, nofun⟩

private theorem refused_existing {x : Session LocalFsDriver.StatResult}
    (hx : wp x (fun _ _ => False) (fun e t => t = s ∧ e ≠ .fileNotFound) s) :
    Refused (existing x) s := by
  unfold Refused existing
  rw [wp_rescue, wp_bind]
  refine wp_mono hx (fun _ _ hfalse => hfalse.elim) ?_
  rintro e t ⟨rfl, hne⟩
  rw [if_neg hne]
  exact rfl

/-- `open` through the sidecar, where something is refused. -/
theorem remote_open_refused {mode : OpenMode} {body : List UInt8}
    (hF : Governed F ((Method.open_ path mode body).refusedThere strip R v))
    (hF' : Governed F' ((Method.open_ path mode body).refusedUpload strip R))
    (hgranted : (Method.open_ path mode body).grantedThere strip R v = false)
    (h : Shows rules v s) (hplain : v.Plain) (hready : Ready F F' v s (strip path) (n :: dir))
    (hline : '\n' ∉ (strip path).toList) (hstrip : strip (strip path) = strip path) :
    Refused (Remote.opened strip F F' mode (strip path) body) s := by
  have hplace : placeOf (strip path) = n :: dir := placeOf_text hready.inside.path
  unfold Remote.opened
  rw [hstrip]
  cases mode with
  | rb =>
      simp only [Method.refusedThere, Method.grantedThere, hplace] at hF hgranted
      exact wp_mono (wp_remote_cat_refused hF hgranted h hplain hready hline)
        (fun _ _ hfalse => hfalse) fun _ _ he => he.1
  | wb =>
      simp only [Method.refusedUpload, Method.grantedThere, hplace] at hF' hgranted
      exact (refused_pipe hF' hgranted h hplain hready hline body).bind _
  | ab =>
      simp only [Method.refusedThere, Method.refusedUpload, Method.grantedThere,
        hplace] at hF hF' hgranted
      cases hreads : R.reads v (n :: dir) with
      | false =>
          refine Refused.bind ?_ _
          unfold Refused
          rw [wp_rescue]
          refine wp_mono (wp_remote_cat_refused hF hreads h hplain hready hline)
            (fun _ _ hfalse => hfalse.elim) ?_
          rintro e t ⟨rfl, hne⟩
          rw [if_neg hne]
          exact rfl
      | true =>
          rw [hreads, Bool.true_and] at hgranted
          refine .after ?_ fun _ => (refused_pipe hF' hgranted h hplain hready hline _).bind _
          rw [wp_rescue]
          refine wp_mono (wp_remote_cat (hF.calm (refusesRead_eq_false hreads)) h hplain hready
            hline) (fun _ _ ht => ht.1) ?_
          rintro e t ⟨rfl, -⟩
          split <;> exact rfl
  | xb =>
      simp only [Method.refusedThere, Method.refusedUpload, Method.grantedThere,
        hplace] at hF hF' hgranted
      cases hsearch : R.search (n :: dir) with
      | false =>
          rw [hsearch] at hF
          exact (refused_existing (wp_remote_stat_refused hF rfl h hplain hready hline)).bind _
      | true =>
          rw [hsearch] at hF
          have hcalm : F.Calm := hF.calm fun c => Bool.and_false _
          refine .after (wp_remote_exists hcalm h hplain hready hline rfl) fun b => ?_
          cases b with
          | true => exact refused_throw _
          | false => exact (refused_pipe hF' hgranted h hplain hready hline body).bind _

/-- A method that is refused something through the sidecar. -/
theorem remote_refused (hstrip : ∀ path, isAbsolute (strip path).toList = true →
      strip (strip path) = strip path)
    (hF : Governed F (m.refusedThere strip R v)) (hF' : Governed F' (m.refusedUpload strip R))
    (hgranted : m.grantedThere strip R v = false) (h : Shows rules v s) (hplain : v.Plain)
    (hpaths : ∀ path ∈ m.paths strip, ∃ n dir, Ready F F' v s path (n :: dir))
    (hlines : ∀ path ∈ m.urls strip, '\n' ∉ path.toList) : Refused (m.remote strip F F') s := by
  cases m with
  | catFile path start stop =>
      obtain ⟨n, dir, hready⟩ := hpaths _ List.mem_cons_self
      simp only [Method.refusedThere, Method.grantedThere, placeOf_text hready.inside.path]
        at hF hgranted
      exact Refused.bind (wp_mono (wp_remote_cat_refused hF hgranted h hplain hready
        (hlines _ List.mem_cons_self)) (fun _ _ hfalse => hfalse) fun _ _ he => he.1) _
  | pipeFile path value =>
      obtain ⟨n, dir, hready⟩ := hpaths _ List.mem_cons_self
      simp only [Method.refusedThere, Method.grantedThere, placeOf_text hready.inside.path]
        at hF hgranted
      have hparent : Ready F F v s (strip path) (n :: dir) :=
        ⟨hready.checked, hready.inside, hready.first, hready.first⟩
      exact (refused_pipe hF hgranted h hplain hparent (hlines _ List.mem_cons_self) value).map _
  | rmFile path =>
      obtain ⟨n, dir, hready⟩ := hpaths _ List.mem_cons_self
      simp only [Method.refusedThere, Method.grantedThere, placeOf_text hready.inside.path]
        at hF hgranted
      refine Refused.map ?_ _
      exact wp_requestAt (hlines _ List.mem_cons_self) hready.checked
        (refused_delete hF hgranted h hplain hready.inside)
  | mv path1 path2 =>
      obtain ⟨n, dir, hready⟩ := hpaths _ List.mem_cons_self
      obtain ⟨n', dir', hready'⟩ := hpaths _ (List.mem_cons_of_mem _ List.mem_cons_self)
      simp only [Method.refusedThere, Method.grantedThere, placeOf_text hready.inside.path,
        placeOf_text hready'.inside.path] at hF hgranted
      exact (refused_request ((refused_rename hF hgranted h hplain hready.inside
        hready'.inside).map _) _).map _
  | cpFile path1 path2 =>
      obtain ⟨n, dir, hready⟩ := hpaths _ List.mem_cons_self
      obtain ⟨n', dir', hready'⟩ := hpaths _ (List.mem_cons_of_mem _ List.mem_cons_self)
      simp only [Method.refusedThere, Method.grantedThere, placeOf_text hready.inside.path,
        placeOf_text hready'.inside.path] at hF hgranted
      exact (refused_request ((refused_copy hF hgranted h hplain hready.inside
        hready'.inside).map _) _).map _
  | exists_ path =>
      obtain ⟨n, dir, hready⟩ := hpaths _ List.mem_cons_self
      have hc : (Method.exists_ path).refusedThere strip R v .stat = true := by
        simpa [Method.refusedThere, Method.grantedThere] using hgranted
      exact (refused_existing (wp_remote_stat_refused hF hc h hplain hready
        (hlines _ List.mem_cons_self))).map _
  | info path =>
      obtain ⟨n, dir, hready⟩ := hpaths _ List.mem_cons_self
      have hc : (Method.info path).refusedThere strip R v .stat = true := by
        simpa [Method.refusedThere, Method.grantedThere] using hgranted
      exact Refused.map (wp_mono (wp_remote_stat_refused hF hc h hplain hready
        (hlines _ List.mem_cons_self)) (fun _ _ hfalse => hfalse) fun _ _ he => he.1) _
  | open_ path mode body =>
      obtain ⟨n, dir, hready⟩ := hpaths _ List.mem_cons_self
      have habsolute : isAbsolute (strip path).toList = true := by
        rw [hready.inside.path]
        exact isAbsolute_text _
      exact (remote_open_refused hF hF' hgranted h hplain hready (hlines _ List.mem_cons_self)
        (hstrip path habsolute)).map _

/-! ### What the method does, as far as it is granted -/

/-- Nothing is written where something is in the way. -/
theorem meaning_eq_none (hlands : ¬ m.Lands strip v) : m.meaning strip rules v = none := by
  have hwrite : ∀ {p : Place} {content : List UInt8} {fresh : ℕ} {kept : ℕ → ℕ},
      ¬ v.isDir p = false → v.write p content fresh kept = none := by
    intro p content fresh kept hdir
    unfold View.isDir at hdir
    unfold View.write
    split at hdir
    · rename_i st hobject
      rw [hobject]
    · exact absurd rfl hdir
  cases m with
  | pipeFile path value =>
      rw [Method.meaning, replaced, hwrite hlands]
      rfl
  | cpFile path1 path2 =>
      have hnone : ∀ f : Regular, v.write (placeOf (strip path2)) f.content
          (rules.filled (rules.created f.mode) f.content) rules.granted = none :=
        fun f => hwrite hlands
      rw [Method.meaning, copied]
      split
      · rfl
      · simp only [hnone, Option.bind_fun_none, Option.map_none]
  | open_ path mode body =>
      cases mode with
      | rb => exact absurd trivial hlands
      | wb | ab =>
          rw [Method.meaning, opening, replaced, hwrite hlands]
          rfl
      | xb =>
          obtain ⟨o, ho⟩ := Option.ne_none_iff_exists'.mp hlands
          rw [Method.meaning, opening, create_of_some ho]
          rfl
  | _ => exact absurd trivial hlands

/-- The local file system does what is said where all is granted, and raises where it is not. -/
theorem fallback_does_granted (hgoverned : Governed L.faults (m.refusedHere strip R v))
    (h : Shows rules v s) (hplain : v.Plain)
    (hpaths : ∀ path ∈ m.paths strip, ∃ n dir, path.toList = text (n :: dir))
    (hfair : m.Fair strip s) :
    wp (m.fallback strip L)
      (fun r t => m.grantedHere strip R v = true ∧
        ∃ w, m.meaning strip rules v = some (r, w) ∧ Shows rules w t)
      (fun _ t => Shows rules v t ∧ (m.grantedHere strip R v = true →
        ∀ r w, m.meaning strip rules v = some (r, w) → w = v)) s := by
  cases hgranted : m.grantedHere strip R v with
  | true =>
      refine wp_mono (fallback_does (hgoverned.calm (refusedHere_eq_false hgranted)) h hplain hpaths
        hfair) (fun _ _ ht => ⟨rfl, ht⟩) fun _ _ ht => ⟨ht.1, fun _ => ht.2⟩
  | false =>
      refine wp_mono (fallback_refused hgoverned hgranted) (fun _ _ hfalse => hfalse.elim) ?_
      rintro _ t rfl
      exact ⟨h, fun hfalse => absurd hfalse Bool.false_ne_true⟩

/-- The sidecar does what is said where all is granted, and raises where it is not. -/
theorem remote_does_granted (hstrip : ∀ path, isAbsolute (strip path).toList = true →
      strip (strip path) = strip path)
    (hF : Governed F (m.refusedThere strip R v)) (hF' : Governed F' (m.refusedUpload strip R))
    (h : Shows rules v s) (hplain : v.Plain)
    (hpaths : ∀ path ∈ m.paths strip, ∃ n dir, Ready F F' v s path (n :: dir))
    (hlines : ∀ path ∈ m.urls strip, '\n' ∉ path.toList)
    (hspecial : ∀ path1 path2, m = .mv path1 path2 →
      v.object (placeOf (strip path2)) ≠ some .special) :
    wp (m.remote strip F F')
      (fun r t => m.grantedThere strip R v = true ∧
        ∃ w, m.meaning strip rules v = some (r, w) ∧ Shows rules w t)
      (fun _ t => Shows rules v t ∧
        (m.grantedThere strip R v = true → m.meaning strip rules v = none)) s := by
  cases hgranted : m.grantedThere strip R v with
  | true =>
      refine wp_mono (remote_does hstrip (hF.calm (refusedThere_eq_false hgranted))
        (hF'.calm (refusedUpload_eq_false hgranted)) h hplain hpaths hlines hspecial)
        (fun _ _ ht => ⟨rfl, ht⟩) fun _ _ ht => ⟨ht.2, fun _ => ht.1⟩
  | false =>
      refine wp_mono (remote_refused hstrip hF hF' hgranted h hplain hpaths hlines)
        (fun _ _ hfalse => hfalse.elim) ?_
      rintro _ t rfl
      exact ⟨h, fun hfalse => absurd hfalse Bool.false_ne_true⟩

end Refused

end Jetty.Fsspec
