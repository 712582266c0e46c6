import Jetty.Fsspec.Meaning
import Jetty.Modules.Filesystem.Contents
import Jetty.Modules.Filesystem.Root

/-!
# Histories

What clients are told, request after request. On a tree without links, whichever system calls fail,
every history is one of a plain store: a map from paths to contents, that each request looks at or
changes as a whole.
-/

namespace Jetty.Filesystem

open Files Effects Transition Fsspec

/-! ### The surface -/

/-- What a request is answered with. -/
inductive Answer
  | content (data : List UInt8)
  | found (stat : LocalFsDriver.StatResult)
  | written (result : WriteResult)
  | deleted
  | renamed (created : Bool)
  | handedOut (place : Place)
deriving DecidableEq

/-- What a request is refused with. -/
inductive Refusal
  | invalid (error : InvalidPath)
  | driver (error : DriverError)
deriving DecidableEq

/-- The operation, with what it returns. -/
def Operation.answer (F : Faults) : Operation → Serving Answer
  | read path => .content <$> LocalFsDriver.read F path
  | stat path => .found <$> LocalFsDriver.stat F path
  | write path content => .written <$> LocalFsDriver.write F path content
  | delete path => (fun _ => .deleted) <$> LocalFsDriver.delete F path
  | rename src dst => .renamed <$> LocalFsDriver.rename F src dst
  | copy src dst => .written <$> LocalFsDriver.copy F src dst
  | mkdtemp dev ino => .handedOut <$> LocalFsDriver.mkdtemp F dev ino

/-- A request and what the client is told. -/
structure Exchange where
  request : Request
  reply : Except Refusal Answer

/-- The routes: the paths are checked, and the driver is called. -/
def Server.exchange (s : Server) (r : Request) : Except Refusal Answer × Server :=
  match r.operation.doors.mapM checkPath with
  | .error e => (.error (.invalid e), s)
  | .ok _ =>
    match outcome (r.operation.answer r.faults) s with
    | (.ok answer, t) => (.ok answer, t)
    | (.error e, t) => (.error (.driver e), t)

/-- Every sequence of requests with their replies. -/
def Exchanges : Transition.Rel Server Exchange := fun s e t => s.exchange e.request = (e.reply, t)

/-! ### The store -/

/-- Why a store that has the file may refuse a request that reads it or deletes it: the path is not
served, or a system call failed. -/
def Excused (f : Contents) (r : Request) (refusal : Refusal) : Prop :=
  match r.operation, refusal with
  | .read path, .driver e | .stat path, .driver e | .delete path, .driver e =>
    Reasoned r.faults f (placeOf path) e
  | _, _ => True

/-- What a store does: a map from places to contents, of which each reply tells the truth, and
which changes with the requests that are granted and with no others. -/
inductive Stores : Transition.Rel Contents Exchange
  | refused {f : Contents} {r : Request} {refusal : Refusal} (h : Excused f r refusal) :
    Stores f ⟨r, .error refusal⟩ f
  | read {f : Contents} {F : Faults} {path : String} {data : List UInt8}
    (h : f (placeOf path) = some data) : Stores f ⟨⟨F, .read path⟩, .ok (.content data)⟩ f
  | stat {f : Contents} {F : Faults} {path : String} {found : LocalFsDriver.StatResult}
    (h : found.file.map Regular.content = f (placeOf path)) :
    Stores f ⟨⟨F, .stat path⟩, .ok (.found found)⟩ f
  | write {f : Contents} {F : Faults} {path : String} {content : List UInt8} :
    Stores f ⟨⟨F, .write path content⟩,
      .ok (.written ⟨content.length, (f (placeOf path)).isNone⟩)⟩
      (Function.update f (placeOf path) (some content))
  | delete {f : Contents} {F : Faults} {path : String} :
    Stores f ⟨⟨F, .delete path⟩, .ok .deleted⟩ (Function.update f (placeOf path) none)
  | rename {f : Contents} {F : Faults} {src dst : String} (h : (f (placeOf src)).isSome = true) :
    Stores f ⟨⟨F, .rename src dst⟩, .ok (.renamed (f (placeOf dst)).isNone)⟩
      (Function.update (Function.update f (placeOf src) none) (placeOf dst) (f (placeOf src)))
  | copy {f : Contents} {F : Faults} {src dst : String} {content : List UInt8}
    (h : f (placeOf src) = some content) (hne : placeOf src ≠ placeOf dst) :
    Stores f ⟨⟨F, .copy src dst⟩, .ok (.written ⟨content.length, (f (placeOf dst)).isNone⟩)⟩
      (Function.update f (placeOf dst) (some content))
  | mkdtemp {f : Contents} {F : Faults} {dev ino : ℕ} {place : Place} :
    Stores f ⟨⟨F, .mkdtemp dev ino⟩, .ok (.handedOut place)⟩ f

/-! ### Temporary files -/

section Histories

variable {temp : Set Name} {s t : Server} {v w : View Stat} {f g : Contents} {p q : Place}
  {F : Faults} {e : Exchange} {es : List Exchange}

/-- The last name is not one for temporary files. -/
def Named (temp : Set Name) (p : Place) : Prop := ∀ n ∈ p.head?, n ∉ temp

/-- Only names for temporary files are drawn, and no request has such a name. -/
structure Exchange.Decent (temp : Set Name) (e : Exchange) : Prop where
  drawn : ∀ k ∈ e.request.faults.names, k ∈ temp
  named : ∀ path ∈ e.request.operation.doors, Named temp (placeOf path)

/-- The contents are the same, but for temporary files. -/
def Agree (temp : Set Name) (f g : Contents) : Prop := ∀ p, Named temp p → f p = g p

private theorem Agree.update (h : Agree temp f g) (p : Place) (content : Option (List UInt8)) :
    Agree temp (Function.update f p content) (Function.update g p content) := by
  intro q hq
  by_cases hqp : q = p
  · rw [hqp, Function.update_self, Function.update_self]
  · rw [Function.update_of_ne hqp, Function.update_of_ne hqp]
    exact h q hq

/-- What is left over is a temporary file. -/
theorem Leftover.agree (h : Leftover F v w) (hdrawn : ∀ k ∈ F.names, k ∈ temp)
    (hv : Agree temp (contentsOf v) f) : Agree temp (contentsOf w) f := by
  rcases h with rfl | ⟨k, hk, dir, file, -, rfl⟩
  · exact hv
  · intro q hq
    rw [contentsOf_store, Function.update_of_ne]
    · exact hv q hq
    · rintro rfl
      exact hq k rfl (hdrawn k hk)

private theorem Leftover.clean (h : Leftover F v w) (hv : Clean v) : Clean w := by
  rcases h with rfl | ⟨k, -, dir, file, -, rfl⟩
  · exact hv
  · exact hv.store _ file

private theorem Reasoned.agree {refusal : DriverError} (h : Reasoned F f p refusal)
    (hfg : f p = g p) : Reasoned F g p refusal := by
  intro hcalm
  rw [← hfg]
  exact h hcalm

/-! ### One request -/

/-- The server has what the store has. -/
structure Mirrors (temp : Set Name) (s : Server) (f : Contents) : Prop where
  clean : Clean s.machine.disk.view
  agree : Agree temp (contentsOf s.machine.disk.view) f

private theorem Mirrors.of_shows (hclean : Clean w) (hagree : Agree temp (contentsOf w) f)
    (h : Shows s.machine.modes w t) : Mirrors temp t f := by
  refine ⟨?_, ?_⟩ <;> rw [h.view]
  · exact hclean
  · exact hagree

/-- The store can tell and do what the server has told and done. -/
def Follows (temp : Set Name) (f : Contents) (r : Request) (reply : Except Refusal Answer)
    (t : Server) : Prop :=
  ∃ g, Stores f ⟨r, reply⟩ g ∧ Mirrors temp t g

private theorem path_of_check {path : String} (h : (checkPath path).isOk = true) :
    ∃ n dir, path.toList = text (n :: dir) ∧ placeOf path = n :: dir := by
  obtain ⟨n, dir, hpath⟩ := exists_text_of_checkPath h
  exact ⟨n, dir, hpath, placeOf_text hpath⟩

/-- What a request tells and does is what the store tells and does. -/
theorem follows_answer {op : Operation} (h : Mirrors temp s f)
    (hdrawn : ∀ k ∈ F.names, k ∈ temp) (hnamed : ∀ path ∈ op.doors, Named temp (placeOf path))
    (hchecked : ∀ path ∈ op.doors, (checkPath path).isOk = true) :
    wp (op.answer F) (fun a => Follows temp f ⟨F, op⟩ (.ok a))
      (fun e => Follows temp f ⟨F, op⟩ (.error (.driver e))) s := by
  obtain ⟨hclean, hagree⟩ := h
  have hshows : Shows s.machine.modes s.machine.disk.view s := ⟨rfl, rfl⟩
  have hleft : ∀ {refusal : Refusal}, Excused f ⟨F, op⟩ refusal → ∀ t,
      (∃ w, Leftover F s.machine.disk.view w ∧ Shows s.machine.modes w t) →
        Follows temp f ⟨F, op⟩ (.error refusal) t := by
    rintro refusal hexcused t ⟨w, hleftover, ht⟩
    exact ⟨f, .refused hexcused, .of_shows (hleftover.clean hclean)
      (hleftover.agree hdrawn hagree) ht⟩
  have hsame : ∀ {refusal : Refusal}, Excused f ⟨F, op⟩ refusal → ∀ t,
      Shows s.machine.modes s.machine.disk.view t → Follows temp f ⟨F, op⟩ (.error refusal) t :=
    fun hexcused t ht => hleft hexcused t ⟨_, .inl rfl, ht⟩
  cases op with
  | read path =>
      obtain ⟨n, dir, hpath, hplace⟩ := path_of_check (hchecked path List.mem_cons_self)
      have hsee := hagree _ (hplace ▸ hnamed path List.mem_cons_self)
      unfold Operation.answer
      rw [wp_map]
      refine wp_mono (wp_read_clean hshows hclean.plain hpath) ?_ ?_
      · rintro data t ⟨hdata, ht⟩
        exact ⟨f, .read (by rw [hplace, ← hsee, hdata]), .of_shows hclean hagree ht⟩
      · rintro e t ⟨hreason, ht⟩
        exact hsame (by rw [← hplace] at hreason hsee; exact hreason.agree hsee) t ht
  | stat path =>
      obtain ⟨n, dir, hpath, hplace⟩ := path_of_check (hchecked path List.mem_cons_self)
      have hsee := hagree _ (hplace ▸ hnamed path List.mem_cons_self)
      unfold Operation.answer
      rw [wp_map]
      refine wp_mono (wp_stat_clean hshows hclean.plain hpath) ?_ ?_
      · rintro found t ⟨hfound, ht⟩
        exact ⟨f, .stat (by rw [hplace, ← hsee, hfound]), .of_shows hclean hagree ht⟩
      · rintro e t ⟨hreason, ht⟩
        exact hsame (by rw [← hplace] at hreason hsee; exact hreason.agree hsee) t ht
  | write path content =>
      obtain ⟨n, dir, hpath, hplace⟩ := path_of_check (hchecked path List.mem_cons_self)
      have hsee := hagree _ (hplace ▸ hnamed path List.mem_cons_self)
      unfold Operation.answer
      rw [wp_map]
      refine wp_mono (wp_write_clean hshows hclean.plain hpath) ?_ fun e t ht => hleft trivial t ht
      rintro _ t ⟨rfl, file, hfile, ht⟩
      rw [hsee, ← hplace]
      refine ⟨_, .write, .of_shows (hclean.store _ file) ?_ ht⟩
      rw [contentsOf_store, hfile, hplace]
      exact hagree.update _ _
  | delete path =>
      obtain ⟨n, dir, hpath, hplace⟩ := path_of_check (hchecked path List.mem_cons_self)
      have hsee := hagree _ (hplace ▸ hnamed path List.mem_cons_self)
      unfold Operation.answer
      rw [wp_map]
      refine wp_mono (wp_delete_clean hshows hclean.plain hpath) ?_ ?_
      · intro _ t ht
        refine ⟨_, .delete, .of_shows (hclean.drop _) ?_ ht⟩
        rw [contentsOf_drop, hplace]
        exact hagree.update _ _
      · rintro e t ⟨hreason, ht⟩
        exact hsame (by rw [← hplace] at hreason hsee; exact hreason.agree hsee) t ht
  | rename src dst =>
      obtain ⟨n, dir, hsrc, hsrcPlace⟩ := path_of_check (hchecked src List.mem_cons_self)
      obtain ⟨m, dir', hdst, hdstPlace⟩ :=
        path_of_check (hchecked dst (List.mem_cons_of_mem _ List.mem_cons_self))
      have hsee := hagree _ (hsrcPlace ▸ hnamed src List.mem_cons_self)
      have hsee' := hagree _ (hdstPlace ▸ hnamed dst (List.mem_cons_of_mem _ List.mem_cons_self))
      unfold Operation.answer
      rw [wp_map]
      refine wp_mono (wp_rename_clean hshows hclean hsrc hdst) ?_ fun e t ht => hsame trivial t ht
      rintro _ t ⟨rfl, hsome, w, hw, hcontents, ht⟩
      rw [hsee] at hsome hcontents
      rw [hsee', ← hdstPlace]
      refine ⟨_, .rename (by rw [hsrcPlace, hsome]), .of_shows hw ?_ ht⟩
      rw [hcontents, hsrcPlace, hdstPlace]
      exact (hagree.update _ _).update _ _
  | copy src dst =>
      obtain ⟨n, dir, hsrc, hsrcPlace⟩ := path_of_check (hchecked src List.mem_cons_self)
      obtain ⟨m, dir', hdst, hdstPlace⟩ :=
        path_of_check (hchecked dst (List.mem_cons_of_mem _ List.mem_cons_self))
      have hsee := hagree _ (hsrcPlace ▸ hnamed src List.mem_cons_self)
      have hsee' := hagree _ (hdstPlace ▸ hnamed dst (List.mem_cons_of_mem _ List.mem_cons_self))
      unfold Operation.answer
      rw [wp_map]
      refine wp_mono (wp_copy_clean hshows hclean.plain hsrc hdst) ?_
        fun e t ht => hleft trivial t ht
      rintro _ t ⟨hne, content, hcontent, rfl, file, hfile, ht⟩
      rw [hsee', ← hdstPlace]
      refine ⟨_, .copy (by rw [hsrcPlace, ← hsee, hcontent]) (by rwa [hsrcPlace, hdstPlace]),
        .of_shows (hclean.store _ file) ?_ ht⟩
      rw [contentsOf_store, hfile, hdstPlace]
      exact hagree.update _ _
  | mkdtemp dev ino =>
      unfold Operation.answer
      rw [wp_map]
      refine wp_mono (wp_mkdtemp_clean hshows hclean) ?_ ?_
      · rintro place t ⟨w, hw, hcontents, ht⟩
        exact ⟨f, .mkdtemp, .of_shows hw (hcontents ▸ hagree) ht⟩
      · rintro e t ⟨w, hw, hcontents, ht⟩
        exact ⟨f, .refused trivial, .of_shows hw (hcontents ▸ hagree) ht⟩

private theorem checked_of_mapM {paths checked : List String}
    (h : paths.mapM checkPath = .ok checked) : ∀ path ∈ paths, (checkPath path).isOk = true := by
  induction paths generalizing checked with
  | nil => exact fun path hpath => absurd hpath List.not_mem_nil
  | cons path paths ih =>
      rw [List.mapM_cons] at h
      cases hpath : checkPath path with
      | error e =>
          rw [hpath] at h
          cases h
      | ok p =>
          rw [hpath] at h
          cases hrest : paths.mapM checkPath with
          | error e =>
              rw [hrest] at h
              cases h
          | ok rest =>
              refine List.forall_mem_cons.mpr ⟨?_, ih hrest⟩
              rw [hpath]
              rfl

private theorem follows_exchange (h : Mirrors temp s f) (hdecent : e.Decent temp)
    (hst : Exchanges s e t) : ∃ g, Stores f e g ∧ Mirrors temp t g := by
  obtain ⟨⟨F, op⟩, reply⟩ := e
  unfold Exchanges Server.exchange at hst
  dsimp only at hst
  cases hcheck : op.doors.mapM checkPath with
  | error invalid =>
      rw [hcheck] at hst
      obtain ⟨rfl, rfl⟩ := Prod.mk.inj hst
      refine ⟨f, .refused ?_, h⟩
      cases op <;> exact trivial
  | ok checked =>
      have hfollows := follows_answer h hdecent.drawn hdecent.named (checked_of_mapM hcheck)
      rw [hcheck] at hst
      dsimp only at hst
      unfold wp at hfollows
      rcases hout : outcome (op.answer F) s with ⟨error | answer, u⟩ <;>
        rw [hout] at hst hfollows <;> obtain ⟨rfl, rfl⟩ := Prod.mk.inj hst <;> exact hfollows

/-! ### Histories -/

/-- On a tree without links and without second names, whichever system calls fail in whichever
requests, every history that clients see is one of a plain store of contents, which begins with what
the files have in them; and what the files have in them at the end, temporary files aside, is what
the store has. -/
theorem history_of_store (hclean : Clean s.machine.disk.view)
    (h : Run (Exchanges.within fun _ e => e.Decent temp) s es t) :
    ∃ f, Run Stores (contentsOf s.machine.disk.view) es f ∧
      Clean t.machine.disk.view ∧ Agree temp (contentsOf t.machine.disk.view) f := by
  obtain ⟨f, hrun, hmirrors⟩ := h.refine (Mirrors temp) ⟨hclean, fun _ _ => rfl⟩
    fun s e t f hmirrors hst => follows_exchange hmirrors hst.1 hst.2
  exact ⟨f, hrun, hmirrors.clean, hmirrors.agree⟩

end Histories

/-! A file is written, and once more, which fails and leaves a temporary file; and it is read. -/

private theorem clean_setuidServer : Clean setuidServer.machine.disk.view :=
  ⟨Disk.view_plain.mpr (Tree.plain_ofEntries (by decide) (by simp)),
    fun _ _ hshared => Disk.eq_of_shared_ofEntries (by decide) hshared⟩

/-- The rename of a temporary file fails, and so does its removal. -/
def hampered : Faults where
  fails c := if c = .rename ∨ c = .tidy then some .denied else none
  reached _ := 0
  names := [drawn]

def writtenTwice : List Exchange :=
  [⟨⟨smooth [drawn], .write "/srv/b" [2]⟩, .ok (.written ⟨1, true⟩)⟩,
    ⟨⟨hampered, .write "/srv/b" [3]⟩, .error (.driver (.permissionDenied "/srv/b"))⟩,
    ⟨⟨smooth [], .read "/srv/b"⟩, .ok (.content [2])⟩]

private theorem exchanges_of_reply (s : Server) (r : Request) (reply : Except Refusal Answer)
    (h : (s.exchange r).1 = reply) : Exchanges s ⟨r, reply⟩ (s.exchange r).2 := Prod.ext h rfl

/-- A write that fails after its temporary file leaves what the store has. -/
theorem history_of_store_hampered : ∃ t f,
    Run (Exchanges.within fun _ e => e.Decent {drawn}) setuidServer writtenTwice t ∧
      t.machine.disk.tree.entry [drawn, srv] = some .regular ∧
      Run Stores (contentsOf setuidServer.machine.disk.view) writtenTwice f ∧
      Agree {drawn} (contentsOf t.machine.disk.view) f := by
  have hnamed : Named {drawn} (placeOf "/srv/b") := by
    have hplace : placeOf "/srv/b" = [.of ['b'], srv] := by decide +kernel
    rw [hplace]
    intro n hn hdrawn
    obtain rfl := Option.some.inj hn
    revert hdrawn
    decide
  have hdecent : ∀ e ∈ writtenTwice, e.Decent {drawn} := by
    intro e he
    refine ⟨?_, fun path hpath => ?_⟩
    · revert e
      decide +kernel
    · have hdoors : ∀ e ∈ writtenTwice, e.request.operation.doors = ["/srv/b"] := by
        decide +kernel
      rw [hdoors e he] at hpath
      rwa [List.mem_singleton.mp hpath]
  have hfirst := exchanges_of_reply setuidServer ⟨smooth [drawn], .write "/srv/b" [2]⟩
    (.ok (.written ⟨1, true⟩)) (by decide +kernel)
  have hsecond := exchanges_of_reply
    (setuidServer.exchange ⟨smooth [drawn], .write "/srv/b" [2]⟩).2
    ⟨hampered, .write "/srv/b" [3]⟩ (.error (.driver (.permissionDenied "/srv/b")))
    (by decide +kernel)
  have hthird := exchanges_of_reply
    ((setuidServer.exchange ⟨smooth [drawn], .write "/srv/b" [2]⟩).2.exchange
      ⟨hampered, .write "/srv/b" [3]⟩).2
    ⟨smooth [], .read "/srv/b"⟩ (.ok (.content [2])) (by decide +kernel)
  have hrun : Run (Exchanges.within fun _ e => e.Decent {drawn}) setuidServer writtenTwice _ :=
    .cons ⟨hdecent _ (by simp [writtenTwice]), hfirst⟩
      (.cons ⟨hdecent _ (by simp [writtenTwice]), hsecond⟩
        (.cons ⟨hdecent _ (by simp [writtenTwice]), hthird⟩ .nil))
  obtain ⟨f, hstores, -, hagree⟩ := history_of_store clean_setuidServer hrun
  exact ⟨_, f, hrun, by decide +kernel, hstores, hagree⟩

end Jetty.Filesystem
