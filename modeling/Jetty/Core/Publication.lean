import Jetty.Core.Transition
import Mathlib.Data.List.Basic
import Mathlib.Data.List.Induction
import Mathlib.Logic.Function.Basic

/-!
# Publication by renaming

Processes share a directory. What is published under a name is first written to a temporary file
of its own, piece by piece, and then renamed; readers open the published file and read it piece by
piece. The directory stands for a shelf on which every name has one value: whoever reads to the
end has read what lay there when the file was opened.
-/

namespace Publication

open Transition

variable {ι κ α : Type*}

/-- The paths of a name: where it is published, and the temporary one. -/
structure Names (ι κ : Type*) where
  final : κ → ι
  temp : κ → ι
  final_injective : Function.Injective final
  temp_injective : Function.Injective temp
  final_ne_temp : ∀ k k', final k ≠ temp k'

/-- Where a process is. -/
inductive Pc (κ α : Type*)
  | idle
  /-- The temporary file is open; so much of the payload is in it. -/
  | writing (k : κ) (inode : ℕ) (payload : List α) (offset : ℕ)
  /-- The temporary file is closed. -/
  | written (k : κ) (payload : List α)
  /-- The published file is open, if there was one; so much of it has been read. -/
  | reading (k : κ) (inode : Option ℕ) (got : List α)
deriving DecidableEq

/-- The process is between the temporary file and its renaming. -/
def Pc.makes (k : κ) : Pc κ α → Prop
  | writing k' _ _ _ | written k' _ => k' = k
  | idle | reading _ _ _ => False

/-- What the process is about to publish. -/
def Pc.carries : Pc κ α → Option (κ × List α)
  | writing k _ payload _ | written k payload => some (k, payload)
  | idle | reading _ _ _ => none

private theorem Pc.makes.carries {c : Pc κ α} {k : κ} (h : c.makes k) :
    ∃ payload, c.carries = some (k, payload) := by
  cases c with
  | writing k' inode payload offset => exact ⟨payload, by rw [Pc.carries, show k' = k from h]⟩
  | written k' payload => exact ⟨payload, by rw [Pc.carries, show k' = k from h]⟩
  | idle | reading => exact absurd h id

inductive Act (κ α : Type*)
  /-- The temporary file is opened, and cut to nothing if it is there. -/
  | create (k : κ) (payload : List α)
  | put (count : ℕ)
  | close
  | replace (k : κ) (payload : List α)
  /-- The process stops at what it does: something is raised, or it ends. -/
  | abandon
  | remove (k : κ)
  /-- The published file is opened. -/
  | look (k : κ)
  | get (count : ℕ)
  /-- The reader is at the end; nothing if there was no file. -/
  | answer (k : κ) (result : Option (List α))
deriving DecidableEq

abbrev Event (κ α : Type*) := ℕ × Act κ α

structure Directory (ι κ α : Type*) where
  entry : ι → Option ℕ
  content : ℕ → List α
  /-- No inode from here on has been used. -/
  fresh : ℕ
  pc : ℕ → Pc κ α

/-- Writing at an offset; what lies between is a hole. -/
def writeAt (hole : α) (xs : List α) (offset : ℕ) (piece : List α) : List α :=
  xs.take offset ++ List.replicate (offset - xs.length) hole ++ piece ++
    xs.drop (offset + piece.length)

namespace Directory

def goto (s : Directory ι κ α) (p : ℕ) (pc : Pc κ α) : Directory ι κ α :=
  { s with pc := Function.update s.pc p pc }

def fill (s : Directory ι κ α) (inode : ℕ) (xs : List α) : Directory ι κ α :=
  { s with content := Function.update s.content inode xs }

def link [DecidableEq ι] (s : Directory ι κ α) (x : ι) (inode : Option ℕ) : Directory ι κ α :=
  { s with entry := Function.update s.entry x inode }

/-- A path on a new inode. -/
def start [DecidableEq ι] (s : Directory ι κ α) (x : ι) : Directory ι κ α :=
  ({ s with fresh := s.fresh + 1 }.fill s.fresh []).link x (some s.fresh)

/-- The renaming of a temporary file. -/
def rename [DecidableEq ι] (N : Names ι κ) (s : Directory ι κ α) (k : κ) (inode : ℕ) :
    Directory ι κ α :=
  (s.link (N.temp k) none).link (N.final k) (some inode)

/-- One step of a process. A renaming that finds no temporary file raises: the process abandons
it. -/
def step [DecidableEq ι] [DecidableEq κ] [DecidableEq α] (N : Names ι κ) (hole : α)
    (s : Directory ι κ α) :
    Event κ α → Option (Directory ι κ α)
  | (p, a) =>
    match s.pc p, a with
    | .idle, .create k payload =>
      match s.entry (N.temp k) with
      | some inode => some ((s.fill inode []).goto p (.writing k inode payload 0))
      | none =>
        some ((s.start (N.temp k)).goto p (.writing k s.fresh payload 0))
    | .writing k inode payload offset, .put count =>
      let piece := (payload.drop offset).take count
      some ((s.fill inode (writeAt hole (s.content inode) offset piece)).goto p
        (.writing k inode payload (offset + piece.length)))
    | .writing k _ payload offset, .close =>
      if payload.length ≤ offset then some (s.goto p (.written k payload)) else none
    | .written k payload, .replace k' payload' =>
      if k' = k ∧ payload' = payload then
        (s.entry (N.temp k)).map fun inode => (s.rename N k inode).goto p .idle
      else none
    | _, .abandon => some (s.goto p .idle)
    | .idle, .remove k => some ((s.link (N.final k) none).goto p .idle)
    | .idle, .look k => some (s.goto p (.reading k (s.entry (N.final k)) []))
    | .reading k (some inode) got, .get count =>
      some (s.goto p (.reading k (some inode)
        (got ++ ((s.content inode).drop got.length).take count)))
    | .reading k none _, .answer k' result =>
      if k' = k ∧ result = none then some (s.goto p .idle) else none
    | .reading k (some inode) got, .answer k' result =>
      if k' = k ∧ result = some got ∧ (s.content inode).length ≤ got.length then
        some (s.goto p .idle)
      else none
    | _, _ => none

/-- Nobody else makes the name that a process begins to write. -/
def Alone (s : Directory ι κ α) : Event κ α → Prop
  | (_, .create k _) => ∀ q, ¬ (s.pc q).makes k
  | _ => True

/-- Nothing is under way. -/
structure Quiet (s : Directory ι κ α) : Prop where
  used : ∀ x inode, s.entry x = some inode → inode < s.fresh
  apart : ∀ x y inode, s.entry x = some inode → s.entry y = some inode → x = y
  idle : ∀ p, s.pc p = .idle

end Directory

/-! ### The shelf -/

/-- Every name has a value or none; a process has looked at one. -/
structure Shelf (κ α : Type*) where
  value : κ → Option (List α)
  seen : ℕ → Option (κ × Option (List α))

/-- What the acts are to the shelf. -/
def Shelf.step [DecidableEq κ] [DecidableEq α] (a : Shelf κ α) : Event κ α → Option (Shelf κ α)
  | (_, .replace k payload) => some { a with value := Function.update a.value k (some payload) }
  | (_, .remove k) => some { a with value := Function.update a.value k none }
  | (p, .look k) => some { a with seen := Function.update a.seen p (some (k, a.value k)) }
  | (p, .answer k result) =>
    if a.seen p = some (k, result) then some { a with seen := Function.update a.seen p none }
    else none
  | (p, .abandon) => some { a with seen := Function.update a.seen p none }
  | (_, .create _ _) | (_, .put _) | (_, .close) | (_, .get _) => some a

namespace Directory

/-- What a reader will have read in the end. -/
def seenAt (s : Directory ι κ α) : Pc κ α → Option (κ × Option (List α))
  | .reading k inode _ => some (k, inode.map s.content)
  | .idle | .writing _ _ _ _ | .written _ _ => none

def shelf (N : Names ι κ) (s : Directory ι κ α) : Shelf κ α where
  value k := (s.entry (N.final k)).map s.content
  seen p := s.seenAt (s.pc p)

/-! ### The invariant -/

/-- What holds of a process at each place. -/
def Sound (N : Names ι κ) (s : Directory ι κ α) : Pc κ α → Prop
  | .idle => True
  | .writing k inode payload offset =>
    s.entry (N.temp k) = some inode ∧ s.content inode = payload.take offset ∧
      offset ≤ payload.length
  | .written k payload => ∃ inode, s.entry (N.temp k) = some inode ∧ s.content inode = payload
  | .reading _ none _ => True
  | .reading _ (some inode) got =>
    inode < s.fresh ∧ (∀ k, s.entry (N.temp k) ≠ some inode) ∧ got <+: s.content inode

structure Tidy (N : Names ι κ) (s : Directory ι κ α) : Prop where
  used : ∀ x inode, s.entry x = some inode → inode < s.fresh
  apart : ∀ x y inode, s.entry x = some inode → s.entry y = some inode → x = y
  alone : ∀ p q k, (s.pc p).makes k → (s.pc q).makes k → p = q
  sound : ∀ p, Sound N s (s.pc p)

section Invariant

variable {N : Names ι κ} {s s' t : Directory ι κ α} {p q inode : ℕ} {k : κ} {c : Pc κ α}

/-- What a step of `p` does to the directory is nothing to the others: their temporary files stay,
and so does what is published or being read. -/
structure Spares (N : Names ι κ) (p : ℕ) (s s' : Directory ι κ α) : Prop where
  pc : s'.pc = s.pc
  fresh : s.fresh ≤ s'.fresh
  used : ∀ x inode, s'.entry x = some inode → inode < s'.fresh
  apart : ∀ x y inode, s'.entry x = some inode → s'.entry y = some inode → x = y
  temp : ∀ q ≠ p, ∀ k, (s.pc q).makes k → s'.entry (N.temp k) = s.entry (N.temp k)
  content : ∀ q ≠ p, ∀ k inode, (s.pc q).makes k → s.entry (N.temp k) = some inode →
    s'.content inode = s.content inode
  shared : ∀ inode < s.fresh, (∀ k, s.entry (N.temp k) ≠ some inode) →
    (∀ k, s'.entry (N.temp k) ≠ some inode) ∧ s'.content inode = s.content inode

private theorem Spares.sound (h : Spares N p s s') (hq : q ≠ p) (hsound : Sound N s (s.pc q)) :
    Sound N s' (s.pc q) := by
  have htemp := h.temp q hq
  have hcontent := h.content q hq
  cases hpc : s.pc q with
  | idle => trivial
  | writing k inode payload offset =>
      rw [hpc] at hsound htemp hcontent
      obtain ⟨hentry, hpart, hle⟩ := hsound
      exact ⟨(htemp k rfl).trans hentry, (hcontent k inode rfl hentry).trans hpart, hle⟩
  | written k payload =>
      rw [hpc] at hsound htemp hcontent
      obtain ⟨inode, hentry, hall⟩ := hsound
      exact ⟨inode, (htemp k rfl).trans hentry, (hcontent k inode rfl hentry).trans hall⟩
  | reading k found got =>
      rw [hpc] at hsound
      cases found with
      | none => trivial
      | some inode =>
          obtain ⟨hlt, htemps, hgot⟩ := hsound
          obtain ⟨htemps', hsame⟩ := h.shared inode hlt htemps
          exact ⟨Nat.lt_of_lt_of_le hlt h.fresh, htemps', hsame ▸ hgot⟩

private theorem Spares.seenAt_eq (h : Spares N p s s') (hsound : Sound N s c) :
    s'.seenAt c = s.seenAt c := by
  cases c with
  | idle | writing | written => rfl
  | reading k found got =>
      cases found with
      | none => rfl
      | some inode =>
          obtain ⟨hlt, htemps, -⟩ := hsound
          rw [seenAt, seenAt, Option.map_some, Option.map_some, (h.shared inode hlt htemps).2]

@[simp] theorem goto_pc_self : (s.goto p c).pc p = c := Function.update_self ..

private theorem goto_pc_of_ne (h : q ≠ p) : (s.goto p c).pc q = s.pc q := Function.update_of_ne h ..

/-- The invariant after a step: the directory has changed for nobody else, and the process is in
order where it goes. -/
theorem Tidy.goto (h : Tidy N s) (hs : Spares N p s s') (hsound : Sound N s' c)
    (hmakes : ∀ k, c.makes k → ∀ q ≠ p, ¬ (s.pc q).makes k) : Tidy N (s'.goto p c) where
  used := hs.used
  apart := hs.apart
  alone q q' k hq hq' := by
    have hother {r : ℕ} (hr : r ≠ p) (hmade : ((s'.goto p c).pc r).makes k) : (s.pc r).makes k := by
      rwa [goto_pc_of_ne hr, hs.pc] at hmade
    by_cases hqp : q = p
    · by_cases hqp' : q' = p
      · rw [hqp, hqp']
      · rw [hqp, goto_pc_self] at hq
        exact absurd (hother hqp' hq') (hmakes k hq q' hqp')
    · by_cases hqp' : q' = p
      · rw [hqp', goto_pc_self] at hq'
        exact absurd (hother hqp hq) (hmakes k hq' q hqp)
      · exact h.alone q q' k (hother hqp hq) (hother hqp' hq')
  sound q := by
    by_cases hqp : q = p
    · rw [hqp, goto_pc_self]
      exact hsound
    · rw [goto_pc_of_ne hqp, hs.pc]
      exact hs.sound hqp (h.sound q)

private theorem shelf_seen_goto (h : Tidy N s) (hs : Spares N p s s') :
    (shelf N (s'.goto p c)).seen = Function.update (shelf N s).seen p (s'.seenAt c) := by
  funext q
  by_cases hqp : q = p
  · rw [hqp, Function.update_self]
    exact congrArg s'.seenAt goto_pc_self
  · rw [Function.update_of_ne hqp]
    refine (congrArg s'.seenAt (goto_pc_of_ne hqp)).trans ?_
    rw [hs.pc]
    exact hs.seenAt_eq (h.sound q)

/-! ### What the acts do to the directory -/

private theorem Tidy.spares_refl (h : Tidy N s) (p : ℕ) : Spares N p s s where
  pc := rfl
  fresh := Nat.le_refl _
  used := h.used
  apart := h.apart
  temp _ _ _ _ := rfl
  content _ _ _ _ _ _ := rfl
  shared _ _ htemps := ⟨htemps, rfl⟩

/-- Filling the temporary file of a name that nobody else makes. -/
theorem Tidy.spares_fill (h : Tidy N s) (hentry : s.entry (N.temp k) = some inode)
    (hmakes : ∀ q ≠ p, ¬ (s.pc q).makes k) (xs : List α) : Spares N p s (s.fill inode xs) where
  pc := rfl
  fresh := Nat.le_refl _
  used := h.used
  apart := h.apart
  temp _ _ _ _ := rfl
  content q hq k' inode' hmade hentry' := by
    refine Function.update_of_ne ?_ ..
    rintro rfl
    have hsame := N.temp_injective (h.apart _ _ _ hentry' hentry)
    exact hmakes q hq (hsame ▸ hmade)
  shared inode' _ htemps := by
    refine ⟨htemps, Function.update_of_ne ?_ ..⟩
    rintro rfl
    exact htemps k hentry

private theorem shelf_value_fill (h : Tidy N s) (hentry : s.entry (N.temp k) = some inode)
    (xs : List α) : (shelf N (s.fill inode xs)).value = (shelf N s).value := by
  funext k'
  refine Option.map_congr fun inode' hfinal => Function.update_of_ne ?_ ..
  rintro rfl
  exact N.final_ne_temp k' k (h.apart _ _ _ hfinal hentry)

section Links

variable [DecidableEq ι]

@[simp] theorem link_entry_self {x : ι} {found : Option ℕ} : (s.link x found).entry x = found :=
  Function.update_self ..

private theorem link_entry_of_ne {x y : ι} {found : Option ℕ} (h : y ≠ x) :
    (s.link x found).entry y = s.entry y :=
  Function.update_of_ne h ..

private theorem Tidy.spares_start (h : Tidy N s) (hmakes : ∀ q ≠ p, ¬ (s.pc q).makes k) :
    Spares N p s (s.start (N.temp k)) where
  pc := rfl
  fresh := Nat.le_succ _
  used x inode hentry := by
    by_cases hx : x = N.temp k
    · rw [hx, start, link_entry_self] at hentry
      rw [← Option.some.inj hentry]
      exact Nat.lt_succ_self _
    · rw [start, link_entry_of_ne hx] at hentry
      exact Nat.lt_succ_of_lt (h.used x inode hentry)
  apart x y inode hx hy := by
    have hnew {z : ι} (hz : z ≠ N.temp k) (hentry : (s.start (N.temp k)).entry z = some inode) :
        s.entry z = some inode := by
      rwa [start, link_entry_of_ne hz] at hentry
    have hold {z : ι} (hz : z ≠ N.temp k) (hentry : (s.start (N.temp k)).entry z = some inode)
        (hself : (s.start (N.temp k)).entry (N.temp k) = some inode) : False := by
      rw [start, link_entry_self] at hself
      have hlt := h.used z inode (hnew hz hentry)
      rw [← Option.some.inj hself] at hlt
      exact Nat.lt_irrefl _ hlt
    by_cases hxk : x = N.temp k
    · by_cases hyk : y = N.temp k
      · rw [hxk, hyk]
      · exact (hold hyk hy (hxk ▸ hx)).elim
    · by_cases hyk : y = N.temp k
      · exact (hold hxk hx (hyk ▸ hy)).elim
      · exact h.apart x y inode (hnew hxk hx) (hnew hyk hy)
  temp q hq k' hmade := by
    rw [start, link_entry_of_ne]
    · rfl
    · intro htemp
      exact hmakes q hq (N.temp_injective htemp ▸ hmade)
  content q hq k' inode hmade hentry :=
    Function.update_of_ne (Nat.ne_of_lt (h.used _ _ hentry)) ..
  shared inode hlt htemps := by
    refine ⟨fun k' hentry => ?_, Function.update_of_ne (Nat.ne_of_lt hlt) ..⟩
    by_cases hk : N.temp k' = N.temp k
    · rw [hk, start, link_entry_self] at hentry
      exact Nat.ne_of_lt hlt (Option.some.inj hentry).symm
    · rw [start, link_entry_of_ne hk] at hentry
      exact htemps k' hentry

private theorem shelf_value_start (h : Tidy N s) :
    (shelf N (s.start (N.temp k))).value = (shelf N s).value := by
  funext k'
  have hentry : (s.start (N.temp k)).entry (N.final k') = s.entry (N.final k') :=
    link_entry_of_ne (N.final_ne_temp k' k)
  refine (congrArg (Option.map _) hentry).trans ?_
  exact Option.map_congr fun inode hfinal =>
    Function.update_of_ne (Nat.ne_of_lt (h.used _ _ hfinal)) ..

private theorem rename_entry_of_ne {x : ι} (htemp : x ≠ N.temp k) (hfinal : x ≠ N.final k) :
    (rename N s k inode).entry x = s.entry x := by
  rw [rename, link_entry_of_ne hfinal, link_entry_of_ne htemp]

private theorem rename_entry_temp : (rename N s k inode).entry (N.temp k) = none := by
  rw [rename, link_entry_of_ne (N.final_ne_temp k k).symm, link_entry_self]

private theorem rename_entry_final : (rename N s k inode).entry (N.final k) = some inode :=
  link_entry_self

private theorem Tidy.spares_rename (h : Tidy N s) (hentry : s.entry (N.temp k) = some inode)
    (hmakes : ∀ q ≠ p, ¬ (s.pc q).makes k) : Spares N p s (rename N s k inode) where
  pc := rfl
  fresh := Nat.le_refl _
  used x inode' hx := by
    by_cases hfinal : x = N.final k
    · rw [hfinal, rename_entry_final] at hx
      rw [← Option.some.inj hx]
      exact h.used _ _ hentry
    · by_cases htemp : x = N.temp k
      · rw [htemp, rename_entry_temp] at hx
        cases hx
      · rw [rename_entry_of_ne htemp hfinal] at hx
        exact h.used x inode' hx
  apart x y inode' hx hy := by
    have hne {z : ι} (hz : (rename N s k inode).entry z = some inode') : z ≠ N.temp k := by
      rintro rfl
      rw [rename_entry_temp] at hz
      cases hz
    -- The inode had no path but the temporary one.
    have hold {z : ι} (hz : (rename N s k inode).entry z = some inode') (hzk : z ≠ N.final k)
        (hself : (rename N s k inode).entry (N.final k) = some inode') : False := by
      rw [rename_entry_final] at hself
      have hbefore := hz
      rw [rename_entry_of_ne (hne hz) hzk, ← Option.some.inj hself] at hbefore
      exact hne hz (h.apart _ _ _ hbefore hentry)
    by_cases hxk : x = N.final k
    · by_cases hyk : y = N.final k
      · rw [hxk, hyk]
      · exact (hold hy hyk (hxk ▸ hx)).elim
    · by_cases hyk : y = N.final k
      · exact (hold hx hxk (hyk ▸ hy)).elim
      · have hx' := hx
        have hy' := hy
        rw [rename_entry_of_ne (hne hx) hxk] at hx'
        rw [rename_entry_of_ne (hne hy) hyk] at hy'
        exact h.apart x y inode' hx' hy'
  temp q hq k' hmade := by
    refine rename_entry_of_ne (fun htemp => ?_) (N.final_ne_temp k k').symm
    exact hmakes q hq (N.temp_injective htemp ▸ hmade)
  content _ _ _ _ _ _ := rfl
  shared inode' _ htemps := by
    refine ⟨fun k' hentry' => ?_, rfl⟩
    by_cases htemp : N.temp k' = N.temp k
    · rw [htemp, rename_entry_temp] at hentry'
      cases hentry'
    · rw [rename_entry_of_ne htemp (N.final_ne_temp k k').symm] at hentry'
      exact htemps k' hentry'

private theorem shelf_value_rename [DecidableEq κ] : (shelf N (rename N s k inode)).value =
    Function.update (shelf N s).value k (some (s.content inode)) := by
  funext k'
  by_cases hk : k' = k
  · rw [hk, Function.update_self]
    exact congrArg (Option.map s.content) rename_entry_final
  · rw [Function.update_of_ne hk]
    exact congrArg (Option.map s.content) (rename_entry_of_ne (N.final_ne_temp k' k)
      fun heq => hk (N.final_injective heq))

private theorem Tidy.spares_unlink (h : Tidy N s) (p : ℕ) (k : κ) :
    Spares N p s (s.link (N.final k) none) where
  pc := rfl
  fresh := Nat.le_refl _
  used x inode hx := by
    by_cases hxk : x = N.final k
    · rw [hxk, link_entry_self] at hx
      cases hx
    · rw [link_entry_of_ne hxk] at hx
      exact h.used x inode hx
  apart x y inode hx hy := by
    have hold {z : ι} (hz : (s.link (N.final k) none).entry z = some inode) :
        s.entry z = some inode := by
      by_cases hzk : z = N.final k
      · rw [hzk, link_entry_self] at hz
        cases hz
      · rwa [link_entry_of_ne hzk] at hz
    exact h.apart x y inode (hold hx) (hold hy)
  temp _ _ k' _ := link_entry_of_ne (N.final_ne_temp k k').symm
  content _ _ _ _ _ _ := rfl
  shared inode _ htemps := by
    refine ⟨fun k' hentry => ?_, rfl⟩
    rw [link_entry_of_ne (N.final_ne_temp k k').symm] at hentry
    exact htemps k' hentry

private theorem shelf_value_unlink [DecidableEq κ] : (shelf N (s.link (N.final k) none)).value =
    Function.update (shelf N s).value k none := by
  funext k'
  by_cases hk : k' = k
  · rw [hk, Function.update_self]
    exact congrArg (Option.map s.content) link_entry_self
  · rw [Function.update_of_ne hk]
    exact congrArg (Option.map s.content) (link_entry_of_ne fun heq => hk (N.final_injective heq))

end Links

/-! ### Simulation -/

private theorem writeAt_take (hole : α) (payload : List α) {offset : ℕ}
    (h : offset ≤ payload.length)
    (count : ℕ) : writeAt hole (payload.take offset) offset ((payload.drop offset).take count) =
      payload.take (offset + ((payload.drop offset).take count).length) := by
  have hlength : (payload.take offset).length = offset := List.length_take_of_le h
  rw [writeAt, List.take_of_length_le (Nat.le_of_eq hlength), hlength, Nat.sub_self,
    List.replicate_zero, List.append_nil,
    List.drop_eq_nil_of_le (Nat.le_trans (Nat.le_of_eq hlength) (Nat.le_add_right _ _)),
    List.append_nil, List.take_add]
  congr 1
  rw [List.length_take, ← List.take_take, List.take_length]

private theorem Tidy.not_makes (h : Tidy N s) (hp : (s.pc p).makes k) : ∀ q ≠ p, ¬
    (s.pc q).makes k :=
  fun q hq hmade => hq (h.alone q p k hmade hp)

/-- What the process has seen is all that changes on the shelf, apart from its values. -/
theorem Tidy.land (h : Tidy N s) (hs : Spares N p s s') (hsound : Sound N s' c)
    (hmakes : ∀ k, c.makes k → ∀ q ≠ p, ¬ (s.pc q).makes k) : Tidy N (s'.goto p c) ∧
      shelf N (s'.goto p c) =
        ⟨(shelf N s').value, Function.update (shelf N s).seen p (s'.seenAt c)⟩ :=
  ⟨h.goto hs hsound hmakes, congrArg (Shelf.mk (shelf N s').value) (shelf_seen_goto h hs)⟩

/-- An act that the shelf does not notice. -/
theorem Tidy.land_silent (h : Tidy N s) (hs : Spares N p s s') (hsound : Sound N s' c)
    (hmakes : ∀ k, c.makes k → ∀ q ≠ p, ¬ (s.pc q).makes k)
    (hvalue : (shelf N s').value = (shelf N s).value)
    (hseen : s'.seenAt c = s.seenAt (s.pc p)) :
    Tidy N (s'.goto p c) ∧ shelf N s = shelf N (s'.goto p c) := by
  obtain ⟨htidy, hshelf⟩ := h.land hs hsound hmakes
  refine ⟨htidy, ?_⟩
  rw [hshelf, hvalue, hseen]
  exact congrArg (Shelf.mk _) (Function.update_eq_self ..).symm

section Steps

variable [DecidableEq ι] [DecidableEq κ] [DecidableEq α] {hole : α} {a : Act κ α}

private theorem tidy_step_idle (h : Tidy N s) (halone : s.Alone (p, a)) (hpc : s.pc p = .idle)
    (hstep : step N hole s (p, a) = some t) :
    Tidy N t ∧ (shelf N s).step (p, a) = some (shelf N t) := by
  have hfree : ∀ k, (Pc.idle : Pc κ α).makes k → ∀ q ≠ p, ¬ (s.pc q).makes k :=
    fun k hk => hk.elim
  unfold step at hstep
  simp only [hpc] at hstep
  cases a with
  | create k payload =>
      have hmakes : ∀ k', k = k' → ∀ q ≠ p, ¬ (s.pc q).makes k' := by
        rintro k' rfl q -
        exact halone q
      cases hentry : s.entry (N.temp k) with
      | none =>
          simp only [hentry, Option.some.injEq] at hstep
          subst hstep
          have hsound : Sound N (s.start (N.temp k)) (.writing k s.fresh payload 0) :=
            ⟨link_entry_self, Function.update_self .., Nat.zero_le _⟩
          obtain ⟨htidy, hshelf⟩ := h.land_silent (h.spares_start (hmakes k rfl)) hsound hmakes
            (shelf_value_start h) (by rw [hpc]; rfl)
          exact ⟨htidy, congrArg some hshelf⟩
      | some inode =>
          simp only [hentry, Option.some.injEq] at hstep
          subst hstep
          have hsound : Sound N (s.fill inode []) (.writing k inode payload 0) :=
            ⟨hentry, Function.update_self .., Nat.zero_le _⟩
          obtain ⟨htidy, hshelf⟩ := h.land_silent (h.spares_fill hentry (hmakes k rfl) []) hsound
            hmakes (shelf_value_fill h hentry []) (by rw [hpc]; rfl)
          exact ⟨htidy, congrArg some hshelf⟩
  | abandon =>
      obtain rfl := Option.some.inj hstep
      have hsound : Sound N s .idle := trivial
      obtain ⟨htidy, hshelf⟩ := h.land (h.spares_refl p) hsound hfree
      exact ⟨htidy, congrArg some hshelf.symm⟩
  | remove k =>
      obtain rfl := Option.some.inj hstep
      have hsound : Sound N (s.link (N.final k) none) .idle := trivial
      obtain ⟨htidy, hshelf⟩ := h.land (h.spares_unlink p k) hsound hfree
      have hunseen : (shelf N s).seen p = none := congrArg s.seenAt hpc
      refine ⟨htidy, congrArg some ?_⟩
      rw [hshelf, shelf_value_unlink]
      refine congrArg (Shelf.mk _) ?_
      exact (Function.update_eq_self_iff.mpr hunseen.symm).symm
  | look k =>
      obtain rfl := Option.some.inj hstep
      have hsound : Sound N s (.reading k (s.entry (N.final k)) []) := by
        cases hentry : s.entry (N.final k) with
        | none => trivial
        | some inode =>
            exact ⟨h.used _ _ hentry, fun k' htemp =>
              N.final_ne_temp k k' (h.apart _ _ _ hentry htemp), List.nil_prefix⟩
      obtain ⟨htidy, hshelf⟩ := h.land (h.spares_refl p) hsound fun k hk => hk.elim
      exact ⟨htidy, congrArg some hshelf.symm⟩
  | put | close | replace | get | answer => cases hstep

private theorem tidy_step_writing {payload : List α} {offset : ℕ} (h : Tidy N s)
    (hpc : s.pc p = .writing k inode payload offset) (hstep : step N hole s (p, a) = some t) :
    Tidy N t ∧ (shelf N s).step (p, a) = some (shelf N t) := by
  have hsound := h.sound p
  rw [hpc] at hsound
  obtain ⟨hentry, hpart, hle⟩ := hsound
  have hmakes : ∀ k', k = k' → ∀ q ≠ p, ¬ (s.pc q).makes k' := by
    rintro k' rfl
    refine h.not_makes ?_
    rw [hpc]
    rfl
  unfold step at hstep
  simp only [hpc] at hstep
  cases a with
  | put count =>
      obtain rfl := Option.some.inj hstep
      rw [hpart, writeAt_take hole payload hle]
      have hmore : offset + ((payload.drop offset).take count).length ≤ payload.length := by
        rw [List.length_take, List.length_drop]
        omega
      have hsound : Sound N (s.fill inode _) (.writing k inode payload
          (offset + ((payload.drop offset).take count).length)) :=
        ⟨hentry, Function.update_self .., hmore⟩
      obtain ⟨htidy, hshelf⟩ := h.land_silent (h.spares_fill hentry (hmakes k rfl) _) hsound hmakes
        (shelf_value_fill h hentry _) (by rw [hpc]; rfl)
      exact ⟨htidy, congrArg some hshelf⟩
  | close =>
      dsimp only at hstep
      split_ifs at hstep with hall
      obtain rfl := Option.some.inj hstep
      have hsound : Sound N s (.written k payload) :=
        ⟨inode, hentry, hpart.trans (List.take_of_length_le hall)⟩
      obtain ⟨htidy, hshelf⟩ := h.land_silent (h.spares_refl p) hsound hmakes rfl (by rw [hpc]; rfl)
      exact ⟨htidy, congrArg some hshelf⟩
  | abandon =>
      obtain rfl := Option.some.inj hstep
      have hsound : Sound N s .idle := trivial
      obtain ⟨htidy, hshelf⟩ := h.land (h.spares_refl p) hsound fun k hk => hk.elim
      exact ⟨htidy, congrArg some hshelf.symm⟩
  | create | replace | remove | look | get | answer => cases hstep

private theorem tidy_step_written {payload : List α} (h : Tidy N s)
    (hpc : s.pc p = .written k payload) (hstep : step N hole s (p, a) = some t) :
    Tidy N t ∧ (shelf N s).step (p, a) = some (shelf N t) := by
  have hsound := h.sound p
  rw [hpc] at hsound
  obtain ⟨inode, hentry, hall⟩ := hsound
  unfold step at hstep
  simp only [hpc] at hstep
  cases a with
  | replace k' payload' =>
      dsimp only at hstep
      split_ifs at hstep with hsame
      obtain ⟨rfl, rfl⟩ := hsame
      rw [hentry] at hstep
      obtain rfl := Option.some.inj hstep
      have hmakes : ∀ q ≠ p, ¬ (s.pc q).makes k' := by
        refine h.not_makes ?_
        rw [hpc]
        rfl
      have hsound : Sound N (rename N s k' inode) .idle := trivial
      obtain ⟨htidy, hshelf⟩ := h.land (h.spares_rename hentry hmakes) hsound fun k hk => hk.elim
      have hunseen : (shelf N s).seen p = none := congrArg s.seenAt hpc
      refine ⟨htidy, congrArg some ?_⟩
      rw [hshelf, shelf_value_rename, hall]
      refine congrArg (Shelf.mk _) ?_
      exact (Function.update_eq_self_iff.mpr hunseen.symm).symm
  | abandon =>
      obtain rfl := Option.some.inj hstep
      have hsound : Sound N s .idle := trivial
      obtain ⟨htidy, hshelf⟩ := h.land (h.spares_refl p) hsound fun k hk => hk.elim
      exact ⟨htidy, congrArg some hshelf.symm⟩
  | create | put | close | remove | look | get | answer => cases hstep

private theorem tidy_step_reading {found : Option ℕ} {got : List α} (h : Tidy N s)
    (hpc : s.pc p = .reading k found got) (hstep : step N hole s (p, a) = some t) :
    Tidy N t ∧ (shelf N s).step (p, a) = some (shelf N t) := by
  have hsound := h.sound p
  rw [hpc] at hsound
  have hfree : ∀ k, (Pc.idle : Pc κ α).makes k → ∀ q ≠ p, ¬ (s.pc q).makes k :=
    fun k hk => hk.elim
  have hseen : (shelf N s).seen p = some (k, found.map s.content) := congrArg s.seenAt hpc
  have hfinished : Sound N s .idle := trivial
  obtain ⟨hidle, hshelf⟩ := h.land (h.spares_refl p) hfinished hfree
  unfold step at hstep
  simp only [hpc] at hstep
  cases a with
  | get count =>
      cases found with
      | none => cases hstep
      | some inode =>
          obtain rfl := Option.some.inj hstep
          obtain ⟨hlt, htemps, rest, hrest⟩ := hsound
          have hsound : Sound N s (.reading k (some inode)
              (got ++ ((s.content inode).drop got.length).take count)) := by
            refine ⟨hlt, htemps, ?_⟩
            rw [← hrest, List.drop_left, List.prefix_append_right_inj]
            exact List.take_prefix count rest
          obtain ⟨htidy, hshelf⟩ := h.land_silent (h.spares_refl p) hsound (fun k hk => hk.elim) rfl
            (by rw [hpc]; rfl)
          exact ⟨htidy, congrArg some hshelf⟩
  | answer k' result =>
      cases found with
      | none =>
          dsimp only at hstep
          split_ifs at hstep with hend
          obtain ⟨rfl, rfl⟩ := hend
          obtain rfl := Option.some.inj hstep
          exact ⟨hidle, (if_pos hseen).trans (congrArg some hshelf.symm)⟩
      | some inode =>
          dsimp only at hstep
          split_ifs at hstep with hend
          obtain ⟨rfl, rfl, hlong⟩ := hend
          obtain rfl := Option.some.inj hstep
          obtain ⟨-, -, hgot⟩ := hsound
          rw [hgot.eq_of_length_le hlong] at *
          exact ⟨hidle, (if_pos hseen).trans (congrArg some hshelf.symm)⟩
  | abandon =>
      obtain rfl := Option.some.inj hstep
      exact ⟨hidle, congrArg some hshelf.symm⟩
  | create | put | close | replace | remove | look => cases hstep

/-- A step of the directory keeps it in order and is a step of the shelf. -/
theorem tidy_step {e : Event κ α} (h : Tidy N s) (halone : s.Alone e)
    (hstep : step N hole s e = some t) : Tidy N t ∧ (shelf N s).step e = some (shelf N t) := by
  obtain ⟨p, a⟩ := e
  cases hpc : s.pc p with
  | idle => exact tidy_step_idle h halone hpc hstep
  | writing => exact tidy_step_writing h hpc hstep
  | written => exact tidy_step_written h hpc hstep
  | reading => exact tidy_step_reading h hpc hstep

end Steps

end Invariant

private theorem Quiet.tidy {s : Directory ι κ α} (h : s.Quiet) (N : Names ι κ) : Tidy N s where
  used := h.used
  apart := h.apart
  alone p q k hp hq := by
    rw [h.idle p] at hp
    exact hp.elim
  sound p := by
    rw [h.idle p]
    trivial

end Directory

/-! ### Runs -/

section Latest

variable [DecidableEq κ] {k : κ} {es : List (Event κ α)}

/-- The value of a name after an event. -/
def after (k : κ) (value : Option (List α)) : Event κ α → Option (List α)
  | (_, .replace k' payload) => if k' = k then some payload else value
  | (_, .remove k') => if k' = k then none else value
  | _ => value

/-- The value of a name after some events: what was published last, unless it was removed. -/
def latest (k : κ) (value : Option (List α)) (es : List (Event κ α)) : Option (List α) :=
  es.foldl (after k) value

private theorem replace_of_latest {payload : List α} (h : latest k none es = some payload) :
    ∃ p, (p, .replace k payload) ∈ es := by
  induction es using List.reverseRecOn with
  | nil => cases h
  | append_singleton es e ih =>
      have hearlier (h : latest k none es = some payload) :
          ∃ p, (p, .replace k payload) ∈ es ++ [e] := by
        obtain ⟨p, hmem⟩ := ih h
        exact ⟨p, List.mem_append_left _ hmem⟩
      rw [latest, List.foldl_append] at h
      obtain ⟨p, act⟩ := e
      cases act with
      | replace k' payload' =>
          simp only [List.foldl_cons, List.foldl_nil, after] at h
          split_ifs at h with hk
          · obtain rfl := Option.some.inj h
            exact ⟨p, List.mem_append_right _ (hk ▸ List.mem_singleton_self _)⟩
          · exact hearlier h
      | remove k' =>
          simp only [List.foldl_cons, List.foldl_nil, after] at h
          split_ifs at h
          exact hearlier h
      | create | put | close | abandon | look | get | answer => exact hearlier h

end Latest

section Runs

variable [DecidableEq ι] [DecidableEq κ] [DecidableEq α] {N : Names ι κ} {hole : α}
  {s t : Directory ι κ α} {a b : Shelf κ α} {es : List (Event κ α)} {p : ℕ} {k : κ}
  {result : Option (List α)}

/-- The process turns to another value, or away from the one that it looks at. -/
def Act.turns : Act κ α → Bool
  | look _ | answer _ _ | abandon => true
  | create _ _ | put _ | close | replace _ _ | remove _ | get _ => false

/-- A directory in which each name has one writer at a time is a shelf. -/
theorem shelf_of_directory (hquiet : s.Quiet)
    (h : Run ((ofPartial (Directory.step N hole)).within Directory.Alone) s es t) :
    Run (ofPartial Shelf.step) (Directory.shelf N s) es (Directory.shelf N t) := by
  have hstep : ∀ u e v a, Directory.Tidy N u ∧ a = Directory.shelf N u →
      (ofPartial (Directory.step N hole)).within Directory.Alone u e v →
        ∃ b, ofPartial Shelf.step a e b ∧ Directory.Tidy N v ∧ b = Directory.shelf N v := by
    rintro u e v a ⟨htidy, rfl⟩ ⟨halone, hstep⟩
    obtain ⟨htidy', hshelf⟩ := Directory.tidy_step htidy halone hstep
    exact ⟨_, hshelf, htidy', rfl⟩
  obtain ⟨b, hrun, -, rfl⟩ := h.refine _ ⟨hquiet.tidy N, rfl⟩ hstep
  exact hrun

private theorem Shelf.value_step {e : Event κ α} (h : a.step e = some b) (k : κ) :
    b.value k = after k (a.value k) e := by
  obtain ⟨p, act⟩ := e
  cases act with
  | replace k' payload =>
      obtain rfl := Option.some.inj h
      refine (Function.update_apply ..).trans ?_
      exact ite_congr (propext eq_comm) (fun _ => rfl) fun _ => rfl
  | remove k' =>
      obtain rfl := Option.some.inj h
      refine (Function.update_apply ..).trans ?_
      exact ite_congr (propext eq_comm) (fun _ => rfl) fun _ => rfl
  | answer k' result =>
      unfold Shelf.step at h
      dsimp only at h
      split_ifs at h
      obtain rfl := Option.some.inj h
      rfl
  | create | put | close | abandon | look | get =>
      obtain rfl := Option.some.inj h
      rfl

private theorem Shelf.seen_step {q : ℕ} {act : Act κ α} (h : a.step (q, act) = some b)
    (hother : q = p → act.turns = false) : b.seen p = a.seen p := by
  cases act with
  | look | abandon =>
      have hne : p ≠ q := fun heq => Bool.noConfusion (hother heq.symm)
      obtain rfl := Option.some.inj h
      exact Function.update_of_ne hne ..
  | answer k result =>
      have hne : p ≠ q := fun heq => Bool.noConfusion (hother heq.symm)
      unfold Shelf.step at h
      dsimp only at h
      split_ifs at h
      obtain rfl := Option.some.inj h
      exact Function.update_of_ne hne ..
  | create | put | close | replace | remove | get =>
      obtain rfl := Option.some.inj h
      rfl

/-- What a process looks at is the value that was there when it turned to it. -/
theorem Shelf.seen_of_run (h : Run (ofPartial Shelf.step) a es b) (hstart : a.seen p = none)
    (hseen : b.seen p = some (k, result)) :
    ∃ es₁ es₂, es = es₁ ++ (p, .look k) :: es₂ ∧ (∀ act, (p, act) ∈ es₂ → act.turns = false) ∧
      result = latest k (a.value k) es₁ := by
  refine (h.history_invariant (fun es b => (∀ k, b.value k = latest k (a.value k) es) ∧
    ∀ k result, b.seen p = some (k, result) →
      ∃ es₁ es₂, es = es₁ ++ (p, .look k) :: es₂ ∧ (∀ act, (p, act) ∈ es₂ → act.turns = false) ∧
        result = latest k (a.value k) es₁) ⟨fun _ => rfl, fun k result hnone => ?_⟩
    fun es u e v hu hstep => ?_).2 k result hseen
  · rw [hstart] at hnone
    cases hnone
  · obtain ⟨hvalue, hbefore⟩ := hu
    obtain ⟨q, act⟩ := e
    refine ⟨fun k => ?_, fun k result hseen => ?_⟩
    · rw [Shelf.value_step hstep k, hvalue, latest, latest, List.foldl_append]
      rfl
    · by_cases hturns : q = p → act.turns = false
      · rw [Shelf.seen_step hstep hturns] at hseen
        obtain ⟨es₁, es₂, rfl, hsilent, hresult⟩ := hbefore k result hseen
        refine ⟨es₁, es₂ ++ [(q, act)], List.append_assoc .., fun act' hmem => ?_, hresult⟩
        rcases List.mem_append.mp hmem with hmem | hmem
        · exact hsilent act' hmem
        · obtain ⟨rfl, rfl⟩ := Prod.mk.inj (List.mem_singleton.mp hmem)
          exact hturns rfl
      · obtain ⟨rfl, hact⟩ := Classical.not_imp.mp hturns
        cases act with
        | look k' =>
            obtain rfl := Option.some.inj hstep
            have hself := (Function.update_self q (some (k', u.value k')) u.seen).symm.trans hseen
            obtain ⟨rfl, rfl⟩ := Prod.mk.inj (Option.some.inj hself)
            exact ⟨es, [], rfl, fun act hmem => absurd hmem List.not_mem_nil, hvalue k'⟩
        | abandon =>
            obtain rfl := Option.some.inj hstep
            cases (Function.update_self q none u.seen).symm.trans hseen
        | answer k' result' =>
            unfold ofPartial Shelf.step at hstep
            dsimp only at hstep
            split_ifs at hstep
            obtain rfl := Option.some.inj hstep
            cases (Function.update_self q none u.seen).symm.trans hseen
        | create | put | close | replace | remove | get => exact absurd rfl hact

/-- Whoever reads to the end has read what lay there when the file was opened: nothing else, and
nothing in part. -/
theorem answer_eq_latest (hquiet : s.Quiet)
    (h : Run ((ofPartial (Directory.step N hole)).within Directory.Alone) s
      (es ++ [(p, .answer k result)]) t) :
    ∃ es₁ es₂, es = es₁ ++ (p, .look k) :: es₂ ∧ (∀ act, (p, act) ∈ es₂ → act.turns = false) ∧
      result = latest k ((s.entry (N.final k)).map s.content) es₁ := by
  have hshelf := shelf_of_directory hquiet h
  obtain ⟨u, hrun, hlast⟩ := hshelf.unsnoc
  have hseen : u.seen p = some (k, result) := by
    unfold ofPartial Shelf.step at hlast
    dsimp only at hlast
    split_ifs at hlast with hmatch
    exact hmatch
  have hstart : (Directory.shelf N s).seen p = none := congrArg s.seenAt (hquiet.idle p)
  exact Shelf.seen_of_run hrun hstart hseen

/-- A process comes to carry only what it begins to write. -/
theorem Directory.carries_step {q : ℕ} {act : Act κ α} {payload : List α}
    (h : s.step N hole (p, act) = some t) (hcarries : (t.pc q).carries = some (k, payload)) :
    (s.pc q).carries = some (k, payload) ∨ q = p ∧ act = .create k payload := by
  -- The process goes somewhere, and the others stay.
  have hgoto : ∀ {s' : Directory ι κ α} {c : Pc κ α}, t = s'.goto p c → s'.pc = s.pc →
      (∀ found, c.carries = some found → (s.pc p).carries = some found ∨
        act = .create found.1 found.2) →
      (s.pc q).carries = some (k, payload) ∨ q = p ∧ act = .create k payload := by
    rintro s' c rfl hpc hc
    by_cases hqp : q = p
    · rw [hqp, Directory.goto_pc_self] at hcarries
      exact (hc _ hcarries).imp (fun hbefore => hqp ▸ hbefore) fun hact => ⟨hqp, hact⟩
    · rw [Directory.goto_pc_of_ne hqp, hpc] at hcarries
      exact .inl hcarries
  have hnone : ∀ {s' : Directory ι κ α} {c : Pc κ α}, t = s'.goto p c → s'.pc = s.pc →
      c.carries = none →
        (s.pc q).carries = some (k, payload) ∨ q = p ∧ act = .create k payload := by
    intro s' c ht hpc hc
    refine hgoto ht hpc fun found hfound => ?_
    rw [hc] at hfound
    cases hfound
  unfold Directory.step at h
  dsimp only at h
  split at h
  · split at h
    · refine hgoto (Option.some.inj h).symm rfl fun found hfound => .inr ?_
      obtain rfl := Option.some.inj hfound
      rfl
    · refine hgoto (Option.some.inj h).symm rfl fun found hfound => .inr ?_
      obtain rfl := Option.some.inj hfound
      rfl
  · rename_i hpc
    refine hgoto (Option.some.inj h).symm rfl fun found hfound => .inl ?_
    rw [hpc]
    exact hfound
  · rename_i hpc
    split_ifs at h
    refine hgoto (Option.some.inj h).symm rfl fun found hfound => .inl ?_
    rw [hpc]
    exact hfound
  · split_ifs at h
    obtain ⟨inode, -, ht⟩ := Option.map_eq_some_iff.mp h
    exact hnone ht.symm rfl rfl
  · exact hnone (Option.some.inj h).symm rfl rfl
  · exact hnone (Option.some.inj h).symm rfl rfl
  · exact hnone (Option.some.inj h).symm rfl rfl
  · exact hnone (Option.some.inj h).symm rfl rfl
  · split_ifs at h
    exact hnone (Option.some.inj h).symm rfl rfl
  · split_ifs at h
    exact hnone (Option.some.inj h).symm rfl rfl
  · cases h

private theorem Directory.idle_of_create {payload : List α}
    (h : s.step N hole (p, .create k payload) = some t) : s.pc p = .idle := by
  unfold Directory.step at h
  cases hpc : s.pc p with
  | idle => rfl
  | writing | written | reading => simp only [hpc] at h; cases h

private theorem Directory.carries_of_replace {payload : List α}
    (h : s.step N hole (p, .replace k payload) = some t) :
    (s.pc p).carries = some (k, payload) := by
  unfold Directory.step at h
  cases hpc : s.pc p with
  | written k' payload' =>
      simp only [hpc] at h
      split_ifs at h with hsame
      rw [Pc.carries, hsame.1, hsame.2]
  | idle | writing | reading => simp only [hpc] at h; cases h

/-- What is published is what was begun to be written. -/
theorem created_of_latest {P : κ → List α → Prop} {R : Directory ι κ α → Event κ α → Prop}
    (hcreate : ∀ s p k payload, R s (p, .create k payload) → P k payload) (hquiet : s.Quiet)
    (h : Run ((ofPartial (Directory.step N hole)).within R) s es t) {payload : List α}
    (hlatest : latest k none es = some payload) : P k payload := by
  have hall := h.history_invariant (fun es u =>
    (∀ q k payload, (u.pc q).carries = some (k, payload) → P k payload) ∧
      ∀ q k payload, (q, .replace k payload) ∈ es → P k payload)
    ⟨fun q k payload hq => ?_, fun q k payload hmem => absurd hmem List.not_mem_nil⟩
    fun es u e v hu hstep => ?_
  · obtain ⟨p, hmem⟩ := replace_of_latest hlatest
    exact hall.2 p k payload hmem
  · rw [hquiet.idle q] at hq
    cases hq
  · obtain ⟨hcarried, hreplaced⟩ := hu
    obtain ⟨p, act⟩ := e
    refine ⟨fun q k payload hq => ?_, fun q k payload hmem => ?_⟩
    · rcases Directory.carries_step hstep.2 hq with hbefore | ⟨-, rfl⟩
      · exact hcarried q k payload hbefore
      · exact hcreate u p k payload hstep.1
    · rcases List.mem_append.mp hmem with hmem | hmem
      · exact hreplaced q k payload hmem
      · obtain ⟨rfl, rfl⟩ := Prod.mk.inj (List.mem_singleton.mp hmem)
        exact hcarried q k payload (Directory.carries_of_replace hstep.2)

/-- Where one process writes all that is published under a name, each is alone. -/
theorem alone_of_owner (owner : κ → ℕ) {W : Event κ α → Prop} (hquiet : s.Quiet)
    (h : Run (ofPartial (Directory.step N hole)) s es t)
    (howner : ∀ p k payload, (p, .create k payload) ∈ es → p = owner k) (hes : ∀ e ∈ es, W e) :
    Run ((ofPartial (Directory.step N hole)).within fun s e => s.Alone e ∧ W e) s es t := by
  have hall : Run ((ofPartial (Directory.step N hole)).within fun s e => s.Alone e ∧ W e) s es t ∧
      ∀ q k payload, (t.pc q).carries = some (k, payload) → q = owner k := by
    induction h with
    | nil =>
        refine ⟨.nil, fun q k payload hq => ?_⟩
        rw [hquiet.idle q] at hq
        cases hq
    | @snoc es e u v hrun hlast ih =>
        obtain ⟨hbefore, howned⟩ := ih
          (fun p k payload hmem => howner p k payload (List.mem_append_left _ hmem))
          fun e he => hes e (List.mem_append_left _ he)
        have hmem : e ∈ es ++ [e] := List.mem_append_right _ (List.mem_singleton_self e)
        obtain ⟨p, act⟩ := e
        refine ⟨.snoc hbefore ⟨⟨?_, hes _ hmem⟩, hlast⟩, fun q k payload hq => ?_⟩
        · cases act with
          | create k payload =>
              intro q hmakes
              obtain ⟨payload', hcarries⟩ := hmakes.carries
              have hq := howned q k payload' hcarries
              rw [hq, ← howner p k payload hmem, Directory.idle_of_create hlast] at hmakes
              exact hmakes
          | _ => trivial
        · rcases Directory.carries_step hlast hq with hcarried | ⟨rfl, rfl⟩
          · exact howned q k payload hcarried
          · exact howner q k payload hmem
  exact hall.1

end Runs

end Publication
