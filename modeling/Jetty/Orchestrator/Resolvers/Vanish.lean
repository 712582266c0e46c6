import Jetty.Orchestrator.Resolvers.Preservation

/-!
# Copies of sources that have vanished

A call of `materialize` that has the bin root to itself, in any state of the root. It prunes first:
a copy that is too old for this call is gone when the call finds that it needs it, and so is a copy
that another resolver would have kept longer.
-/

namespace Jetty.Orchestrator

open Files Transition

namespace BinRoot

/-- `_prune`, over a listing of the root. -/
def prune (c : CopyCall) (S : BinRoot) (names : List BinName) : BinRoot :=
  names.foldl (fun S name =>
    match S.mtime name with
    | some t => if c.stale name t then S.unlink name else S
    | none => S) S

/-- The listing is complete. -/
def Lists (S : BinRoot) (names : List BinName) : Prop :=
  ∀ name, name ∈ names ↔ (S.root.entry name).isSome = true

/-- A prune by this call removes the entry. -/
def Pruned (S : BinRoot) (c : CopyCall) (name : BinName) : Prop :=
  ∃ t ∈ S.mtime name, c.stale name t = true

/-- The first steps of a call, and `n` more of them. -/
def alone (S : BinRoot) (pid : ℕ) (source : String) (keepDays : Duration) (names : List BinName)
    (n : ℕ) : List BinEvent :=
  .begin pid source keepDays :: .listed S.calls names :: List.replicate n (.next S.calls)

/-- The call, with the root to itself, gets to an end. -/
def Ends (S : BinRoot) (pid : ℕ) (source : String) (keepDays : Duration) (names : List BinName)
    (pc : CopyPc) (T : BinRoot) : Prop :=
  (∃ n, exec step S (S.alone pid source keepDays names n) = some T) ∧
    ∃ c, T.call S.calls = some c ∧ c.pc = pc

variable {S T : BinRoot} {c : CopyCall} {id : ℕ} {names : List BinName} {name : BinName}

/-! ### The prune -/

private theorem mtime_unlink {name' : BinName} (h : name' ≠ name) :
    (S.unlink name).mtime name' = S.mtime name' := by
  simp only [mtime, unlink, Directory.entry_unlink h]
  rfl

/-- What a prune leaves as it is. -/
theorem prune_same (c : CopyCall) (S : BinRoot) (names : List BinName) :
    (prune c S names).root.inode = S.root.inode ∧ (prune c S names).source = S.source ∧
      (prune c S names).now = S.now := by
  induction names generalizing S with
  | nil => exact ⟨rfl, rfl, rfl⟩
  | cons name names ih =>
      rw [prune, List.foldl_cons]
      split
      · split
        · exact ih (S.unlink name)
        · exact ih S
      · exact ih S

private theorem entry_prune_of_not_pruned (h : ¬ S.Pruned c name) :
    (prune c S names).root.entry name = S.root.entry name := by
  induction names generalizing S with
  | nil => rfl
  | cons other names ih =>
      rw [prune, List.foldl_cons]
      split
      · rename_i t hmtime
        split
        · rename_i hstale
          have hne : name ≠ other := by
            rintro rfl
            exact h ⟨t, hmtime, hstale⟩
          have hpruned : ¬ (S.unlink other).Pruned c name := by
            rwa [Pruned, mtime_unlink hne]
          exact (ih hpruned).trans (Directory.entry_unlink hne)
        · exact ih h
      · exact ih h

private theorem entry_prune_none (h : S.root.entry name = none) :
    (prune c S names).root.entry name = none := by
  rw [entry_prune_of_not_pruned, h]
  rintro ⟨t, hmtime, -⟩
  rw [mtime, h] at hmtime
  cases hmtime

private theorem entry_prune_of_pruned (h : S.Pruned c name) (hname : name ∈ names) :
    (prune c S names).root.entry name = none := by
  induction names generalizing S with
  | nil => cases hname
  | cons other names ih =>
      obtain ⟨t, hmtime, hstale⟩ := h
      rw [prune, List.foldl_cons]
      by_cases hne : name = other
      · subst hne
        rw [Option.mem_def.mp hmtime]
        dsimp only
        rw [if_pos hstale]
        exact entry_prune_none Directory.entry_unlink_self
      · have hmem : name ∈ names := (List.mem_cons.mp hname).resolve_left hne
        split
        · split
          · refine ih (S := S.unlink other) ⟨t, ?_, hstale⟩ hmem
            rwa [mtime_unlink hne]
          · exact ih ⟨t, hmtime, hstale⟩ hmem
        · exact ih ⟨t, hmtime, hstale⟩ hmem

/-- A complete prune keeps an entry exactly if it is not too old for the call. -/
theorem entry_prune (hnames : S.Lists names) {i : ℕ} (hi : S.root.entry name = some i) :
    ((prune c S names).root.entry name).isSome = true ↔ ¬ S.Pruned c name := by
  constructor
  · intro hsome hpruned
    rw [entry_prune_of_pruned hpruned ((hnames name).mpr (by rw [hi]; rfl))] at hsome
    cases hsome
  · intro hnot
    rw [entry_prune_of_not_pruned hnot, hi]
    rfl

private theorem read_prune (h : ¬ S.Pruned c name) :
    (prune c S names).root.read name = S.root.read name := by
  rw [Directory.read, Directory.read, entry_prune_of_not_pruned h, (prune_same c S names).1]

/-- A prune takes no notice of the calls. -/
theorem prune_setCall (d : CopyCall) : prune c (S.setCall id d) names =
    (prune c S names).setCall id d := by
  induction names generalizing S with
  | nil => rfl
  | cons name names ih =>
      rw [prune, prune, List.foldl_cons, List.foldl_cons]
      have hmtime : (S.setCall id d).mtime name = S.mtime name := rfl
      rw [hmtime]
      split
      · split
        · exact ih (S := S.unlink name)
        · exact ih
      · exact ih

/-- It looks at nothing but the root. -/
theorem root_prune {S' : BinRoot} (h : S'.root = S.root) :
    (prune c S' names).root = (prune c S names).root := by
  induction names generalizing S S' with
  | nil => exact h
  | cons name names ih =>
      have hmtime : S'.mtime name = S.mtime name := by rw [mtime, mtime, h]
      have hunlink : (S'.unlink name).root = (S.unlink name).root := by
        change S'.root.unlink name = S.root.unlink name
        rw [h]
      rw [prune, prune, List.foldl_cons, List.foldl_cons, hmtime]
      split
      · split
        · exact ih hunlink
        · exact ih h
      · exact ih h

/-! ### The call by its steps -/

private theorem call_setCall : (S.setCall id c).call id = some c := Function.update_self _ _ _

private theorem setCall_setCall (c d : CopyCall) :
    (S.setCall id c).setCall id d = S.setCall id d := by
  simp only [setCall, Function.update_idem]

private theorem step_next (hc : S.call id = some c) : step S (.next id) = S.advance id c := by
  rw [step, hc, Option.bind_some]

/-- One step of the call, and then `n` more. -/
theorem exec_next {n : ℕ} (hc : S.call id = some c) (h : S.advance id c = some T) :
    exec step S (List.replicate (n + 1) (.next id)) =
      exec step T (List.replicate n (.next id)) := by
  rw [List.replicate_succ, exec, step_next hc, h, Option.bind_some]

/-- The steps of a prune that nobody disturbs. -/
theorem exec_prune (hc : S.call id = some c) (hpc : c.pc = .pruning names) :
    ∃ n, exec step S (List.replicate n (.next id)) =
      some ((prune c S names).setCall id { c with pc := .statSource }) := by
  induction names generalizing S c with
  | nil =>
      refine ⟨1, ?_⟩
      rw [List.replicate_one, exec, step_next hc, advance, hpc]
      rfl
  | cons name names ih =>
      have hskip : S.advance id c = some (S.setCall id { c with pc := .pruning names }) →
          prune c S (name :: names) = prune c S names → ∃ n,
          exec step S (List.replicate n (.next id)) =
            some ((prune c S (name :: names)).setCall id { c with pc := .statSource }) := by
        intro hadvance hprune
        obtain ⟨n, hn⟩ := ih (S := S.setCall id { c with pc := .pruning names })
          (c := { c with pc := .pruning names }) call_setCall rfl
        refine ⟨n + 1, ?_⟩
        rw [exec_next hc hadvance, hn, prune_setCall, setCall_setCall, hprune]
        rfl
      cases hmtime : S.mtime name with
      | none =>
          refine hskip ?_ ?_
          · simp only [advance, hpc, hmtime]
          · rw [prune, List.foldl_cons, hmtime]
            rfl
      | some t =>
          by_cases hstale : c.stale name t = true
          · have hfirst : S.advance id c =
                some (S.setCall id { c with pc := .unlinking name names }) := by
              simp only [advance, hpc, hmtime, if_pos hstale]
            have hsecond : (S.setCall id { c with pc := .unlinking name names }).advance id
                { c with pc := .unlinking name names } =
                some ((S.unlink name).setCall id { c with pc := .pruning names }) := by
              refine Eq.trans ?_ (congrArg some
                (setCall_setCall (S := S.unlink name) { c with pc := .unlinking name names } _))
              rfl
            obtain ⟨n, hn⟩ := ih (S := (S.unlink name).setCall id { c with pc := .pruning names })
              (c := { c with pc := .pruning names }) call_setCall rfl
            refine ⟨n + 2, ?_⟩
            rw [exec_next hc hfirst, exec_next call_setCall hsecond, hn, prune_setCall,
              setCall_setCall, prune, prune, List.foldl_cons, hmtime]
            dsimp only
            rw [if_pos hstale]
            rfl
          · refine hskip ?_ ?_
            · simp only [advance, hpc, hmtime, if_neg hstale]
            · rw [prune, List.foldl_cons, hmtime]
              dsimp only
              rw [if_neg hstale]
              rfl

/-- The source is unreachable, and there is a copy: the call marks it as used, and is about to read
its sidecar. -/
theorem exec_touch (hc : S.call id = some c) (hpc : c.pc = .statSource)
    (hsource : S.source c.source = none)
    (hcopy : (S.root.entry (.dest c.source)).isSome = true) :
    ∃ U, exec step S (List.replicate 4 (.next id)) = some U ∧
      U.call id = some { c with pc := .readBack } ∧
        ∀ name, U.root.read name = S.root.read name := by
  have hstat : S.advance id c = some (S.setCall id { c with pc := .lookForCopy }) := by
    simp only [advance, hpc, hsource]
  rw [exec_next hc hstat]
  have hlook : (S.setCall id { c with pc := .lookForCopy }).advance id
      { c with pc := .lookForCopy } =
      some ((S.setCall id { c with pc := .lookForCopy }).setCall id
        { c with pc := .touchDest true }) := by
    exact if_pos hcopy
  rw [exec_next call_setCall hlook, exec_next call_setCall rfl, exec_next call_setCall rfl]
  refine ⟨_, rfl, call_setCall, fun name => ?_⟩
  change ((S.root.utime _ _).utime _ _).read _ = _
  rw [Directory.read_utime, Directory.read_utime]

/-- The sidecar is missing or UTF-8: the call returns with the copy. -/
theorem advance_readBack_returned (hpc : c.pc = .readBack)
    (hmeta : ∀ bytes ∈ S.root.read (.sidecar c.source), (sidecarText bytes).isSome = true) :
    ∃ d, S.advance id c = some (S.setCall id d) ∧ d.pc = .returned := by
  cases hread : S.root.read (.sidecar c.source) with
  | none =>
      refine ⟨{ c with fingerprint := unknownFingerprint, pc := .returned }, ?_, rfl⟩
      simp only [advance, hpc, hread]
  | some bytes =>
      obtain ⟨text, htext⟩ := Option.isSome_iff_exists.mp (hmeta bytes hread)
      refine ⟨{ c with fingerprint := text, pc := .returned }, ?_, rfl⟩
      simp only [advance, hpc, hread, htext]

/-- A sidecar that is not UTF-8 ends the call. -/
theorem advance_readBack_raised {bytes : List UInt8} (hpc : c.pc = .readBack)
    (hread : S.root.read (.sidecar c.source) = some bytes) (htext : sidecarText bytes = none) :
    S.advance id c = some (S.setCall id { c with pc := .raised .undecodable }) := by
  simp only [advance, hpc, hread, htext]

/-- The source is unreachable, there is a copy, and its sidecar can be read if it is there. -/
theorem exec_fallback (hc : S.call id = some c) (hpc : c.pc = .statSource)
    (hsource : S.source c.source = none)
    (hcopy : (S.root.entry (.dest c.source)).isSome = true)
    (hmeta : ∀ bytes ∈ S.root.read (.sidecar c.source), (sidecarText bytes).isSome = true) :
    ∃ T d, exec step S (List.replicate 5 (.next id)) = some T ∧ T.call id = some d ∧
      d.pc = .returned ∧ T.root.read (.dest c.source) = S.root.read (.dest c.source) := by
  obtain ⟨U, hU, hcall, hread⟩ := exec_touch hc hpc hsource hcopy
  have hback : ∃ d, U.advance id { c with pc := .readBack } = some (U.setCall id d) ∧
      d.pc = .returned := by
    refine advance_readBack_returned rfl fun bytes hbytes => hmeta bytes ?_
    rwa [hread] at hbytes
  obtain ⟨d, hadvance, hd⟩ := hback
  refine ⟨U.setCall id d, d, ?_, call_setCall, hd, hread _⟩
  rw [show 5 = 4 + 1 from rfl, List.replicate_succ', exec_append, hU, Option.bind_some,
      ← List.replicate_one,
    exec_next hcall hadvance]
  rfl

/-- The source is unreachable, there is a copy, and its sidecar is not UTF-8. -/
theorem exec_undecodable {bytes : List UInt8} (hc : S.call id = some c) (hpc : c.pc = .statSource)
    (hsource : S.source c.source = none)
    (hcopy : (S.root.entry (.dest c.source)).isSome = true)
    (hmeta : S.root.read (.sidecar c.source) = some bytes) (htext : sidecarText bytes = none) :
    ∃ T d e, exec step S (List.replicate 5 (.next id)) = some T ∧ T.call id = some d ∧
      d.pc = .raised e := by
  obtain ⟨U, hU, hcall, hread⟩ := exec_touch hc hpc hsource hcopy
  have hadvance : U.advance id { c with pc := .readBack } =
      some (U.setCall id { c with pc := .raised .undecodable }) :=
    advance_readBack_raised rfl ((hread _).trans hmeta) htext
  refine ⟨U.setCall id { c with pc := .raised .undecodable }, { c with pc := .raised .undecodable },
    .undecodable, ?_, call_setCall, rfl⟩
  rw [show 5 = 4 + 1 from rfl, List.replicate_succ', exec_append, hU, Option.bind_some,
      ← List.replicate_one,
    exec_next hcall hadvance]
  rfl

/-- The source is unreachable, and there is no copy. -/
theorem exec_unreachable (hc : S.call id = some c) (hpc : c.pc = .statSource)
    (hsource : S.source c.source = none) (hcopy : S.root.entry (.dest c.source) = none) :
    ∃ T d e, exec step S (List.replicate 2 (.next id)) = some T ∧ T.call id = some d ∧
      d.pc = .raised e := by
  have hstat : S.advance id c = some (S.setCall id { c with pc := .lookForCopy }) := by
    simp only [advance, hpc, hsource]
  rw [exec_next hc hstat]
  have hlook : (S.setCall id { c with pc := .lookForCopy }).advance id
      { c with pc := .lookForCopy } =
      some ((S.setCall id { c with pc := .lookForCopy }).setCall id
        { c with pc := .raised (.unreachable (S.lost c.source)) }) := by
    refine if_neg fun hsome => ?_
    have hsome : (S.root.entry (.dest c.source)).isSome = true := hsome
    rw [hcopy] at hsome
    cases hsome
  rw [exec_next call_setCall hlook]
  exact ⟨_, _, _, rfl, call_setCall, rfl⟩

private theorem step_over (hc : S.call id = some c)
    (hpc : c.pc = .returned ∨ ∃ e, c.pc = .raised e) : step S (.next id) = none := by
  rw [step_next hc]
  rcases hpc with hpc | ⟨e, hpc⟩ <;> simp only [advance, hpc]

/-! ### The promise -/

/-- The call as it prunes. -/
def pruner (S : BinRoot) (pid : ℕ) (source : String) (keepDays : Duration) : CopyCall :=
  { pid, source, keepDays, now := S.now }

/-- The call returns with the copy as it was. -/
def FallsBack (S : BinRoot) (pid : ℕ) (source : String) (keepDays : Duration)
    (names : List BinName) : Prop :=
  ∃ T, S.Ends pid source keepDays names .returned T ∧
    T.root.read (.dest source) = S.root.read (.dest source)

/-- The call, with the root to itself, begins and prunes. -/
theorem exec_alone (S : BinRoot) (pid : ℕ) (source : String) (keepDays : Duration)
    (names : List BinName) : ∃ R m U,
      (∀ n, exec step S (S.alone pid source keepDays names n) =
        exec step R (List.replicate n (.next S.calls))) ∧
      exec step R (List.replicate m (.next S.calls)) = some U ∧
      U.root = (prune (S.pruner pid source keepDays) S names).root ∧ U.source = S.source ∧
      U.call S.calls = some { S.pruner pid source keepDays with pc := .statSource } := by
  have hlisted : ∀ n, exec step S (S.alone pid source keepDays names n) =
      exec step ({ S with calls := S.calls + 1 }.setCall S.calls
        { S.pruner pid source keepDays with pc := .pruning names })
        (List.replicate n (.next S.calls)) := by
    intro n
    have hbegin : step S (.begin pid source keepDays) =
        some ({ S with calls := S.calls + 1 }.setCall S.calls { pid, source, keepDays }) := rfl
    have hlist : step ({ S with calls := S.calls + 1 }.setCall S.calls { pid, source, keepDays })
        (.listed S.calls names) = some ({ S with calls := S.calls + 1 }.setCall S.calls
          { S.pruner pid source keepDays with pc := .pruning names }) := by
      rw [step, call_setCall, Option.bind_some, if_pos rfl, setCall_setCall]
      rfl
    rw [alone, exec, hbegin, Option.bind_some, exec, hlist, Option.bind_some]
  have hpc : { S.pruner pid source keepDays with pc := .pruning names }.pc = .pruning names := rfl
  obtain ⟨m, hm⟩ := exec_prune (S := { S with calls := S.calls + 1 }.setCall S.calls
    { S.pruner pid source keepDays with pc := .pruning names }) call_setCall hpc
  refine ⟨_, m, _, hlisted, hm, root_prune rfl, ?_, call_setCall⟩
  exact (prune_same _ _ names).2.1

/-- What the prune leaves of the sidecar is UTF-8. -/
def Legible (S : BinRoot) (c : CopyCall) (source : String) : Prop :=
  ∀ bytes ∈ S.root.read (.sidecar source), ¬ S.Pruned c (.sidecar source) →
    (Python.Text.decode (bytes.map UInt8.toNat)).isSome = true

private theorem sidecarText_isSome (bytes : List UInt8) : (sidecarText bytes).isSome =
    (Python.Text.decode (bytes.map UInt8.toNat)).isSome := by
  rw [sidecarText, Option.isSome_map, Python.Text.readText, Option.isSome_map]

/-- The sidecar after the prune, if it is still there, is the one before it. -/
theorem legible_iff (hnames : S.Lists names) {source : String} : S.Legible c source ↔
    ∀ bytes ∈ (prune c S names).root.read (.sidecar source),
      (sidecarText bytes).isSome = true := by
  simp only [sidecarText_isSome]
  by_cases hpruned : S.Pruned c (.sidecar source)
  · refine iff_of_true (fun _ _ hnot => absurd hpruned hnot) fun bytes hread => ?_
    obtain ⟨t, hmtime, -⟩ := id hpruned
    obtain ⟨i, hi, -⟩ := Option.map_eq_some_iff.mp hmtime
    have hlisted : BinName.sidecar source ∈ names := (hnames _).mpr (by rw [hi]; rfl)
    rw [Directory.read, entry_prune_of_pruned hpruned hlisted] at hread
    cases hread
  · rw [read_prune hpruned]
    exact forall₂_congr fun _ _ => ⟨fun h => h hpruned, fun h _ => h⟩

/-- The call gets by with the copy exactly if its prune spares the copy, and leaves no sidecar that
is not UTF-8. -/
theorem fallsBack_iff (S : BinRoot) (pid : ℕ) {source : String} (keepDays : Duration)
    {names : List BinName} (hnames : S.Lists names) (hsource : S.source source = none)
    (hcopy : (S.root.entry (.dest source)).isSome = true) :
    S.FallsBack pid source keepDays names ↔
      ¬ S.Pruned (S.pruner pid source keepDays) (.dest source) ∧
        S.Legible (S.pruner pid source keepDays) source := by
  obtain ⟨i, hi⟩ := Option.isSome_iff_exists.mp hcopy
  obtain ⟨R, m, U, halone, hm, hroot, hunreachable, hcall⟩ := S.exec_alone pid source keepDays names
  have hU : U.source source = none := by rw [hunreachable, hsource]
  have hafter : ∀ n, exec step R (List.replicate (m + n) (.next S.calls)) =
      exec step U (List.replicate n (.next S.calls)) := fun n => by
    rw [← List.replicate_append_replicate, exec_append, hm, Option.bind_some]
  rw [← entry_prune hnames hi, legible_iff hnames, ← hroot]
  -- a call ends in one state only
  have hnever {n : ℕ} {V : BinRoot} {d' : CopyCall} {e : CopyError}
      (hV : exec step U (List.replicate n (.next S.calls)) = some V)
      (hd' : V.call S.calls = some d') (hpc' : d'.pc = .raised e) :
      ¬ S.FallsBack pid source keepDays names := by
    rintro ⟨T, ⟨⟨k, hk⟩, d, hd, hpc⟩, -⟩
    have hsame := exec_replicate_stuck ((hafter n).trans hV) (step_over hd' (.inr ⟨e, hpc'⟩))
      ((halone k).symm.trans hk) (step_over hd (.inl hpc))
    rw [hsame, hd] at hd'
    obtain rfl := Option.some.inj hd'
    rw [hpc] at hpc'
    cases hpc'
  constructor
  · intro hfalls
    have hsome : (U.root.entry (.dest source)).isSome = true := by
      by_contra hnone
      rw [Bool.not_eq_true, Option.isSome_eq_false_iff, Option.isNone_iff_eq_none] at hnone
      obtain ⟨V, d', e, hV, hd', hpc'⟩ := exec_unreachable hcall rfl hU hnone
      exact hnever hV hd' hpc' hfalls
    refine ⟨hsome, fun bytes hread => ?_⟩
    by_contra htext
    rw [Bool.not_eq_true, Option.isSome_eq_false_iff, Option.isNone_iff_eq_none] at htext
    obtain ⟨V, d', e, hV, hd', hpc'⟩ := exec_undecodable hcall rfl hU hsome hread htext
    exact hnever hV hd' hpc' hfalls
  · rintro ⟨hsome, hmeta⟩
    obtain ⟨T, d, hT, hd, hpc, hread⟩ := exec_fallback hcall rfl hU hsome hmeta
    refine ⟨T, ⟨⟨m + 5, (halone _).trans ((hafter 5).trans hT)⟩, d, hd, hpc⟩, hread.trans ?_⟩
    have hkept := (entry_prune hnames hi).mp (hroot ▸ hsome)
    rw [hroot]
    exact read_prune hkept

/-- Younger than `keep_days`. -/
def Young (keepDays : Duration) (age : ℚ) : Prop := (age : Duration) < keepDays.map (· * 86400)

instance (keepDays : Duration) (age : ℚ) : Decidable (Young keepDays age) :=
  inferInstanceAs (Decidable (_ < _))

/-- The call gets by with the copy of a source that has vanished, and its prune spares every copy
that is younger than the `keep_days` of a resolver that uses it; `uses`: what the resolvers use, and
their `keep_days`. -/
def Resilient (S : BinRoot) (pid : ℕ) (source : String) (keepDays : Duration)
    (names : List BinName) (uses : String → Duration → Prop) : Prop :=
  (S.source source = none → (S.root.entry (.dest source)).isSome = true →
    S.FallsBack pid source keepDays names) ∧
  ∀ other k t, uses other k → S.mtime (.dest other) = some t → Young k (S.now - t) →
    ((prune (S.pruner pid source keepDays) S names).root.entry (.dest other)).isSome = true

/-- The promise is kept exactly where the copy of a vanished source is not too old for the call and
its sidecar, unless it is missing or too old itself, is UTF-8, and where no copy that is young for a
resolver which uses it is too old for the call. -/
theorem resilient_iff (S : BinRoot) (pid : ℕ) (source : String) (keepDays : Duration)
    (names : List BinName) (uses : String → Duration → Prop) (hnames : S.Lists names) :
    S.Resilient pid source keepDays names uses ↔
      (S.source source = none → (S.root.entry (.dest source)).isSome = true →
        ¬ S.Pruned (S.pruner pid source keepDays) (.dest source) ∧
          S.Legible (S.pruner pid source keepDays) source) ∧
      ∀ other k t, uses other k → S.mtime (.dest other) = some t → Young k (S.now - t) →
        (S.pruner pid source keepDays).stale (.dest other) t = false := by
  refine and_congr (forall₂_congr fun hsource hcopy => ?_)
    (forall_congr' fun other => forall_congr' fun k => forall_congr' fun t =>
      imp_congr_right fun huses => imp_congr_right fun hmtime => imp_congr_right fun hyoung => ?_)
  · exact fallsBack_iff S pid keepDays hnames hsource hcopy
  · obtain ⟨i, hi, -⟩ := Option.map_eq_some_iff.mp hmtime
    rw [entry_prune hnames hi, Pruned, hmtime]
    simp

/-- A bin root with one copy, last used at time 0, whose source has vanished. -/
def oneCopy (now : ℚ) : BinRoot where
  now := now
  root :=
    { entry := fun name => if name = .dest "/s" then some 0 else none
      inode := fun _ => ⟨[1, 2], 0⟩
      next := 1
      bound := fun name i h => by
        split at h
        · cases h
          exact Nat.one_pos
        · cases h
      inj := fun name name' i h h' => by
        split at h
        · split at h'
          · exact ‹name = _›.trans ‹name' = _›.symm
          · cases h'
        · cases h }

private theorem oneCopy_lists (now : ℚ) : (oneCopy now).Lists [.dest "/s"] := by
  intro name
  rw [List.mem_singleton, oneCopy]
  dsimp only
  split
  · exact ⟨fun _ => rfl, fun _ => ‹_›⟩
  · exact ⟨fun h => absurd h ‹_›, nofun⟩

/-- A day after its last use the copy stands in for its source. -/
theorem resilient_iff_recent : (oneCopy 86400).Resilient 1 "/s" (7 : ℚ) [.dest "/s"]
    (fun source k => source = "/s" ∧ k = (7 : ℚ)) := by
  have hfresh :
      CopyCall.stale ((oneCopy 86400).pruner 1 "/s" (7 : ℚ)) (.dest "/s") 0 = false := by
    decide +kernel
  refine (resilient_iff _ 1 "/s" (7 : ℚ) _ _ (oneCopy_lists 86400)).mpr
    ⟨fun _ _ => ⟨fun ⟨t, hmtime, hstale⟩ => ?_, nofun⟩, fun other k t huses hmtime hyoung => ?_⟩
  · obtain rfl : 0 = t := Option.some.inj hmtime
    rw [hfresh] at hstale
    cases hstale
  · obtain ⟨rfl, rfl⟩ := huses
    obtain rfl : 0 = t := Option.some.inj hmtime
    exact hfresh

/-- Eight days after its last use the copy is pruned by the call that needs it; and two days after
it, by a call for another source whose resolver keeps copies for a day. -/
theorem not_resilient :
    (¬ ∀ (S : BinRoot) pid source keepDays names, S.Lists names → S.source source = none →
      (S.root.entry (.dest source)).isSome = true → S.FallsBack pid source keepDays names) ∧
    (¬ ∀ (S : BinRoot) pid source keepDays names, S.Lists names → ∀ other k t,
      S.mtime (.dest other) = some t → Young k (S.now - t) →
      ((prune (S.pruner pid source keepDays) S names).root.entry (.dest other)).isSome = true) := by
  constructor
  · intro h
    have hfalls := h (oneCopy (8 * 86400)) 1 "/s" (7 : ℚ) _ (oneCopy_lists _) rfl rfl
    refine ((fallsBack_iff _ 1 _ (oneCopy_lists _) rfl rfl).mp hfalls).1 ⟨0, rfl, ?_⟩
    decide +kernel
  · intro h
    have hkept := h (oneCopy (2 * 86400)) 1 "/t" (1 : ℚ) _ (oneCopy_lists _) "/s" (7 : ℚ) 0 rfl
      (by decide +kernel)
    refine (entry_prune (oneCopy_lists _) (i := 0) rfl).mp hkept ⟨0, rfl, ?_⟩
    decide +kernel

end BinRoot

end Jetty.Orchestrator
