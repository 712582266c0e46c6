import Jetty.Core.Monitor
import Jetty.Core.Streak
import Jetty.Orchestrator.Gates.GateSet

/-!
# When a continuous gate stops a service

Beside the gates, every run of a check is logged, and for each watcher the stamps of the failures
that make up its streak. A watcher sees a run only if its result is still cached at its next poll:
a pass that a failure has replaced before that is missed, and so is one that comes while the watcher
is still waiting for other gates of the same poll.
-/

namespace Jetty.Orchestrator

open Python Streak Transition

namespace Watcher

variable {w : Watcher} {gate : String}

private theorem foldl_count_of_not_mem {l : List (String × Bool × ℚ)} (h : gate ∉ l.map Prod.fst)
    (w : Watcher) : (l.foldl count w).streaks gate = w.streaks gate ∧
      (l.foldl count w).counted gate = w.counted gate := by
  induction l generalizing w with
  | nil => exact ⟨rfl, rfl⟩
  | cons r l ih =>
      rw [List.map_cons, List.mem_cons, not_or] at h
      obtain ⟨hstreaks, hcounted⟩ := ih h.2 (w.count r)
      rw [List.foldl_cons, hstreaks, hcounted]
      unfold count
      split
      · exact ⟨rfl, rfl⟩
      · exact ⟨Function.update_of_ne h.1 _ _, Function.update_of_ne h.1 _ _⟩

/-- What a poll makes of the streak of one gate. -/
theorem foldl_count_of_mem {l : List (String × Bool × ℚ)} (hl : (l.map Prod.fst).Nodup) {ok : Bool}
    {stamp : ℚ} (h : (gate, ok, stamp) ∈ l) (w : Watcher) :
    (l.foldl count w).streaks gate = (if w.counted gate = some stamp then w.streaks gate
        else if ok then 0 else w.streaks gate + 1) ∧
      (l.foldl count w).counted gate = some stamp := by
  induction l generalizing w with
  | nil => cases h
  | cons r l ih =>
      rw [List.map_cons, List.nodup_cons] at hl
      rw [List.foldl_cons]
      rcases List.mem_cons.mp h with rfl | hmem
      · obtain ⟨hstreaks, hcounted⟩ := foldl_count_of_not_mem hl.1 (w.count (gate, ok, stamp))
        rw [hstreaks, hcounted]
        unfold count
        dsimp only
        split
        · exact ⟨rfl, ‹_›⟩
        · exact ⟨Function.update_self _ _ _, Function.update_self _ _ _⟩
      · have hne : gate ≠ r.1 := by
          rintro rfl
          exact hl.1 (List.mem_map.mpr ⟨_, hmem, rfl⟩)
        obtain ⟨hstreaks, hcounted⟩ := ih hl.2 hmem (w.count r)
        have hsame : (w.count r).streaks gate = w.streaks gate ∧
            (w.count r).counted gate = w.counted gate := by
          unfold count
          split
          · exact ⟨rfl, rfl⟩
          · exact ⟨Function.update_of_ne hne _ _, Function.update_of_ne hne _ _⟩
        rw [hstreaks, hcounted, hsame.1, hsame.2]
        exact ⟨rfl, rfl⟩

/-- A poll that has no result for a gate leaves its streak. -/
theorem counts_of_none {results : Dict String (Bool × ℚ)} (h : results.get? gate = none) :
    (w.counts results).streaks gate = w.streaks gate ∧
      (w.counts results).counted gate = w.counted gate :=
  foldl_count_of_not_mem (Dict.get?_eq_none.mp h) w

/-- A poll counts each run of the check once. -/
theorem counts_of_some {results : Dict String (Bool × ℚ)} {ok : Bool} {stamp : ℚ}
    (h : results.get? gate = some (ok, stamp)) :
    (w.counts results).streaks gate = (if w.counted gate = some stamp then w.streaks gate
        else if ok then 0 else w.streaks gate + 1) ∧
      (w.counts results).counted gate = some stamp :=
  foldl_count_of_mem results.nodup (Dict.get?_eq_some.mp h) w

private theorem polled_ne_polling (closeAfter : String → ℕ) (w : Watcher)
    (results : Dict String (Bool × ℚ)) (gone : Bool) :
    (w.polled closeAfter results gone).pc ≠ .polling := by
  unfold polled
  dsimp only
  split_ifs <;> nofun

/-- A watcher stops its service only if the service is still there. -/
theorem polled_stopping {closeAfter : String → ℕ} {results : Dict String (Bool × ℚ)} {gone : Bool}
    (h : (w.polled closeAfter results gone).pc = .stopping) : gone = false := by
  unfold polled at h
  dsimp only at h
  split_ifs at h with hclosed hgone
  exact Bool.eq_false_of_not_eq_true hgone

end Watcher

/-- What a call returns grows by the result it takes. -/
theorem GateCall.out_take (call : GateCall) (gate : String) (ok : Bool) (stamp : ℚ) :
    (call.take gate ok stamp).out = call.out.set gate (ok, stamp) := by
  unfold GateCall.out GateCall.take
  rw [List.foldl_append]
  rfl

/-- What has really happened. -/
structure GateLedger (ω : Type) where
  /-- The runs of each gate's check, oldest first. -/
  log : String → List (ℚ × Bool) := fun _ => []
  /-- The stamps that make up a watcher's streak. -/
  runs : ω → String → List ℚ := fun _ _ => []

/-- The stamps of a streak when a poll has this result for the gate. -/
def tally (counted : Option ℚ) (runs : List ℚ) : Option (Bool × ℚ) → List ℚ
  | none => runs
  | some (ok, stamp) => if counted = some stamp then runs else if ok then [] else runs ++ [stamp]

namespace Gates

variable {ω κ : Type} [DecidableEq ω] [DecidableEq κ]

/-- A step is entered into the ledger. -/
def enter (l : GateLedger ω) (S : Gates ω κ) (e : GatesEvent ω κ) (_ : Gates ω κ) : GateLedger ω :=
  match e with
  | .checked gate ok now =>
    { l with log := Function.update l.log gate (l.log gate ++ [(now, ok)]) }
  | .polled w _ =>
    match S.call (.inl w) with
    | none => l
    | some call =>
      { l with runs := Function.update l.runs w fun gate =>
          tally ((S.watcher w).counted gate) (l.runs w gate) (call.out.get? gate) }
  | _ => l

/-- The steps of the gates beside which the ledger is kept. -/
abbrev Logged (c : GatesSetup ω) : Transition.Rel (Gates ω κ × GateLedger ω) (GatesEvent ω κ) :=
  (Steps c).monitored enter

/-! ### Inversion -/

/-- What a step of the gates can do. -/
inductive Effect (c : GatesSetup ω) (S : Gates ω κ) : GatesEvent ω κ → Gates ω κ → Prop
  | asked {k : κ} {names : List String} {refresh : Bool} : S.call (.inr k) = none →
      Effect c S (.ask k names refresh) (S.setCall (.inr k) (some { left := names, refresh }))
  | slept {w : ω} : (S.watcher w).pc = .sleeping →
      Effect c S (.woke w true) (S.setWatcher w { S.watcher w with pc := .finished })
  | woke {w : ω} : (S.watcher w).pc = .sleeping →
      Effect c S (.woke w false) ((S.setWatcher w { S.watcher w with pc := .polling }).setCall
        (.inl w) (some { left := c.names w, refresh := false }))
  | cached {u : ω ⊕ κ} {now stamp : ℚ} {call : GateCall} {gate : String} {rest : List String}
      {ok : Bool} : S.call u = some call → call.left = gate :: rest → S.lock gate = none →
      S.cache gate = some (stamp, ok) →
      Effect c S (.consult u now) (S.setCall u (some (call.take gate ok stamp)))
  | locked {u : ω ⊕ κ} {now : ℚ} {call : GateCall} {gate : String} {rest : List String} :
      S.call u = some call → call.left = gate :: rest → S.lock gate = none →
      Effect c S (.consult u now) { S with lock := Function.update S.lock gate (some u) }
  | checked {u : ω ⊕ κ} {call : GateCall} {gate : String} {ok : Bool} {now : ℚ} :
      S.lock gate = some u → S.call u = some call →
      Effect c S (.checked gate ok now) (S.checked u call gate ok now)
  | answered {k : κ} {call : GateCall} : S.call (.inr k) = some call → call.left = [] →
      Effect c S (.answered k) (S.setCall (.inr k) none)
  | polled {w : ω} {gone : Bool} {call : GateCall} : S.call (.inl w) = some call →
      call.left = [] →
      Effect c S (.polled w gone) ((S.setWatcher w
        ((S.watcher w).polled c.closeAfter call.out gone)).setCall (.inl w) none)
  | cancelled {w : ω} : Effect c S (.abandoned (.inl w))
      ((S.abandon (.inl w)).setWatcher w { S.watcher w with pc := .finished })
  | dropped {k : κ} : Effect c S (.abandoned (.inr k)) (S.abandon (.inr k))

/-- Every step of the gates has one of the effects. -/
theorem step_effect {c : GatesSetup ω} {S T : Gates ω κ} {e : GatesEvent ω κ}
    (h : step c S e = some T) : Effect c S e T := by
  cases e with
  | ask k names refresh =>
      simp only [step] at h
      split at h
      · cases h
      · rename_i hnone
        obtain rfl := Option.some.inj h
        exact .asked hnone
  | woke w gone =>
      simp only [step, Option.ite_none_right_eq_some] at h
      obtain ⟨hpc, h⟩ := h
      cases gone with
      | true =>
          obtain rfl := Option.some.inj h
          exact .slept hpc
      | false =>
          obtain rfl := Option.some.inj h
          exact .woke hpc
  | consult u now =>
      simp only [step] at h
      split at h
      · cases h
      · rename_i call hcall
        split at h
        · cases h
        · rename_i gate rest hleft
          split at h
          · rename_i hlock
            obtain rfl := Option.some.inj h
            unfold consult
            split
            · rename_i stamp ok hcache
              split
              · exact .cached hcall hleft hlock hcache
              · exact .locked hcall hleft hlock
            · exact .locked hcall hleft hlock
          · cases h
  | checked gate ok now =>
      simp only [step] at h
      split at h
      · cases h
      · rename_i u hlock
        obtain ⟨call, hcall, rfl⟩ := Option.map_eq_some_iff.mp h
        exact .checked hlock hcall
  | answered k =>
      simp only [step] at h
      split at h
      · rename_i hcall
        obtain rfl := Option.some.inj h
        exact .answered hcall rfl
      · cases h
  | polled w gone =>
      simp only [step] at h
      split at h
      · cases h
      · rename_i call hcall
        split at h
        · obtain rfl := Option.some.inj h
          exact .polled hcall ‹_›
        · cases h
  | abandoned u =>
      simp only [step] at h
      split at h
      · cases h
      · split at h
        · obtain rfl := Option.some.inj h
          exact .cancelled
        · obtain rfl := Option.some.inj h
          exact .dropped

/-! ### Locks and calls -/

/-- Who holds a lock is about to check that gate, and exactly the watchers that are polling have a
call. -/
structure Held (S : Gates ω κ) : Prop where
  lock : ∀ gate u, S.lock gate = some u →
    ∃ call, S.call u = some call ∧ call.left.head? = some gate
  polling : ∀ w, (S.watcher w).pc = .polling ↔ (S.call (.inl w)).isSome = true

variable {c : GatesSetup ω} {S T : Gates ω κ} {e : GatesEvent ω κ}

omit [DecidableEq ω] [DecidableEq κ]

/-- No lock of a gate is held at the start. -/
theorem held_init : Held ({} : Gates ω κ) := ⟨nofun, fun _ => ⟨nofun, nofun⟩⟩

/-- A sleeping watcher has no call under way. -/
theorem Held.idle (h : Held S) {w : ω} (hpc : (S.watcher w).pc = .sleeping) :
    S.call (.inl w) = none := by
  have hnot : ¬ (S.call (.inl w)).isSome = true := fun hsome => by
    have hpolling := (h.polling w).mpr hsome
    rw [hpc] at hpolling
    cases hpolling
  exact Option.not_isSome_iff_eq_none.mp hnot

/-- Without a next gate there is no lock. -/
theorem Held.unlocked (h : Held S) {u : ω ⊕ κ} (hu : ∀ call, S.call u = some call → call.left = [])
    (gate : String) : S.lock gate ≠ some u := by
  intro hlock
  obtain ⟨call, hcall, hhead⟩ := h.lock gate u hlock
  rw [hu call hcall] at hhead
  cases hhead

private theorem Held.eq_of_lock (h : Held S) {u : ω ⊕ κ} {call : GateCall} {gate gate' : String}
    {rest : List String} (hcall : S.call u = some call) (hleft : call.left = gate :: rest)
    (hlock : S.lock gate' = some u) : gate' = gate := by
  obtain ⟨call', hcall', hhead⟩ := h.lock gate' u hlock
  obtain rfl := Option.some.inj (hcall'.symm.trans hcall)
  rw [hleft] at hhead
  exact (Option.some.inj hhead).symm

/-- Who holds a lock goes on as before. -/
theorem Held.lock_of (h : Held S) (hlock : ∀ gate u, T.lock gate = some u →
    S.lock gate = some u ∧ T.call u = S.call u) (gate : String) (u : ω ⊕ κ)
    (hu : T.lock gate = some u) : ∃ call, T.call u = some call ∧ call.left.head? = some gate := by
  obtain ⟨hS, hcall⟩ := hlock gate u hu
  rw [hcall]
  exact h.lock gate u hS

variable [DecidableEq ω] [DecidableEq κ]

/-- The call of one user, who holds no lock, is replaced. -/
theorem lock_replace {u : ω ⊕ κ} (hu : ∀ gate, S.lock gate ≠ some u)
    {call : Option GateCall} (gate : String) (v : ω ⊕ κ) (hv : S.lock gate = some v) :
    S.lock gate = some v ∧ Function.update S.call u call v = S.call v := by
  have hne : v ≠ u := by
    rintro rfl
    exact hu gate hv
  exact ⟨hv, Function.update_of_ne hne _ _⟩

/-- A watcher and its call move together. -/
theorem Held.polling_of (h : Held S) {w : ω} {watcher : Watcher} {call : Option GateCall}
    (hpc : watcher.pc = .polling ↔ call.isSome = true) (v : ω) :
    (Function.update S.watcher w watcher v).pc = .polling ↔
      (Function.update S.call (.inl w) call (.inl v)).isSome = true := by
  by_cases hv : v = w
  · rw [hv, Function.update_self, Function.update_self]
    exact hpc
  · rw [Function.update_of_ne hv, Function.update_of_ne (fun h => hv (Sum.inl.inj h))]
    exact h.polling v

/-- A call goes on. -/
theorem Held.polling_same (h : Held S) {u : ω ⊕ κ} {call : GateCall} {call' : Option GateCall}
    (hcall : S.call u = some call) (hcall' : call'.isSome = true) (v : ω) :
    (S.watcher v).pc = .polling ↔ (Function.update S.call u call' (.inl v)).isSome = true := by
  by_cases hv : Sum.inl v = u
  · rw [hv, Function.update_self, h.polling v, hv, hcall, hcall']
    rfl
  · rw [Function.update_of_ne hv]
    exact h.polling v

/-- The calls of `satisfied` do not touch those of the watchers. -/
theorem update_inr (call : ω ⊕ κ → Option GateCall) (k : κ) (call' : Option GateCall) (w : ω) :
    Function.update call (.inr k) call' (.inl w) = call (.inl w) :=
  Function.update_of_ne (fun h => by cases h) _ _

private theorem Held.polling_inr (h : Held S) (k : κ) (call : Option GateCall) (v : ω) :
    (S.watcher v).pc = .polling ↔
      (Function.update S.call (.inr k) call (.inl v)).isSome = true := by
  rw [update_inr]
  exact h.polling v

/-- A dropped call holds no lock any more. -/
theorem lock_abandon {u : ω ⊕ κ} (gate : String) (v : ω ⊕ κ)
    (hv : (S.abandon u).lock gate = some v) :
    S.lock gate = some v ∧ (S.abandon u).call v = S.call v := by
  simp only [abandon, Option.ite_none_left_eq_some] at hv
  obtain ⟨hne, hv⟩ := hv
  refine ⟨hv, Function.update_of_ne ?_ _ _⟩
  rintro rfl
  exact hne hv

/-- Every effect keeps the locks with the calls that hold them. -/
theorem Held.effect (h : Held S) (he : Effect c S e T) : Held T := by
  cases he with
  | @asked k names refresh hnone =>
      have hfree := h.unlocked fun call hcall => by rw [hnone] at hcall; cases hcall
      exact ⟨h.lock_of (lock_replace hfree), h.polling_inr k (some { left := names, refresh })⟩
  | @slept w hpc =>
      refine ⟨h.lock, fun v => ?_⟩
      have hdone : ({ S.watcher w with pc := .finished } : Watcher).pc = .polling ↔
          (none : Option GateCall).isSome = true := by simp
      have hpolling := h.polling_of (w := w) hdone v
      have hsame : Function.update S.call (.inl w) none = S.call := by
        rw [← h.idle hpc, Function.update_eq_self]
      rwa [hsame] at hpolling
  | woke hpc =>
      have hfree := h.unlocked fun call hcall => by rw [h.idle hpc] at hcall; cases hcall
      exact ⟨h.lock_of (lock_replace hfree), h.polling_of (by simp)⟩
  | @cached u now stamp call gate rest ok hcall hleft hlock hcache =>
      have hfree : ∀ gate', S.lock gate' ≠ some u := by
        intro gate' hgate'
        obtain rfl := h.eq_of_lock hcall hleft hgate'
        rw [hlock] at hgate'
        cases hgate'
      exact ⟨h.lock_of (lock_replace hfree), h.polling_same hcall rfl⟩
  | @locked u now call gate rest hcall hleft hlock =>
      refine ⟨fun gate' v hv => ?_, h.polling⟩
      by_cases hgate : gate' = gate
      · have hself : Function.update S.lock gate (some u) gate' = some v := hv
        rw [hgate, Function.update_self] at hself
        obtain rfl := Option.some.inj hself
        rw [hgate]
        exact ⟨call, hcall, by rw [hleft]; rfl⟩
      · have hother : Function.update S.lock gate (some u) gate' = some v := hv
        rw [Function.update_of_ne hgate] at hother
        exact h.lock gate' v hother
  | @checked u call gate ok now hlock hcall =>
      refine ⟨h.lock_of fun gate' v hv => ?_, h.polling_same hcall rfl⟩
      change Function.update S.lock gate none gate' = some v at hv
      have hgate : gate' ≠ gate := by
        rintro rfl
        rw [Function.update_self] at hv
        cases hv
      rw [Function.update_of_ne hgate] at hv
      have hne : v ≠ u := by
        rintro rfl
        obtain ⟨call', hcall', hhead⟩ := h.lock gate v hlock
        obtain ⟨call'', hcall'', hhead'⟩ := h.lock gate' v hv
        obtain rfl := Option.some.inj (hcall'.symm.trans hcall'')
        exact hgate (Option.some.inj (hhead'.symm.trans hhead))
      exact ⟨hv, Function.update_of_ne hne _ _⟩
  | @answered k call hcall hleft =>
      have hfree : ∀ gate, S.lock gate ≠ some (.inr k) := h.unlocked fun call' hcall' => by
        obtain rfl := Option.some.inj (hcall'.symm.trans hcall)
        exact hleft
      exact ⟨h.lock_of (lock_replace hfree), h.polling_inr k none⟩
  | @polled w gone call hcall hleft =>
      have hfree : ∀ gate, S.lock gate ≠ some (.inl w) := h.unlocked fun call' hcall' => by
        obtain rfl := Option.some.inj (hcall'.symm.trans hcall)
        exact hleft
      exact ⟨h.lock_of (lock_replace hfree), h.polling_of
        ⟨fun hpc => absurd hpc (Watcher.polled_ne_polling _ _ _ _), nofun⟩⟩
  | @cancelled w =>
      exact ⟨h.lock_of lock_abandon, h.polling_of (by simp)⟩
  | @dropped k =>
      exact ⟨h.lock_of lock_abandon, h.polling_inr k none⟩

end Gates

end Jetty.Orchestrator
