import Mathlib.Data.Fintype.Basic
import Jetty.Orchestrator.Gates.Streaks

/-!
# The failures a closure rests on

The watcher of a service closes a gate when its streak has reached `close_after`. The streak is a
list of distinct failing runs; that these are the last runs of the check depends on what the watcher
has seen of the runs that others have started.
-/

namespace Jetty.Orchestrator

open Python Streak Transition

/-! ### One watcher and one gate -/

/-- The runs are in the order of their stamps. -/
def InOrder (log : List (ℚ × Bool)) : Prop := log.Pairwise fun r r' => r.1 < r'.1

section Order

variable {log : List (ℚ × Bool)} {r r' : ℚ × Bool}

private theorem InOrder.concat (h : InOrder log) (hr : ∀ r' ∈ log, r'.1 < r.1) : InOrder
    (log ++ [r]) := by
  refine List.pairwise_append.mpr ⟨h, List.pairwise_singleton _ _, fun r' hr' r'' hr'' => ?_⟩
  obtain rfl := List.mem_singleton.mp hr''
  exact hr r' hr'

private theorem InOrder.le_last (h : InOrder log) (hlast : log.getLast? = some r) (hr' : r' ∈ log) :
    r'.1 ≤ r.1 := by
  obtain ⟨front, rfl⟩ := List.getLast?_eq_some_iff.mp hlast
  rcases List.mem_append.mp hr' with hfront | hr'
  · exact ((List.pairwise_append.mp h).2.2 r' hfront r (List.mem_singleton.mpr rfl)).le
  · obtain rfl := List.mem_singleton.mp hr'
    exact le_rfl

/-- A run is known by its stamp. -/
theorem InOrder.eq_of_stamp (h : InOrder log) (hr : r ∈ log) (hr' : r' ∈ log) (heq : r.1 = r'.1) :
    r = r' := by
  have hnodup : (log.map Prod.fst).Nodup := List.pairwise_map.mpr (h.imp fun hlt => hlt.ne)
  exact List.inj_on_of_nodup_map hnodup hr hr' heq

end Order

/-- A watcher's streak for a gate counts failing runs, each of them once; `hand` is what its poll
has found for the gate. -/
structure Tallied (streak : ℕ) (counted : Option ℚ) (hand : Option (Bool × ℚ))
    (log : List (ℚ × Bool)) (runs : List ℚ) : Prop where
  length : streak = runs.length
  failed : ∀ t ∈ runs, (t, false) ∈ log
  ordered : runs.Pairwise (· < ·)
  upTo : ∀ t ∈ runs, ∃ st, counted = some st ∧ t ≤ st
  last : ∀ st, counted = some st → (∃ ok, (st, ok) ∈ log) ∧ (runs = [] ∨ st ∈ runs)
  found : ∀ ok st, hand = some (ok, st) →
    (st, ok) ∈ log ∧ ∀ st', counted = some st' → st' ≤ st

section Tallied

variable {streak : ℕ} {counted : Option ℚ} {hand : Option (Bool × ℚ)} {log : List (ℚ × Bool)}
  {runs : List ℚ} {ok : Bool} {st : ℚ}

private theorem tallied_nil : Tallied 0 none none log [] :=
  ⟨rfl, List.forall_mem_nil _, .nil, List.forall_mem_nil _, nofun, nofun⟩

private theorem Tallied.append (h : Tallied streak counted hand log runs) (log' : List (ℚ × Bool)) :
    Tallied streak counted hand (log ++ log') runs where
  length := h.length
  failed t ht := List.mem_append_left _ (h.failed t ht)
  ordered := h.ordered
  upTo := h.upTo
  last st hst :=
    let ⟨⟨ok, hmem⟩, hruns⟩ := h.last st hst
    ⟨⟨ok, List.mem_append_left _ hmem⟩, hruns⟩
  found ok st hhand :=
    let ⟨hmem, hle⟩ := h.found ok st hhand
    ⟨List.mem_append_left _ hmem, hle⟩

private theorem Tallied.empty (h : Tallied streak counted hand log runs) :
    Tallied streak counted none log runs :=
  { h with found := nofun }

/-- The poll finds the last run's result. -/
theorem Tallied.take (h : Tallied streak counted hand log runs) (hlog : InOrder log)
    (hlast : log.getLast? = some (st, ok)) :
    Tallied streak counted (some (ok, st)) log runs := by
  refine { h with found := fun ok' st' hhand => ?_ }
  cases hhand
  refine ⟨List.mem_of_getLast? hlast, fun st' hst' => ?_⟩
  obtain ⟨⟨ok', hmem⟩, -⟩ := h.last st' hst'
  exact hlog.le_last hlast hmem

/-- A failure that is new to the watcher is later than those in its streak. -/
theorem Tallied.lt_of_found (h : Tallied streak counted (some (ok, st)) log runs)
    (hcounted : counted ≠ some st) {t : ℚ} (ht : t ∈ runs) : t < st := by
  obtain ⟨st', hst', hle⟩ := h.upTo t ht
  have hlt : st' < st := by
    refine lt_of_le_of_ne ((h.found ok st rfl).2 st' hst') ?_
    rintro rfl
    exact hcounted hst'
  exact hle.trans_lt hlt

/-- The poll returns. -/
theorem Tallied.poll (h : Tallied streak counted (some (ok, st)) log runs) :
    Tallied (if counted = some st then streak else if ok then 0 else streak + 1) (some st) none log
      (tally counted runs (some (ok, st))) := by
  obtain ⟨hmem, -⟩ := h.found ok st rfl
  unfold tally
  dsimp only
  split
  · rename_i hcounted
    exact hcounted ▸ h.empty
  · rename_i hcounted
    cases ok with
    | true =>
        refine ⟨rfl, List.forall_mem_nil _, .nil, List.forall_mem_nil _, fun st' hst' => ?_, nofun⟩
        cases hst'
        exact ⟨⟨true, hmem⟩, .inl rfl⟩
    | false =>
        refine ⟨?_, fun t ht => ?_, ?_, fun t ht => ⟨st, rfl, ?_⟩, fun st' hst' => ?_, nofun⟩
        · rw [if_neg Bool.false_ne_true, if_neg Bool.false_ne_true, h.length, List.length_append]
          rfl
        · rcases List.mem_append.mp ht with hruns | hnew
          · exact h.failed t hruns
          · rwa [List.mem_singleton.mp hnew]
        · refine List.pairwise_append.mpr ⟨h.ordered, List.pairwise_singleton _ _,
            fun t ht t' ht' => ?_⟩
          rw [List.mem_singleton.mp ht']
          exact h.lt_of_found hcounted ht
        · rcases List.mem_append.mp ht with hruns | hnew
          · exact (h.lt_of_found hcounted hruns).le
          · exact (List.mem_singleton.mp hnew).le
        · cases hst'
          exact ⟨⟨false, hmem⟩, .inr (List.mem_append_right _ (List.mem_singleton.mpr rfl))⟩

/-- The streak with what the poll has found by now. -/
def seen (counted : Option ℚ) (runs : List ℚ) : Option (Bool × ℚ) → List ℚ
  | some (false, st) => if counted = some st then runs else runs ++ [st]
  | _ => runs

private theorem sublist_seen : runs.Sublist (seen counted runs hand) := by
  unfold seen
  split
  · split
    · exact List.Sublist.refl _
    · exact List.sublist_append_left _ _
  · exact List.Sublist.refl _

/-- The poll has found a pass that it will not lose again. -/
def Cleared (hand : Option (Bool × ℚ)) (awaits : Prop) : Prop :=
  (∃ r ∈ hand, r.1 = true) ∧ ¬ awaits

/-- The watcher has no failure of the gate, neither counted nor found. -/
def Unsuspecting (runs : List ℚ) (hand : Option (Bool × ℚ)) : Prop :=
  runs = [] ∧ ∀ r ∈ hand, r.1 = true

/-- The streak will be broken when the poll returns, or the log carries it. -/
def Secure (counted : Option ℚ) (hand : Option (Bool × ℚ)) (awaits : Prop)
    (log : List (ℚ × Bool)) (runs : List ℚ) : Prop :=
  Cleared hand awaits ∨ Carries log (seen counted runs hand)

variable {awaits awaits' : Prop}

private theorem Unsuspecting.seen_eq (h : Unsuspecting runs hand) : seen counted runs hand =
    [] := by
  obtain ⟨rfl, hhand⟩ := h
  unfold seen
  split
  · exact absurd (hhand _ rfl) Bool.false_ne_true
  · rfl

/-- A run of the check. -/
theorem Secure.append (h : Secure counted hand awaits log runs) {now : ℚ}
    (hfail : ok = false → Passing log → Unsuspecting runs hand ∨ Cleared hand awaits) :
    Secure counted hand awaits (log ++ [(now, ok)]) runs := by
  rcases h with hcleared | hcarries
  · exact .inl hcleared
  · cases ok with
    | true => exact .inr (hcarries.pass now)
    | false =>
        by_cases hpassing : Passing log
        · rcases hfail rfl hpassing with hfree | hcleared
          · rw [Secure, hfree.seen_eq]
            exact .inr carries_nil
          · exact .inl hcleared
        · exact .inr ((hcarries.fail hpassing now).sublist (List.sublist_append_left _ _))

/-- The poll finds the last run's result. -/
theorem Secure.take (h : Secure counted hand awaits log runs) (hawaits : awaits)
    (ht : Tallied streak counted hand log runs) (hlog : InOrder log)
    (hlast : log.getLast? = some (st, ok)) : Secure counted (some (ok, st)) awaits' log runs := by
  have hruns : Carries log runs := by
    rcases h with hcleared | hcarries
    · exact absurd hawaits hcleared.2
    · exact hcarries.sublist sublist_seen
  right
  cases ok with
  | true => exact hruns
  | false =>
      unfold seen
      dsimp only
      split
      · exact hruns
      · rename_i hcounted
        refine hruns.observe hlast fun hmem => ?_
        exact absurd ((ht.take hlog hlast).lt_of_found hcounted hmem) (lt_irrefl st)

/-- The poll returns. -/
theorem Secure.poll (h : Secure counted hand awaits log runs) (hlog : InOrder log)
    (ht : Tallied streak counted hand log runs) : Carries log (tally counted runs hand) := by
  unfold tally
  split
  · rcases h with ⟨⟨r, hr, -⟩, -⟩ | hcarries
    · cases hr
    · exact hcarries
  · rename_i ok st
    cases ok with
    | true =>
        split
        · rename_i hcounted
          rcases (ht.last st hcounted).2 with rfl | hmem
          · exact carries_nil
          · have heq := hlog.eq_of_stamp (ht.failed st hmem) (ht.found true st rfl).1 rfl
            cases heq
        · exact carries_nil
    | false =>
        rcases h with ⟨⟨r, hr, hpass⟩, -⟩ | hcarries
        · cases hr
          cases hpass
        · exact hcarries

end Tallied

/-! ### What a step means to a watcher -/

/-- What a call has found for a gate. -/
def hand (call : Option GateCall) (gate : String) : Option (Bool × ℚ) :=
  call.bind fun call => call.out.get? gate

/-- The call has yet to check the gate. -/
def Awaits (call : Option GateCall) (gate : String) : Prop := ∃ call' ∈ call, gate ∈ call'.left

/-- The watcher may still stop its service. -/
def Watcher.Live (w : Watcher) : Prop := w.pc = .sleeping ∨ w.pc = .polling

private theorem hand_take_self (call : GateCall) (gate : String) (ok : Bool) (st : ℚ) :
    hand (some (call.take gate ok st)) gate = some (ok, st) := by
  rw [hand, Option.bind_some, GateCall.out_take]
  exact Dict.get?_set_self

private theorem hand_take_of_ne {gate gate' : String} (h : gate' ≠ gate) (call : GateCall)
    (ok : Bool) (st : ℚ) : hand (some (call.take gate ok st)) gate' = hand (some call) gate' := by
  rw [hand, Option.bind_some, GateCall.out_take]
  exact Dict.get?_set_of_ne h

namespace Gates

variable {ω κ : Type} [DecidableEq ω] [DecidableEq κ] {c : GatesSetup ω}

/-- What a step means to one watcher. -/
inductive Sight (c : GatesSetup ω) (x y : Gates ω κ × GateLedger ω) (w : ω) : Prop
  | same : y.1.watcher w = x.1.watcher w → y.1.call (.inl w) = x.1.call (.inl w) →
      y.2.runs w = x.2.runs w → Sight c x y w
  | gone : y.1.watcher w = { x.1.watcher w with pc := .finished } → y.1.call (.inl w) = none →
      y.2.runs w = x.2.runs w → Sight c x y w
  | woke : (x.1.watcher w).pc = .sleeping → x.1.call (.inl w) = none →
      y.1.watcher w = { x.1.watcher w with pc := .polling } →
      y.1.call (.inl w) = some { left := c.names w, refresh := false } →
      y.2.runs w = x.2.runs w → Sight c x y w
  | took {call : GateCall} {gate : String} {rest : List String} {ok : Bool} {st : ℚ} :
      y.1.watcher w = x.1.watcher w → x.1.call (.inl w) = some call → call.left = gate :: rest →
      y.1.call (.inl w) = some (call.take gate ok st) → y.1.cache gate = some (st, ok) →
      y.2.runs w = x.2.runs w → Sight c x y w
  | polled {call : GateCall} {gone : Bool} : x.1.call (.inl w) = some call → call.left = [] →
      y.1.watcher w = (x.1.watcher w).polled c.closeAfter call.out gone →
      y.1.call (.inl w) = none →
      (∀ gate, y.2.runs w gate =
        tally ((x.1.watcher w).counted gate) (x.2.runs w gate) (call.out.get? gate)) →
      y.2.log = x.2.log → Sight c x y w

private theorem sight {x y : Gates ω κ × GateLedger ω} {e : GatesEvent ω κ} (h : Held x.1)
    (hst : Logged c x e y) (w : ω) : Sight c x y w := by
  obtain ⟨S, l⟩ := x
  obtain ⟨T, m⟩ := y
  obtain ⟨hstep, rfl : m = enter l S e T⟩ := hst
  have he : Effect c S e T := step_effect hstep
  clear hstep
  cases he with
  | @asked k names refresh hnone =>
      exact .same rfl (update_inr S.call k (some { left := names, refresh }) w) rfl
  | @slept w' hpc =>
      by_cases hw : w = w'
      · subst hw
        exact .gone (Function.update_self _ _ _) (h.idle hpc) rfl
      · exact .same (Function.update_of_ne hw _ _) rfl rfl
  | @woke w' hpc =>
      by_cases hw : w = w'
      · subst hw
        exact .woke hpc (h.idle hpc) (Function.update_self _ _ _) (Function.update_self _ _ _) rfl
      · exact .same (Function.update_of_ne hw _ _)
          (Function.update_of_ne (fun h => hw (Sum.inl.inj h)) _ _) rfl
  | @cached u now stamp call gate rest ok hcall hleft hlock hcache =>
      by_cases hu : Sum.inl w = u
      · subst hu
        exact .took rfl hcall hleft (Function.update_self _ _ _) hcache rfl
      · exact .same rfl (Function.update_of_ne hu _ _) rfl
  | locked => exact .same rfl rfl rfl
  | @checked u call gate ok now hlock hcall =>
      by_cases hu : Sum.inl w = u
      · subst hu
        obtain ⟨call', hcall', hhead⟩ := h.lock gate _ hlock
        obtain rfl := Option.some.inj (hcall'.symm.trans hcall)
        obtain ⟨rest, hleft⟩ := List.head?_eq_some_iff.mp hhead
        exact .took rfl hcall hleft (Function.update_self _ _ _) (Function.update_self _ _ _) rfl
      · exact .same rfl (Function.update_of_ne hu _ _) rfl
  | @answered k call hcall hleft => exact .same rfl (update_inr S.call k none w) rfl
  | @polled w' gone call hcall hleft =>
      by_cases hw : w = w'
      · subst hw
        refine .polled hcall hleft (Function.update_self _ _ _) (Function.update_self _ _ _)
          (fun gate => ?_) ?_
        · simp only [enter, hcall, Function.update_self]
        · simp only [enter, hcall]
      · refine .same (Function.update_of_ne hw _ _)
          (Function.update_of_ne (fun h => hw (Sum.inl.inj h)) _ _) ?_
        simp only [enter, hcall, Function.update_of_ne hw]
  | @cancelled w' =>
      by_cases hw : w = w'
      · subst hw
        exact .gone (Function.update_self _ _ _) (Function.update_self _ _ _) rfl
      · exact .same (Function.update_of_ne hw _ _)
          (Function.update_of_ne (fun h => hw (Sum.inl.inj h)) _ _) rfl
  | @dropped k => exact .same rfl (update_inr S.call k none w) rfl

/-- A step logs at most one run, whose result is cached. -/
theorem log_step {x y : Gates ω κ × GateLedger ω} {e : GatesEvent ω κ} (hst : Logged c x e y) :
    (∃ gate ok now, e = .checked gate ok now ∧
      y.1.cache = Function.update x.1.cache gate (some (now, ok)) ∧
      y.2.log = Function.update x.2.log gate (x.2.log gate ++ [(now, ok)])) ∨
    (y.1.cache = x.1.cache ∧ y.2.log = x.2.log) := by
  obtain ⟨S, l⟩ := x
  obtain ⟨T, m⟩ := y
  obtain ⟨hstep, rfl : m = enter l S e T⟩ := hst
  have he : Effect c S e T := step_effect hstep
  clear hstep
  cases he with
  | @checked u call gate ok now hlock hcall => exact .inl ⟨gate, ok, now, rfl, rfl, rfl⟩
  | polled hcall hleft => exact .inr ⟨rfl, by simp only [enter, hcall]⟩
  | _ => exact .inr ⟨rfl, rfl⟩

/-! ### The runs -/

/-- The clock moves between two runs of a check. -/
def Later (x : Gates ω κ × GateLedger ω) : GatesEvent ω κ → Prop
  | .checked gate _ now => ∀ r ∈ x.2.log gate, r.1 < now
  | _ => True

/-- The cache holds the last run of each gate, and every streak counts failing runs. -/
structure Kept (x : Gates ω κ × GateLedger ω) : Prop where
  held : Held x.1
  cache : ∀ gate, x.1.cache gate = (x.2.log gate).getLast?
  inOrder : ∀ gate, InOrder (x.2.log gate)
  tallied : ∀ w gate, Tallied ((x.1.watcher w).streaks gate) ((x.1.watcher w).counted gate)
    (hand (x.1.call (.inl w)) gate) (x.2.log gate) (x.2.runs w gate)

omit [DecidableEq ω] [DecidableEq κ] in
private theorem kept_init : Kept (({}, {}) : Gates ω κ × GateLedger ω) where
  held := held_init
  cache _ := rfl
  inOrder _ := .nil
  tallied _ _ := tallied_nil

section

variable {x y : Gates ω κ × GateLedger ω} {e : GatesEvent ω κ}

private theorem Kept.cache_step (h : Kept x) (hst : Logged c x e y) (gate : String) :
    y.1.cache gate = (y.2.log gate).getLast? := by
  rcases log_step hst with ⟨gate', ok, now, -, hcache, hlog⟩ | ⟨hcache, hlog⟩
  · rw [hcache, hlog]
    by_cases hgate : gate = gate'
    · rw [hgate, Function.update_self, Function.update_self, List.getLast?_concat]
    · rw [Function.update_of_ne hgate, Function.update_of_ne hgate]
      exact h.cache gate
  · rw [hcache, hlog]
    exact h.cache gate

private theorem Kept.inOrder_step (h : Kept x) (hlater : Later x e) (hst : Logged c x e y)
    (gate : String) : InOrder (y.2.log gate) := by
  rcases log_step hst with ⟨gate', ok, now, rfl, -, hlog⟩ | ⟨-, hlog⟩
  · rw [hlog]
    by_cases hgate : gate = gate'
    · rw [hgate, Function.update_self]
      exact (h.inOrder gate').concat hlater
    · rw [Function.update_of_ne hgate]
      exact h.inOrder gate
  · rw [hlog]
    exact h.inOrder gate

/-- The run of a step takes nothing from what is known of the earlier ones. -/
theorem Kept.tallied_log (h : Kept x) (hst : Logged c x e y) (w : ω) (gate : String) :
    Tallied ((x.1.watcher w).streaks gate) ((x.1.watcher w).counted gate)
      (hand (x.1.call (.inl w)) gate) (y.2.log gate) (x.2.runs w gate) := by
  rcases log_step hst with ⟨gate', ok, now, -, -, hlog⟩ | ⟨-, hlog⟩
  · rw [hlog]
    by_cases hgate : gate = gate'
    · rw [hgate, Function.update_self]
      exact (h.tallied w gate').append _
    · rw [Function.update_of_ne hgate]
      exact h.tallied w gate
  · rw [hlog]
    exact h.tallied w gate

private theorem Kept.step (h : Kept x) (hlater : Later x e) (hst : Logged c x e y) : Kept y where
  held := h.held.effect (step_effect hst.1)
  cache := h.cache_step hst
  inOrder := h.inOrder_step hlater hst
  tallied w gate := by
    have htallied := h.tallied_log hst w gate
    cases sight h.held hst w with
    | same hw hcall hruns =>
        rw [hw, hcall, hruns]
        exact htallied
    | gone hw hcall hruns =>
        rw [hw, hcall, hruns]
        exact htallied.empty
    | woke hpc hnone hw hcall hruns =>
        rw [hw, hcall, hruns]
        exact htallied.empty
    | @took call gate' rest ok st hw hcall hleft hcall' hcache hruns =>
        rw [hw, hcall', hruns]
        by_cases hgate : gate = gate'
        · rw [hgate, hand_take_self]
          rw [hgate] at htallied
          refine htallied.take (h.inOrder_step hlater hst gate') ?_
          rw [← h.cache_step hst, hcache]
        · rw [hand_take_of_ne hgate, ← hcall]
          exact htallied
    | @polled call gone hcall hleft hw hcall' hruns hlog =>
        rw [hw, hcall', hruns gate]
        rw [hcall, hand, Option.bind_some] at htallied
        change Tallied (((x.1.watcher w).counts call.out).streaks gate)
          (((x.1.watcher w).counts call.out).counted gate) none _ _
        cases hfound : call.out.get? gate with
        | none =>
            obtain ⟨hstreaks, hcounted⟩ := Watcher.counts_of_none hfound
            rw [hstreaks, hcounted]
            exact htallied.empty
        | some r =>
            obtain ⟨ok, st⟩ := r
            rw [hfound] at htallied
            obtain ⟨hstreaks, hcounted⟩ := Watcher.counts_of_some hfound
            rw [hstreaks, hcounted]
            exact htallied.poll

/-! ### Which runs a watcher has to see -/

/-- The last run of the gate was a pass. -/
def Open (S : Gates ω κ) (gate : String) : Prop := ∃ r ∈ S.cache gate, r.2 = true

/-- A watcher that may still stop its service has counted a failure of the gate, or found one. -/
def Suspects (S : Gates ω κ) (w : ω) (gate : String) : Prop :=
  (S.watcher w).Live ∧
    (0 < (S.watcher w).streaks gate ∨ ∃ r ∈ hand (S.call (.inl w)) gate, r.1 = false)

/-- The poll has taken a failure that makes up the streak, and a pass has come after it. -/
def Overtaken (c : GatesSetup ω) (S : Gates ω κ) (w : ω) (r : String × Bool × ℚ) : Prop :=
  r.2.1 = false ∧ Open S r.1 ∧
    c.closeAfter r.1 ≤ if (S.watcher w).counted r.1 = some r.2.2 then (S.watcher w).streaks r.1
      else (S.watcher w).streaks r.1 + 1

/-- A failure replaces a pass only when every watcher with a streak has found that pass, and no pass
has come after a failure that a poll has taken and that makes up its streak. -/
def Watchful (c : GatesSetup ω) (S : Gates ω κ) : GatesEvent ω κ → Prop
  | .checked gate false _ => 1 < c.closeAfter gate → Open S gate →
      ∀ w, Suspects S w gate → Cleared (hand (S.call (.inl w)) gate) (Awaits (S.call (.inl w)) gate)
  | .polled w false => ∀ call ∈ S.call (.inl w), ∀ r ∈ call.out.entries, ¬ Overtaken c S w r
  | _ => True

/-- The streaks that count are carried by the log. -/
def Carried (c : GatesSetup ω) (x : Gates ω κ × GateLedger ω) : Prop :=
  ∀ w gate, 1 < c.closeAfter gate → (x.1.watcher w).Live →
    Secure ((x.1.watcher w).counted gate) (hand (x.1.call (.inl w)) gate)
      (Awaits (x.1.call (.inl w)) gate) (x.2.log gate) (x.2.runs w gate)

omit [DecidableEq ω] [DecidableEq κ] in
private theorem Kept.open_iff (h : Kept x) (gate : String) : Open x.1 gate ↔ Passing
    (x.2.log gate) := by
  rw [Open, h.cache gate]
  constructor
  · rintro ⟨⟨t, ok⟩, hlast, rfl⟩
    exact ⟨t, hlast⟩
  · rintro ⟨t, hlast⟩
    exact ⟨(t, true), hlast, rfl⟩

omit [DecidableEq ω] [DecidableEq κ] in
private theorem Kept.unsuspecting (h : Kept x) {w : ω} {gate : String}
    (hlive : (x.1.watcher w).Live) (hnot : ¬ Suspects x.1 w gate) :
    Unsuspecting (x.2.runs w gate) (hand (x.1.call (.inl w)) gate) := by
  simp only [Suspects, hlive, true_and, not_or, not_exists, not_and, Nat.not_lt,
    Nat.le_zero, Bool.not_eq_false] at hnot
  refine ⟨List.eq_nil_of_length_eq_zero ?_, hnot.2⟩
  rw [← (h.tallied w gate).length]
  exact hnot.1

/-- The run of a step breaks no streak. -/
theorem Carried.log (h : Carried c x) (hkept : Kept x) (hwatchful : Watchful c x.1 e)
    (hst : Logged c x e y) {w : ω} {gate : String} (hafter : 1 < c.closeAfter gate)
    (hlive : (x.1.watcher w).Live) :
    Secure ((x.1.watcher w).counted gate) (hand (x.1.call (.inl w)) gate)
      (Awaits (x.1.call (.inl w)) gate) (y.2.log gate) (x.2.runs w gate) := by
  have hsecure := h w gate hafter hlive
  rcases log_step hst with ⟨gate', ok, now, rfl, -, hlog⟩ | ⟨-, hlog⟩
  · rw [hlog]
    by_cases hgate : gate = gate'
    · subst hgate
      rw [Function.update_self]
      refine hsecure.append fun hok hpassing => ?_
      subst hok
      by_cases hsuspects : Suspects x.1 w gate
      · exact .inr (hwatchful hafter ((hkept.open_iff gate).mpr hpassing) w hsuspects)
      · exact .inl (hkept.unsuspecting hlive hsuspects)
    · rw [Function.update_of_ne hgate]
      exact hsecure
  · rw [hlog]
    exact hsecure

omit [DecidableEq ω] [DecidableEq κ] in
/-- What the streak of a gate is once the poll has returned. -/
theorem Carried.closing (h : Carried c x) (hkept : Kept x) {w : ω} {gate : String}
    {call : GateCall} (hcall : x.1.call (.inl w) = some call) (hafter : 1 < c.closeAfter gate) :
    Carries (x.2.log gate)
      (tally ((x.1.watcher w).counted gate) (x.2.runs w gate) (call.out.get? gate)) := by
  have hlive : (x.1.watcher w).Live := .inr ((hkept.held.polling w).mpr (by rw [hcall]; rfl))
  have hcarries := (h w gate hafter hlive).poll (hkept.inOrder gate) (hkept.tallied w gate)
  rwa [hcall] at hcarries

private theorem Carried.step (h : Carried c x) (hkept : Kept x) (hlater : Later x e)
    (hwatchful : Watchful c x.1 e) (hst : Logged c x e y) : Carried c y := by
  intro w gate hafter hlive
  cases sight hkept.held hst w with
  | same hw hcall hruns =>
      rw [hw] at hlive
      rw [hw, hcall, hruns]
      exact h.log hkept hwatchful hst hafter hlive
  | gone hw hcall hruns =>
      rw [hw] at hlive
      rcases hlive with hpc | hpc <;> cases hpc
  | woke hpc hnone hw hcall hruns =>
      have hsecure := h.log hkept hwatchful hst hafter (.inl hpc)
      rw [hnone] at hsecure
      rw [hw, hcall, hruns]
      rcases hsecure with ⟨⟨r, hr, -⟩, -⟩ | hcarries
      · cases hr
      · exact .inr hcarries
  | @took call gate' rest ok st hw hcall hleft hcall' hcache hruns =>
      rw [hw] at hlive
      have hsecure := h.log hkept hwatchful hst hafter hlive
      have hawaits : Awaits (x.1.call (.inl w)) gate' :=
        ⟨call, hcall, by rw [hleft]; exact List.mem_cons_self⟩
      rw [hw, hcall', hruns]
      by_cases hgate : gate = gate'
      · subst hgate
        rw [hand_take_self]
        refine hsecure.take hawaits (hkept.tallied_log hst w gate)
          (hkept.inOrder_step hlater hst gate) ?_
        rw [← hkept.cache_step hst, hcache]
      · rw [hand_take_of_ne hgate, ← hcall]
        refine hsecure.imp_left fun hcleared => ⟨hcleared.1, fun ⟨call', hmem, hleft'⟩ => ?_⟩
        obtain rfl := Option.some.inj hmem
        exact hcleared.2 ⟨call, hcall, List.mem_of_mem_tail hleft'⟩
  | @polled call gone hcall hleft hw hcall' hruns hlog =>
      rw [hw, hcall', hruns gate, hlog]
      exact .inr (h.closing hkept hcall hafter)

/-- A gate that counts as closed has failed in the poll, with a streak that is long enough. -/
theorem exists_of_mem_closed {closeAfter : String → ℕ} {w : Watcher}
    {results : Dict String (Bool × ℚ)} {gate : String}
    (h : gate ∈ (w.counts results).closed closeAfter results) :
    ∃ st, (gate, false, st) ∈ results.entries ∧
      closeAfter gate ≤
        if w.counted gate = some st then w.streaks gate else w.streaks gate + 1 := by
  obtain ⟨⟨gate', ok, st⟩, hmem, rfl : gate' = gate⟩ := List.mem_map.mp h
  obtain ⟨hentry, hcond⟩ := List.mem_filter.mp hmem
  simp only [Bool.and_eq_true, Bool.not_eq_true', decide_eq_true_eq] at hcond
  obtain ⟨rfl, hstreak⟩ := hcond
  obtain ⟨hstreaks, -⟩ := Watcher.counts_of_some (w := w) (Dict.get?_eq_some.mpr hentry)
  rw [hstreaks, if_neg Bool.false_ne_true] at hstreak
  exact ⟨st, hentry, hstreak⟩

omit [DecidableEq ω] [DecidableEq κ] in
/-- A poll closes no gate that has passed since, unless its failure was overtaken. -/
theorem not_open_of_closed {S : Gates ω κ} {w : ω} {call : GateCall}
    (h : ∀ r ∈ call.out.entries, ¬ Overtaken c S w r) {gate : String}
    (hclosed : gate ∈ ((S.watcher w).counts call.out).closed c.closeAfter call.out) :
    ¬ Open S gate := by
  obtain ⟨st, hentry, hstreak⟩ := exists_of_mem_closed hclosed
  exact fun hopen => h _ hentry ⟨rfl, hopen, hstreak⟩

omit [DecidableEq ω] [DecidableEq κ] in
/-- A gate that a poll closes has failed often enough, and it was its last run that failed. -/
theorem closing_failing (hkept : Kept x) (hcarried : Carried c x) {w : ω} {call : GateCall}
    (hcall : x.1.call (.inl w) = some call) {gate : String} (hopen : ¬ Open x.1 gate)
    (hclosed : gate ∈ ((x.1.watcher w).counts call.out).closed c.closeAfter call.out) :
    Failing (c.closeAfter gate) (x.2.log gate) := by
  obtain ⟨st, hentry, hstreak⟩ := exists_of_mem_closed hclosed
  have hfound : call.out.get? gate = some (false, st) := Dict.get?_eq_some.mpr hentry
  have htallied := hkept.tallied w gate
  rw [hcall, hand, Option.bind_some, hfound] at htallied
  have hlength := htallied.poll.length
  rw [if_neg Bool.false_ne_true] at hlength
  rw [hkept.open_iff] at hopen
  by_cases hafter : 1 < c.closeAfter gate
  · have hcarries := hcarried.closing hkept hcall hafter
    rw [hfound] at hcarries
    exact hcarries.failing hopen (hlength ▸ hstreak)
  · -- one failure is enough, and the log's last entry is no pass
    have hne : x.2.log gate ≠ [] := List.ne_nil_of_mem (htallied.found false st rfl).1
    obtain ⟨t, hcarries⟩ := exists_carries hne hopen
    refine hcarries.failing hopen ?_
    rw [List.length_singleton]
    omega

private theorem kept_run {es : List (GatesEvent ω κ)}
    (h : Run ((Logged c).within Later) ({}, {}) es x) : Kept x :=
  h.invariant Kept kept_init fun _ _ _ hkept hst => hkept.step hst.1 hst.2

private theorem carried_run {es : List (GatesEvent ω κ)}
    (h : Run ((Logged c).within fun x e => Later x e ∧ Watchful c x.1 e) ({}, {}) es x) :
    Kept x ∧ Carried c x :=
  h.invariant (fun x => Kept x ∧ Carried c x) ⟨kept_init, fun _ _ _ _ => .inr carries_nil⟩
    fun _ _ _ hinv hst =>
      ⟨hinv.1.step hst.1.1 hst.2, hinv.2.step hinv.1 hst.1.1 hst.1.2 hst.2⟩

end

instance : ∀ (x : Gates ω κ × GateLedger ω) (e : GatesEvent ω κ), Decidable (Later x e)
  | x, .checked gate _ now => inferInstanceAs (Decidable (∀ r ∈ x.2.log gate, r.1 < now))
  | _, .ask .. | _, .woke .. | _, .consult .. | _, .answered .. | _, .polled ..
  | _, .abandoned .. => .isTrue trivial

instance (S : Gates ω κ) (gate : String) : Decidable (Open S gate) :=
  inferInstanceAs (Decidable (∃ r ∈ S.cache gate, r.2 = true))

instance (call : Option GateCall) (gate : String) : Decidable (Awaits call gate) :=
  inferInstanceAs (Decidable (∃ call' ∈ call, gate ∈ call'.left))

instance (hand : Option (Bool × ℚ)) (awaits : Prop) [Decidable awaits] :
    Decidable (Cleared hand awaits) :=
  inferInstanceAs (Decidable ((∃ r ∈ hand, r.1 = true) ∧ ¬ awaits))

instance (S : Gates ω κ) (w : ω) (gate : String) : Decidable (Suspects S w gate) :=
  inferInstanceAs (Decidable (((S.watcher w).pc = .sleeping ∨ (S.watcher w).pc = .polling) ∧
    (0 < (S.watcher w).streaks gate ∨ ∃ r ∈ hand (S.call (.inl w)) gate, r.1 = false)))

instance (c : GatesSetup ω) (S : Gates ω κ) (w : ω) (r : String × Bool × ℚ) :
    Decidable (Overtaken c S w r) := by
  unfold Overtaken
  infer_instance

instance [Fintype ω] (c : GatesSetup ω) (S : Gates ω κ) :
    ∀ e : GatesEvent ω κ, Decidable (Watchful c S e)
  | .checked gate false _ => inferInstanceAs (Decidable (1 < c.closeAfter gate → Open S gate →
      ∀ w, Suspects S w gate →
        Cleared (hand (S.call (.inl w)) gate) (Awaits (S.call (.inl w)) gate)))
  | .polled w false => inferInstanceAs (Decidable (∀ call ∈ S.call (.inl w),
      ∀ r ∈ call.out.entries, ¬ Overtaken c S w r))
  | .checked _ true _ | .polled _ true | .ask .. | .woke .. | .consult .. | .answered ..
  | .abandoned .. => .isTrue trivial

/-- One service watches a credential that other services need at their starts. -/
def credential : GatesSetup Unit where
  recheckSeconds _ := ((15 : ℚ) : Duration)
  closeAfter _ := 2
  names _ := ["cred"]

/-- A poll that runs the check. -/
def pollRuns (ok : Bool) (now : ℚ) : List (GatesEvent Unit Unit) :=
  [.woke () false, .consult (.inl ()) now, .checked "cred" ok now]

/-- A poll that finds a result in the cache. -/
def pollCached (now : ℚ) : List (GatesEvent Unit Unit) :=
  [.woke () false, .consult (.inl ()) now]

/-- A check at the exit of another service. -/
def refreshRuns (ok : Bool) (now : ℚ) : List (GatesEvent Unit Unit) :=
  [.ask () ["cred"] true, .consult (.inr ()) now, .checked "cred" ok now, .answered ()]

/-- The step stops the service because of the credential. -/
def closes (x y : Gates Unit Unit × GateLedger Unit) : Bool :=
  decide ((y.1.watcher ()).pc = .stopping) && (x.1.call (.inl ())).any fun (call : GateCall) =>
    decide ("cred" ∈ ((x.1.watcher ()).counts call.out).closed credential.closeAfter call.out)

end Gates

end Jetty.Orchestrator
