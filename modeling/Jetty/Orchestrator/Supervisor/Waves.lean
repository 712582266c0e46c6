import Jetty.Orchestrator.Config.Order
import Jetty.Orchestrator.Supervisor.Shutdown
import Mathlib.Algebra.Order.BigOperators.Group.List
import Mathlib.Algebra.Order.Ring.Nat

/-!
# The waves of the shutdown

`_stop_all` stops the services in reverse dependency waves. In a table without a cycle every
wave has a member, so the loop ends; each service's `stop` is called once, and only after
those of all its dependents have returned.
-/

namespace Jetty.Orchestrator

open Transition Precedence Relation

namespace Service

variable {c : ServiceSetup} {s t : Service}

private theorem stop_of_begin {φ : Option Fault} (h : step c s (.stop φ) = some t) :
    s.stop = .idle ∧ t.stop ≠ .idle ∧ (t.stop = .died → φ ≠ none) := by
  obtain ⟨hidle, ⟨-, i, n, st, hstop, rfl⟩ | ⟨ch, st, -, hstop, rfl⟩⟩ := stop_cases h
  · rcases hstop with rfl | ⟨hφ, rfl⟩
    · exact ⟨hidle, nofun, nofun⟩
    · exact ⟨hidle, nofun, fun _ => hφ⟩
  · rcases hstop with ⟨-, rfl⟩ | ⟨hφ, rfl⟩
    · exact ⟨hidle, nofun, nofun⟩
    · exact ⟨hidle, nofun, fun _ => hφ⟩

private theorem stop_of_end {timeout : Bool} {φ : Option Fault}
    (h : step c s (.stopped timeout φ) = some t) :
    (∃ i, s.stop = .terminating i) ∧ (t.stop = .finished ∨ t.stop = .died ∧ φ ≠ none) := by
  obtain ⟨hterm, ch, st, -, ⟨-, rfl⟩ | ⟨hφ, rfl⟩, rfl⟩ := stopped_cases h
  · exact ⟨hterm, .inl rfl⟩
  · exact ⟨hterm, .inr ⟨rfl, hφ⟩⟩

/-- Only the `stop` call's own steps move it on. -/
theorem stop_of_step {e : Event} (h : step c s e = some t) (hbegin : ∀ φ, e ≠ .stop φ)
    (hend : ∀ timeout φ, e ≠ .stopped timeout φ) : t.stop = s.stop := by
  cases e with
  | run e φ => exact (runStep_effect h).frame.stop
  | _ => exact (step_aside h (by simp)).stop hbegin hend

end Service

/-- The number of steps a `stop` call has taken, at least. -/
def StopPc.weight : StopPc → ℕ
  | .idle => 0
  | .terminating _ => 1
  | .finished | .died => 2

private theorem StopPc.weight_le (pc : StopPc) : pc.weight ≤ 2 := by
  cases pc <;> simp [weight]

/-- `_stop_all` is over. -/
def MainPc.left : MainPc → Bool
  | .waiting | .stopping .. => false
  | .waitTasks | .waitPending | .returned _ | .raised => true

namespace SupervisorSetup

variable {c : SupervisorSetup} {stopped : List String} {n : String}

/-- The `stop` of the first service is due before that of the second. -/
def StopsBefore (c : SupervisorSetup) (m n : String) : Prop := m ∈ c.dependents n

private theorem StopsBefore.mem_services {m : String} (h : c.StopsBefore m n) : m ∈ c.services :=
  (List.mem_filter.mp h).1

private theorem mem_wave : n ∈ c.wave stopped ↔
    n ∈ c.services ∧ n ∉ stopped ∧ ∀ m, c.StopsBefore m n → m ∈ stopped := by
  simp only [wave, List.mem_filter, decide_eq_true_eq, StopsBefore]

/-- Without a cycle, some service can be stopped as long as one is left. -/
theorem wave_ne_nil (hcyclic : ¬ Cyclic c.StopsBefore)
    (hleft : ∃ n ∈ c.services, n ∉ stopped) : c.wave stopped ≠ [] := by
  obtain ⟨m, hm, hnot⟩ := hleft
  have hne : c.services.filter (· ∉ stopped) ≠ [] :=
    List.ne_nil_of_mem (List.mem_filter.mpr ⟨hm, by simpa using hnot⟩)
  obtain ⟨n, hn, hfirst⟩ := exists_first hcyclic hne
  obtain ⟨hmem, hns⟩ := List.mem_filter.mp hn
  refine List.ne_nil_of_mem (mem_wave.mpr ⟨hmem, by simpa using hns, fun m hm => ?_⟩)
  by_contra hms
  exact hfirst m (List.mem_filter.mpr ⟨hm.mem_services, by simpa using hms⟩) hm

/-- Where `_stop_all`'s `while remaining:` gets to. -/
def loopMain (c : SupervisorSetup) (stopped : List String) : MainPc :=
  if ∀ n ∈ c.services, n ∈ stopped then .waitTasks else .stopping (c.wave stopped) stopped

end SupervisorSetup

namespace Supervisor

variable {c : SupervisorSetup} {S T : Supervisor} {e : SupervisorEvent}

/-- The steps of `_stop_all` and of the `stop` calls it makes. -/
def ofStopAll : SupervisorEvent → Bool
  | .stop .. | .service _ (.stopped ..) | .waveDone | .waveRaised _ => true
  | _ => false

/-- The `stop` of the service is called. -/
def stops (n : String) : SupervisorEvent → Bool
  | .stop m _ => m = n
  | _ => false

private theorem stops_eq_false (h : ofStopAll e = false) (n : String) : stops n e = false := by
  cases e with
  | stop => cases h
  | _ => rfl

/-- No `stop` call has moved on. -/
def SameStops (S T : Supervisor) : Prop := ∀ n, (T.service n).stop = (S.service n).stop

/-- No `stop` call but the service's own has moved on. -/
def OnlyStop (n : String) (S T : Supervisor) : Prop :=
  ∀ m, m ≠ n → (T.service m).stop = (S.service m).stop

/-- The main task moves on. -/
inductive MainMoves (c : SupervisorSetup) (S : Supervisor) : SupervisorEvent → MainPc → Prop
  | wakes : S.main = .waiting → MainMoves c S .wake (c.loopMain [])
  | joins {wave stopped : List String} : S.main = .stopping wave stopped →
      (∀ n ∈ wave, (S.service n).stop = .finished) →
      MainMoves c S .waveDone (c.loopMain (stopped ++ wave))
  | raises {wave stopped : List String} {n : String} : S.main = .stopping wave stopped →
      n ∈ wave → (S.service n).stop = .died → ∀ bad, MainMoves c S (.waveRaised bad) .raised
  | leaves {e : SupervisorEvent} {pc : MainPc} : S.main.left = true → pc.left = true →
      ofStopAll e = false → MainMoves c S e pc

/-- What a step does to the `stop` calls and to the main task. -/
inductive StopEffect (c : SupervisorSetup) (S : Supervisor) : SupervisorEvent → Supervisor → Prop
  | begins {n : String} {φ : Option Fault} {wave stopped : List String} {T : Supervisor} :
      S.main = .stopping wave stopped → n ∈ wave → (S.service n).stop = .idle →
      (T.service n).stop ≠ .idle → ((T.service n).stop = .died → φ ≠ none) → OnlyStop n S T →
      T.main = S.main → StopEffect c S (.stop n φ) T
  | ends {n : String} {timeout : Bool} {φ : Option Fault} {i : ℕ} {T : Supervisor} :
      n ∈ c.services → (S.service n).stop = .terminating i →
      (T.service n).stop = .finished ∨ (T.service n).stop = .died ∧ φ ≠ none → OnlyStop n S T →
      T.main = S.main → StopEffect c S (.service n (.stopped timeout φ)) T
  | moves {e : SupervisorEvent} {T : Supervisor} : SameStops S T → MainMoves c S e T.main →
      StopEffect c S e T
  | rests {e : SupervisorEvent} {T : Supervisor} : SameStops S T → T.main = S.main →
      ofStopAll e = false → StopEffect c S e T

/-! ### The effects of a step -/

private theorem main_serviceStep {n : String} {e : Event} {U : Supervisor}
    (h : serviceStep c n e U = some T) : T.main = U.main := by
  obtain ⟨t, -, rfl⟩ := serviceStep_eq_some.mp h
  rfl

private theorem onlyStop_serviceStep {n : String} {e : Event} {U : Supervisor}
    (h : serviceStep c n e U = some T) : OnlyStop n U T := by
  obtain ⟨t, -, rfl⟩ := serviceStep_eq_some.mp h
  intro m hm
  simp only [setService, Function.update_of_ne hm]

private theorem service_serviceStep {n : String} {e : Event} {U : Supervisor}
    (h : serviceStep c n e U = some T) :
    Service.step (c.service n) (U.service n) e = some (T.service n) := by
  obtain ⟨t, ht, rfl⟩ := serviceStep_eq_some.mp h
  simpa only [setService, Function.update_self] using ht

private theorem sameStops_serviceStep {n : String} {e : Event} {U : Supervisor}
    (h : serviceStep c n e U = some T) (hbegin : ∀ φ, e ≠ .stop φ)
    (hend : ∀ timeout φ, e ≠ .stopped timeout φ) : SameStops U T := by
  intro m
  by_cases hm : m = n
  · subst hm
    exact Service.stop_of_step (service_serviceStep h) hbegin hend
  · exact onlyStop_serviceStep h m hm

private theorem rests_consulted {n r : String} {g : ℕ} {rest : List String} {l : Launch}
    {U : Supervisor}
    (h : consulted c n r g rest l U = some T) : SameStops U T ∧ T.main = U.main := by
  simp only [consulted] at h
  split at h
  · have hsame := sameStops_serviceStep h (by simp) (by simp)
    have hmain := main_serviceStep h
    exact ⟨hsame, hmain⟩
  · obtain rfl := Option.some.inj h
    exact ⟨fun _ => rfl, rfl⟩

private theorem Quiet.sameStops (h : Quiet S T) : SameStops S T := by
  intro n
  obtain ⟨ch, -, hs⟩ := h.service n
  rw [hs]

private theorem main_stopLoop (stopped : List String) :
    (S.stopLoop c stopped).main = c.loopMain stopped := by
  unfold stopLoop SupervisorSetup.loopMain
  split <;> rfl

private theorem left_finish (bad : Option String) (φ : Option Fault) :
    (S.finish c bad φ).main.left = true := by
  unfold finish
  split
  · unfold conclude
    split
    all_goals split <;> rfl
  · rfl

private theorem mainStep_stopEffect (h : S.mainStep c e = some T) : StopEffect c S e T := by
  cases e with
  | wake =>
      simp only [mainStep, Option.ite_none_right_eq_some, Option.some.injEq] at h
      obtain ⟨⟨hmain, -⟩, rfl⟩ := h
      refine .moves (quiet_stopLoop [] _).sameStops ?_
      rw [main_stopLoop]
      exact .wakes hmain
  | stop n φ =>
      simp only [mainStep] at h
      split at h
      · rename_i hmain
        obtain ⟨hn, hst⟩ := Option.ite_none_right_eq_some.mp h
        obtain ⟨hidle, hbegun, hdied⟩ := Service.stop_of_begin (service_serviceStep hst)
        exact .begins hmain hn hidle hbegun hdied (onlyStop_serviceStep hst)
          (main_serviceStep hst)
      · cases h
  | waveDone =>
      simp only [mainStep] at h
      split at h
      · rename_i hmain
        simp only [Option.ite_none_right_eq_some, Option.some.injEq] at h
        obtain ⟨hfinished, rfl⟩ := h
        refine .moves (quiet_stopLoop _ S).sameStops ?_
        rw [main_stopLoop]
        exact .joins hmain hfinished
      · cases h
  | waveRaised bad =>
      simp only [mainStep] at h
      split at h
      · rename_i hmain
        simp only [Option.ite_none_right_eq_some, Option.some.injEq] at h
        obtain ⟨⟨n, hn, hdied⟩, rfl⟩ := h
        exact .moves (quiet_killed bad c.services S).sameStops (.raises hmain hn hdied bad)
      · cases h
  | tasksDone timeout bad φ =>
      simp only [mainStep, Option.ite_none_right_eq_some] at h
      obtain ⟨hmain, h⟩ := h
      have hleft : S.main.left = true := by rw [hmain]; rfl
      split at h
      · obtain rfl := Option.some.inj h
        exact .moves (fun _ => rfl) (.leaves hleft rfl rfl)
      · simp only [Option.ite_none_right_eq_some, Option.some.injEq] at h
        obtain ⟨-, rfl⟩ := h
        exact .moves (quiet_finish bad φ S).sameStops (.leaves hleft (left_finish bad φ) rfl)
  | cancel n =>
      simp only [mainStep, Option.ite_none_right_eq_some] at h
      have hsame := sameStops_serviceStep h.2 (by simp) (by simp)
      have hmain := main_serviceStep h.2
      exact .rests hsame hmain rfl
  | pendingDone bad φ =>
      simp only [mainStep, Option.ite_none_right_eq_some, Option.some.injEq] at h
      obtain ⟨hmain, rfl⟩ := h
      have hleft : S.main.left = true := by rw [hmain]; rfl
      exact .moves (quiet_finish bad φ S).sameStops (.leaves hleft (left_finish bad φ) rfl)
  | _ => simp only [mainStep, reduceCtorEq] at h

/-- Every step of the supervisor has one of these effects. -/
theorem step_stopEffect (h : S.step c e = some T) :
    S.main ≠ .raised ∧ StopEffect c S e T := by
  have heffect := step_effect h
  unfold step at h
  split at h
  · cases h
  rename_i hover
  refine ⟨fun hraised => hover (by rw [hraised]; rfl), ?_⟩
  have hrests {n : String} {e' : Event} {U : Supervisor} (hst : serviceStep c n e' U = some T)
      (hservice : U.service = S.service) (hmain : U.main = S.main)
      (hbegin : ∀ φ, e' ≠ .stop φ) (hend : ∀ timeout φ, e' ≠ .stopped timeout φ)
      (he : ofStopAll e = false) : StopEffect c S e T := by
    refine .rests (fun m => ?_) ((main_serviceStep hst).trans hmain) he
    rw [sameStops_serviceStep hst hbegin hend m, hservice]
  have hconsulted {n r : String} {g : ℕ} {rest : List String} {l : Launch} {U : Supervisor}
      (hst : consulted c n r g rest l U = some T) (hservice : U.service = S.service)
      (hmain : U.main = S.main) (he : ofStopAll e = false) : StopEffect c S e T := by
    obtain ⟨hsame, hmain'⟩ := rests_consulted hst
    refine .rests (fun m => ?_) (hmain'.trans hmain) he
    rw [hsame m, hservice]
  cases heffect with
  | @own n e T hn hmanages hst =>
      cases e with
      | stopped timeout φ =>
          obtain ⟨⟨i, hi⟩, hended⟩ := Service.stop_of_end (service_serviceStep hst)
          exact .ends hn hi hended (onlyStop_serviceStep hst) (main_serviceStep hst)
      | stop φ => cases hmanages
      | _ => exact hrests hst rfl rfl (by simp) (by simp) rfl
  | bounced _ hst => exact hrests hst rfl rfl (by simp) (by simp) rfl
  | cancels hst => exact hrests hst rfl rfl (by simp) (by simp) rfl
  | renderFailed _ _ hst => exact hrests hst rfl rfl (by simp) (by simp) rfl
  | hit _ _ _ hst => exact hconsulted hst rfl rfl rfl
  | ran _ _ hst => exact hconsulted hst rfl rfl rfl
  | stops => exact mainStep_stopEffect h
  | quiet hquiet hcause =>
      rcases hcause with ⟨n, now, l, lock, rfl, rfl⟩ | ⟨bad, rfl, rfl⟩ | hmain
      · exact .rests hquiet.sameStops rfl rfl
      · refine .rests hquiet.sameStops ?_ rfl
        unfold onSignal
        split
        · rfl
        · obtain ⟨f, hf, -⟩ := killed_eq bad c.services S
          rw [hf]
      · exact mainStep_stopEffect hmain

/-! ### The invariant of the teardown -/

/-- `_stop_all` awaits the wave that follows the services in `stopped`. -/
structure Round (c : SupervisorSetup) (S : Supervisor) (wave stopped : List String) : Prop where
  due : wave = c.wave stopped
  remaining : ∃ n ∈ c.services, n ∉ stopped
  mem_services : ∀ n ∈ stopped, n ∈ c.services
  nodup : stopped.Nodup
  closed : Closed c.StopsBefore stopped
  finished : ∀ n ∈ stopped, (S.service n).stop = .finished
  idle : ∀ n, n ∉ stopped → n ∉ wave → (S.service n).stop = .idle

/-- How far the teardown is. -/
structure Teardown (c : SupervisorSetup) (S : Supervisor) : Prop where
  waiting : S.main = .waiting → ∀ n, (S.service n).stop = .idle
  round : ∀ wave stopped, S.main = .stopping wave stopped → Round c S wave stopped
  left : S.main.left = true → (∀ n ∈ c.services, (S.service n).stop = .finished) ∨
    S.main = .raised ∧ ∃ n ∈ c.services, (S.service n).stop = .died

private theorem teardown_init : Teardown c init where
  waiting _ _ := rfl
  round _ _ := nofun
  left := nofun

private theorem Round.mem_wave {wave stopped : List String} (h : Round c S wave stopped)
    {n : String} :
    n ∈ wave ↔ n ∈ c.services ∧ n ∉ stopped ∧ ∀ m, c.StopsBefore m n → m ∈ stopped := by
  rw [h.due, SupervisorSetup.mem_wave]

/-- The loop goes on to the next wave, or is over. -/
theorem teardown_loop {stopped : List String} (hmain : T.main = c.loopMain stopped)
    (hsub : ∀ n ∈ stopped, n ∈ c.services) (hnodup : stopped.Nodup)
    (hclosed : Closed c.StopsBefore stopped)
    (hfinished : ∀ n ∈ stopped, (T.service n).stop = .finished)
    (hidle : ∀ n, n ∉ stopped → (T.service n).stop = .idle) : Teardown c T := by
  unfold SupervisorSetup.loopMain at hmain
  split at hmain
  · rename_i hall
    refine ⟨fun h => ?_, fun _ _ h => ?_, fun _ => .inl fun n hn => hfinished n (hall n hn)⟩
    · rw [hmain] at h
      cases h
    · rw [hmain] at h
      cases h
  · rename_i hremaining
    refine ⟨fun h => ?_, fun wave stopped' h => ?_, fun h => ?_⟩
    · rw [hmain] at h
      cases h
    · rw [hmain, MainPc.stopping.injEq] at h
      obtain ⟨rfl, rfl⟩ := h
      simp only [not_forall] at hremaining
      obtain ⟨n, hn, hnot⟩ := hremaining
      exact ⟨rfl, ⟨n, hn, hnot⟩, hsub, hnodup, hclosed, hfinished, fun n hn _ => hidle n hn⟩
    · rw [hmain] at h
      cases h

/-- A `stop` call of the current wave has moved on. -/
theorem Teardown.only {n : String} (h : Teardown c S) (honly : OnlyStop n S T)
    (hmain : T.main = S.main) {wave stopped : List String}
    (hround : S.main = .stopping wave stopped) (hn : n ∈ wave) : Teardown c T := by
  refine ⟨fun hw => ?_, fun wave' stopped' hs => ?_, fun hl => ?_⟩
  · rw [hmain, hround] at hw
    cases hw
  · rw [hmain, hround, MainPc.stopping.injEq] at hs
    obtain ⟨rfl, rfl⟩ := hs
    have hr := h.round _ _ hround
    refine { hr with
      finished := fun m hm => ?_
      idle := fun m hm hmw => ?_ }
    · have hne : m ≠ n := by
        rintro rfl
        exact (hr.mem_wave.mp hn).2.1 hm
      rw [honly m hne, hr.finished m hm]
    · have hne : m ≠ n := by
        rintro rfl
        exact hmw hn
      rw [honly m hne, hr.idle m hm hmw]
  · rw [hmain, hround] at hl
    cases hl

private theorem Teardown.congr (h : Teardown c S) (hsame : SameStops S T)
    (hmain : T.main = S.main) : Teardown c T := by
  refine ⟨fun hw n => ?_, fun wave stopped hs => ?_, fun hl => ?_⟩
  · rw [hsame n, h.waiting (hmain ▸ hw)]
  · have hr := h.round wave stopped (hmain ▸ hs)
    exact { hr with
      finished := fun n hn => by rw [hsame n, hr.finished n hn]
      idle := fun n hn hnw => by rw [hsame n, hr.idle n hn hnw] }
  · rw [hmain] at hl ⊢
    simpa only [hsame _] using h.left hl

private theorem Round.nodup_wave {wave stopped : List String} (h : Round c S wave stopped)
    (hservices : c.services.Nodup) : (stopped ++ wave).Nodup := by
  have hwave : wave.Nodup := by
    rw [h.due]
    exact hservices.filter _
  refine List.nodup_append.mpr ⟨h.nodup, hwave, fun a ha b hb => ?_⟩
  rintro rfl
  exact (h.mem_wave.mp hb).2.1 ha

/-- A step of the main task keeps the teardown in order. -/
theorem Teardown.moves (h : Teardown c S) (hservices : c.services.Nodup)
    (hraised : S.main ≠ .raised) (hsame : SameStops S T) (hst : MainMoves c S e T.main) :
    Teardown c T := by
  generalize hpc : T.main = pc at hst
  cases hst with
  | wakes hmain =>
      refine teardown_loop hpc nofun List.nodup_nil closed_nil nofun fun n _ => ?_
      rw [hsame n, h.waiting hmain n]
  | @joins wave stopped hmain hfinished =>
      have hr := h.round _ _ hmain
      refine teardown_loop hpc (fun n hn => ?_) (hr.nodup_wave hservices)
        (hr.closed.append fun n hn => (hr.mem_wave.mp hn).2.2) (fun n hn => ?_) fun n hn => ?_
      · rcases List.mem_append.mp hn with hn | hn
        · exact hr.mem_services n hn
        · exact (hr.mem_wave.mp hn).1
      · rw [hsame n]
        rcases List.mem_append.mp hn with hn | hn
        · exact hr.finished n hn
        · exact hfinished n hn
      · rw [List.mem_append, not_or] at hn
        rw [hsame n, hr.idle n hn.1 hn.2]
  | @raises wave stopped n hmain hn hdied =>
      have hr := h.round _ _ hmain
      refine ⟨fun hw => ?_, fun _ _ hs => ?_, fun _ => .inr ⟨hpc, n, ?_, ?_⟩⟩
      · rw [hpc] at hw
        cases hw
      · rw [hpc] at hs
        cases hs
      · exact (hr.mem_wave.mp hn).1
      · rw [hsame n, hdied]
  | leaves hl hl' _ =>
      refine ⟨fun hw => ?_, fun _ _ hs => ?_, fun _ => .inl fun n hn => ?_⟩
      · rw [hpc] at hw
        rw [hw] at hl'
        cases hl'
      · rw [hpc] at hs
        rw [hs] at hl'
        cases hl'
      · rcases h.left hl with hfinished | ⟨hr, -⟩
        · rw [hsame n, hfinished n hn]
        · exact absurd hr hraised

/-- The wave that a running `stop` call belongs to. -/
theorem Teardown.wave_of_terminating (h : Teardown c S) (hraised : S.main ≠ .raised) {n : String}
    {i : ℕ} (hn : n ∈ c.services) (hi : (S.service n).stop = .terminating i) :
    ∃ wave stopped, S.main = .stopping wave stopped ∧ n ∈ wave := by
  cases hmain : S.main with
  | waiting =>
      rw [h.waiting hmain n] at hi
      cases hi
  | stopping wave stopped =>
      have hr := h.round _ _ hmain
      refine ⟨wave, stopped, rfl, ?_⟩
      by_contra hnot
      by_cases hs : n ∈ stopped
      · rw [hr.finished n hs] at hi
        cases hi
      · rw [hr.idle n hs hnot] at hi
        cases hi
  | raised => exact absurd hmain hraised
  | waitTasks | waitPending | returned _ =>
      rcases h.left (by rw [hmain]; rfl) with hfinished | ⟨hr, -⟩
      · rw [hfinished n hn] at hi
        cases hi
      · exact absurd hr hraised

private theorem Teardown.step (h : Teardown c S) (hservices : c.services.Nodup)
    (hst : Steps c S e T) : Teardown c T := by
  obtain ⟨hraised, heffect⟩ := step_stopEffect hst
  cases heffect with
  | begins hmain hn _ _ _ honly hmain' => exact h.only honly hmain' hmain hn
  | ends hn hi _ honly hmain' =>
      obtain ⟨wave, stopped, hmain, hmem⟩ := h.wave_of_terminating hraised hn hi
      exact h.only honly hmain' hmain hmem
  | moves hsame hmoves => exact h.moves hservices hraised hsame hmoves
  | rests hsame hmain _ => exact h.congr hsame hmain

private theorem teardown_run {es : List SupervisorEvent} (h : Run (Steps c) init es S)
    (hservices : c.services.Nodup) : Teardown c S :=
  h.invariant (Teardown c) teardown_init fun _ _ _ hs => hs.step hservices

/-! ### Counting the steps -/

/-- The services whose `stop` calls the loop has joined, and the end of the loop. -/
def joined (c : SupervisorSetup) : MainPc → ℕ
  | .waiting => 0
  | .stopping _ stopped => stopped.length
  | .waitTasks | .waitPending | .returned _ | .raised => c.services.length + 1

/-- The steps that the `stop` calls have taken, at least. -/
def stopSteps (c : SupervisorSetup) (S : Supervisor) : ℕ :=
  (c.services.map fun n => (S.service n).stop.weight).sum

private theorem joined_of_left {pc : MainPc} (h : pc.left = true) :
    joined c pc = c.services.length + 1 := by
  cases pc with
  | waiting | stopping => cases h
  | waitTasks | waitPending | returned _ | raised => rfl

private theorem stopSteps_le : stopSteps c S ≤ 2 * c.services.length := by
  have h := List.sum_le_card_nsmul (c.services.map fun n => (S.service n).stop.weight) 2 (by
    intro w hw
    obtain ⟨n, -, rfl⟩ := List.mem_map.mp hw
    exact StopPc.weight_le _)
  simpa [stopSteps, Nat.mul_comm] using h

private theorem stopSteps_congr (h : SameStops S T) : stopSteps c T = stopSteps c S := by
  simp only [stopSteps, h _]

private theorem stopSteps_lt {n : String} (hn : n ∈ c.services) (honly : OnlyStop n S T)
    (hlt : (S.service n).stop.weight < (T.service n).stop.weight) :
    stopSteps c S < stopSteps c T := by
  refine List.sum_lt_sum _ _ (fun m _ => ?_) ⟨n, hn, hlt⟩
  by_cases hm : m = n
  · subst hm
    exact hlt.le
  · rw [honly m hm]

private theorem Round.length_le {wave stopped : List String} (h : Round c S wave stopped) :
    stopped.length ≤ c.services.length :=
  (h.nodup.subperm h.mem_services).length_le

private theorem joined_le (h : Teardown c S) : joined c S.main ≤ c.services.length + 1 := by
  cases hmain : S.main with
  | waiting => exact Nat.zero_le _
  | stopping wave stopped => exact (h.round _ _ hmain).length_le.trans (Nat.le_succ _)
  | waitTasks | waitPending | returned _ | raised => exact le_rfl

/-- Joining a wave makes progress. -/
theorem joined_loopMain {wave stopped : List String} (h : Round c S wave stopped)
    (hcyclic : ¬ Cyclic c.StopsBefore) :
    stopped.length + 1 ≤ joined c (c.loopMain (stopped ++ wave)) := by
  unfold SupervisorSetup.loopMain
  split
  · exact Nat.succ_le_succ h.length_le
  · have hpos : 0 < wave.length := by
      rw [h.due]
      exact List.length_pos_of_ne_nil (SupervisorSetup.wave_ne_nil hcyclic h.remaining)
    simp only [joined, List.length_append]
    omega

/-- Every step of `_stop_all` is paid for by a `stop` call that moves on or a wave that is
joined. -/
theorem Teardown.pays (h : Teardown c S) (hcyclic : ¬ Cyclic c.StopsBefore)
    (hst : Steps c S e T) :
    (if ofStopAll e = true then 1 else 0) + (stopSteps c S + joined c S.main)
      ≤ stopSteps c T + joined c T.main := by
  obtain ⟨hraised, heffect⟩ := step_stopEffect hst
  cases heffect with
  | @begins n φ wave stopped T hmain hn hidle hbegun _ honly hmain' =>
      have hpos : 0 < (T.service n).stop.weight := by
        cases hstop : (T.service n).stop with
        | idle => exact absurd hstop hbegun
        | terminating | finished | died => simp [StopPc.weight]
      have hlt := stopSteps_lt ((h.round _ _ hmain).mem_wave.mp hn).1 honly
        (by rw [hidle]; exact hpos)
      rw [hmain']
      simp only [ofStopAll, if_true]
      omega
  | @ends n timeout φ i T hn hi hended honly hmain' =>
      have hlt := stopSteps_lt hn honly (by
        rw [hi]
        rcases hended with hd | ⟨hd, -⟩ <;> simp [hd, StopPc.weight])
      rw [hmain']
      simp only [ofStopAll, if_true]
      omega
  | moves hsame hmoves =>
      rw [stopSteps_congr hsame]
      generalize T.main = pc at hmoves
      cases hmoves with
      | wakes hmain => simp [hmain, ofStopAll, joined]
      | @joins wave stopped hmain _ =>
          have hjoined := joined_loopMain (h.round _ _ hmain) hcyclic
          rw [hmain]
          show 1 + (stopSteps c S + stopped.length) ≤ _
          omega
      | raises hmain _ _ =>
          have hlength := (h.round _ _ hmain).length_le
          simp only [hmain, ofStopAll, if_true, joined]
          omega
      | leaves hl hl' he => simp [he, joined_of_left hl, joined_of_left hl']
  | rests hsame hmain he => simp [he, hmain, stopSteps_congr hsame]

/-- `_stop_all` and its `stop` calls take a bounded number of steps. -/
theorem countP_ofStopAll_le {es : List SupervisorEvent} (h : Run (Steps c) init es S)
    (hservices : c.services.Nodup) (hcyclic : ¬ Cyclic c.StopsBefore) :
    es.countP ofStopAll ≤ 3 * c.services.length + 1 := by
  have hpaid := h.history_invariant
    (fun es S => Teardown c S ∧ es.countP ofStopAll ≤ stopSteps c S + joined c S.main)
    ⟨teardown_init, Nat.zero_le _⟩ fun es S e T ⟨hteardown, hcount⟩ hst => by
      refine ⟨hteardown.step hservices hst, ?_⟩
      have hpays := hteardown.pays hcyclic hst
      simp only [List.countP_append, List.countP_singleton]
      omega
  have hsteps : stopSteps c S ≤ 2 * c.services.length := stopSteps_le
  have hjoined := joined_le hpaid.1
  omega

/-- A step calls a service's `stop` only if it was not called before. -/
theorem stops_step (hst : Steps c S e T) (n : String) :
    (stops n e = true → (S.service n).stop = .idle ∧ (T.service n).stop ≠ .idle) ∧
      (stops n e = false → ((T.service n).stop = .idle ↔ (S.service n).stop = .idle)) := by
  obtain ⟨-, heffect⟩ := step_stopEffect hst
  cases heffect with
  | @begins m φ wave stopped T _ _ hidle hbegun _ honly _ =>
      by_cases hm : m = n
      · subst hm
        simp [stops, hidle, hbegun]
      · simp [stops, hm, honly n (Ne.symm hm)]
  | @ends m timeout φ i T _ hi hended honly _ =>
      refine ⟨nofun, fun _ => ?_⟩
      by_cases hm : n = m
      · subst hm
        rcases hended with hd | ⟨hd, -⟩ <;> simp [hd, hi]
      · rw [honly n hm]
  | moves hsame hmoves =>
      rw [hsame n]
      refine ⟨fun hstops => ?_, fun _ => Iff.rfl⟩
      generalize T.main = pc at hmoves
      cases hmoves with
      | leaves _ _ he => simp [stops_eq_false he n] at hstops
      | _ => cases hstops
  | rests hsame _ he =>
      rw [hsame n]
      exact ⟨fun hstops => by simp [stops_eq_false he n] at hstops, fun _ => Iff.rfl⟩

/-- The number of calls of a service's `stop`. -/
theorem countP_stops {es : List SupervisorEvent} (h : Run (Steps c) init es S) (n : String) :
    es.countP (stops n) = if (S.service n).stop = .idle then 0 else 1 := by
  refine h.history_invariant
    (fun es S => es.countP (stops n) = if (S.service n).stop = .idle then 0 else 1)
    rfl fun es S e T hcount hst => ?_
  obtain ⟨hcalled, hkept⟩ := stops_step hst n
  rw [List.countP_append, hcount, List.countP_singleton]
  cases hstops : stops n e with
  | true =>
      obtain ⟨hidle, hbegun⟩ := hcalled hstops
      simp [hidle, hbegun]
  | false => simp [hkept hstops]

/-- The `stop` of the service runs into an exception: of the registry, of the log, of the
console, or of a sweep. -/
def disturbs (n : String) : SupervisorEvent → Bool
  | .stop m (some _) | .service m (.stopped _ (some _)) => m = n
  | _ => false

/-- Nothing but such an exception ends a `stop` call early. -/
theorem disturbed_of_died {es : List SupervisorEvent} (h : Run (Steps c) init es S) {n : String} :
    (S.service n).stop = .died → ∃ e ∈ es, disturbs n e = true := by
  refine h.history_invariant
    (fun es S => (S.service n).stop = .died → ∃ e ∈ es, disturbs n e = true)
    nofun fun es S e T hbefore hst hdied => ?_
  have hkept (hsame : (T.service n).stop = (S.service n).stop) :
      ∃ e' ∈ es ++ [e], disturbs n e' = true := by
    obtain ⟨e', he', hdisturbs⟩ := hbefore (hsame ▸ hdied)
    exact ⟨e', List.mem_append_left _ he', hdisturbs⟩
  have hlast (hdisturbs : disturbs n e = true) : ∃ e' ∈ es ++ [e], disturbs n e' = true :=
    ⟨e, List.mem_append_right _ (List.mem_singleton.mpr rfl), hdisturbs⟩
  obtain ⟨-, heffect⟩ := step_stopEffect hst
  cases heffect with
  | @begins m φ wave stopped T _ _ _ _ hfault honly _ =>
      by_cases hm : n = m
      · subst hm
        obtain ⟨f, rfl⟩ := Option.ne_none_iff_exists'.mp (hfault hdied)
        exact hlast (decide_eq_true rfl)
      · exact hkept (honly n hm)
  | @ends m timeout φ i T _ _ hended honly _ =>
      by_cases hm : n = m
      · subst hm
        rcases hended with hfinished | ⟨-, hfault⟩
        · cases hfinished.symm.trans hdied
        · obtain ⟨f, rfl⟩ := Option.ne_none_iff_exists'.mp hfault
          exact hlast (decide_eq_true rfl)
      · exact hkept (honly n hm)
  | moves hsame _ => exact hkept (hsame n)
  | rests hsame _ _ => exact hkept (hsame n)

/-! ### The next step -/

/-- While `_stop_all` runs, its next step can be taken unless a `stop` call is under way. -/
theorem exists_next {wave stopped : List String} (hmain : S.main = .stopping wave stopped)
    (hnone : ∀ n i, (S.service n).stop ≠ .terminating i) :
    ∃ e T, ofStopAll e = true ∧ Steps c S e T := by
  have hover : (MainPc.stopping wave stopped).over = false := rfl
  by_cases hidle : ∃ n ∈ wave, (S.service n).stop = .idle
  · obtain ⟨n, hn, hidle⟩ := hidle
    have hsome : ∃ t, Service.step (c.service n) (S.service n) (.stop none) = some t := by
      simp only [Service.step, Service.stopStep, hidle, if_true]
      split
      · exact ⟨_, rfl⟩
      · exact ⟨_, rfl⟩
    obtain ⟨t, ht⟩ := hsome
    refine ⟨.stop n none, S.setService c n (.stop none) t, rfl, ?_⟩
    show step c S (.stop n none) = some (S.setService c n (.stop none) t)
    simp only [step, mainStep, hmain, hover, Bool.false_eq_true, if_false, if_pos hn, serviceStep,
      ht, Option.map_some]
  · have hended : ∀ n ∈ wave, (S.service n).stop = .finished ∨ (S.service n).stop = .died := by
      intro n hn
      cases hstop : (S.service n).stop with
      | idle => exact absurd ⟨n, hn, hstop⟩ hidle
      | terminating i => exact absurd hstop (hnone n i)
      | finished => exact .inl rfl
      | died => exact .inr rfl
    by_cases hdied : ∃ n ∈ wave, (S.service n).stop = .died
    · refine ⟨.waveRaised none, { killed (killAll none c.services S) with main := .raised },
        rfl, ?_⟩
      show step c S (.waveRaised none) = some _
      simp only [step, mainStep, hmain, hover, Bool.false_eq_true, if_false, if_pos hdied]
    · have hfinished : ∀ n ∈ wave, (S.service n).stop = .finished := fun n hn =>
        (hended n hn).resolve_right fun hd => hdied ⟨n, hn, hd⟩
      refine ⟨.waveDone, S.stopLoop c (stopped ++ wave), rfl, ?_⟩
      show step c S .waveDone = some (S.stopLoop c (stopped ++ wave))
      simp only [step, mainStep, hmain, hover, Bool.false_eq_true, if_false, if_pos hfinished]

/-- A service's `stop` is called only after those of its direct and indirect dependents have
returned. -/
theorem Teardown.after_dependents (h : Teardown c S) {n m : String} {φ : Option Fault}
    (hst : Steps c S (.stop n φ) T) (hmn : TransGen c.StopsBefore m n) :
    (S.service m).stop = .finished := by
  obtain ⟨-, heffect⟩ := step_stopEffect hst
  cases heffect with
  | begins hmain hn _ _ _ _ _ =>
      have hr := h.round _ _ hmain
      exact hr.finished m (hr.closed.transGen hmn (hr.mem_wave.mp hn).2.2)
  | moves _ hmoves =>
      cases hmoves with
      | leaves _ _ he => cases he
  | rests _ _ he => cases he

end Supervisor

/-! ### Services tables -/

/-- The supervisor of a services table, whose services are created in the start order. -/
def ServiceTable.setup (t : ServiceTable) (c : SupervisorSetup) (order : List String) :
    SupervisorSetup :=
  { c with services := order, after := t.after }

private theorem ServiceTable.stopsBefore_iff {t : ServiceTable} {c : SupervisorSetup}
    {order : List String} (hperm : order.Perm t.names) {m n : String} :
    (t.setup c order).StopsBefore m n ↔ t.Before n m := by
  simp only [SupervisorSetup.StopsBefore, SupervisorSetup.dependents, setup, List.mem_filter]
  constructor
  · exact fun h => show n ∈ t.after m from of_decide_eq_true h.2
  · exact fun h => ⟨hperm.mem_iff.mpr (Before.mem_names h).2,
      decide_eq_true (show n ∈ t.after m from h)⟩

namespace Supervisor

/-- What holds of `_stop_all` in the state `S` that the run `es` reaches. -/
structure StopsInWaves (t : ServiceTable) (c : SupervisorSetup) (es : List SupervisorEvent)
    (S : Supervisor) : Prop where
  /-- It has taken a bounded number of steps, with those of its `stop` calls. -/
  bounded : es.countP ofStopAll ≤ 3 * t.names.length + 1
  /-- It waits for nothing but a `stop` call that is under way. -/
  progress : ∀ wave stopped, S.main = .stopping wave stopped →
    (∀ n i, (S.service n).stop ≠ .terminating i) → ∃ e T, ofStopAll e = true ∧ Steps c S e T
  once : ∀ n, es.countP (stops n) ≤ 1
  /-- Once it is over, every `stop` was called and has returned, unless one of them ran into
  an exception. -/
  all : S.main.left = true →
    (∀ n ∈ t.names, es.countP (stops n) = 1 ∧ (S.service n).stop = .finished) ∨
      S.main = .raised ∧ ∃ n ∈ t.names, ∃ e ∈ es, disturbs n e = true
  /-- A `stop` is called only after those of all dependents have returned. -/
  order : ∀ n φ T, Steps c S (.stop n φ) T →
    ∀ m, TransGen t.Before n m → (S.service m).stop = .finished

/-- For every order that `start_order` returns, `_stop_all` stops in waves. -/
private theorem stopsInWaves_of_startOrder {t : ServiceTable} {c : SupervisorSetup}
    {order : List String} {es : List SupervisorEvent} {S : Supervisor}
    (horder : startOrder t.entries = .ok order)
    (hrun : Run (Steps (t.setup c order)) init es S) :
    StopsInWaves t (t.setup c order) es S := by
  rcases t.startOrder_cases with ⟨hnot, order', hok, hperm, -⟩ | ⟨-, message, herror⟩
  swap
  · exact nomatch horder.symm.trans herror
  obtain rfl : order' = order := Except.ok.inj (hok.symm.trans horder)
  have hservices : (t.setup c order').services.Nodup := hperm.nodup_iff.mpr t.nodup
  have hbefore {m n : String} : (t.setup c order').StopsBefore m n ↔ t.Before n m :=
    ServiceTable.stopsBefore_iff hperm
  have hflip : (t.setup c order').StopsBefore = flip t.Before := by
    funext m n
    exact propext hbefore
  have hcyclic : ¬ Cyclic (t.setup c order').StopsBefore := by
    rw [hflip, cyclic_flip]
    exact hnot
  have hteardown := teardown_run hrun hservices
  have hlength : (t.setup c order').services.length = t.names.length := hperm.length_eq
  refine ⟨?_, fun _ _ => exists_next, fun n => ?_, fun hleft => ?_, ?_⟩
  · rw [← hlength]
    exact countP_ofStopAll_le hrun hservices hcyclic
  · rw [countP_stops hrun n]
    split <;> decide
  · have hmem {n : String} : n ∈ (t.setup c order').services ↔ n ∈ t.names := hperm.mem_iff
    rcases hteardown.left hleft with hfinished | ⟨hraised, n, hn, hdied⟩
    · refine .inl fun n hn => ?_
      have hf := hfinished n (hmem.mpr hn)
      rw [countP_stops hrun n, hf]
      exact ⟨rfl, rfl⟩
    · exact .inr ⟨hraised, n, hmem.mp hn, disturbed_of_died hrun hdied⟩
  · intro n φ T hst m hnm
    refine hteardown.after_dependents hst ?_
    rw [hflip]
    exact transGen_swap.mp hnm

/-- The supervisor of a configuration that has been accepted starts its services in an order that
`start_order` gives, and stops them in waves in every run. -/
theorem stopsInWaves_of_validate {repr : Toml → String} {cfg cfg' : OrchestratorConfig}
    (h : cfg.validate repr = .ok cfg') (hkeys : (cfg.services.map Prod.fst).Nodup) :
    ∃ t : ServiceTable, t.entries = cfg'.services ∧ ∃ order,
      startOrder cfg'.services = .ok order ∧ Respects t.Before order ∧ ∀ c es S,
        Run (Steps (t.setup c order)) init es S → StopsInWaves t (t.setup c order) es S := by
  obtain ⟨t, hentries, hnot⟩ := ServiceTable.exists_of_validate h hkeys
  rcases t.startOrder_cases with ⟨-, order, hok, -, hrespects⟩ | ⟨hcyclic, -⟩
  · exact ⟨t, hentries, order, hentries ▸ hok, hrespects, fun _ _ _ =>
      stopsInWaves_of_startOrder hok⟩
  · exact absurd hcyclic hnot

/-- A service and the database it comes after. -/
def chainTable : ServiceTable where
  entries := [("api", { cmd := ["api"], after := ["db"] }), ("db", { cmd := ["db"] })]
  nodup := by decide
  known := by decide

end Supervisor

end Jetty.Orchestrator
