import Jetty.Orchestrator.Supervisor.Effects
import Mathlib.Data.List.Basic

/-!
# The generations recorded for a spawn

`_enforce_pinning` reads the generations of all resolvers once the last of them has been
consulted, while the binaries of the earlier ones were fetched some awaits before. Along
runs in which no resolver moves to a new generation between these two moments of a render,
the recorded generations are those of the binaries.
-/

namespace Jetty.Orchestrator

open Transition

namespace Supervisor

/-- The step moves a resolver to a new generation while a render that has consulted it
already is in progress. -/
def Overruns (c : SupervisorSetup) (S : Supervisor) (e : SupervisorEvent) : Prop :=
  match e with
  | .resolved n (.ok release) _ _ =>
    match S.todo n with
    | r :: _ => S.nextGeneration r release ≠ S.generation r ∧
        ∃ m ∈ c.services, r ∈ (S.context m).map Prod.fst
    | [] => False
  | _ => False

instance (c : SupervisorSetup) (S : Supervisor) (e : SupervisorEvent) :
    Decidable (S.Overruns c e) := by
  unfold Overruns
  split
  · split <;> infer_instance
  · infer_instance

/-- Cached releases are of the current generation, and a render in progress has consulted
the resolvers of its service up to those still to do. -/
structure Wired (c : SupervisorSetup) (S : Supervisor) : Prop where
  cached : ∀ r e, S.cache r = some e → e.generation = S.generation r
  rendering : ∀ n, (S.service n).run = .rendering →
    n ∈ c.services ∧ (S.context n).map Prod.fst ++ S.todo n = c.uses n
  idle : ∀ n, (S.service n).run ≠ .rendering → S.todo n = [] ∧ S.context n = []

/-- The binaries in every context are of the current generations. -/
def Current (S : Supervisor) : Prop :=
  ∀ n r g, (r, g) ∈ S.context n → g = S.generation r

/-- The generations recorded are those of the binaries the service was launched with. -/
def Recorded (c : SupervisorSetup) (S : Supervisor) : Prop :=
  ∀ n gens, S.spawnGens n = some gens →
    gens = S.launched n ∧ (S.launched n).map Prod.fst = c.uses n

variable {c : SupervisorSetup} {S T : Supervisor} {e : SupervisorEvent}

private theorem wired_init : Wired c init where
  cached r e h := by cases h
  rendering n h := by cases h
  idle n _ := ⟨rfl, rfl⟩

/-! ### Steps of a service -/

/-- Only a step of the run loop gets to a render. -/
theorem rendering_of_step {n : String} {e : Event} {t : Service} {U : Supervisor}
    (ht : Service.step (c.service n) (U.service n) e = some t) (hrun : t.run = .rendering)
    (he : ∀ e' φ, e ≠ .run e' φ) : (U.service n).run = .rendering := by
  rcases (Service.step_aside ht he).run with h | ⟨-, h, -⟩
  · exact h ▸ hrun
  · rw [hrun] at h
    cases h

private theorem Wired.serviceStep {n : String} {e : Event} {U : Supervisor}
    (hst : serviceStep c n e U = some T) (h : Wired c U)
    (hn : n ∈ c.services ∨ ∀ e' φ, e ≠ .run e' φ) : Wired c T := by
  obtain ⟨t, ht, rfl⟩ := serviceStep_eq_some.mp hst
  refine ⟨h.cached, fun m hm => ?_, fun m hm => ?_⟩
  · by_cases hmn : m = n
    · subst hmn
      have hrun : t.run = .rendering := by
        simpa only [setService, Function.update_self] using hm
      simp only [setService, Function.update_self, renderAt, hrun, if_true]
      cases e with
      | run e φ => exact ⟨hn.resolve_right fun hne => hne e φ rfl, by simp⟩
      | _ => exact h.rendering m (rendering_of_step ht hrun (by simp))
    · simp only [setService, Function.update_of_ne hmn] at hm ⊢
      exact h.rendering m hm
  · by_cases hmn : m = n
    · subst hmn
      have hrun : t.run ≠ .rendering := by
        simpa only [setService, Function.update_self] using hm
      simp only [setService, Function.update_self, renderAt, if_neg hrun, and_self]
    · simp only [setService, Function.update_of_ne hmn] at hm ⊢
      exact h.idle m hm

/-- A step of a service puts nothing into a context. -/
theorem context_setService {n m : String} {e : Event} {t : Service} {U : Supervisor}
    {x : String × ℕ} (h : x ∈ (U.setService c n e t).context m) : x ∈ U.context m := by
  by_cases hmn : m = n
  · subst hmn
    simp only [setService, Function.update_self, renderAt] at h
    split at h
    · cases e <;> simp_all
    · cases h
  · simpa only [setService, Function.update_of_ne hmn] using h

private theorem Current.serviceStep {n : String} {e : Event} {U : Supervisor}
    (hst : serviceStep c n e U = some T) (h : Current U) : Current T := by
  obtain ⟨t, -, rfl⟩ := serviceStep_eq_some.mp hst
  exact fun m r g hx => h m r g (context_setService hx)

private theorem Recorded.serviceStep {n : String} {e : Event} {U : Supervisor}
    (hst : serviceStep c n e U = some T) (h : Recorded c U) : Recorded c T := by
  obtain ⟨t, -, rfl⟩ := serviceStep_eq_some.mp hst
  exact h

/-! ### Stages of a render -/

/-- The state in which a render has just consulted `r`. -/
abbrev afterConsult (n r : String) (g : ℕ) (rest : List String) (S : Supervisor) : Supervisor :=
  { S with
    todo := Function.update S.todo n rest
    context := Function.update S.context n (S.context n ++ [(r, g)]) }

/-- The last resolver that a render consults leads on to the spawn, the others to the next one. -/
theorem consulted_eq_some {n r : String} {g : ℕ} {rest : List String} {l : Launch} :
    consulted c n r g rest l S = some T ↔
      rest ≠ [] ∧ S.afterConsult n r g rest = T ∨
        rest = [] ∧ serviceStep c n (.run (.rendered l.result l.now) l.fault)
          ((S.afterConsult n r g rest).enforcePinning c n) = some T := by
  simp only [consulted]
  split <;> simp_all

private theorem Wired.afterConsult {n r : String} {g : ℕ} {rest : List String} (h : Wired c S)
    (hrun : (S.service n).run = .rendering) (htodo : S.todo n = r :: rest) :
    Wired c (S.afterConsult n r g rest) := by
  refine ⟨h.cached, fun m hm => ?_, fun m hm => ?_⟩
  · by_cases hmn : m = n
    · subst hmn
      obtain ⟨hmem, huses⟩ := h.rendering m hm
      refine ⟨hmem, ?_⟩
      simp only [Function.update_self, List.map_append, List.map_cons, List.map_nil,
        List.append_assoc, List.singleton_append]
      rw [htodo] at huses
      exact huses
    · simp only [Function.update_of_ne hmn]
      exact h.rendering m hm
  · have hmn : m ≠ n := by
      rintro rfl
      exact hm hrun
    simp only [Function.update_of_ne hmn]
    exact h.idle m hm

/-- A run of a resolver keeps the renders wired. -/
theorem Wired.afterRun {r : String} {release : Release} {now : ℚ} (h : Wired c S) :
    Wired c (S.afterRun r release now) := by
  refine ⟨fun q e hq => ?_, h.rendering, h.idle⟩
  by_cases hqr : q = r
  · subst hqr
    simp only [Supervisor.afterRun, Function.update_self, Option.some.injEq] at hq ⊢
    subst hq
    rfl
  · simp only [Supervisor.afterRun, Function.update_of_ne hqr] at hq ⊢
    exact h.cached q e hq

private theorem Current.afterConsult {n r : String} {g : ℕ} {rest : List String} (h : Current S)
    (hg : g = S.generation r) : Current (S.afterConsult n r g rest) := by
  intro m q k hx
  by_cases hmn : m = n
  · subst hmn
    simp only [Function.update_self, List.mem_append, List.mem_singleton, Prod.mk.injEq] at hx
    rcases hx with hx | ⟨rfl, rfl⟩
    · exact h m q k hx
    · exact hg
  · simp only [Function.update_of_ne hmn] at hx
    exact h m q k hx

/-- A run of a resolver keeps the contexts current if it moves none of them. -/
theorem Current.afterRun {n r : String} {rest : List String} {release : Release} {now : ℚ}
    {l : Launch} (h : Current S) (hw : Wired c S) (htodo : S.todo n = r :: rest)
    (hp : ¬ S.Overruns c (.resolved n (.ok release) now l)) :
    Current (S.afterRun r release now) := by
  intro m q k hx
  have hk := h m q k hx
  by_cases hqr : q = r
  · subst hqr
    simp only [Supervisor.afterRun, Function.update_self]
    by_contra hne
    have hmoved : S.nextGeneration q release ≠ S.generation q := fun heq => hne (by rw [heq, hk])
    have hrun : (S.service m).run = .rendering := by
      by_contra hrun
      have hx : (q, k) ∈ S.context m := hx
      rw [(hw.idle m hrun).2] at hx
      cases hx
    refine hp ?_
    simp only [Overruns, htodo]
    exact ⟨hmoved, m, (hw.rendering m hrun).1, List.mem_map_of_mem hx⟩
  · simp only [Supervisor.afterRun, Function.update_of_ne hqr]
    exact hk

/-- A list of pairs whose second components are a function of the first. -/
private theorem map_pair_eq {α β : Type} {f : α → β} {l : List (α × β)}
    (h : ∀ a b, (a, b) ∈ l → b = f a) : (l.map Prod.fst).map (fun a => (a, f a)) = l := by
  rw [List.map_map]
  conv_rhs => rw [← List.map_id l]
  refine List.map_congr_left fun ⟨a, b⟩ hx => ?_
  simp only [Function.comp_apply, id_eq, h a b hx]

/-- Recording reads the generations of the binaries, if all resolvers of the service were
consulted and none has moved since. -/
theorem Recorded.enforcePinning {n : String} (h : Recorded c S) (hcur : Current S)
    (huses : (S.context n).map Prod.fst = c.uses n) : Recorded c (S.enforcePinning c n) := by
  intro m gens hm
  by_cases hmn : m = n
  · subst hmn
    simp only [Supervisor.enforcePinning, Function.update_self, Option.some.injEq] at hm ⊢
    refine ⟨?_, huses⟩
    rw [← hm, generationsFor, ← huses]
    exact map_pair_eq (hcur m)
  · simp only [Supervisor.enforcePinning, Function.update_of_ne hmn] at hm ⊢
    exact h m gens hm

/-! ### Runs -/

private theorem Wired.consulted {n r : String} {g : ℕ} {rest : List String} {l : Launch}
    (h : Wired c S) (hrun : (S.service n).run = .rendering) (htodo : S.todo n = r :: rest)
    (hst : consulted c n r g rest l S = some T) : Wired c T := by
  have hafter : Wired c (S.afterConsult n r g rest) := h.afterConsult hrun htodo
  rcases consulted_eq_some.mp hst with ⟨-, rfl⟩ | ⟨-, hst⟩
  · exact hafter
  · have hpin : Wired c ((S.afterConsult n r g rest).enforcePinning c n) := { hafter with }
    exact hpin.serviceStep hst (.inl (h.rendering n hrun).1)

private theorem Wired.quiet (h : Wired c S) (hst : Quiet S T) : Wired c T := by
  have hrun : ∀ n, (T.service n).run = (S.service n).run := by
    intro n
    obtain ⟨ch, -, hs⟩ := hst.service n
    rw [hs]
  refine ⟨?_, fun n hn => ?_, fun n hn => ?_⟩
  · rw [hst.cache, hst.generation]
    exact h.cached
  · rw [hst.context, hst.todo]
    exact h.rendering n (hrun n ▸ hn)
  · rw [hst.context, hst.todo]
    exact h.idle n (hrun n ▸ hn)

/-- Every step keeps the resolvers and the renders wired. -/
theorem Wired.step (h : Wired c S) (hst : Steps c S e T) : Wired c T := by
  cases step_effect hst with
  | own hn _ hst => exact h.serviceStep hst (.inl hn)
  | bounced _ hst => exact Wired.serviceStep hst { h with } (.inr (by simp))
  | stops hst => exact h.serviceStep hst (.inr (by simp))
  | cancels hst => exact Wired.serviceStep hst { h with } (.inr (by simp))
  | hit hrun htodo _ hst => exact h.consulted hrun htodo hst
  | ran hrun htodo hst => exact h.afterRun.consulted hrun htodo hst
  | renderFailed hrun _ hst =>
      exact Wired.serviceStep hst { h with } (.inl (h.rendering _ hrun).1)
  | quiet hst _ => exact h.quiet hst

/-- Consulting a resolver at its current generation keeps what is recorded true. -/
theorem recorded_consulted {n r : String} {g : ℕ} {rest : List String} {l : Launch}
    (hw : Wired c S) (hcur : Current S) (hrec : Recorded c S)
    (hrun : (S.service n).run = .rendering) (htodo : S.todo n = r :: rest)
    (hg : g = S.generation r) (hst : consulted c n r g rest l S = some T) :
    Current T ∧ Recorded c T := by
  have hafter : Current (S.afterConsult n r g rest) := hcur.afterConsult hg
  rcases consulted_eq_some.mp hst with ⟨-, rfl⟩ | ⟨rfl, hst⟩
  · exact ⟨hafter, hrec⟩
  · have huses := ((hw.afterConsult (g := g) hrun htodo).rendering n hrun).2
    simp only [Function.update_self, List.append_nil] at huses
    have hpin : Recorded c ((S.afterConsult n r g []).enforcePinning c n) :=
      Recorded.enforcePinning (S := S.afterConsult n r g []) hrec hafter
        (by simpa only [Function.update_self] using huses)
    exact ⟨Current.serviceStep hst hafter, hpin.serviceStep hst⟩

/-- A step that overruns no render keeps the contexts current and the records true. -/
theorem recorded_step (hw : Wired c S) (hcur : Current S) (hrec : Recorded c S)
    (hst : Steps c S e T) (hp : ¬ S.Overruns c e) : Current T ∧ Recorded c T := by
  cases step_effect hst with
  | own _ _ hst => exact ⟨hcur.serviceStep hst, hrec.serviceStep hst⟩
  | bounced _ hst => exact ⟨Current.serviceStep hst hcur, Recorded.serviceStep hst hrec⟩
  | stops hst => exact ⟨hcur.serviceStep hst, hrec.serviceStep hst⟩
  | cancels hst => exact ⟨Current.serviceStep hst hcur, Recorded.serviceStep hst hrec⟩
  | hit hrun htodo hentry hst =>
      exact recorded_consulted hw hcur hrec hrun htodo (hw.cached _ _ hentry) hst
  | @ran n r rest now l release T hrun htodo hst =>
      refine recorded_consulted hw.afterRun (hcur.afterRun hw htodo hp) hrec hrun htodo ?_ hst
      simp only [afterRun, Function.update_self]
  | renderFailed _ _ hst => exact ⟨Current.serviceStep hst hcur, Recorded.serviceStep hst hrec⟩
  | quiet hst _ =>
      refine ⟨fun n r g hx => ?_, fun n gens hn => ?_⟩
      · rw [hst.generation]
        exact hcur n r g (hst.context ▸ hx)
      · rw [hst.launched]
        exact hrec n gens (hst.spawnGens ▸ hn)

/-- The wiring holds along every run. -/
theorem wired_run {es : List SupervisorEvent} (h : Run (Steps c) init es S) : Wired c S :=
  h.invariant (Wired c) wired_init fun _ _ _ => Wired.step

/-- In every run in which no resolver moves to a new generation while a render that has
consulted it is in progress: the generations recorded for a spawn are, for exactly the
resolvers the service uses, those of the binaries the spawn was launched with. -/
theorem recorded_generations {es : List SupervisorEvent}
    (h : Run ((Steps c).within fun S e => ¬ S.Overruns c e) init es S) {n : String}
    {gens : List (String × ℕ)} (hgens : S.spawnGens n = some gens) :
    gens = S.launched n ∧ (S.launched n).map Prod.fst = c.uses n := by
  have hall : Current S ∧ Recorded c S := h.invariant_along (fun S => Current S ∧ Recorded c S)
    ⟨fun _ _ _ hx => (by cases hx), fun _ _ hn => (by cases hn)⟩
    fun _ _ _ _ hrun ⟨hcur, hrec⟩ ⟨hp, hst⟩ =>
      recorded_step (wired_run hrun.of_within) hcur hrec hst hp
  exact hall.2 n gens hgens

/-- Two services and two resolvers, one of them shared. -/
def sharedSetup : SupervisorSetup where
  services := ["api", "web"]
  service := fun _ => {}
  uses := fun n => if n = "api" then ["core"] else ["core", "ui"]
  resolver := fun r =>
    { cmd := ["resolve"], provides := if r = "core" then ["api", "web"] else ["assets"] }

/-- The release `v` of a resolver. -/
def release (v : String) : Release := ⟨[("api", v)], []⟩

/-- A launch that creates the process `pid`. -/
def launch (pid : ℕ) : Launch := { result := .ok { cmd := ["run"] } (some pid) }

/-- `web` consults `core` and waits for `ui`; meanwhile `api` moves `core` and is spawned. -/
def overrunRender : List SupervisorEvent :=
  [.service "web" (.run .begin none), .consult "web" 0 (launch 0),
    .resolved "web" (.ok (release "v1")) 0 (launch 0), .consult "web" 0 (launch 0),
    .service "api" (.run .begin none), .consult "api" 10 (launch 1),
    .resolved "api" (.ok (release "v2")) 11 (launch 1),
    .resolved "web" (.ok (release "w1")) 12 (launch 2)]

/-- `web` is recorded as spawned on the second generation of `core`, whose first generation
it runs. -/
theorem not_recorded_generations :
    ¬ ∀ (c : SupervisorSetup) (es : List SupervisorEvent) (S : Supervisor),
      Run (Steps c) init es S → ∀ n gens, S.spawnGens n = some gens → gens = S.launched n := by
  intro h
  obtain ⟨S, hrun, hS⟩ := exists_run_of_exec (step sharedSetup) init overrunRender
    (fun S => decide (S.spawnGens "web" = some [("core", 2), ("ui", 1)] ∧
      S.launched "web" = [("core", 1), ("ui", 1)])) (by decide +kernel)
  obtain ⟨hgens, hlaunched⟩ := of_decide_eq_true hS
  have heq := h sharedSetup overrunRender S hrun "web" _ hgens
  rw [hlaunched] at heq
  exact absurd heq (by decide)

/-- Without `api` the same spawn of `web` is recorded as it is. -/
theorem recorded_generations_web :
    ∃ S, Run ((Steps sharedSetup).within fun S e => ¬ S.Overruns sharedSetup e) init
      (overrunRender.take 4 ++ overrunRender.drop 7) S ∧
      S.launched "web" = [("core", 1), ("ui", 1)] := by
  obtain ⟨S, hrun, hS⟩ := exists_run_of_execWithin (step sharedSetup)
    (fun S e => ¬ S.Overruns sharedSetup e) init (overrunRender.take 4 ++ overrunRender.drop 7)
    (fun S => decide (S.spawnGens "web" = some [("core", 1), ("ui", 1)])) (by decide +kernel)
  exact ⟨S, hrun, (recorded_generations hrun (of_decide_eq_true hS)).1.symm⟩

end Supervisor

end Jetty.Orchestrator
