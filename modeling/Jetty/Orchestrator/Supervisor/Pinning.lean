import Jetty.Orchestrator.Supervisor.Generations
import Jetty.Orchestrator.Service.Bounces

/-!
# Pinned groups

Services that use binaries pinned together by one resolver are to run on one generation of
it: whoever is spawned on a newer one bounces the others. The bounce of a service is lost
where its `restart` is ignored although its process is there (it is being created, it is
stopping, or another request against it is outstanding) or where a log note raises. Along
runs in which no such bounce is lost and no render is overrun, a service on an older
generation than another one has a bounce under way.
-/

namespace Jetty.Orchestrator

open Transition

/-- The service is between the start of a render and the registration of the process. -/
def RunPc.spawning : RunPc → Bool
  | .rendering | .creating _ => true
  | _ => false

namespace Supervisor

/-- A bounce of the service is to start, or is terminating its latest process. -/
def Bounced (S : Supervisor) (n : String) : Prop :=
  n ∈ S.bouncing ∨ (S.service n).Bouncing

/-- A pinning resolver has moved on since the service was last spawned. -/
def Outdated (c : SupervisorSetup) (S : Supervisor) (n : String) : Prop :=
  match S.spawnGens n with
  | none => False
  | some gens => ∃ p ∈ gens, c.pins p.1 = true ∧ p.2 < S.generation p.1

/-- The step overruns a render, or loses the bounce of a service that runs an outdated
release: its `restart` is ignored although none is terminating its process, or a log note
or a sweep of the bounce raises. -/
def Slips (c : SupervisorSetup) (S : Supervisor) (e : SupervisorEvent) : Prop :=
  S.Overruns c e ∨
    match e with
    | .bounce n φ => S.Outdated c n ∧ (S.service n).Holds ∧
        (φ ≠ none ∨ (S.service n).restartIgnored = true ∧ ¬ (S.service n).Bouncing)
    | .service _ (.restarted _ _ φ) => φ ≠ none
    | _ => False

instance (c : SupervisorSetup) (S : Supervisor) (n : String) : Decidable (S.Outdated c n) := by
  unfold Outdated
  split <;> infer_instance

instance (c : SupervisorSetup) (S : Supervisor) (e : SupervisorEvent) :
    Decidable (S.Slips c e) := by
  unfold Slips
  refine @instDecidableOr _ _ _ ?_
  split <;> infer_instance

/-- What is recorded of the services' spawns. -/
structure Records (c : SupervisorSetup) (S : Supervisor) : Prop where
  service : ∀ n gens, S.spawnGens n = some gens → n ∈ c.services ∧ c.uses n ≠ []
  lookup : ∀ n gens, S.spawnGens n = some gens → ∀ r g, (r, g) ∈ gens → gens.lookup r = some g
  le : ∀ n gens, S.spawnGens n = some gens → ∀ r g, (r, g) ∈ gens → g ≤ S.generation r
  none : ∀ n, S.spawnGens n = none → S.launched n = []

/-- Of two services with a live process, the one recorded on the older generation of a
pinning resolver is being bounced. -/
def Pinned (c : SupervisorSetup) (S : Supervisor) : Prop :=
  ∀ m n gm gn r k l, (S.service m).Holds → (S.service n).Holds → S.spawnGens m = some gm →
    S.spawnGens n = some gn → (r, k) ∈ gm → (r, l) ∈ gn → c.pins r = true → l < k → S.Bounced n

variable {c : SupervisorSetup} {S T : Supervisor} {e : SupervisorEvent}

private theorem records_init : Records c init where
  service n gens h := by cases h
  lookup n gens h := by cases h
  le n gens h := by cases h
  none n _ := rfl

/-- Steps of the supervisor keep every service's processes sane. -/
theorem sane_step (h : ∀ n, (S.service n).Sane) (hst : Steps c S e T) (n : String) :
    (T.service n).Sane := by
  rcases (step_effect hst).projects n with heq | ⟨e', he'⟩
  · exact heq ▸ h n
  · exact (h n).step he'

/-! ### Records -/

private theorem Records.serviceStep {n : String} {e : Event} {U : Supervisor}
    (hst : serviceStep c n e U = some T) (h : Records c U) : Records c T := by
  obtain ⟨t, -, rfl⟩ := serviceStep_eq_some.mp hst
  exact { h with }

private theorem le_nextGeneration (r : String) (release : Release) :
    S.generation r ≤ S.nextGeneration r release := by
  unfold nextGeneration
  split <;> omega

private theorem Records.afterRun {r : String} {release : Release} {now : ℚ} (h : Records c S) :
    Records c (S.afterRun r release now) := by
  refine { h with le := fun n gens hn q g hq => ?_ }
  have hle := h.le n gens hn q g hq
  by_cases hqr : q = r
  · subst hqr
    simp only [Supervisor.afterRun, Function.update_self]
    exact hle.trans (le_nextGeneration q release)
  · simpa only [Supervisor.afterRun, Function.update_of_ne hqr] using hle

private theorem lookup_map_pair {f : String → ℕ} {r : String} {l : List String} (h : r ∈ l) :
    (l.map fun q => (q, f q)).lookup r = some (f r) := by
  induction l with
  | nil => cases h
  | cons q l ih =>
      rw [List.map_cons, List.lookup_cons]
      by_cases hrq : r = q
      · simp [hrq]
      · simp only [beq_eq_false_iff_ne.mpr hrq]
        exact ih ((List.mem_cons.mp h).resolve_left hrq)

private theorem mem_generationsFor {n r : String} {g : ℕ} (h : (r, g) ∈ S.generationsFor c n) :
    g = S.generation r ∧ (S.generationsFor c n).lookup r = some g := by
  obtain ⟨q, hq, heq⟩ := List.mem_map.mp h
  obtain ⟨rfl, rfl⟩ := Prod.mk.inj heq
  exact ⟨rfl, lookup_map_pair hq⟩

private theorem Records.enforcePinning {n : String} (h : Records c S) (hn : n ∈ c.services)
    (huses : c.uses n ≠ []) : Records c (S.enforcePinning c n) := by
  have hcases (m : String) : m = n ∧
        (S.enforcePinning c n).spawnGens m = some (S.generationsFor c n) ∨
      m ≠ n ∧ (S.enforcePinning c n).spawnGens m = S.spawnGens m ∧
        (S.enforcePinning c n).launched m = S.launched m := by
    by_cases hmn : m = n
    · exact .inl ⟨hmn, by simp only [hmn, Supervisor.enforcePinning, Function.update_self]⟩
    · exact .inr ⟨hmn, by simp only [Supervisor.enforcePinning, Function.update_of_ne hmn],
        by simp only [Supervisor.enforcePinning, Function.update_of_ne hmn]⟩
  refine ⟨fun m gens hm => ?_, fun m gens hm r g hr => ?_, fun m gens hm r g hr => ?_,
    fun m hm => ?_⟩
  all_goals rcases hcases m with ⟨rfl, hm'⟩ | ⟨-, hm', hl⟩
  · exact ⟨hn, huses⟩
  · exact h.service m gens (hm' ▸ hm)
  · obtain rfl := Option.some.inj (hm'.symm.trans hm)
    exact (mem_generationsFor hr).2
  · exact h.lookup m gens (hm' ▸ hm) r g hr
  · obtain rfl := Option.some.inj (hm'.symm.trans hm)
    exact (mem_generationsFor hr).1.le
  · exact h.le m gens (hm' ▸ hm) r g hr
  · rw [hm'] at hm
    cases hm
  · rw [hl]
    exact h.none m (hm' ▸ hm)

/-! ### Bounces -/

/-- A step of a service that creates no process, or is not recorded, keeps the bounces of
the services on older generations under way. -/
theorem Pinned.serviceStep {n : String} {e : Event} {U : Supervisor}
    (hst : serviceStep c n e U = some T) (h : Pinned c U) (hsane : ∀ m, (U.service m).Sane)
    (hstill : ∀ t, Service.step (c.service n) (U.service n) e = some t →
      t.spawned = (U.service n).spawned ∨ U.spawnGens n = none)
    (hp : ∀ i b φ, e = .restarted i b φ → φ = none) : Pinned c T := by
  obtain ⟨t, ht, rfl⟩ := serviceStep_eq_some.mp hst
  have hholds : ∀ m gm, U.spawnGens m = some gm →
      ((U.setService c n e t).service m).Holds → (U.service m).Holds ∧
        ((U.service m).Bouncing → ((U.setService c n e t).service m).Bouncing) := by
    intro m gm hgm hm
    by_cases hmn : m = n
    · subst hmn
      simp only [setService, Function.update_self] at hm ⊢
      have hspawned := (hstill t ht).resolve_right (by simp [hgm])
      have hs := hsane m
      exact ⟨Service.holds_step ht hspawned hm, fun hb =>
        Service.bouncing_step hs.tracked hs.latest hs.captured ht hspawned hp hb hm⟩
    · simp only [setService, Function.update_of_ne hmn] at hm ⊢
      exact ⟨hm, id⟩
  intro m n' gm gn r k l hm hn hgm hgn hk hl hr hlt
  have hm' := hholds m gm hgm hm
  have hn' := hholds n' gn hgn hn
  exact (h m n' gm gn r k l hm'.1 hn'.1 hgm hgn hk hl hr hlt).imp_right hn'.2

/-- A spawn bounces every other service that is recorded on an older generation. -/
theorem Pinned.launch {n : String} {l : Launch} (h : Pinned c S) (hrec : Records c S)
    (hst : Supervisor.serviceStep c n (.run (.rendered l.result l.now) l.fault)
      (S.enforcePinning c n) = some T) : Pinned c T := by
  obtain ⟨t, -, rfl⟩ := serviceStep_eq_some.mp hst
  intro m n' gm gn r k g hm hn hgm hgn hk hg hr hlt
  simp only [setService, Supervisor.enforcePinning] at hm hn hgm hgn
  by_cases hn' : n' = n
  · -- The service just spawned is on the current generation: none is newer.
    subst hn'
    simp only [Function.update_self, Option.some.injEq] at hgn
    have hcur := (mem_generationsFor (hgn ▸ hg)).1
    by_cases hmn : m = n'
    · subst hmn
      simp only [Function.update_self, Option.some.injEq] at hgm
      have hcur' := (mem_generationsFor (hgm ▸ hk)).1
      omega
    · simp only [Function.update_of_ne hmn] at hgm
      have hle := hrec.le m gm hgm r k hk
      omega
  · simp only [Function.update_of_ne hn'] at hn hgn
    by_cases hmn : m = n
    · subst hmn
      simp only [Function.update_self, Option.some.injEq] at hgm
      subst hgm
      left
      have hcur := (mem_generationsFor hk).1
      simp only [setService, Supervisor.enforcePinning, List.mem_append, List.mem_flatMap]
      refine .inr ⟨(r, k), hk, ?_⟩
      simp only [hr, if_true, List.mem_filter, decide_eq_true_eq]
      refine ⟨(hrec.service n' gn hgn).1, hn', ?_⟩
      simp only [outdated, hgn, hrec.lookup n' gn hgn r g hg, Option.getD_some,
        decide_eq_true_eq]
      omega
    · simp only [Function.update_of_ne hmn] at hm hgm
      rcases h m n' gm gn r k g hm hn hgm hgn hk hg hr hlt with hb | hb
      · exact .inl (List.mem_append_left _ hb)
      · right
        simpa only [setService, Supervisor.enforcePinning, Function.update_of_ne hn'] using hb

private theorem Pinned.consulted {n r : String} {g : ℕ} {rest : List String} {l : Launch}
    (h : Pinned c S) (hrec : Records c S) (hst : consulted c n r g rest l S = some T) :
    Pinned c T := by
  rcases consulted_eq_some.mp hst with ⟨-, rfl⟩ | ⟨-, hst⟩
  · exact h
  · exact Pinned.launch (S := S.afterConsult n r g rest) h { hrec with } hst

private theorem Records.consulted {n r : String} {g : ℕ} {rest : List String} {l : Launch}
    (h : Records c S) (hw : Wired c S) (hrun : (S.service n).run = .rendering)
    (htodo : S.todo n = r :: rest) (hst : consulted c n r g rest l S = some T) :
    Records c T := by
  have hafter : Records c (S.afterConsult n r g rest) := { h with }
  rcases consulted_eq_some.mp hst with ⟨-, rfl⟩ | ⟨-, hst⟩
  · exact hafter
  · obtain ⟨hn, huses⟩ := hw.rendering n hrun
    refine Records.serviceStep hst (hafter.enforcePinning hn fun hnil => ?_)
    rw [hnil, htodo] at huses
    simp at huses

/-- The start of a bounce that is not lost: the call terminates the outdated process. -/
theorem Pinned.bounced {n : String} {φ : Option Fault} (h : Pinned c S) (hrec : Records c S)
    (hsane : ∀ m, (S.service m).Sane)
    (hst : Supervisor.serviceStep c n (.restart φ) { S with bouncing := S.bouncing.erase n } =
      some T)
    (hp : ¬ S.Slips c (.bounce n φ)) : Pinned c T := by
  obtain ⟨t, ht, rfl⟩ := serviceStep_eq_some.mp hst
  have hspawned : t.spawned = (S.service n).spawned :=
    (Service.step_aside ht (by simp)).spawned
  intro m n' gm gn r k l hm hn hgm hgn hk hl hr hlt
  have hholds : ∀ m', ((setService c n (.restart φ) t
      { S with bouncing := S.bouncing.erase n }).service m').Holds → (S.service m').Holds := by
    intro m' hm'
    by_cases hmn : m' = n
    · subst hmn
      simp only [setService, Function.update_self] at hm'
      exact Service.holds_step ht hspawned hm'
    · simpa only [setService, Function.update_of_ne hmn] using hm'
  have hbefore := h m n' gm gn r k l (hholds m hm) (hholds n' hn) hgm hgn hk hl hr hlt
  by_cases hn' : n' = n
  · subst hn'
    right
    simp only [setService, Function.update_self]
    have hs := hsane n'
    have hout : S.Outdated c n' := by
      have hgn' : S.spawnGens n' = some gn := hgn
      simp only [Outdated, hgn']
      exact ⟨(r, l), hl, hr, hlt.trans_le (hrec.le m gm hgm r k hk)⟩
    have hkept : φ = none ∧
        ((S.service n').restartIgnored = true → (S.service n').Bouncing) := by
      by_contra hlost
      refine hp (.inr ⟨hout, hholds n' hn, ?_⟩)
      by_cases hφ : φ = none
      · exact .inr (by simpa [hφ] using hlost)
      · exact .inl hφ
    obtain ⟨rfl, hign⟩ := hkept
    cases hig : (S.service n').restartIgnored with
    | true =>
        rcases Service.restart_cases ht with ⟨-, rfl⟩ | ⟨hno, -⟩
        · exact hign hig
        · rw [hig] at hno
          cases hno
    | false => exact Service.bouncing_of_restart hs.tracked hs.latest ht hig (hholds n' hn)
  · rcases hbefore with hb | hb
    · exact .inl ((List.mem_erase_of_ne hn').mpr hb)
    · right
      simpa only [setService, Function.update_of_ne hn'] using hb

private theorem Pinned.quiet (h : Pinned c S) (hst : Quiet S T) : Pinned c T := by
  have hservice : ∀ n, (T.service n).spawned = (S.service n).spawned ∧
      (T.service n).bounces = (S.service n).bounces ∧
      ((T.service n).Holds → (S.service n).Holds) := by
    intro n
    obtain ⟨ch, hch, hs⟩ := hst.service n
    rw [hs]
    exact ⟨rfl, rfl, Service.holds_of_ages rfl fun i _ => hch.ages i⟩
  intro m n gm gn r k l hm hn hgm hgn hk hl hr hlt
  rw [hst.spawnGens] at hgm hgn
  have hb := h m n gm gn r k l ((hservice m).2.2 hm) ((hservice n).2.2 hn) hgm hgn hk hl hr hlt
  obtain ⟨hspawned, hbounces, -⟩ := hservice n
  unfold Bounced Service.Bouncing at *
  rwa [hst.bouncing, hspawned, hbounces]

/-! ### Runs -/

/-- A step of a service outside a render creates no process. -/
private theorem still_of_ne {n : String} {e : Event} {U : Supervisor}
    (he : ∀ r pid now φ, e ≠ .run (.rendered (.ok r (some pid)) now) φ) (t : Service)
    (ht : Service.step (c.service n) (U.service n) e = some t) :
    t.spawned = (U.service n).spawned ∨ U.spawnGens n = none := by
  left
  by_contra hne
  obtain ⟨r, pid, now, φ, rfl⟩ := Service.spawned_step ht hne
  exact he r pid now φ rfl

private theorem records_step (hw : Wired c S) (h : Records c S) (hst : Steps c S e T) :
    Records c T := by
  cases step_effect hst with
  | own _ _ hst => exact Records.serviceStep hst h
  | bounced _ hst => exact Records.serviceStep hst { h with }
  | stops hst => exact Records.serviceStep hst h
  | cancels hst => exact Records.serviceStep hst { h with }
  | hit hrun htodo _ hst => exact h.consulted hw hrun htodo hst
  | ran hrun htodo hst => exact h.afterRun.consulted hw.afterRun hrun htodo hst
  | renderFailed _ _ hst => exact Records.serviceStep hst { h with }
  | quiet hst _ =>
      refine ⟨fun n gens hn => ?_, fun n gens hn => ?_, fun n gens hn => ?_, fun n hn => ?_⟩
      · exact h.service n gens (hst.spawnGens ▸ hn)
      · exact h.lookup n gens (hst.spawnGens ▸ hn)
      · rw [hst.generation]
        exact h.le n gens (hst.spawnGens ▸ hn)
      · rw [hst.launched]
        exact h.none n (hst.spawnGens ▸ hn)

private theorem pinned_step (hrec : Records c S) (hsane : ∀ n, (S.service n).Sane) (h : Pinned c S)
    (hst : Steps c S e T) (hp : ¬ S.Slips c e) : Pinned c T := by
  cases step_effect hst with
  | @own n e T hn hmanages hst =>
      refine Pinned.serviceStep hst h hsane (fun t ht => ?_) ?_
      · by_contra hne
        obtain ⟨hspawned, hsome⟩ := not_or.mp hne
        obtain ⟨r, pid, now, φ, rfl⟩ := Service.spawned_step ht hspawned
        obtain ⟨gens, hgens⟩ := Option.ne_none_iff_exists'.mp hsome
        have huses := (hrec.service n gens hgens).2
        simp [SupervisorSetup.manages, huses] at hmanages
      · rintro i b φ rfl
        by_contra hφ
        exact hp (.inr hφ)
  | bounced _ hst => exact h.bounced hrec hsane hst hp
  | stops hst =>
      exact Pinned.serviceStep hst h hsane (still_of_ne (by simp)) (by simp)
  | cancels hst =>
      exact Pinned.serviceStep hst h hsane (still_of_ne (by simp)) (by simp)
  | hit _ _ _ hst => exact h.consulted hrec hst
  | ran _ _ hst => exact Pinned.consulted (S := S.afterRun _ _ _) h hrec.afterRun hst
  | renderFailed _ hres hst =>
      refine Pinned.serviceStep hst h hsane (still_of_ne ?_) (by simp)
      rcases hres with ⟨-, rfl⟩ | ⟨-, rfl⟩ <;> simp
  | quiet hst _ => exact h.quiet hst

/-- No bounce task is pending. -/
def Unbounced (c : SupervisorSetup) (S : Supervisor) : Prop :=
  S.bouncing = [] ∧ ∀ n ∈ c.services, (S.service n).bounces = []

instance (c : SupervisorSetup) (S : Supervisor) : Decidable (S.Unbounced c) :=
  inferInstanceAs (Decidable (_ ∧ _))

/-- In every run that loses no bounce of an outdated service and overruns no render: when no
bounce is pending, any two services with a live process were launched with binaries of the
same generation of every pinning resolver they share. -/
theorem pinned_groups {es : List SupervisorEvent}
    (h : Run ((Steps c).within fun S e => ¬ S.Slips c e) init es S) (hun : S.Unbounced c)
    {m n r : String} {k l : ℕ} (hm : (S.service m).Holds) (hn : (S.service n).Holds)
    (hr : c.pins r = true) (hk : (r, k) ∈ S.launched m) (hl : (r, l) ∈ S.launched n) :
    k = l := by
  have hall : (Current S ∧ Recorded c S) ∧ Records c S ∧ (∀ n, (S.service n).Sane) ∧
      Pinned c S := h.invariant_along
    (fun S => (Current S ∧ Recorded c S) ∧ Records c S ∧ (∀ n, (S.service n).Sane) ∧ Pinned c S)
    ⟨⟨fun _ _ _ hx => (by cases hx), fun _ _ hn => (by cases hn)⟩, records_init,
      fun _ => Service.sane_init, fun _ _ _ _ _ _ _ _ _ hg => (by cases hg)⟩
    fun es S e T hrun ⟨⟨hcur, hrec⟩, hrecords, hsane, hpinned⟩ ⟨hp, hst⟩ => by
      have hw : Wired c S := wired_run hrun.of_within
      exact ⟨recorded_step hw hcur hrec hst fun ho => hp (.inl ho),
        records_step hw hrecords hst, sane_step hsane hst,
        pinned_step hrecords hsane hpinned hst hp⟩
  obtain ⟨⟨-, hrecorded⟩, hrecords, -, hpinned⟩ := hall
  have hgens : ∀ n r k, (r, k) ∈ S.launched n → S.spawnGens n = some (S.launched n) := by
    intro n r k hmem
    cases hg : S.spawnGens n with
    | none =>
        rw [hrecords.none n hg] at hmem
        cases hmem
    | some gens => rw [(hrecorded n gens hg).1]
  have hunbounced : ∀ n ∈ c.services, ¬ S.Bounced n := by
    rintro n hn (hb | ⟨i, hi, -⟩)
    · rw [hun.1] at hb
      cases hb
    · rw [hun.2 n hn] at hi
      cases hi
  have hle {m n : String} {k l : ℕ} (hm : (S.service m).Holds) (hn : (S.service n).Holds)
      (hk : (r, k) ∈ S.launched m) (hl : (r, l) ∈ S.launched n) : k ≤ l := by
    by_contra hlt
    have hgn := hgens n r l hl
    exact hunbounced n (hrecords.service n _ hgn).1
      (hpinned m n _ _ r k l hm hn (hgens m r k hk) hgn hk hl hr (by omega))
  exact le_antisymm (hle hm hn hk hl) (hle hn hm hl hk)

/-- Two services that use the binaries of one pinning resolver. -/
def pinnedSetup : SupervisorSetup where
  services := ["api", "web"]
  service := fun _ => {}
  uses := fun _ => ["core"]
  resolver := fun _ => { cmd := ["resolve"], provides := ["api", "web"] }

/-- `web` is up on the first release; `api` is spawned on the second one, `web` is bounced
and comes back on it. -/
def bouncedGroup : List SupervisorEvent :=
  [.service "web" (.run .begin none), .consult "web" 0 (launch 101),
    .resolved "web" (.ok (release "v1")) 0 (launch 101),
    .service "web" (.run (.connected true false 0) none),
    .service "api" (.run .begin none), .consult "api" 10 (launch 102),
    .resolved "api" (.ok (release "v2")) 11 (launch 102),
    .service "api" (.run (.connected true false 11) none), .bounce "web" none,
    .service "web" (.die 0 0 false), .service "web" (.reap 0),
    .service "web" (.restarted 0 false none), .service "web" (.run .exited none),
    .service "web" (.run (.joined 12) none), .service "web" (.run (.joined 12) none),
    .service "web" (.run (.drained .ok 12) none), .consult "web" 12 (launch 103),
    .service "web" (.run (.connected true false 12) none)]

/-- The same, but `api` is spawned between the creation and the registration of the process
of `web`. -/
def lostBounce : List SupervisorEvent :=
  [.service "web" (.run .begin none), .consult "web" 0 (launch 101),
    .resolved "web" (.ok (release "v1")) 0 (launch 101),
    .service "api" (.run .begin none), .consult "api" 10 (launch 102),
    .resolved "api" (.ok (release "v2")) 11 (launch 102), .bounce "web" none,
    .service "web" (.run (.connected true false 11) none),
    .service "api" (.run (.connected true false 11) none)]

/-- The bounced group runs on one generation. -/
theorem pinned_groups_bounced :
    ∃ S, Run ((Steps pinnedSetup).within fun S e => ¬ S.Slips pinnedSetup e) init
      bouncedGroup S ∧ ∀ k, ("core", k) ∈ S.launched "web" → k = 2 := by
  obtain ⟨S, hrun, hS⟩ := exists_run_of_execWithin (step pinnedSetup)
    (fun S e => ¬ S.Slips pinnedSetup e) init bouncedGroup
    (fun S => decide (S.Unbounced pinnedSetup ∧ (S.service "web").Holds ∧
      (S.service "api").Holds ∧ S.launched "api" = [("core", 2)])) (by decide +kernel)
  obtain ⟨hun, hweb, hapi, hlaunched⟩ := of_decide_eq_true hS
  exact ⟨S, hrun, fun k hk => pinned_groups hrun hun hweb hapi (by decide) hk (by
    rw [hlaunched]
    exact List.mem_singleton_self _)⟩

/-- No bounce is pending, no spawn is under way, and the group runs split. -/
theorem not_pinned_groups :
    ¬ ∀ (c : SupervisorSetup) (es : List SupervisorEvent) (S : Supervisor),
      Run (Steps c) init es S → S.Unbounced c →
      (∀ n ∈ c.services, (S.service n).run.spawning = false) →
      ∀ m n r k l, (S.service m).Holds → (S.service n).Holds → c.pins r = true →
        (r, k) ∈ S.launched m → (r, l) ∈ S.launched n → k = l := by
  intro h
  obtain ⟨S, hrun, hS⟩ := exists_run_of_exec (step pinnedSetup) init lostBounce
    (fun S => decide (S.Unbounced pinnedSetup ∧
      (∀ n ∈ pinnedSetup.services, (S.service n).run.spawning = false) ∧ (S.service "web").Holds ∧
      (S.service "api").Holds ∧ ("core", 1) ∈ S.launched "web" ∧
      ("core", 2) ∈ S.launched "api")) (by decide +kernel)
  obtain ⟨hun, hup, hweb, hapi, hold, hnew⟩ := of_decide_eq_true hS
  exact absurd (h _ _ S hrun hun hup "web" "api" "core" 1 2 hweb hapi (by decide) hold hnew)
    (by decide)

end Supervisor

end Jetty.Orchestrator
