import Jetty.Orchestrator.Service.Processes

/-!
# Stop requests and incarnations

A watcher or `restart` asks for the stop of the process that is up. The run loop consumes
the request when it classifies the exit, but it consumes one kind per exit: a gate stop
hides a bounce, and the bounce is then still there when the next incarnation is spawned.
Along runs in which no incarnation exits with both kinds of request outstanding, every
request belongs to the incarnation it was made against.
-/

namespace Jetty.Orchestrator

open Transition

/-- The child of a new incarnation has been forked. -/
def Event.forks : Event → Bool
  | .run (.rendered (.ok _ (some _)) _) _ => true
  | _ => false

/-- A new incarnation comes up: its process is created, or becomes `self.proc`. -/
def Event.spawns : Event → Bool
  | .run (.rendered (.ok _ (some _)) _) _ | .run (.connected true _ _) _ => true
  | _ => false

/-- The last exit is classified, and the next incarnation is not registered yet. -/
def RunPc.fresh : RunPc → Bool
  | .creating _ => true
  | pc => pc.idle

private theorem RunPc.fresh_of_idle {pc : RunPc} (h : pc.idle = true) : pc.fresh = true := by
  cases pc <;> simp_all [RunPc.fresh, RunPc.idle]

private theorem RunPc.down_of_fresh {pc : RunPc} (h : pc.fresh = true) : pc.down = true := by
  cases pc <;> simp_all [RunPc.fresh, RunPc.down, RunPc.idle]

private theorem RunPc.idle_of_parked_fresh {pc : RunPc} (h : pc.parked = true)
    (h' : pc.fresh = true) : pc.idle = true := by
  cases pc <;> simp_all [RunPc.parked, RunPc.fresh, RunPc.idle, RunPc.over]

namespace Service

/-- The step does not classify an exit with both kinds of stop request outstanding, unless
`stop` was requested as well. -/
def Unmixed (s : Service) (e : Event) : Prop :=
  match e with
  | .run e _ => (s.exitAt e).isSome = true → s.stopEvent = false →
      ¬ (s.gateStop = true ∧ s.bounceRequested = true)
  | _ => True

instance (s : Service) (e : Event) : Decidable (s.Unmixed e) := by
  unfold Unmixed
  split <;> infer_instance

/-- No request is outstanding while no incarnation is up. -/
def Clear (s : Service) : Prop :=
  s.run.fresh = true → s.bounceRequested = false ∧ s.gateStop = false

/-- A flag is up because some step raised it while a process was attached, and no process
has been created since. -/
def AskedSince (c : ServiceSetup) (flag : Service → Bool) (es : List Event) : Prop :=
  ∃ es₁ e es₂ u v, es = es₁ ++ e :: es₂ ∧ Run (Steps c) init es₁ u ∧ Steps c u e v ∧
    u.attached = true ∧ flag u = false ∧ flag v = true ∧ ∀ e' ∈ es₂, e'.forks = false

variable {c : ServiceSetup} {φ : Option Fault} {s t : Service}

private theorem Clear.aside {e : Event} (h : Clear s) (htr : Tracked s) (hst : Aside s e t) :
    Clear t := by
  intro hfresh
  rcases hst.run with hrun | ⟨-, hrun, -⟩
  · rw [hrun] at hfresh
    have hatt := htr.detached (RunPc.down_of_fresh hfresh)
    obtain ⟨hb, hg⟩ := h hfresh
    constructor
    · rcases hst.bounceRequested with heq | ⟨-, hlive, -⟩
      · exact heq.trans hb
      · rw [hatt] at hlive
        cases hlive
    · rcases hst.gateStop with heq | ⟨-, hlive, -⟩
      · exact heq.trans hg
      · rw [hatt] at hlive
        cases hlive
  · rw [hrun] at hfresh
    cases hfresh

/-- Bookkeeping raises no flag. -/
theorem Books.flags {o d g : Prop} (h : Books φ o d g s t)
    (hs : s.bounceRequested = false ∧ s.gateStop = false) :
    t.bounceRequested = false ∧ t.gateStop = false := by
  have hb := h.keeps.bounceRequested
  have hg := h.keeps.gateStop
  grind

private theorem Clear.runEffect {e : RunEvent} (h : Clear s) (hst : RunEffect c φ s e t)
    (hp : Unmixed s (.run e φ)) : Clear t := by
  intro hfresh
  cases hst with
  | idle hidle hb => exact hb.flags (h (RunPc.fresh_of_idle hidle))
  | recheck hrun _ => exact h (by rw [hrun]; rfl)
  | raised _ _ ht | sweepRaises _ _ ht =>
      subst ht
      cases hfresh
  | forked hrun => exact h (by rw [hrun]; rfl)
  | attached hrun _ hst =>
      rcases hst.run with hr | hr | hr | ⟨f, _, hr⟩ <;> simp [hr, RunPc.fresh, RunPc.idle] at hfresh
  | attachRaised _ _ ht =>
      subst ht
      cases hfresh
  | connectFailed hrun hb => exact hb.flags (h (by rw [hrun]; rfl))
  | probed _ hst =>
      rcases hst.run with hr | hr | hr | ⟨f, _, hr⟩ <;> simp [hr, RunPc.fresh, RunPc.idle] at hfresh
  | waits _ hst =>
      rcases hst.run with hr | hr | hr | ⟨f, _, hr⟩ <;> simp [hr, RunPc.fresh, RunPc.idle] at hfresh
  | exited => cases hfresh
  | joined => cases hfresh
  | drains => cases hfresh
  | classified hu hb hflags =>
      obtain ⟨hexit, hstop, hclear⟩ := hflags (RunPc.idle_of_parked_fresh hb.parked hfresh)
      exact hclear (hp hexit hstop)

/-- A step that classifies no exit with both kinds of request leaves none behind. -/
theorem Clear.step {e : Event} (h : Clear s) (htr : Tracked s) (hst : Steps c s e t)
    (hp : Unmixed s e) : Clear t := by
  cases e with
  | run e φ => exact h.runEffect (runStep_effect hst) hp
  | _ => exact h.aside htr (step_aside hst (by simp))

private theorem clear_run {es : List Event} (h : Run ((Steps c).within Unmixed) init es s) :
    Clear s := by
  have hboth : Tracked s ∧ Clear s := h.invariant (fun s => Tracked s ∧ Clear s)
    ⟨tracked_init, fun _ => ⟨rfl, rfl⟩⟩
    fun _ _ _ ⟨htr, hcl⟩ ⟨hp, hst⟩ => ⟨htr.step hst, hcl.step htr hst hp⟩
  exact hboth.2

/-- The run loop is between two incarnations when a new one comes up. -/
theorem fresh_of_spawns {e : Event} (hst : Steps c s e t) (he : e.spawns = true) :
    s.run.fresh = true := by
  unfold Event.spawns at he
  split at he
  · have h : resume c _ s s.run _ = some t := hst
    cases hrun : s.run with
    | rendering => rfl
    | _ => simp only [hrun, resume, reduceCtorEq] at h
  · have h : resume c _ s s.run _ = some t := hst
    cases hrun : s.run with
    | creating i => rfl
    | _ => simp only [hrun, resume, reduceCtorEq] at h
  · cases he

private theorem Event.spawns_of_forks {e : Event} (h : e.forks = true) : e.spawns = true := by
  unfold Event.forks at h
  split at h
  · rfl
  · cases h

/-- The run loop raises no flag. -/
theorem RunEffect.flags {e : RunEvent} (h : RunEffect c φ s e t) :
    (t.bounceRequested = true → s.bounceRequested = true) ∧
      (t.gateStop = true → s.gateStop = true) := by
  cases h with
  | idle _ hb => exact ⟨hb.keeps.bounceRequested, hb.keeps.gateStop⟩
  | raised _ _ ht | attachRaised _ _ ht | sweepRaises _ _ ht =>
      subst ht
      exact ⟨id, id⟩
  | connectFailed _ hb => exact ⟨hb.keeps.bounceRequested, hb.keeps.gateStop⟩
  | attached _ _ hst | probed _ hst | waits _ hst =>
      exact ⟨fun h => hst.bounceRequested ▸ h, fun h => hst.gateStop ▸ h⟩
  | classified hu hb _ =>
      have hk := hb.keeps
      rcases hu with ⟨_, rfl⟩ | ⟨_, rfl⟩ <;> exact ⟨hk.bounceRequested, hk.gateStop⟩
  | _ => exact ⟨id, id⟩

/-- A flag that is up after a step was up before, or the step raised it against an attached
process. -/
def Follows (s : Service) (e : Event) (before after : Bool) : Prop :=
  after = true → before = true ∨ s.attached = true ∧ e.forks = false

private theorem flags_follow {e : Event} (hst : Steps c s e t) :
    Follows s e s.bounceRequested t.bounceRequested ∧ Follows s e s.gateStop t.gateStop := by
  cases e with
  | run e φ =>
      have h := (runStep_effect hst).flags
      exact ⟨fun ht => .inl (h.1 ht), fun ht => .inl (h.2 ht)⟩
  | _ =>
      have h := step_aside hst (by simp)
      constructor
      · intro ht
        rcases h.bounceRequested with heq | ⟨-, hatt, -⟩
        · exact .inl (heq ▸ ht)
        · exact .inr ⟨hatt, rfl⟩
      · intro ht
        rcases h.gateStop with heq | ⟨-, hatt, -⟩
        · exact .inl (heq ▸ ht)
        · exact .inr ⟨hatt, rfl⟩

/-- A flag that is clear whenever a child is forked was raised since the last fork. -/
theorem AskedSince.step {flag : Service → Bool} {es : List Event} {e : Event}
    (hrun : Run (Steps c) init es s) (hst : Steps c s e t)
    (hfollows : Follows s e (flag s) (flag t)) (hforks : e.forks = true → flag s = false)
    (ih : flag s = true → AskedSince c flag es) (ht : flag t = true) :
    AskedSince c flag (es ++ [e]) := by
  cases hs : flag s with
  | true =>
      obtain ⟨es₁, e₁, es₂, u, v, rfl, hu, hv, hatt, hfu, hfv, hno⟩ := ih hs
      refine ⟨es₁, e₁, es₂ ++ [e], u, v, by simp, hu, hv, hatt, hfu, hfv, fun e' he' => ?_⟩
      rcases List.mem_append.mp he' with he' | he'
      · exact hno e' he'
      · obtain rfl := List.mem_singleton.mp he'
        by_contra hf
        rw [hforks (by simpa using hf)] at hs
        cases hs
  | false =>
      rcases hfollows ht with hbefore | ⟨hatt, _⟩
      · rw [hs] at hbefore
        cases hbefore
      · exact ⟨es, e, [], s, t, rfl, hrun, hst, hatt, hs, ht, by simp⟩

/-- Along unmixed runs every outstanding request was made against the last incarnation. -/
theorem askedSince_run {es : List Event} (h : Run ((Steps c).within Unmixed) init es s) :
    (s.bounceRequested = true → AskedSince c (·.bounceRequested) es) ∧
      (s.gateStop = true → AskedSince c (·.gateStop) es) := by
  induction h with
  | nil => exact ⟨nofun, nofun⟩
  | @snoc es e s t hrun hst ih =>
      have hclear : e.forks = true → s.bounceRequested = false ∧ s.gateStop = false := fun he =>
        clear_run hrun (fresh_of_spawns hst.2 (Event.spawns_of_forks he))
      have hfollows := flags_follow hst.2
      exact ⟨AskedSince.step hrun.of_within hst.2 hfollows.1 (fun he => (hclear he).1) ih.1,
        AskedSince.step hrun.of_within hst.2 hfollows.2 (fun he => (hclear he).2) ih.2⟩

/-- In every run in which no incarnation exits with both a gate stop and a bounce
outstanding: both flags are down whenever a new incarnation comes up, an exit is excused
only if a watcher or `restart` asked for the stop of that very incarnation, and `restart`
ignores an attached process only because of a request against that very process (or
because the service is stopping). -/
theorem requests_belong_to_incarnation {es : List Event}
    (h : Run ((Steps c).within Unmixed) init es s) :
    (∀ e t, Steps c s e t → e.spawns = true →
      s.bounceRequested = false ∧ s.gateStop = false) ∧
    (∀ code, s.classify c code = .gateStopped → AskedSince c (·.gateStop) es) ∧
    (∀ code, s.classify c code = .bounced → AskedSince c (·.bounceRequested) es) ∧
    (s.attached = true → s.restartIgnored = true → s.stopEvent = false →
      AskedSince c (·.bounceRequested) es) := by
  obtain ⟨hbounce, hgate⟩ := askedSince_run h
  refine ⟨fun e t hst he => clear_run h (fresh_of_spawns hst he), fun code hv => ?_,
    fun code hv => ?_, fun hatt hign hstop => ?_⟩
  · exact hgate (by grind [classify_cases (c := c) (s := s) code])
  · exact hbounce (by grind [classify_cases (c := c) (s := s) code])
  · simp only [restartIgnored, hatt, hstop, Bool.false_or, Bool.not_true, Bool.or_false] at hign
    exact hbounce hign

/-- A service with one continuous gate that closes on its first failure. -/
def gatedSetup : ServiceSetup :=
  { requires := ["vpn"], continuousRequires := ["vpn"], closeAfter := fun _ => 1 }

/-- The gate watcher stops the first incarnation, a bounce arrives in its grace period, and
the service comes back once the gate has reopened, up to the fork of the next child. -/
def mixedRequests : List Event :=
  [.run .begin none, .run (.gates .ok 0) none,
    .run (.rendered (.ok { cmd := ["api"] } (some 100)) 0) none,
    .run (.connected true false 0) none, .gateStarted, .gateWoke,
    .gatePolled (some [("vpn", false, 1)]) none, .restart none, .die 0 0 false, .reap 0,
    .run .exited none, .run (.joined 2) none, .run (.joined 2) none, .run (.drained .ok 2) none,
    .run (.gates (.failing ["vpn"]) 2) none, .run (.slept false) none, .run (.gates .ok 17) none,
    .run (.gates .ok 17) none]

/-- A request can outlive the incarnation it was made against. -/
theorem not_requests_belong_to_incarnation :
    ¬ ∀ (c : ServiceSetup) (es : List Event) (s : Service), Run (Steps c) init es s →
      ∀ e t, Steps c s e t → e.spawns = true → s.bounceRequested = false ∧ s.gateStop = false := by
  intro h
  let next : Event := .run (.rendered (.ok { cmd := ["api"] } (some 101)) 17) none
  obtain ⟨s, hrun, hs⟩ := exists_run_of_exec (step gatedSetup) init mixedRequests
    (fun s => s.bounceRequested && (step gatedSetup s next).isSome) (by decide +kernel)
  obtain ⟨hbounce, hnext⟩ := Bool.and_eq_true_iff.mp hs
  obtain ⟨t, ht⟩ := Option.isSome_iff_exists.mp hnext
  have hclear := (h gatedSetup mixedRequests s hrun next t ht rfl).1
  rw [hbounce] at hclear
  cases hclear

/-- Up to the gate stop the run is unmixed, and the exit to come is excused by a request
against its own incarnation. -/
theorem requests_belong_to_incarnation_gateStop :
    ∃ s, Run ((Steps gatedSetup).within Unmixed) init (mixedRequests.take 7) s ∧
      s.gateStop = true ∧ AskedSince gatedSetup (·.gateStop) (mixedRequests.take 7) := by
  obtain ⟨s, hrun, hs⟩ := exists_run_of_execWithin (step gatedSetup) Unmixed init
    (mixedRequests.take 7) (fun s => s.gateStop && !s.stopEvent) (by decide +kernel)
  obtain ⟨hgate, hstop⟩ := Bool.and_eq_true_iff.mp hs
  refine ⟨s, hrun, hgate, (requests_belong_to_incarnation hrun).2.1 0 ?_⟩
  simp_all [classify]

end Service

end Jetty.Orchestrator
