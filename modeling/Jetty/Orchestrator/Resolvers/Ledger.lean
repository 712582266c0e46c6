import Jetty.Core.Monitor
import Jetty.Orchestrator.Resolvers.Resolve

/-!
# The runs of the resolvers and who uses them

A ledger beside the resolvers keeps every successful run of each of them, and which run a call has
taken each resolver's binaries from, with the time at which it looked at the cache. No two calls run
one resolver.
-/

namespace Jetty.Orchestrator

open Python Transition

/-- How often a value is not the same as the one before it, the first one counted. -/
def changes {α : Type*} (same : α → α → Prop) [DecidableRel same] : List α → ℕ
  | [] => 0
  | [_] => 1
  | a :: b :: l => (if same a b then 0 else 1) + changes same (b :: l)

/-- One more entry is one more change, unless it is the same as the last one. -/
theorem changes_concat {α : Type*} (same : α → α → Prop) [DecidableRel same] (l : List α) (x : α) :
    changes same (l ++ [x]) = changes same l +
      if ∃ last ∈ l.getLast?, same last x then 0 else 1 := by
  induction l with
  | nil => simp [changes]
  | cons a l ih =>
      cases l with
      | nil => simp [changes, Nat.add_comm]
      | cons b l =>
          simp only [List.cons_append, changes] at ih ⊢
          rw [ih, List.getLast?_cons_cons, Nat.add_assoc]

/-! ### Contexts -/

private theorem get?_foldl_set_of_not_mem {l : List (String × String)} {bin : String}
    (h : bin ∉ l.map Prod.fst) (ctx : Dict String String) :
    (l.foldl (fun ctx entry => ctx.set ("bin." ++ entry.1) entry.2) ctx).get? ("bin." ++ bin) =
      ctx.get? ("bin." ++ bin) := by
  induction l generalizing ctx with
  | nil => rfl
  | cons entry l ih =>
      rw [List.map_cons, List.mem_cons, not_or] at h
      rw [List.foldl_cons, ih h.2]
      exact Dict.get?_set_of_ne fun heq => h.1 ((String.append_right_inj _).mp heq)

private theorem get?_foldl_set {l : List (String × String)} (hl : (l.map Prod.fst).Nodup)
    {entry : String × String} (h : entry ∈ l) (ctx : Dict String String) :
    (l.foldl (fun ctx entry => ctx.set ("bin." ++ entry.1) entry.2) ctx).get?
      ("bin." ++ entry.1) = some entry.2 := by
  induction l generalizing ctx with
  | nil => cases h
  | cons head l ih =>
      rw [List.map_cons, List.nodup_cons] at hl
      rw [List.foldl_cons]
      rcases List.mem_cons.mp h with rfl | h
      · rw [get?_foldl_set_of_not_mem hl.1]
        exact Dict.get?_set_self
      · exact ih hl.2 h _

/-- The context has what a resolver has contributed last. -/
theorem get?_updateContext {ctx binaries : Dict String String} {bin : String}
    (h : bin ∈ binaries.keys) :
    (updateContext ctx binaries).get? ("bin." ++ bin) = binaries.get? bin := by
  obtain ⟨path, hpath⟩ := Dict.mem_keys.mp h
  rw [hpath]
  exact get?_foldl_set binaries.nodup (Dict.get?_eq_some.mp hpath) ctx

/-- The other binaries of the context stay as they are. -/
theorem get?_updateContext_of_not_mem {ctx binaries : Dict String String} {bin : String}
    (h : bin ∉ binaries.keys) :
    (updateContext ctx binaries).get? ("bin." ++ bin) = ctx.get? ("bin." ++ bin) :=
  get?_foldl_set_of_not_mem h ctx

/-! ### The ledger -/

/-- A successful run of a resolver. -/
structure ResolverRun (κ : Type) where
  /-- The call that ran it. -/
  caller : κ
  stamp : ℚ
  wall : ℚ
  result : Resolved

/-- What a call has taken a resolver's binaries from. -/
structure ResolverUse (κ : Type) where
  resolver : String
  run : ResolverRun κ
  /-- When it found them in the cache; nothing if it has run the resolver itself. -/
  cachedAt : Option ℚ

/-- What has really happened. -/
structure ResolversLedger (κ : Type) where
  /-- The successful runs of each resolver, oldest first. -/
  runs : String → List (ResolverRun κ) := fun _ => []
  uses : κ → List (ResolverUse κ) := fun _ => []

namespace Resolvers

variable {κ : Type} [DecidableEq κ]

/-- The resolver that a call has to consult next. -/
def next (S : Resolvers κ) (k : κ) : Option String := (S.call k).bind fun call => call.left.head?

/-- What the run that a call waits for has brought, if it is a success. -/
def outcome (c : ResolversSetup) (rname : String) (o : Occurrence) : Option Resolved :=
  (c.config rname).bind fun cfg => (c.run rname cfg o).toOption

/-- A step is entered into the ledger. -/
def enter (c : ResolversSetup) (l : ResolversLedger κ) (S : Resolvers κ) (e : ResolversEvent κ)
    (T : Resolvers κ) : ResolversLedger κ :=
  match e with
  | .ask k _ => { l with uses := Function.update l.uses k [] }
  | .consult k now =>
    match S.next k with
    | none => l
    | some rname =>
      if (T.call k).any (·.running) then l
      else { l with
        uses := Function.update l.uses k (l.uses k ++ ((l.runs rname).getLast?.map fun run =>
          { resolver := rname, run, cachedAt := some now }).toList) }
  | .ran k o now wall =>
    match S.next k with
    | none => l
    | some rname =>
      match outcome c rname o with
      | none => l
      | some result =>
        let run := { caller := k, stamp := now, wall, result }
        { runs := Function.update l.runs rname (l.runs rname ++ [run])
          uses := Function.update l.uses k
            (l.uses k ++ [{ resolver := rname, run, cachedAt := none }]) }
  | _ => l

/-- The steps of the resolvers beside which the ledger is kept. -/
abbrev Logged (c : ResolversSetup) :
    Transition.Rel (Resolvers κ × ResolversLedger κ) (ResolversEvent κ) :=
  (Steps c).monitored (enter c)

/-! ### Inversion -/

/-- A call looks at its next resolver. -/
structure Consults (c : ResolversSetup) (S : Resolvers κ) (k : κ) (call : ContextCall)
    (rname : String) (cfg : ResolverConfig) : Prop where
  found : S.call k = some call
  left : ∃ rest, call.left = rname :: rest
  config : c.config rname = some cfg

/-- What a step of the resolvers can do. -/
inductive Effect (c : ResolversSetup) (S : Resolvers κ) : ResolversEvent κ → Resolvers κ → Prop
  | asked {k : κ} {bins : List String} : S.call k = none →
      Effect c S (.ask k bins) (S.setCall k (some { bins, left := c.names bins }))
  | hit {k : κ} {now : ℚ} {call : ContextCall} {rname : String} {cfg : ResolverConfig}
      {cached : CachedResolution} : Consults c S k call rname cfg → S.cache rname = some cached →
      Usable cfg now cached → Effect c S (.consult k now) (S.resolved k call cached.binaries)
  | started {k : κ} {now : ℚ} {call : ContextCall} {rname : String} {cfg : ResolverConfig} :
      Consults c S k call rname cfg → S.lock rname = false →
      (∀ cached ∈ S.cache rname, ¬ Usable cfg now cached) →
      Effect c S (.consult k now) (S.startRun k call rname)
  | succeeded {k : κ} {o : Occurrence} {now wall : ℚ} {call : ContextCall} {rname : String}
      {cfg : ResolverConfig} {r : Resolved} : Consults c S k call rname cfg → call.running = true →
      c.run rname cfg o = .ok r →
      Effect c S (.ran k o now wall) ((S.store rname r now wall).resolved k call r.binaries)
  | failed {k : κ} {o : Occurrence} {now wall : ℚ} {call : ContextCall} {rname : String}
      {cfg : ResolverConfig} {e : ResolveError} : Consults c S k call rname cfg →
      c.run rname cfg o = .error e → Effect c S (.ran k o now wall) (S.leave k call)
  | returned {k : κ} {call : ContextCall} : S.call k = some call → call.left = [] →
      Effect c S (.returned k) (S.setCall k none)
  | cancelled {k : κ} {call : ContextCall} : S.call k = some call →
      Effect c S (.cancelled k) (S.leave k call)

/-- Every step of the resolvers has one of the effects. -/
theorem step_effect {c : ResolversSetup} {S T : Resolvers κ} {e : ResolversEvent κ}
    (h : step c S e = some T) : Effect c S e T := by
  cases e with
  | ask k bins =>
      simp only [step] at h
      split at h
      · cases h
      · rename_i hnone
        split at h
        · obtain rfl := Option.some.inj h
          exact .asked hnone
        · cases h
  | consult k now =>
      simp only [step] at h
      split at h
      · cases h
      · rename_i call hcall
        split at h
        · cases h
        · rename_i rname rest hleft
          split at h
          · rename_i hfree
            obtain ⟨cfg, hcfg, rfl⟩ := Option.map_eq_some_iff.mp h
            have hconsults : Consults c S k call rname cfg := ⟨hcall, ⟨rest, hleft⟩, hcfg⟩
            unfold consult
            split
            · rename_i cached hcache
              split
              · rename_i husable
                exact .hit hconsults hcache husable
              · rename_i hstale
                refine .started hconsults hfree.2 fun cached' hcached' => ?_
                obtain rfl := Option.some.inj (hcache.symm.trans hcached')
                exact hstale
            · rename_i hcache
              refine .started hconsults hfree.2 fun cached hcached => ?_
              rw [hcache] at hcached
              cases hcached
          · cases h
  | ran k o now wall =>
      simp only [step] at h
      split at h
      · cases h
      · rename_i call hcall
        split at h
        · cases h
        · rename_i rname rest hleft
          split at h
          · rename_i hrunning
            obtain ⟨cfg, hcfg, rfl⟩ := Option.map_eq_some_iff.mp h
            have hconsults : Consults c S k call rname cfg := ⟨hcall, ⟨rest, hleft⟩, hcfg⟩
            split
            · exact .succeeded hconsults hrunning ‹_›
            · exact .failed hconsults ‹_›
          · cases h
  | returned k =>
      simp only [step] at h
      split at h
      · rename_i hcall
        obtain rfl := Option.some.inj h
        exact .returned hcall rfl
      · cases h
  | cancelled k =>
      simp only [step] at h
      obtain ⟨call, hcall, rfl⟩ := Option.map_eq_some_iff.mp h
      exact .cancelled hcall

/-! ### Locks -/

/-- The call runs the resolver. -/
def Runs (S : Resolvers κ) (k : κ) (rname : String) : Prop :=
  ∃ call, S.call k = some call ∧ call.running = true ∧ call.left.head? = some rname

/-- Every run is under the lock, and no two calls run one resolver. -/
structure Locked (S : Resolvers κ) : Prop where
  held : ∀ k rname, S.Runs k rname → S.lock rname = true
  exclusive : ∀ k k' rname, S.Runs k rname → S.Runs k' rname → k = k'

variable {c : ResolversSetup} {S T : Resolvers κ} {e : ResolversEvent κ}

omit [DecidableEq κ] in
/-- No lock is held at the start. -/
theorem locked_init : Locked ({} : Resolvers κ) where
  held := fun _ _ ⟨_, h, _⟩ => by cases h
  exclusive := fun _ _ _ ⟨_, h, _⟩ => by cases h

omit [DecidableEq κ] in
private theorem Locked.of (h : Locked S) (hruns : ∀ k rname, T.Runs k rname →
    S.Runs k rname ∧ T.lock rname = S.lock rname) : Locked T where
  held k rname hT := (hruns k rname hT).2.trans (h.held k rname (hruns k rname hT).1)
  exclusive k k' rname hT hT' := h.exclusive k k' rname (hruns k rname hT).1 (hruns k' rname hT').1

/-- A call that does not run anything any more. -/
theorem runs_of_setCall {k k' : κ} {c : Option ContextCall} {rname : String}
    (hcall : ∀ call' ∈ c, call'.running = false) (h : (S.setCall k c).Runs k' rname) :
    k' ≠ k ∧ S.Runs k' rname := by
  obtain ⟨call', hcall', hrunning, hhead⟩ := h
  change Function.update S.call k c k' = some call' at hcall'
  by_cases hk : k' = k
  · rw [hk, Function.update_self] at hcall'
    rw [hcall call' hcall'] at hrunning
    cases hrunning
  · rw [Function.update_of_ne hk] at hcall'
    exact ⟨hk, call', hcall', hrunning, hhead⟩

private theorem Locked.setCall (h : Locked S) {k : κ} {call : Option ContextCall}
    (hcall : ∀ call' ∈ call, call'.running = false) : Locked (S.setCall k call) :=
  h.of fun _ _ hruns => ⟨(runs_of_setCall hcall hruns).2, rfl⟩

omit [DecidableEq κ] in
/-- The lock of a resolver is released by the call that runs it. -/
theorem Locked.release (h : Locked S) {k : κ} {rname : String} (hk : S.Runs k rname)
    (hruns : ∀ k' r, T.Runs k' r → k' ≠ k ∧ S.Runs k' r)
    (hlock : T.lock = Function.update S.lock rname false) : Locked T := by
  refine h.of fun k' r hT => ⟨(hruns k' r hT).2, ?_⟩
  obtain ⟨hne, hS⟩ := hruns k' r hT
  rw [hlock, Function.update_of_ne]
  rintro rfl
  exact hne (h.exclusive k' k r hS hk)

omit [DecidableEq κ] in
/-- A call that consults a resolver in a run runs it. -/
theorem Consults.runs {k : κ} {call : ContextCall} {rname : String} {cfg : ResolverConfig}
    (h : Consults c S k call rname cfg) (hrunning : call.running = true) : S.Runs k rname := by
  obtain ⟨rest, hleft⟩ := h.left
  exact ⟨call, h.found, hrunning, by rw [hleft]; rfl⟩

private theorem Locked.leave (h : Locked S) {k : κ} {call : ContextCall}
    (hcall : S.call k = some call) : Locked (S.leave k call) := by
  have hruns : ∀ k' r, (S.leave k call).Runs k' r → k' ≠ k ∧ S.Runs k' r := fun k' r hT =>
    runs_of_setCall (c := none) nofun hT
  unfold Resolvers.leave
  split
  · rename_i rname rest hrunning hleft
    exact h.release ⟨call, hcall, hrunning, by rw [hleft]; rfl⟩ hruns rfl
  · exact h.of fun k' r hT => ⟨(hruns k' r hT).2, rfl⟩

/-- Every effect keeps the locks with those who hold them. -/
theorem Locked.effect (h : Locked S) (he : Effect c S e T) : Locked T := by
  cases he with
  | asked hnone => exact h.setCall fun call hcall => by cases hcall; rfl
  | hit hconsults hcache husable => exact h.setCall fun call hcall => by cases hcall; rfl
  | @started k now call rname cfg hconsults hfree hstale =>
      obtain ⟨rest, hleft⟩ := hconsults.left
      have hruns : ∀ k' r, (S.startRun k call rname).Runs k' r → k' = k ∧ r = rname ∨
          k' ≠ k ∧ r ≠ rname ∧ S.Runs k' r := by
        rintro k' r ⟨call', hcall', hrunning, hhead⟩
        change Function.update S.call k _ k' = some call' at hcall'
        by_cases hk : k' = k
        · rw [hk, Function.update_self] at hcall'
          obtain rfl := Option.some.inj hcall'
          rw [hleft] at hhead
          exact .inl ⟨hk, (Option.some.inj hhead).symm⟩
        · rw [Function.update_of_ne hk] at hcall'
          have hS : S.Runs k' r := ⟨call', hcall', hrunning, hhead⟩
          refine .inr ⟨hk, ?_, hS⟩
          rintro rfl
          rw [h.held k' r hS] at hfree
          cases hfree
      refine ⟨fun k' r hT => ?_, fun k₁ k₂ r h₁ h₂ => ?_⟩
      · change Function.update S.lock rname true r = true
        rcases hruns k' r hT with ⟨-, rfl⟩ | ⟨-, hr, hS⟩
        · exact Function.update_self _ _ _
        · rw [Function.update_of_ne hr]
          exact h.held k' r hS
      · rcases hruns k₁ r h₁ with ⟨hk₁, hr₁⟩ | ⟨-, hr₁, hS₁⟩ <;>
          rcases hruns k₂ r h₂ with ⟨hk₂, hr₂⟩ | ⟨-, hr₂, hS₂⟩
        · exact hk₁.trans hk₂.symm
        · exact absurd hr₁ hr₂
        · exact absurd hr₂ hr₁
        · exact h.exclusive k₁ k₂ r hS₁ hS₂
  | @succeeded k o now wall call rname cfg r hconsults hrunning hrun =>
      refine h.release (hconsults.runs hrunning) (fun k' r' hT => ?_) rfl
      exact runs_of_setCall (S := S) (fun call hcall => by cases hcall; rfl) hT
  | failed hconsults hrun => exact h.leave hconsults.found
  | returned hcall hleft => exact h.setCall nofun
  | cancelled hcall => exact h.leave hcall

end Resolvers

end Jetty.Orchestrator
