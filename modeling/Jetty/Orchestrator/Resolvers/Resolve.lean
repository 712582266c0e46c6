import Jetty.Core.Transition
import Jetty.Orchestrator.Config.Accepted
import Jetty.Orchestrator.Render.Render
import Jetty.Orchestrator.Resolvers.Output

/-!
# The resolvers of an instance

`context_for` by the code between two `await`s: the calls of any number of services' renders, the
lock of each resolver, its cached result, its generation and what `status` shows of it. Whoever
waits for a lock may get it next. What the runs write to the logs is left out.
-/

namespace Jetty.Orchestrator

open Python

/-- What the constructor of `Resolvers` is given. -/
structure ResolversSetup where
  configs : List (String × ResolverConfig)
  argvs : String → List String := fun _ => []
  /-- No binary is provided by two resolvers. -/
  provider : ∀ entry ∈ configs, ∀ entry' ∈ configs, ∀ bin,
    bin ∈ entry.2.provides → bin ∈ entry'.2.provides → entry.1 = entry'.1
  /-- Python's `repr` of a text. -/
  repr : String → String := id
  /-- How a number of seconds is printed. -/
  seconds : Duration → String := fun _ => ""

namespace ResolversSetup

/-- What a configuration that has been accepted hands to the constructor. -/
def ofAccepted (cfg : OrchestratorConfig) (h : cfg.BinsAccepted) : ResolversSetup where
  configs := cfg.resolvers
  provider := h.provider

/-- `self._configs[rname]`. -/
def config (c : ResolversSetup) (rname : String) : Option ResolverConfig := c.configs.lookup rname

/-- `sorted(self.resolver_names(bin_names))`. -/
def names (c : ResolversSetup) (bins : List String) : List String :=
  (resolverNames c.configs bins).mergeSort

/-- `_run`. -/
def run (c : ResolversSetup) (rname : String) (cfg : ResolverConfig) (o : Occurrence) :
    Except ResolveError Resolved :=
  runExec c.repr c.seconds rname cfg (c.argvs rname) o

end ResolversSetup

/-- An entry of `_cache`. -/
structure CachedResolution where
  stamp : ℚ
  binaries : Dict String String
  fingerprints : Dict String String

/-- An entry of `state`. -/
structure ResolutionState where
  binaries : Dict String String
  resolvedAt : ℚ
  copiedFrom : Option (Dict String String)

/-- A call of `context_for`. -/
structure ContextCall where
  bins : List String
  /-- The resolvers it has still to consult. -/
  left : List String
  ctx : Dict String String := .empty
  /-- It runs the next one. -/
  running : Bool := false

/-- A `Resolvers` object, with the calls of `context_for` that are under way. -/
structure Resolvers (κ : Type) where
  lock : String → Bool := fun _ => false
  cache : String → Option CachedResolution := fun _ => none
  state : String → Option ResolutionState := fun _ => none
  /-- An absent key counts as 0. -/
  generation : String → ℕ := fun _ => 0
  call : κ → Option ContextCall := fun _ => none

inductive ResolversEvent (κ : Type)
  /-- `context_for` is called. -/
  | ask (k : κ) (bins : List String)
  /-- A call gets the lock of its next resolver: a cache hit, or the start of a run. -/
  | consult (k : κ) (now : ℚ)
  /-- The run is over; `wall`: what `time.time()` says. -/
  | ran (k : κ) (o : Occurrence) (now wall : ℚ)
  | returned (k : κ)
  /-- The call is cancelled, and with it the run that it waits for. -/
  | cancelled (k : κ)

/-- `ctx.update({f"bin.{k}": v for k, v in binaries.items()})`. -/
def updateContext (ctx binaries : Dict String String) : Dict String String :=
  binaries.entries.foldl (fun ctx entry => ctx.set ("bin." ++ entry.1) entry.2) ctx

namespace Resolvers

variable {κ : Type} [DecidableEq κ]

def setCall (S : Resolvers κ) (k : κ) (call : Option ContextCall) : Resolvers κ :=
  { S with call := Function.update S.call k call }

/-- `_resolve` has returned to the call. -/
def resolved (S : Resolvers κ) (k : κ) (call : ContextCall) (binaries : Dict String String) :
    Resolvers κ :=
  S.setCall k (some { call with
    left := call.left.tail
    ctx := updateContext call.ctx binaries
    running := false })

/-- The cached result is good for another spawn. -/
def Usable (cfg : ResolverConfig) (now : ℚ) (cached : CachedResolution) : Prop :=
  cfg.refresh = .perInstance ∨ ((now - cached.stamp : ℚ) : Duration) < cfg.cacheSeconds

instance (cfg : ResolverConfig) (now : ℚ) (cached : CachedResolution) :
    Decidable (Usable cfg now cached) :=
  inferInstanceAs (Decidable (_ ∨ _))

/-- The call runs the resolver, under its lock. -/
def startRun (S : Resolvers κ) (k : κ) (call : ContextCall) (rname : String) : Resolvers κ :=
  { S.setCall k (some { call with running := true }) with
    lock := Function.update S.lock rname true }

/-- `_resolve` up to its first `await` inside the lock. -/
def consult (S : Resolvers κ) (k : κ) (call : ContextCall) (rname : String) (cfg : ResolverConfig)
    (now : ℚ) : Resolvers κ :=
  match S.cache rname with
  | some cached =>
    if Usable cfg now cached then S.resolved k call cached.binaries
    else S.startRun k call rname
  | none => S.startRun k call rname

/-- The pair is not the cached one. -/
def moved (S : Resolvers κ) (rname : String) (r : Resolved) : Prop :=
  ¬ ∃ cached ∈ S.cache rname,
    cached.binaries.Same r.binaries ∧ cached.fingerprints.Same r.fingerprints

instance (S : Resolvers κ) (rname : String) (r : Resolved) : Decidable (S.moved rname r) :=
  inferInstanceAs (Decidable (¬ _))

/-- `_resolve` from the end of a successful run on. -/
def store (S : Resolvers κ) (rname : String) (r : Resolved) (now wall : ℚ) : Resolvers κ :=
  { S with
    lock := Function.update S.lock rname false
    generation := Function.update S.generation rname
      (if S.moved rname r then S.generation rname + 1 else S.generation rname)
    cache := Function.update S.cache rname (some ⟨now, r.binaries, r.fingerprints⟩)
    state := Function.update S.state rname (some ⟨r.binaries, wall, r.sources⟩) }

/-- The call raises; the lock it holds is released. -/
def leave (S : Resolvers κ) (k : κ) (call : ContextCall) : Resolvers κ :=
  { S.setCall k none with
    lock := match call.running, call.left with
      | true, rname :: _ => Function.update S.lock rname false
      | _, _ => S.lock }

/-- One step of the resolvers; nothing where it is not possible. -/
def step (c : ResolversSetup) (S : Resolvers κ) : ResolversEvent κ → Option (Resolvers κ)
  | .ask k bins =>
    match S.call k with
    | some _ => none
    -- `KeyError`: nobody provides one of the binaries
    | none =>
      if ∀ bin ∈ bins, (byBin c.configs bin).isSome then
        some (S.setCall k (some { bins, left := c.names bins }))
      else none
  | .consult k now =>
    match S.call k with
    | none => none
    | some call =>
      match call.left with
      | [] => none
      | rname :: _ =>
        if call.running = false ∧ S.lock rname = false then
          (c.config rname).map fun cfg => S.consult k call rname cfg now
        else none
  | .ran k o now wall =>
    match S.call k with
    | none => none
    | some call =>
      match call.left with
      | [] => none
      | rname :: _ =>
        if call.running then
          (c.config rname).map fun cfg =>
            match c.run rname cfg o with
            | .ok r => (S.store rname r now wall).resolved k call r.binaries
            | .error _ => S.leave k call
        else none
  | .returned k =>
    match S.call k with
    | some { left := [], .. } => some (S.setCall k none)
    | _ => none
  | .cancelled k => (S.call k).map fun call => S.leave k call

/-- The runs of the resolvers: every interleaving of the calls. -/
abbrev Steps (c : ResolversSetup) : Transition.Rel (Resolvers κ) (ResolversEvent κ) :=
  Transition.ofPartial (step c)

end Resolvers

end Jetty.Orchestrator
