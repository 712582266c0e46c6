import Mathlib.Data.List.Dedup
import Jetty.Orchestrator.Resolvers.Ledger

/-!
# One invocation for each resolver and spawn

The lock makes the runs of one resolver follow each other, so the cache is always the last
successful one, the generation has counted them all, and a call has the binaries of each of its
resolvers from one of them.
-/

namespace Jetty.Orchestrator

open Python Transition

namespace Resolvers

variable {κ : Type} [DecidableEq κ] {c : ResolversSetup} {S T : Resolvers κ} {e : ResolversEvent κ}

/-! ### The cache -/

/-- The same pair of binaries and fingerprints. -/
def SameResult (run run' : ResolverRun κ) : Prop :=
  run.result.binaries.Same run'.result.binaries ∧
    run.result.fingerprints.Same run'.result.fingerprints

instance : DecidableRel (SameResult (κ := κ)) := fun _ _ => inferInstanceAs (Decidable (_ ∧ _))

/-- What the resolvers hold is the last successful run. -/
structure Stored (c : ResolversSetup) (x : Resolvers κ × ResolversLedger κ) : Prop where
  cache : ∀ rname, x.1.cache rname = (x.2.runs rname).getLast?.map fun run =>
    ⟨run.stamp, run.result.binaries, run.result.fingerprints⟩
  state : ∀ rname, x.1.state rname = (x.2.runs rname).getLast?.map fun run =>
    ⟨run.result.binaries, run.wall, run.result.sources⟩
  generation : ∀ rname, x.1.generation rname = changes SameResult (x.2.runs rname)
  provides : ∀ rname cfg, c.config rname = some cfg → ∀ run ∈ x.2.runs rname,
    ∀ bin, bin ∈ run.result.binaries.keys ↔ bin ∈ cfg.provides

omit [DecidableEq κ] in
private theorem stored_init : Stored c (({}, {}) : Resolvers κ × ResolversLedger κ) where
  cache _ := rfl
  state _ := rfl
  generation _ := rfl
  provides _ _ _ _ h := by cases h

variable {x y : Resolvers κ × ResolversLedger κ}

omit [DecidableEq κ] in
private theorem Consults.next {k : κ} {call : ContextCall} {rname : String} {cfg : ResolverConfig}
    (h : Consults c S k call rname cfg) : S.next k = some rname := by
  obtain ⟨rest, hleft⟩ := h.left
  rw [Resolvers.next, h.found, Option.bind_some, hleft]
  rfl

omit [DecidableEq κ] in
private theorem Consults.outcome {k : κ} {call : ContextCall} {rname : String}
    {cfg : ResolverConfig} (h : Consults c S k call rname cfg) (o : Occurrence) :
    outcome c rname o = (c.run rname cfg o).toOption := by
  rw [Resolvers.outcome, h.config]
  rfl

/-- What becomes of the ledger when a call looks at the cache. -/
theorem enter_consult {k : κ} {call : ContextCall} {rname : String} {cfg : ResolverConfig}
    (h : Consults c S k call rname cfg) (l : ResolversLedger κ) (now : ℚ) (T : Resolvers κ) :
    enter c l S (.consult k now) T = if (T.call k).any (·.running) then l else { l with
      uses := Function.update l.uses k (l.uses k ++ ((l.runs rname).getLast?.map fun run =>
        { resolver := rname, run, cachedAt := some now }).toList) } := by
  simp only [enter, h.next]

/-- What becomes of the ledger when a run has succeeded. -/
theorem enter_succeeded {k : κ} {call : ContextCall} {rname : String} {cfg : ResolverConfig}
    (h : Consults c S k call rname cfg) {o : Occurrence} {r : Resolved}
    (hrun : c.run rname cfg o = .ok r) (l : ResolversLedger κ) (now wall : ℚ) (T : Resolvers κ) :
    enter c l S (.ran k o now wall) T =
      { runs := Function.update l.runs rname (l.runs rname ++ [⟨k, now, wall, r⟩])
        uses := Function.update l.uses k (l.uses k ++ [⟨rname, ⟨k, now, wall, r⟩, none⟩]) } := by
  have houtcome : outcome c rname o = some r := by
    rw [h.outcome, hrun]
    rfl
  simp only [enter, h.next, houtcome]

/-- A failed run is not entered. -/
theorem enter_failed {k : κ} {call : ContextCall} {rname : String} {cfg : ResolverConfig}
    (h : Consults c S k call rname cfg) {o : Occurrence} {err : ResolveError}
    (hrun : c.run rname cfg o = .error err) (l : ResolversLedger κ) (now wall : ℚ)
    (T : Resolvers κ) : enter c l S (.ran k o now wall) T = l := by
  have houtcome : outcome c rname o = none := by
    rw [h.outcome, hrun]
    rfl
  simp only [enter, h.next, houtcome]

/-- A step brings at most one successful run, which is stored. -/
theorem runs_step (hst : Logged c x e y) :
    (∃ k o now wall call rname cfg r, e = .ran k o now wall ∧ Consults c x.1 k call rname cfg ∧
      call.running = true ∧ c.run rname cfg o = .ok r ∧
      y.1 = (x.1.store rname r now wall).resolved k call r.binaries ∧
      y.2.runs = Function.update x.2.runs rname (x.2.runs rname ++ [⟨k, now, wall, r⟩]) ∧
      y.2.uses = Function.update x.2.uses k (x.2.uses k ++ [⟨rname, ⟨k, now, wall, r⟩, none⟩])) ∨
    (y.1.cache = x.1.cache ∧ y.1.state = x.1.state ∧ y.1.generation = x.1.generation ∧
      y.2.runs = x.2.runs) := by
  obtain ⟨S, l⟩ := x
  obtain ⟨T, m⟩ := y
  obtain ⟨hstep, rfl : m = enter c l S e T⟩ := hst
  have he : Effect c S e T := step_effect hstep
  clear hstep
  cases he with
  | @succeeded k o now wall call rname cfg r hconsults hrunning hrun =>
      rw [enter_succeeded hconsults hrun]
      exact .inl ⟨k, o, now, wall, call, rname, cfg, r, rfl, hconsults, hrunning, hrun, rfl, rfl,
        rfl⟩
  | failed hconsults hrun =>
      refine .inr ⟨rfl, rfl, rfl, ?_⟩
      rw [enter_failed hconsults hrun]
  | hit hconsults hcache husable =>
      refine .inr ⟨rfl, rfl, rfl, ?_⟩
      rw [enter_consult hconsults]
      split <;> rfl
  | started hconsults hfree hstale =>
      refine .inr ⟨rfl, rfl, rfl, ?_⟩
      rw [enter_consult hconsults]
      split <;> rfl
  | _ => exact .inr ⟨rfl, rfl, rfl, rfl⟩

omit [DecidableEq κ] in
/-- The generation moves where the result is not the last one. -/
theorem Stored.moved_iff (h : Stored c x) {r : String} (run : ResolverRun κ) :
    x.1.moved r run.result ↔ ¬ ∃ last ∈ (x.2.runs r).getLast?, SameResult last run := by
  rw [moved, h.cache r]
  refine not_congr ⟨fun ⟨cached, hcached, hsame⟩ => ?_, fun ⟨last, hlast, hsame⟩ => ?_⟩
  · obtain ⟨last, hlast, rfl⟩ := Option.map_eq_some_iff.mp hcached
    exact ⟨last, hlast, hsame⟩
  · exact ⟨_, Option.map_eq_some_iff.mpr ⟨last, hlast, rfl⟩, hsame⟩

private theorem Stored.step (h : Stored c x) (hst : Logged c x e y) : Stored c y := by
  rcases runs_step hst with
    ⟨k, o, now, wall, call, rname, cfg, r, -, hconsults, -, hrun, hy, hruns, -⟩ |
    ⟨hcache, hstate, hgeneration, hruns⟩
  · have hsame : ∀ r', r' ≠ rname → y.1.cache r' = x.1.cache r' ∧ y.1.state r' = x.1.state r' ∧
        y.1.generation r' = x.1.generation r' ∧ y.2.runs r' = x.2.runs r' := by
      intro r' hne
      rw [hy, hruns]
      exact ⟨Function.update_of_ne hne _ _, Function.update_of_ne hne _ _,
        Function.update_of_ne hne _ _, Function.update_of_ne hne _ _⟩
    have hself : y.2.runs rname = x.2.runs rname ++ [⟨k, now, wall, r⟩] := by
      rw [hruns, Function.update_self]
    refine ⟨fun r' => ?_, fun r' => ?_, fun r' => ?_, fun r' cfg' hcfg' => ?_⟩ <;>
      by_cases hname : r' = rname
    · rw [hname, hself, List.getLast?_concat, hy]
      exact Function.update_self _ _ _
    · obtain ⟨hcache, -, -, hruns'⟩ := hsame r' hname
      rw [hcache, hruns']
      exact h.cache r'
    · rw [hname, hself, List.getLast?_concat, hy]
      exact Function.update_self _ _ _
    · obtain ⟨-, hstate, -, hruns'⟩ := hsame r' hname
      rw [hstate, hruns']
      exact h.state r'
    · rw [hname, hself, changes_concat, ← h.generation rname, hy]
      refine (Function.update_self _ _ _).trans ?_
      have hmoved := h.moved_iff (r := rname) ⟨k, now, wall, r⟩
      by_cases hlast : ∃ last ∈ (x.2.runs rname).getLast?, SameResult last ⟨k, now, wall, r⟩
      · rw [if_pos hlast, if_neg (fun hm => hmoved.mp hm hlast), Nat.add_zero]
      · rw [if_neg hlast, if_pos (hmoved.mpr hlast)]
    · obtain ⟨-, -, hgeneration, hruns'⟩ := hsame r' hname
      rw [hgeneration, hruns']
      exact h.generation r'
    · rw [hname, hself]
      rw [hname, hconsults.config] at hcfg'
      obtain rfl := Option.some.inj hcfg'
      intro run hmem
      rcases List.mem_append.mp hmem with hold | hnew
      · exact h.provides rname cfg hconsults.config run hold
      · obtain rfl := List.mem_singleton.mp hnew
        exact runExec_keys hrun
    · rw [(hsame r' hname).2.2.2]
      exact h.provides r' cfg' hcfg'
  · exact ⟨by rw [hcache, hruns]; exact h.cache, by rw [hstate, hruns]; exact h.state,
      by rw [hgeneration, hruns]; exact h.generation, by rw [hruns]; exact h.provides⟩

/-- Who runs a resolver has done so before, or has not found a result to use. -/
theorem runs_effect (he : Effect c S e T) {k : κ} {rname : String} (h : T.Runs k rname) :
    S.Runs k rname ∨ ∃ cfg now, c.config rname = some cfg ∧
      ∀ cached ∈ S.cache rname, ¬ Usable cfg now cached := by
  cases he with
  | @started k' now call rname' cfg hconsults hfree hstale =>
      obtain ⟨call', hcall', hrunning, hhead⟩ := h
      change Function.update S.call k' _ k = some call' at hcall'
      by_cases hk : k = k'
      · rw [hk, Function.update_self] at hcall'
        obtain rfl := Option.some.inj hcall'
        obtain ⟨rest, hleft⟩ := hconsults.left
        rw [hleft] at hhead
        obtain rfl := Option.some.inj hhead
        exact .inr ⟨cfg, now, hconsults.config, hstale⟩
      · rw [Function.update_of_ne hk] at hcall'
        exact .inl ⟨call', hcall', hrunning, hhead⟩
  | asked hnone =>
      exact .inl (runs_of_setCall (fun call hcall => by cases hcall; rfl) h).2
  | hit hconsults hcache husable =>
      exact .inl (runs_of_setCall (fun call hcall => by cases hcall; rfl) h).2
  | @succeeded k' o now wall call rname' cfg r hconsults hrunning hrun =>
      exact .inl (runs_of_setCall (S := S) (fun call hcall => by cases hcall; rfl) h).2
  | failed hconsults hrun => exact .inl (runs_of_setCall (S := S) (c := none) nofun h).2
  | returned hcall hleft => exact .inl (runs_of_setCall (c := none) nofun h).2
  | cancelled hcall => exact .inl (runs_of_setCall (S := S) (c := none) nofun h).2

/-- A resolver that is run once for the instance succeeds at most once. -/
structure Once (c : ResolversSetup) (x : Resolvers κ × ResolversLedger κ) : Prop where
  single : ∀ rname cfg, c.config rname = some cfg → cfg.refresh = .perInstance →
    (x.2.runs rname).length ≤ 1
  first : ∀ k rname cfg, x.1.Runs k rname → c.config rname = some cfg →
    cfg.refresh = .perInstance → x.2.runs rname = []

omit [DecidableEq κ] in
private theorem once_init : Once c (({}, {}) : Resolvers κ × ResolversLedger κ) where
  single _ _ _ _ := Nat.zero_le _
  first _ _ _ _ _ _ := rfl

private theorem Once.step (h : Once c x) (hlocked : Locked x.1) (hstored : Stored c x)
    (hst : Logged c x e y) : Once c y := by
  rcases runs_step hst with
    ⟨k, o, now, wall, call, rname, cfg, r, -, hconsults, hrunning, hrun, hy, hruns, -⟩ |
    ⟨-, -, -, hruns⟩
  · have hk : x.1.Runs k rname := hconsults.runs hrunning
    constructor
    · intro r' cfg' hcfg' hrefresh
      rw [hruns]
      by_cases hname : r' = rname
      · rw [hname, Function.update_self, h.first k rname cfg' hk (hname ▸ hcfg') hrefresh]
        exact le_rfl
      · rw [Function.update_of_ne hname]
        exact h.single r' cfg' hcfg' hrefresh
    · intro k' r' cfg' hk' hcfg' hrefresh
      rw [hy] at hk'
      obtain ⟨hne, hS⟩ := runs_of_setCall (S := x.1.store rname r now wall)
        (fun call hcall => by cases hcall; rfl) hk'
      have hS : x.1.Runs k' r' := hS
      have hname : r' ≠ rname := by
        rintro rfl
        exact hne (hlocked.exclusive k' k r' hS hk)
      rw [hruns, Function.update_of_ne hname]
      exact h.first k' r' cfg' hS hcfg' hrefresh
  · refine ⟨by rw [hruns]; exact h.single, fun k' r' cfg' hk' hcfg' hrefresh => ?_⟩
    rw [hruns]
    rcases runs_effect (step_effect hst.1) hk' with hS | ⟨cfg, now, hcfg, hstale⟩
    · exact h.first k' r' cfg' hS hcfg' hrefresh
    · obtain rfl := Option.some.inj (hcfg.symm.trans hcfg')
      by_contra hne
      obtain ⟨front, last, hlast⟩ := (List.eq_nil_or_concat _).resolve_left hne
      have hcached : x.1.cache r' = some ⟨last.stamp, last.result.binaries,
          last.result.fingerprints⟩ := by
        rw [hstored.cache, hlast, List.concat_eq_append, List.getLast?_concat]
        rfl
      exact hstale _ hcached (.inl hrefresh)

/-! ### Calls -/

/-- A call may take a resolver's binaries from this run: it is the first one of the instance, or it
was young enough when the call looked at the cache, or the call's own. -/
def Good (c : ResolversSetup) (l : ResolversLedger κ) (k : κ) (use : ResolverUse κ) : Prop :=
  use.run ∈ l.runs use.resolver ∧ ∀ cfg, c.config use.resolver = some cfg →
    match cfg.refresh with
    | .perInstance => (l.runs use.resolver).head? = some use.run
    | .spawn => (use.cachedAt = none ∧ use.run.caller = k) ∨ ∃ now, use.cachedAt = some now ∧
        ((now - use.run.stamp : ℚ) : Duration) < cfg.cacheSeconds

/-- The context has the binaries of one resolver from one run. -/
def FromRun (c : ResolversSetup) (ctx : Dict String String) (use : ResolverUse κ) : Prop :=
  ∀ cfg, c.config use.resolver = some cfg → ∀ bin ∈ cfg.provides, ∃ path,
    use.run.result.binaries.get? bin = some path ∧ ctx.get? ("bin." ++ bin) = some path

/-- What a call has got so far. -/
structure Followed (c : ResolversSetup) (l : ResolversLedger κ) (k : κ) (call : ContextCall) :
    Prop where
  names : (l.uses k).map (·.resolver) ++ call.left = c.names call.bins
  good : ∀ use ∈ l.uses k, Good c l k use
  ctx : ∀ use ∈ l.uses k, FromRun c call.ctx use

private theorem mem_configs {rname : String} {cfg : ResolverConfig}
    (h : c.config rname = some cfg) : (rname, cfg) ∈ c.configs := by
  obtain ⟨front, back, hconfigs, -⟩ := List.lookup_eq_some_iff.mp h
  rw [hconfigs]
  exact List.mem_append_right _ List.mem_cons_self

private theorem names_nodup (c : ResolversSetup) (bins : List String) : (c.names bins).Nodup :=
  (List.mergeSort_perm _ _).nodup_iff.mpr (List.nodup_dedup _)

variable {l m : ResolversLedger κ} {k : κ} {call call' : ContextCall}

omit [DecidableEq κ] in
/-- A use stays good while runs are added. -/
theorem Good.append {use : ResolverUse κ} (h : Good c l k use)
    (hruns : ∃ more, m.runs use.resolver = l.runs use.resolver ++ more) : Good c m k use := by
  obtain ⟨more, hruns⟩ := hruns
  refine ⟨hruns ▸ List.mem_append_left _ h.1, fun cfg hcfg => ?_⟩
  have hgood := h.2 cfg hcfg
  cases hrefresh : cfg.refresh with
  | spawn =>
      rw [hrefresh] at hgood
      exact hgood
  | perInstance =>
      rw [hrefresh] at hgood
      change (m.runs use.resolver).head? = some use.run
      rw [hruns, List.head?_append, hgood]
      rfl

omit [DecidableEq κ] in
/-- A call goes on with the binaries of its next resolver. -/
theorem Followed.use (h : Followed c l k call) {rname : String} {rest : List String}
    {cfg : ResolverConfig} {run : ResolverRun κ} {cachedAt : Option ℚ}
    (hleft : call.left = rname :: rest) (hcfg : c.config rname = some cfg)
    (hprovides : ∀ bin, bin ∈ run.result.binaries.keys ↔ bin ∈ cfg.provides)
    (huses : m.uses k = l.uses k ++ [⟨rname, run, cachedAt⟩])
    (hruns : ∀ r, ∃ more, m.runs r = l.runs r ++ more) (hgood : Good c m k ⟨rname, run, cachedAt⟩)
    {call' : ContextCall} (hbins : call'.bins = call.bins) (hleft' : call'.left = rest)
    (hctx : call'.ctx = updateContext call.ctx run.result.binaries) : Followed c m k call' := by
  have hnames : (l.uses k).map (·.resolver) ++ rname :: rest = c.names call.bins := by
    rw [← h.names, hleft]
  refine ⟨?_, fun use huse => ?_, fun use huse => ?_⟩
  · rw [huses, hleft', hbins, ← hnames]
    simp
  · rw [huses] at huse
    rcases List.mem_append.mp huse with hold | hnew
    · exact (h.good use hold).append (hruns _)
    · obtain rfl := List.mem_singleton.mp hnew
      exact hgood
  · rw [huses] at huse
    intro cfg' hcfg' bin hbin
    rw [hctx]
    rcases List.mem_append.mp huse with hold | hnew
    · obtain ⟨path, hrun, hpath⟩ := h.ctx use hold cfg' hcfg' bin hbin
      refine ⟨path, hrun, ?_⟩
      rw [get?_updateContext_of_not_mem, hpath]
      intro hmem
      -- the binary is this resolver's, and the call has consulted each resolver once
      have hsame : use.resolver = rname := c.provider _ (mem_configs hcfg') _ (mem_configs hcfg)
        bin hbin ((hprovides bin).mp hmem)
      have hnodup := names_nodup c call.bins
      rw [← hnames] at hnodup
      have hresolver : rname ∈ (l.uses k).map (·.resolver) := hsame ▸ List.mem_map_of_mem hold
      exact (List.nodup_append.mp hnodup).2.2 rname hresolver rname List.mem_cons_self rfl
    · obtain rfl := List.mem_singleton.mp hnew
      obtain rfl := Option.some.inj (hcfg.symm.trans hcfg')
      obtain ⟨path, hpath⟩ := Dict.mem_keys.mp ((hprovides bin).mpr hbin)
      refine ⟨path, hpath, ?_⟩
      rw [get?_updateContext ((hprovides bin).mpr hbin), hpath]

/-- What every call has got so far. -/
def AllFollowed (c : ResolversSetup) (x : Resolvers κ × ResolversLedger κ) : Prop :=
  ∀ k call, x.1.call k = some call → Followed c x.2 k call

/-- The call that takes the step. -/
def caller : ResolversEvent κ → κ
  | .ask k _ | .consult k _ | .ran k _ _ _ | .returned k | .cancelled k => k

/-- The other calls take no notice of a step. -/
theorem other_calls (hst : Logged c x e y) {k : κ} (hk : k ≠ caller e) :
    y.1.call k = x.1.call k ∧ y.2.uses k = x.2.uses k := by
  obtain ⟨S, l⟩ := x
  obtain ⟨T, m⟩ := y
  obtain ⟨hstep, rfl : m = enter c l S e T⟩ := hst
  have he : Effect c S e T := step_effect hstep
  clear hstep
  cases he with
  | asked hnone => exact ⟨Function.update_of_ne hk _ _, Function.update_of_ne hk _ _⟩
  | hit hconsults hcache husable =>
      refine ⟨Function.update_of_ne hk _ _, ?_⟩
      rw [enter_consult hconsults]
      split
      · rfl
      · exact Function.update_of_ne hk _ _
  | started hconsults hfree hstale =>
      refine ⟨Function.update_of_ne hk _ _, ?_⟩
      rw [enter_consult hconsults]
      split
      · rfl
      · exact Function.update_of_ne hk _ _
  | succeeded hconsults hrunning hrun =>
      refine ⟨Function.update_of_ne hk _ _, ?_⟩
      rw [enter_succeeded hconsults hrun]
      exact Function.update_of_ne hk _ _
  | failed hconsults hrun =>
      refine ⟨Function.update_of_ne hk _ _, ?_⟩
      rw [enter_failed hconsults hrun]
  | returned hcall hleft => exact ⟨Function.update_of_ne hk _ _, rfl⟩
  | cancelled hcall => exact ⟨Function.update_of_ne hk _ _, rfl⟩

/-- Runs are only added. -/
theorem runs_append (hst : Logged c x e y) (rname : String) :
    ∃ more, y.2.runs rname = x.2.runs rname ++ more := by
  rcases runs_step hst with ⟨k, o, now, wall, call, rname', cfg, r, -, -, -, -, -, hruns, -⟩ |
    ⟨-, -, -, hruns⟩
  · rw [hruns]
    by_cases hname : rname = rname'
    · rw [hname, Function.update_self]
      exact ⟨_, rfl⟩
    · rw [Function.update_of_ne hname]
      exact ⟨[], (List.append_nil _).symm⟩
  · exact ⟨[], by rw [hruns, List.append_nil]⟩

omit [DecidableEq κ] in
private theorem Followed.mono (h : Followed c l k call) (huses : m.uses k = l.uses k)
    (hruns : ∀ r, ∃ more, m.runs r = l.runs r ++ more) : Followed c m k call where
  names := by rw [huses]; exact h.names
  good use huse := by
    rw [huses] at huse
    exact (h.good use huse).append (hruns _)
  ctx use huse := by
    rw [huses] at huse
    exact h.ctx use huse

private theorem head?_of_single {α : Type*} {l : List α} {a : α} (hl : l.length ≤ 1) (ha : a ∈ l) :
    l.head? = some a := by
  match l, hl, ha with
  | [b], _, ha => rw [List.mem_singleton.mp ha]; rfl

/-- How a call may come by a run: it is the call's own, or its result was usable when the call
looked at the cache. -/
def Found (cfg : ResolverConfig) (k : κ) (run : ResolverRun κ) : Option ℚ → Prop
  | none => run.caller = k
  | some now => Usable cfg now ⟨run.stamp, run.result.binaries, run.result.fingerprints⟩

omit [DecidableEq κ] in
private theorem good_of_found (honce : Once c y) {rname : String} {cfg : ResolverConfig}
    (hcfg : c.config rname = some cfg) {run : ResolverRun κ} (hmem : run ∈ y.2.runs rname)
    {cachedAt : Option ℚ} (hfound : Found cfg k run cachedAt) :
    Good c y.2 k ⟨rname, run, cachedAt⟩ := by
  refine ⟨hmem, fun cfg' hcfg' => ?_⟩
  obtain rfl := Option.some.inj (hcfg.symm.trans hcfg')
  cases hrefresh : cfg.refresh with
  | perInstance => exact head?_of_single (honce.single rname cfg hcfg hrefresh) hmem
  | spawn =>
      cases cachedAt with
      | none => exact .inl ⟨rfl, hfound⟩
      | some now =>
          refine .inr ⟨now, rfl, ?_⟩
          rcases hfound with hinstance | hyoung
          · rw [hrefresh] at hinstance
            cases hinstance
          · exact hyoung

private theorem resolved_call (S : Resolvers κ) (k : κ) (call : ContextCall)
    (binaries : Dict String String) : (S.resolved k call binaries).call k = some { call with
      left := call.left.tail
      ctx := updateContext call.ctx binaries
      running := false } :=
  Function.update_self _ _ _

private theorem startRun_call (S : Resolvers κ) (k : κ) (call : ContextCall) (rname : String) :
    (S.startRun k call rname).call k = some { call with running := true } :=
  Function.update_self _ _ _

/-- What a step means to one call. -/
inductive Sight (c : ResolversSetup) (x y : Resolvers κ × ResolversLedger κ) (k : κ) : Prop
  | same : y.1.call k = x.1.call k → y.2.uses k = x.2.uses k → Sight c x y k
  | gone : y.1.call k = none → Sight c x y k
  | asked {bins : List String} : y.1.call k = some { bins, left := c.names bins } →
      y.2.uses k = [] → Sight c x y k
  | started {call : ContextCall} : x.1.call k = some call →
      y.1.call k = some { call with running := true } → y.2.uses k = x.2.uses k → Sight c x y k
  | got {call : ContextCall} {rname : String} {cfg : ResolverConfig} {run : ResolverRun κ}
      {cachedAt : Option ℚ} : Consults c x.1 k call rname cfg →
      y.1.call k = some { call with
        left := call.left.tail
        ctx := updateContext call.ctx run.result.binaries
        running := false } →
      y.2.uses k = x.2.uses k ++ [⟨rname, run, cachedAt⟩] → run ∈ y.2.runs rname →
      Found cfg k run cachedAt → Sight c x y k

private theorem sight (hstored : Stored c x) (hst : Logged c x e y) (k : κ) : Sight c x y k := by
  by_cases hk : k = caller e
  swap
  · obtain ⟨hcall, huses⟩ := other_calls hst hk
    exact .same hcall huses
  subst hk
  obtain ⟨S, l⟩ := x
  obtain ⟨T, m⟩ := y
  obtain ⟨hstep, rfl : m = enter c l S e T⟩ := hst
  have he : Effect c S e T := step_effect hstep
  clear hstep
  cases he with
  | asked hnone => exact .asked (Function.update_self _ _ _) (Function.update_self _ _ _)
  | @hit k now call rname cfg cached hconsults hcache husable =>
      have hcached := hstored.cache rname
      rw [hcache] at hcached
      obtain ⟨run, hlast, rfl⟩ := Option.map_eq_some_iff.mp hcached.symm
      have hrunning : ((S.resolved k call run.result.binaries).call k).any (·.running) = false := by
        rw [resolved_call]
        rfl
      have henter := enter_consult hconsults l now (S.resolved k call run.result.binaries)
      rw [hrunning, if_neg Bool.false_ne_true, hlast] at henter
      have hfound : Found cfg k run (some now) := husable
      refine .got hconsults (Function.update_self _ _ _) ?_ ?_ hfound
      · rw [henter]
        exact Function.update_self _ _ _
      · rw [henter]
        exact List.mem_of_getLast? hlast
  | @started k now call rname cfg hconsults hfree hstale =>
      refine .started hconsults.found (Function.update_self _ _ _) ?_
      have hrunning : ((S.startRun k call rname).call k).any (·.running) = true := by
        rw [startRun_call]
        rfl
      have henter := enter_consult hconsults l now (S.startRun k call rname)
      rw [hrunning, if_pos rfl] at henter
      rw [henter]
  | @succeeded k o now wall call rname cfg r hconsults hrunning hrun =>
      have henter := enter_succeeded hconsults hrun l now wall
        ((S.store rname r now wall).resolved k call r.binaries)
      let run : ResolverRun κ := ⟨k, now, wall, r⟩
      have hfound : Found cfg k run none := rfl
      have hcall : ((S.store rname r now wall).resolved k call r.binaries).call k = some { call with
          left := call.left.tail
          ctx := updateContext call.ctx run.result.binaries
          running := false } := Function.update_self _ _ _
      refine .got hconsults hcall ?_ ?_ hfound
      · rw [henter]
        exact Function.update_self _ _ _
      · rw [henter]
        change _ ∈ Function.update l.runs rname _ rname
        rw [Function.update_self]
        exact List.mem_append_right _ (List.mem_singleton.mpr rfl)
  | failed hconsults hrun => exact .gone (Function.update_self _ _ _)
  | returned hcall hleft => exact .gone (Function.update_self _ _ _)
  | cancelled hcall => exact .gone (Function.update_self _ _ _)

private theorem AllFollowed.step (h : AllFollowed c x) (hstored : Stored c x)
    (hstored' : Stored c y) (honce : Once c y) (hst : Logged c x e y) : AllFollowed c y := by
  have hruns := runs_append hst
  intro k call hcall
  cases sight hstored hst k with
  | same hsame huses =>
      rw [hsame] at hcall
      exact (h k call hcall).mono huses hruns
  | gone hnone =>
      rw [hnone] at hcall
      cases hcall
  | asked hasked huses =>
      obtain rfl := Option.some.inj (hasked.symm.trans hcall)
      refine ⟨by rw [huses]; rfl, fun use huse => ?_, fun use huse => ?_⟩ <;>
      · rw [huses] at huse
        cases huse
  | started hold hnew huses =>
      obtain rfl := Option.some.inj (hnew.symm.trans hcall)
      obtain ⟨hnames, hgood, hctx⟩ := (h k _ hold).mono huses hruns
      exact ⟨hnames, hgood, hctx⟩
  | @got call₀ rname cfg run cachedAt hconsults hnew huses hmem hfound =>
      obtain rfl := Option.some.inj (hnew.symm.trans hcall)
      obtain ⟨rest, hleft⟩ := hconsults.left
      exact (h k _ hconsults.found).use hleft hconsults.config
        (hstored'.provides rname cfg hconsults.config run hmem) huses hruns
        (good_of_found honce hconsults.config hmem hfound) rfl (by rw [hleft]; rfl) rfl

/-! ### The runs -/

structure Kept (c : ResolversSetup) (x : Resolvers κ × ResolversLedger κ) : Prop where
  locked : Locked x.1
  stored : Stored c x
  once : Once c x
  followed : AllFollowed c x

private theorem kept_run {es : List (ResolversEvent κ)} (h : Run (Logged c) ({}, {}) es x) :
    Kept c x := by
  refine h.invariant (Kept c) ?_ fun x e y hkept hst => ?_
  · exact ⟨locked_init, stored_init, once_init, fun k call hcall => by cases hcall⟩
  · have hstored := hkept.stored.step hst
    have honce := hkept.once.step hkept.locked hkept.stored hst
    exact ⟨hkept.locked.effect (step_effect hst.1), hstored, honce,
      hkept.followed.step hkept.stored hstored honce hst⟩

/-- A run of a resolver that is a failure. -/
def Fails (c : ResolversSetup) (S : Resolvers κ) (e : ResolversEvent κ) : Prop :=
  ∃ k o now wall rname cfg err, e = .ran k o now wall ∧ S.next k = some rname ∧
    c.config rname = some cfg ∧ c.run rname cfg o = .error err

/-- In every run of any number of calls: the context that a call returns has the binaries of each of
its resolvers from one successful run, the first one where the resolver is run once for the
instance, else one that was young enough when the call looked at the cache, or its own; no two calls
run one resolver; a failed run leaves the cache, the generation and the published state; and the
generation counts how often the result has changed. -/
theorem contexts_are_pinned (c : ResolversSetup) (es : List (ResolversEvent κ))
    (x : Resolvers κ × ResolversLedger κ) (h : Run (Logged c) ({}, {}) es x) :
    (∀ k call, x.1.call k = some call → call.left = [] → ∀ rname ∈ c.names call.bins,
      ∃ use ∈ x.2.uses k, use.resolver = rname ∧ Good c x.2 k use ∧ FromRun c call.ctx use) ∧
    (∀ k k' rname, x.1.Runs k rname → x.1.Runs k' rname → k = k') ∧
    (∀ e y, Logged c x e y → Fails c x.1 e → y.1.cache = x.1.cache ∧
      y.1.generation = x.1.generation ∧ y.1.state = x.1.state) ∧
    ∀ rname, x.1.generation rname = changes SameResult (x.2.runs rname) := by
  obtain ⟨hlocked, hstored, honce, hfollowed⟩ := kept_run h
  refine ⟨fun k call hcall hleft rname hname => ?_, hlocked.exclusive, fun e y hst hfails => ?_,
    hstored.generation⟩
  · obtain ⟨hnames, hgood, hctx⟩ := hfollowed k call hcall
    rw [hleft, List.append_nil] at hnames
    rw [← hnames] at hname
    obtain ⟨use, huse, rfl⟩ := List.mem_map.mp hname
    exact ⟨use, huse, rfl, hgood use huse, hctx use huse⟩
  · obtain ⟨k, o, now, wall, rname, cfg, err, rfl, hnext, hcfg, hrun⟩ := hfails
    rcases runs_step hst with
      ⟨k', o', now', wall', call, rname', cfg', r, heq, hconsults, -, hrun', -, -, -⟩ |
      ⟨hcache, hstate, hgeneration, -⟩
    · cases heq
      obtain rfl := Option.some.inj (hnext.symm.trans hconsults.next)
      obtain rfl := Option.some.inj (hcfg.symm.trans hconsults.config)
      rw [hrun] at hrun'
      cases hrun'
    · exact ⟨hcache, hgeneration, hstate⟩

/-- A resolver that provides two binaries. -/
def release : ResolversSetup where
  configs := [("release", { cmd := ["resolve"], provides := ["api", "web"] })]
  provider _ ha _ ha' _ _ _ := by rw [List.mem_singleton.mp ha, List.mem_singleton.mp ha']

/-- The resolver's run for the first service, and a second service three seconds later. -/
def sharedRun : List (ResolversEvent ℕ) :=
  [.ask 0 ["api"], .consult 0 10,
    .ran 0 { execution := .ended 0 "api=/r/1/api\nweb=/r/1/web\n".toList [],
             stat := fun _ => some (8, 1) } 12 0,
    .ask 1 ["web"], .consult 1 15]

/-- The second service gets both binaries from the first one's run. -/
theorem contexts_are_pinned_shared : ∃ x, Run (Logged release) ({}, {}) sharedRun x ∧
    (∃ use ∈ x.2.uses 1, use.resolver = "release" ∧ Good release x.2 1 use ∧
      use.run.caller = 0) ∧ x.1.generation "release" = 1 := by
  obtain ⟨x, hrun, hx⟩ := exists_run_of_exec (monitorStep (step release) (enter release)) ({}, {})
    sharedRun (fun x => (x.1.call 1).any fun (call : ContextCall) => decide (call.left = []) &&
      decide ("release" ∈ release.names call.bins) &&
      (x.2.uses 1).all (fun use => decide (use.run.caller = 0)) &&
      decide (changes SameResult (x.2.runs "release") = 1)) (by decide +kernel)
  rw [ofPartial_monitorStep] at hrun
  simp only [Option.any_eq_true, Bool.and_eq_true, decide_eq_true_eq, List.all_eq_true] at hx
  obtain ⟨call, hcall, ⟨⟨hleft, hname⟩, hcaller⟩, hchanges⟩ := hx
  obtain ⟨hcontext, -, -, hgeneration⟩ := contexts_are_pinned release sharedRun x hrun
  obtain ⟨use, huse, hresolver, hgood, -⟩ := hcontext 1 call hcall hleft "release" hname
  exact ⟨x, hrun, ⟨use, huse, hresolver, hgood, hcaller use huse⟩,
    (hgeneration "release").trans hchanges⟩

end Resolvers

end Jetty.Orchestrator
