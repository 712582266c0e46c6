import Jetty.Orchestrator.Render.Contexts

/-!
# What the check promises about launches

The check renders every template with a name for every binary. A launch has no binaries while
it renders what runs before the resolvers, and a service has those of its own references, which
are collected from the fields of its templates and not from their format specifications.
-/

namespace Jetty.Orchestrator

open Python Failure

variable {host : Host} {cfg : OrchestratorConfig} {configDir : String}

/-- No launch raises a `RenderError` for an unknown placeholder. -/
def LaunchesKnown (host : Host) (cfg : OrchestratorConfig) (configDir : String) : Prop :=
  ∀ launch : Occasion, Spares unknown (renderStatic host cfg configDir launch) ∧
    ∀ st, renderStatic host cfg configDir launch = .ok st → ∀ path, ∀ entry ∈ cfg.services,
      Spares unknown (renderLaunched host cfg configDir launch st path entry.2)

/-- Every binary that a template names is there when the template is rendered: the default
directory names none, no format specification of a gate or a resolver names one, and one that a
format specification of a service names comes from a resolver that the service refers to. -/
structure BinsInTime (cfg : OrchestratorConfig) : Prop where
  workdir : ∀ t ∈ cfg.inst.workdir.toList, ∀ name ∈ lookups t, binName name = none
  gates : ∀ entry ∈ cfg.gates, ∀ t ∈ entry.2.check, ∀ name ∈ nestedLookups t, binName name = none
  resolvers : ∀ entry ∈ cfg.resolvers, ∀ t ∈ entry.2.cmd, ∀ name ∈ nestedLookups t,
    binName name = none
  services : ∀ entry ∈ cfg.services, ∀ t ∈ serviceTemplates entry.2, ∀ name ∈ nestedLookups t,
    ∀ bin, binName name = some bin →
      ∃ ref ∈ serviceBinRefs entry.2, byBin cfg.resolvers ref = byBin cfg.resolvers bin

section References

private theorem mem_binRefs {templates : List String} {bin : String} :
    bin ∈ binRefs templates ↔ ∃ t ∈ templates, (parse t).error = none ∧
      ∃ field ∈ (parse t).fields, binName field.name = some bin := by
  unfold binRefs
  rw [List.mem_flatMap]
  refine exists_congr fun t => and_congr_right fun _ => ?_
  cases herror : (parse t).error with
  | none => simp [herror]
  | some e => simp [herror]

/-- A template without binary names in its fields has none at all if its format specifications
have none. -/
theorem binName_lookups {templates : List String} (hrefs : binRefs templates = []) {t : String}
    (ht : t ∈ templates) (hparse : (parse t).error = none)
    (hnested : ∀ name ∈ nestedLookups t, binName name = none) {name : String}
    (hname : name ∈ lookups t) : binName name = none := by
  rcases mem_lookups.mp hname with ⟨field, hfield, rfl⟩ | hname
  · cases hbin : binName field.name with
    | none => rfl
    | some bin =>
        have href : bin ∈ binRefs templates :=
          mem_binRefs.mpr ⟨t, ht, hparse, field, hfield, hbin⟩
        rw [hrefs] at href
        cases href
  · exact hnested name hname

private theorem mem_toList_filter {template : Option String} {t : String}
    (h : t ∈ (template.filter (· ≠ "")).toList) : t = template.getD "" := by
  rw [Option.mem_toList, Option.filter_eq_some_iff] at h
  rw [h.1, Option.getD_some]

/-- The references of a service are those of all its templates. -/
theorem mem_serviceBinRefs {svc : ServiceConfig} {t : String} (ht : t ∈ serviceTemplates svc)
    (hparse : (parse t).error = none) {field : Field} (hfield : field ∈ (parse t).fields)
    {bin : String} (hbin : binName field.name = some bin) : bin ∈ serviceBinRefs svc := by
  refine mem_binRefs.mpr ⟨t, ?_, hparse, field, hfield, hbin⟩
  simp only [serviceTemplates, List.mem_append] at ht
  simp only [List.mem_append, List.mem_cons, List.not_mem_nil, or_false]
  rcases ht with h | h | h | h | h | h | h | h
  · exact .inl (.inl (.inl h))
  · rw [Option.mem_toList] at h
    rw [h]
    exact .inr (.inl rfl)
  · exact .inr (.inr (.inr (.inr (.inr (mem_toList_filter h)))))
  · exact .inr (.inr (.inr (.inr (.inl (mem_toList_filter h)))))
  · exact .inl (.inr h)
  · exact .inr (.inr (.inl (mem_toList_filter h)))
  · exact .inr (.inr (.inr (.inl (mem_toList_filter h))))
  · exact .inl (.inl (.inr h))

end References

section Directories

private theorem isAbs_of_resolveConfigPath {what value path : String}
    (h : resolveConfigPath host configDir what value = .ok path) : isAbs path = true := by
  unfold resolveConfigPath at h
  simp only at h
  generalize (if value.toList.head? = some '~' then _ else value) = value' at h
  split at h
  · rename_i habs
    obtain rfl := Except.ok.inj h
    exact habs
  · split at h
    · cases h
    · obtain rfl := Except.ok.inj h
      exact beq_iff_eq.mpr (host.realpath_abs _)

private theorem resolveConfigPath_of_isAbs {value : String} (what : String)
    (h : isAbs value = true) : resolveConfigPath host configDir what value = .ok value := by
  have hhead : value.toList.head? = some '/' := beq_iff_eq.mp h
  have hhome : ¬ value.toList.head? = some '~' := by
    rw [hhead]
    decide
  simp only [resolveConfigPath, hhome, if_false, h, if_true]

private theorem isAbs_of_renderWorkdir {ctx : Context} {dir : String}
    (h : renderWorkdir host ctx configDir cfg.inst = .ok dir) :
    dir = configDir ∨ isAbs dir = true := by
  unfold renderWorkdir at h
  split at h
  · obtain ⟨path, -, hpath⟩ := bind_eq_ok.mp h
    exact .inr (isAbs_of_resolveConfigPath hpath)
  · exact .inl (Except.ok.inj h).symm

end Directories

section Ports

private theorem renderPortSpec_needs {ctx : Context} (hctx : Lettered ctx)
    (name template : String) : Needs (renderPortSpec host ctx name template)
      (∀ name ∈ lookups template, name ≠ "" ∧ ¬ Missing ctx name) :=
  ((renderStr_needs hctx template).mono And.right).bind_left

private theorem renderPortSpec_spares {ctx : Context} {name template : String}
    (h : ∀ name ∈ lookups template, name ≠ "" ∧ ¬ Missing ctx name) :
    Spares unknown (renderPortSpec host ctx name template) := by
  refine (renderStr_spares template h).bind fun rendered => ?_
  intro e he hunknown
  split at he
  · cases he
  · obtain rfl := Except.error.inj he
    cases hunknown
  · obtain rfl := Except.error.inj he
    cases hunknown

/-- Port specs that render in one context meet no unknown placeholder in another one with the
same names. -/
theorem renderPortSpecs_spares {host' : Host} {ctx ctx' : Context} (hctx : Lettered ctx)
    (hkeys : ctx'.map Prod.fst = ctx.map Prod.fst) {ports v : List (String × Toml)}
    (h : renderPortSpecs host ctx ports = .ok v) :
    Spares unknown (renderPortSpecs host' ctx' ports) := by
  have hmissing (name : String) : Missing ctx' name ↔ Missing ctx name := by
    rw [missing_iff, missing_iff, hkeys]
  have hneeds : Needs (renderPortSpecs host ctx ports) (∀ entry ∈ ports, ∀ t,
      entry.2 = .str t → isTemplated entry.2 = true →
        ∀ name ∈ lookups t, name ≠ "" ∧ ¬ Missing ctx name) := by
    refine Needs.mapM fun entry _ v hv t ht htemplated => ?_
    simp only [ht, ← ht ▸ htemplated, if_true] at hv
    exact (renderPortSpec_needs hctx entry.1 t).map v hv
  have hnames := hneeds v h
  refine Spares.mapM fun entry hentry => ?_
  obtain ⟨pname, want⟩ := entry
  cases want with
  | str t =>
      by_cases htemplated : isTemplated (.str t) = true
      · simp only [htemplated, if_true]
        refine (renderPortSpec_spares fun name hname => ?_).map
        rw [hmissing]
        exact hnames _ hentry t rfl htemplated name hname
      · simp only [htemplated]
        exact spares_ok _
  | _ => exact spares_ok _

end Ports

section Check

/-- The success of the check, part by part. -/
structure Checked (host : Host) (cfg : OrchestratorConfig) (configDir : String) : Prop where
  ports : ∃ v, renderPortSpecs host (buildContext host cfg.inst.name [] "/dev/null" "/dev/null")
    cfg.ports = .ok v
  workdir : ∃ v, renderWorkdir host (checkContext host cfg) configDir cfg.inst = .ok v
  services : ∀ entry ∈ cfg.services, ∃ v,
    renderService host (checkContext host cfg) configDir none entry.2 = .ok v
  gates : ∃ v, cfg.gates.mapM (fun entry =>
    renderGateArgv host (checkContext host cfg) configDir entry.2) = .ok v
  resolvers : ∃ v, cfg.resolvers.mapM (fun entry => renderArgv host (checkContext host cfg)
    configDir s!"resolvers.{entry.1} cmd" entry.2.cmd) = .ok v

private theorem checked_of_validateTemplates (h : validateTemplates host cfg configDir = .ok ()) :
    Checked host cfg configDir := by
  obtain ⟨ports, hports, h⟩ := bind_eq_ok.mp h
  obtain ⟨workdir, hworkdir, h⟩ := bind_eq_ok.mp h
  obtain ⟨services, hservices, h⟩ := bind_eq_ok.mp h
  obtain ⟨gates, hgates, h⟩ := bind_eq_ok.mp h
  obtain ⟨resolvers, hresolvers, -⟩ := bind_eq_ok.mp h
  refine ⟨⟨ports, hports⟩, ⟨workdir, hworkdir⟩, ?_, ⟨gates, hgates⟩, ⟨resolvers, hresolvers⟩⟩
  exact Needs.mapM (fun entry _ v hv => ⟨v, hv⟩) services hservices

/-- The template is well formed, and the context has all it looks up. -/
def Complete (ctx : Context) (template : String) : Prop :=
  (parse template).error = none ∧ ∀ name ∈ lookups template, name ≠ "" ∧ ¬ Missing ctx name

private theorem lettered_checkContext (host : Host) (cfg : OrchestratorConfig) :
    Lettered (checkContext host cfg) := by
  refine lettered_of_keys cfg.ports fun key hkey => ?_
  exact (mem_keys_checkContext.mp hkey).imp_right fun ⟨bin, _, heq⟩ => ⟨bin, heq⟩

variable (hchecked : Checked host cfg configDir)
include hchecked

private theorem Checked.complete_workdir :
    ∀ t ∈ cfg.inst.workdir.toList, Complete (checkContext host cfg) t := by
  obtain ⟨v, hv⟩ := hchecked.workdir
  exact renderWorkdir_needs (renderStr_needs (lettered_checkContext host cfg)) _ _ v hv

private theorem Checked.complete_service {entry : String × ServiceConfig}
    (hentry : entry ∈ cfg.services) :
    ∀ t ∈ serviceTemplates entry.2, Complete (checkContext host cfg) t := by
  obtain ⟨v, hv⟩ := hchecked.services entry hentry
  exact renderService_needs (renderStr_needs (lettered_checkContext host cfg)) _ _ _ v hv

private theorem Checked.complete_gate {entry : String × GateConfig} (hentry : entry ∈ cfg.gates) :
    ∀ t ∈ entry.2.check, Complete (checkContext host cfg) t := by
  obtain ⟨v, hv⟩ := hchecked.gates
  have hneeds := @renderStr_needs host _ (lettered_checkContext host cfg)
  exact Needs.mapM (fun entry _ => renderArgv_needs hneeds _ _ _) v hv entry hentry

private theorem Checked.complete_resolver {entry : String × ResolverConfig}
    (hentry : entry ∈ cfg.resolvers) :
    ∀ t ∈ entry.2.cmd, Complete (checkContext host cfg) t := by
  obtain ⟨v, hv⟩ := hchecked.resolvers
  have hneeds := @renderStr_needs host _ (lettered_checkContext host cfg)
  exact Needs.mapM (fun entry _ => renderArgv_needs hneeds _ _ _) v hv entry hentry

end Check

section Launches

variable (hchecked : Checked host cfg configDir)

/-- What the check finds among the names of every context, a launch finds. -/
theorem found_static {ctx : Context} {name : String}
    (hctx : staticKeys cfg.ports ⊆ ctx.map Prod.fst)
    (hfound : ¬ Missing (checkContext host cfg) name) (hbin : binName name = none) :
    ¬ Missing ctx name := by
  rw [missing_iff] at hfound ⊢
  rintro ⟨henv, hkey⟩
  refine hfound ⟨henv, fun hmem => ?_⟩
  rcases mem_keys_checkContext.mp hmem with hstatic | ⟨bin, -, rfl⟩
  · exact hkey (hctx hstatic)
  · rw [binName_append] at hbin
    cases hbin

/-- What the check finds for a service, its launch finds if the service refers to the resolvers
of the binaries among it. -/
theorem found_launched (hbins : cfg.BinsAccepted) {path : String → String} {refs : List String}
    {ctx : Context} {name : String} (hctx : staticKeys cfg.ports ⊆ ctx.map Prod.fst)
    (hfound : ¬ Missing (checkContext host cfg) name)
    (href : ∀ bin, binName name = some bin →
      ∃ ref ∈ refs, byBin cfg.resolvers ref = byBin cfg.resolvers bin) :
    ¬ Missing (contextFor cfg.resolvers path refs ++ ctx) name := by
  rw [missing_iff] at hfound ⊢
  rw [List.map_append, List.mem_append]
  rintro ⟨henv, hkey⟩
  refine hfound ⟨henv, fun hmem => hkey ?_⟩
  rcases mem_keys_checkContext.mp hmem with hstatic | ⟨bin, hprovided, rfl⟩
  · exact .inr (hctx hstatic)
  · refine .inl ((mem_keys_contextFor hbins).mpr ⟨bin, hprovided, rfl, ?_⟩)
    exact href bin (binName_append bin)

/-- What a launch has rendered before the first service. -/
theorem of_renderStatic {launch : Occasion} {st : Rendered}
    (h : renderStatic host cfg configDir launch = .ok st) :
    st.ctx = buildContext host launch.name
        (cfg.ports.map fun (name, _) => (name, launch.port name)) launch.stateDir launch.logsDir ∧
      (st.workdir = configDir ∨ isAbs st.workdir = true) := by
  obtain ⟨ports, -, h⟩ := bind_eq_ok.mp h
  obtain ⟨workdir, hworkdir, h⟩ := bind_eq_ok.mp h
  obtain ⟨gates, -, h⟩ := bind_eq_ok.mp h
  obtain ⟨resolvers, -, h⟩ := bind_eq_ok.mp h
  obtain rfl := Except.ok.inj h
  exact ⟨rfl, isAbs_of_renderWorkdir hworkdir⟩

variable (htime : BinsInTime cfg)
include hchecked htime

/-- In time, the rendering before the first service knows its placeholders. -/
theorem renderStatic_spares (hbins : cfg.BinsAccepted) (launch : Occasion) :
    Spares unknown (renderStatic host cfg configDir launch) := by
  have hkeys (host : Host) : staticKeys cfg.ports ⊆ (buildContext host launch.name
      (cfg.ports.map fun (name, _) => (name, launch.port name)) launch.stateDir
      launch.logsDir).map Prod.fst :=
    staticKeys_subset host _ _ _ _ launch.port
  have hspares (host' : Host) (t : String)
      (ht : Complete (checkContext host cfg) t ∧ ∀ name ∈ lookups t, binName name = none) :
      Spares unknown (renderStr host' _ t) :=
    renderStr_spares t fun name hname =>
      ⟨(ht.1.2 name hname).1, found_static (hkeys host') (ht.1.2 name hname).2 (ht.2 name hname)⟩
  obtain ⟨ports, hports⟩ := hchecked.ports
  refine (renderPortSpecs_spares ?_ ?_ hports).bind fun _ => ?_
  · refine lettered_of_keys [] fun key hkey => .inl ?_
    rwa [← keys_buildContext host _ _ _ [] fun _ => 1]
  · rfl
  refine (renderWorkdir_spares (hspares _) configDir fun t ht =>
    ⟨hchecked.complete_workdir t ht, htime.workdir t ht⟩).bind fun _ => ?_
  refine (Spares.mapM fun entry hentry => (renderArgv_spares (hspares _) configDir _ fun t ht =>
    ⟨hchecked.complete_gate hentry t ht, fun name hname =>
      binName_lookups (hbins.gates entry hentry) ht (hchecked.complete_gate hentry t ht).1
        (htime.gates entry hentry t ht) hname⟩).map).bind
    fun _ => ?_
  refine (Spares.mapM fun entry hentry => (renderArgv_spares (hspares _) configDir _ fun t ht =>
    ⟨hchecked.complete_resolver hentry t ht, fun name hname =>
      binName_lookups (hbins.resolvers entry hentry) ht (hchecked.complete_resolver hentry t ht).1
        (htime.resolvers entry hentry t ht) hname⟩).map).bind fun _ => ?_
  exact spares_ok _

/-- In time, every service knows its placeholders. -/
theorem renderLaunched_spares (hbins : cfg.BinsAccepted) {launch : Occasion} {st : Rendered}
    (hst : renderStatic host cfg configDir launch = .ok st) (path : String → String)
    {entry : String × ServiceConfig} (hentry : entry ∈ cfg.services) :
    Spares unknown (renderLaunched host cfg configDir launch st path entry.2) := by
  refine renderService_spares (fun t ht => renderStr_spares t ht) configDir _ fun t ht => ?_
  have hcomplete := hchecked.complete_service hentry t ht
  intro name hname
  refine ⟨(hcomplete.2 name hname).1, ?_⟩
  refine found_launched hbins ?_ (hcomplete.2 name hname).2 fun bin hbin => ?_
  · rw [(of_renderStatic hst).1]
    exact staticKeys_subset host _ _ _ _ launch.port
  · rcases mem_lookups.mp hname with ⟨field, hfield, rfl⟩ | hnested
    · exact ⟨bin, mem_serviceBinRefs ht hcomplete.1 hfield hbin, rfl⟩
    · exact htime.services entry hentry t ht name hnested bin hbin

end Launches

section Pretence

/-- The launch that the check pretends. -/
def pretendedLaunch (host : Host) (cfg : OrchestratorConfig) : Occasion where
  name := cfg.inst.name
  stateDir := "/dev/null"
  logsDir := "/dev/null"
  port _ := 1
  objectRepr := host.objectRepr

/-- The context of the pretended launch. -/
def pretendedContext (host : Host) (cfg : OrchestratorConfig) : Context :=
  buildContext host cfg.inst.name (cfg.ports.map fun (name, _) => (name, 1)) "/dev/null" "/dev/null"

private theorem lookup_const {ctx : Context} {value : String} (h : ∀ entry ∈ ctx, entry.2 = value)
    (name : String) : ctx.lookup name = none ∨ ctx.lookup name = some value := by
  cases hlookup : ctx.lookup name with
  | none => exact .inl rfl
  | some v =>
      obtain ⟨before, after, rfl, -⟩ := List.lookup_eq_some_iff.mp hlookup
      exact .inr (congrArg some (h (name, v) (by simp)))

/-- The dummies for the binaries. -/
def dummyBins (cfg : OrchestratorConfig) : Context :=
  cfg.resolvers.flatMap fun (_, resolver) =>
    resolver.provides.map fun provided => ("bin." ++ provided, "/dev/null")

private theorem checkContext_eq :
    checkContext host cfg = pretendedContext host cfg ++ dummyBins cfg := rfl

private theorem keys_pretendedContext :
    (pretendedContext host cfg).map Prod.fst = staticKeys cfg.ports :=
  keys_buildContext host _ _ _ cfg.ports fun _ => 1

private theorem within_checkContext (host : Host) (cfg : OrchestratorConfig) :
    Within (pretendedContext host cfg) (checkContext host cfg) := by
  intro name
  rw [checkContext_eq, List.lookup_append]
  cases (pretendedContext host cfg).lookup name with
  | none => exact .inl rfl
  | some v => exact .inr rfl

/-- With the same dummy for every binary, a service's context is within that of the check. -/
theorem within_launched (hbins : cfg.BinsAccepted) (refs : List String) :
    Within (contextFor cfg.resolvers (fun _ => "/dev/null") refs ++ pretendedContext host cfg)
      (checkContext host cfg) := by
  intro name
  have hconst : ∀ entry ∈ contextFor cfg.resolvers (fun _ => "/dev/null") refs,
      entry.2 = "/dev/null" := by
    simp only [contextFor, List.mem_flatMap, List.mem_map]
    rintro entry ⟨rname, -, resolver, -, bin, -, rfl⟩
    rfl
  have hdummies : ∀ entry ∈ dummyBins cfg, entry.2 = "/dev/null" := by
    simp only [dummyBins, List.mem_flatMap, List.mem_map]
    rintro entry ⟨resolver, -, provided, -, rfl⟩
    rfl
  rw [List.lookup_append]
  rcases lookup_const hconst name with hnone | hsome
  · rw [hnone, Option.none_or]
    exact within_checkContext host cfg name
  · have hkey : name ∈ (contextFor cfg.resolvers (fun _ => "/dev/null") refs).map Prod.fst := by
      by_contra h
      rw [lookup_eq_none.mpr h] at hsome
      cases hsome
    obtain ⟨bin, hprovided, rfl, -⟩ := (mem_keys_contextFor hbins).mp hkey
    have hstatic : (pretendedContext host cfg).lookup ("bin." ++ bin) = none := by
      rw [lookup_eq_none, keys_pretendedContext]
      intro hmem
      have hbin := binName_of_mem_staticKeys hmem
      rw [binName_append] at hbin
      cases hbin
    have hcheck : (checkContext host cfg).lookup ("bin." ++ bin) ≠ none := fun hnone =>
      lookup_eq_none.mp hnone (mem_keys_checkContext.mpr (.inr ⟨bin, hprovided, rfl⟩))
    rw [checkContext_eq, List.lookup_append, hstatic, Option.none_or] at hcheck ⊢
    rw [hsome, (lookup_const hdummies _).resolve_left hcheck]
    exact .inr rfl

/-- What the pretended launch finds among static names is no binary. -/
theorem binName_of_found {ctx : Context} {name : String}
    (hctx : ctx.map Prod.fst = staticKeys cfg.ports) (h : ¬ Missing ctx name) :
    binName name = none := by
  cases hbin : binName name with
  | none => rfl
  | some bin =>
      obtain rfl := eq_of_binName hbin
      rw [missing_iff, hctx] at h
      refine absurd ⟨envField_bin bin, fun hmem => ?_⟩ h
      rw [binName_of_mem_staticKeys hmem] at hbin
      cases hbin

/-- The context has all that the template looks up. -/
def Finds (ctx : Context) (template : String) : Prop :=
  ∀ name ∈ lookups template, ¬ Missing ctx name

/-- The rendering before the first service goes the way of the check as long as it finds all
names. -/
theorem renderStatic_follows : Follows unknown (fun _ _ => True)
    ((∀ t ∈ cfg.inst.workdir.toList, Finds (pretendedContext host cfg) t) ∧
      (∀ entry ∈ cfg.gates, ∀ t ∈ entry.2.check, Finds (pretendedContext host cfg) t) ∧
      ∀ entry ∈ cfg.resolvers, ∀ t ∈ entry.2.cmd, Finds (pretendedContext host cfg) t)
    (renderPortSpecs host (buildContext host cfg.inst.name [] "/dev/null" "/dev/null") cfg.ports >>=
      fun _ => renderWorkdir host (checkContext host cfg) configDir cfg.inst >>=
      fun _ => cfg.gates.mapM (fun entry =>
        renderGateArgv host (checkContext host cfg) configDir entry.2) >>=
      fun _ => cfg.resolvers.mapM (fun entry => renderArgv host (checkContext host cfg) configDir
        s!"resolvers.{entry.1} cmd" entry.2.cmd))
    (renderStatic host cfg configDir (pretendedLaunch host cfg)) := by
  have hG : ∀ t, Follows unknown Eq (Finds (pretendedContext host cfg) t)
      (renderStr host (checkContext host cfg) t) (renderStr host (pretendedContext host cfg) t) :=
    renderStr_follows (lettered_checkContext host cfg) (within_checkContext host cfg)
  refine ((follows_refl _).bind fun _ _ _ => ?_).congr (and_iff_right trivial)
  refine (renderWorkdir_follows hG configDir cfg.inst).bind fun _ _ _ => ?_
  refine (Follows.mapM fun entry _ =>
    (renderArgv_follows hG configDir _ entry.2.check).map_right).bind fun _ _ _ => ?_
  exact (Follows.mapM fun entry _ =>
    (renderArgv_follows hG configDir _ entry.2.cmd).map_right).bind_right

private theorem Checked.early (hchecked : Checked host cfg configDir) : ∃ v, (renderPortSpecs host
      (buildContext host cfg.inst.name [] "/dev/null" "/dev/null") cfg.ports >>=
    fun _ => renderWorkdir host (checkContext host cfg) configDir cfg.inst >>=
    fun _ => cfg.gates.mapM (fun entry =>
      renderGateArgv host (checkContext host cfg) configDir entry.2) >>=
    fun _ => cfg.resolvers.mapM (fun entry => renderArgv host (checkContext host cfg) configDir
      s!"resolvers.{entry.1} cmd" entry.2.cmd)) = .ok v := by
  obtain ⟨ports, hports⟩ := hchecked.ports
  obtain ⟨workdir, hworkdir⟩ := hchecked.workdir
  obtain ⟨gates, hgates⟩ := hchecked.gates
  obtain ⟨resolvers, hresolvers⟩ := hchecked.resolvers
  exact ⟨resolvers, bind_eq_ok.mpr ⟨ports, hports, bind_eq_ok.mpr ⟨workdir, hworkdir,
    bind_eq_ok.mpr ⟨gates, hgates, hresolvers⟩⟩⟩⟩

/-- A service goes the way of the check as long as it finds all names. -/
theorem renderLaunched_follows (hbins : cfg.BinsAccepted) {st : Rendered}
    (hst : renderStatic host cfg configDir (pretendedLaunch host cfg) = .ok st)
    (svc : ServiceConfig) : Follows unknown (fun _ _ => True)
      (∀ t ∈ serviceTemplates svc, Finds (contextFor cfg.resolvers (fun _ => "/dev/null")
        (serviceBinRefs svc) ++ pretendedContext host cfg) t)
      (renderService host (checkContext host cfg) configDir none svc)
      (renderLaunched host cfg configDir (pretendedLaunch host cfg) st (fun _ => "/dev/null")
        svc) := by
  obtain ⟨hctx, hdir⟩ := of_renderStatic hst
  have hst : st.ctx = pretendedContext host cfg := hctx
  rw [renderLaunched, hst]
  refine renderService_follows (renderStr_follows (lettered_checkContext host cfg)
    (within_launched hbins (serviceBinRefs svc))) configDir svc fun v hv => ?_
  rcases hdir with hdir | habs
  · rw [hdir]
    exact ⟨v, hv⟩
  · exact ⟨st.workdir, resolveConfigPath_of_isAbs _ habs⟩

/-- If no launch meets an unknown placeholder, the pretended one does not, and what it finds are
the binaries in time. -/
theorem binsInTime_of_launchesKnown (hbins : cfg.BinsAccepted)
    (hchecked : Checked host cfg configDir) (hknown : LaunchesKnown host cfg configDir) :
    BinsInTime cfg := by
  obtain ⟨hstatic, hlaunched⟩ := hknown (pretendedLaunch host cfg)
  obtain ⟨v, hv⟩ := hchecked.early
  obtain ⟨⟨hworkdir, hgates, hresolvers⟩, st, hst, -⟩ := renderStatic_follows.holds hv hstatic
  have hnested {t : String} (h : Finds (pretendedContext host cfg) t) :
      ∀ name ∈ nestedLookups t, binName name = none := fun name hname =>
    binName_of_found keys_pretendedContext (h name (mem_lookups.mpr (.inr hname)))
  refine ⟨fun t ht name hname => ?_, fun entry hentry t ht => hnested (hgates entry hentry t ht),
    fun entry hentry t ht => hnested (hresolvers entry hentry t ht), ?_⟩
  · exact binName_of_found keys_pretendedContext (hworkdir t ht name hname)
  · intro entry hentry t ht name hname bin hbin
    obtain ⟨w, hw⟩ := hchecked.services entry hentry
    obtain ⟨hfinds, -⟩ := (renderLaunched_follows hbins hst entry.2).holds hw
      (hlaunched st hst _ entry hentry)
    have hfound := hfinds t ht name (mem_lookups.mpr (.inr hname))
    obtain rfl := eq_of_binName hbin
    rw [missing_iff, List.map_append, List.mem_append, keys_pretendedContext] at hfound
    have hkey : ("bin." ++ bin) ∈ (contextFor cfg.resolvers (fun _ => "/dev/null")
        (serviceBinRefs entry.2)).map Prod.fst := by
      by_contra hkey
      refine hfound ⟨envField_bin bin, fun hmem => ?_⟩
      rcases hmem with hmem | hmem
      · exact hkey hmem
      · rw [binName_of_mem_staticKeys hmem] at hbin
        cases hbin
    obtain ⟨bin', -, heq, href⟩ := (mem_keys_contextFor hbins).mp hkey
    rw [heq, binName_append] at hbin
    obtain rfl := Option.some.inj hbin
    exact href

end Pretence

/-- For an accepted configuration that passes the check, launches meet no unknown placeholder
exactly if every binary is named in time. -/
theorem launchesKnown_iff {repr : Toml → String} {raw : Toml} {cfg : OrchestratorConfig}
    {host : Host} {configDir : String} (hparse : OrchestratorConfig.parse repr raw = .ok cfg)
    (hcheck : validateTemplates host cfg configDir = .ok ()) :
    LaunchesKnown host cfg configDir ↔ BinsInTime cfg := by
  have hbins := OrchestratorConfig.binsAccepted_of_parse hparse
  have hchecked := checked_of_validateTemplates hcheck
  constructor
  · exact binsInTime_of_launchesKnown hbins hchecked
  · intro htime launch
    exact ⟨renderStatic_spares hchecked htime hbins launch,
      fun st hst path entry hentry => renderLaunched_spares hchecked htime hbins hst path hentry⟩

/-- A service whose command or environment names the binary of a resolver. -/
def binConfig (cmd value : String) : Toml :=
  .table [("instance", .table [("name", .str "demo")]),
    ("resolvers", .table [("tool", .table [("cmd", .list [.str "find-tool"])])]),
    ("services", .table [("web", .table [("cmd", .list [.str cmd]),
      ("env", .table [("TOOL", .str value)])])])]

private theorem exists_of_check (raw : Toml) (p : OrchestratorConfig → Bool)
    (h : (OrchestratorConfig.parse (fun _ => "") raw).toOption.any p = true) :
    ∃ cfg, OrchestratorConfig.parse (fun _ => "") raw = .ok cfg ∧ p cfg = true := by
  cases hparse : OrchestratorConfig.parse (fun _ => "") raw with
  | error e => simp [hparse, Except.toOption] at h
  | ok cfg => exact ⟨cfg, rfl, by simpa [hparse, Except.toOption] using h⟩

/-- A binary named in a field of the command. -/
theorem launchesKnown_binConfig : ∃ cfg,
    OrchestratorConfig.parse (fun _ => "") (binConfig "\x7bbin.tool\x7d" "") = .ok cfg ∧
      (LaunchesKnown bareHost cfg "/" ↔ BinsInTime cfg) := by
  obtain ⟨cfg, hparse, hcheck⟩ := exists_of_check (binConfig "\x7bbin.tool\x7d" "")
    (fun cfg => (validateTemplates bareHost cfg "/").isOk) (by decide +kernel)
  refine ⟨cfg, hparse, launchesKnown_iff hparse ?_⟩
  cases hvalidate : validateTemplates bareHost cfg "/" with
  | error e =>
      rw [hvalidate] at hcheck
      cases hcheck
  | ok u => rfl

/-- Some service of the pretended launch raises an unknown placeholder. -/
def failsLaunch (host : Host) (cfg : OrchestratorConfig) (configDir : String) : Bool :=
  match renderStatic host cfg configDir (pretendedLaunch host cfg) with
  | .error _ => false
  | .ok st => cfg.services.any fun entry =>
    match renderLaunched host cfg configDir (pretendedLaunch host cfg) st (fun _ => "/dev/null")
      entry.2 with
    | .error e => e.isUnknown
    | .ok _ => false

private theorem not_launchesKnown_of_fails (h : failsLaunch host cfg configDir = true) :
    ¬ LaunchesKnown host cfg configDir := by
  intro hknown
  unfold failsLaunch at h
  split at h
  · cases h
  · rename_i st hst
    obtain ⟨entry, hentry, hfails⟩ := List.any_eq_true.mp h
    split at hfails
    · rename_i e he
      exact (hknown _).2 st hst _ entry hentry e he hfails
    · cases hfails

/-- A binary named in the default of an environment variable: the check accepts it, and the
launch does not know it. -/
theorem not_launchesKnown : ¬ ∀ (host : Host) (repr : Toml → String) (raw : Toml)
    (cfg : OrchestratorConfig) (configDir : String),
    OrchestratorConfig.parse repr raw = .ok cfg → validateTemplates host cfg configDir = .ok () →
      LaunchesKnown host cfg configDir := by
  intro hclaim
  obtain ⟨cfg, hparse, hcheck⟩ := exists_of_check
    (binConfig "web" "\x7benv.TOOL:-\x7bbin.tool\x7d\x7d")
    (fun cfg => (validateTemplates bareHost cfg "/").isOk && failsLaunch bareHost cfg "/")
    (by decide +kernel)
  obtain ⟨hok, hfails⟩ := Bool.and_eq_true_iff.mp hcheck
  refine not_launchesKnown_of_fails hfails (hclaim bareHost _ _ cfg "/" hparse ?_)
  cases hvalidate : validateTemplates bareHost cfg "/" with
  | error e =>
      rw [hvalidate] at hok
      cases hok
  | ok u => rfl

end Jetty.Orchestrator
