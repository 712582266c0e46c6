import Jetty.Core.Failure
import Jetty.Orchestrator.Config.Parse
import Mathlib.Data.List.Nodup

/-!
# Accepted configurations

What the validation of binary names establishes: the commands that run before any binary is
resolved name none, and no two resolvers provide the same one.
-/

namespace Jetty.Orchestrator

open Failure

namespace OrchestratorConfig

variable {repr : Toml → String}

/-- The binary names of a configuration are in order. -/
structure BinsAccepted (cfg : OrchestratorConfig) : Prop where
  gates : ∀ entry ∈ cfg.gates, binRefs entry.2.check = []
  resolvers : ∀ entry ∈ cfg.resolvers, binRefs entry.2.cmd = []
  provider : ∀ entry ∈ cfg.resolvers, ∀ entry' ∈ cfg.resolvers, ∀ bin,
    bin ∈ entry.2.provides → bin ∈ entry'.2.provides → entry.1 = entry'.1

/-- The binaries of the resolvers, with their resolvers. -/
def providers (resolvers : List (String × ResolverConfig)) : List (String × String) :=
  resolvers.flatMap fun entry => entry.2.provides.map fun bin => (bin, entry.1)

@[simp] theorem withProvides_cmd (rname : String) (resolver : ResolverConfig) :
    (withProvides rname resolver).cmd = resolver.cmd := by
  unfold withProvides
  split <;> rfl

private theorem checkProvides_eq_ok {rname : String} {bins : List String}
    {provided provided' : List (String × String)}
    (h : checkProvides repr rname bins provided = .ok provided')
    (hnodup : (provided.map Prod.fst).Nodup) :
    (provided'.map Prod.fst).Nodup ∧
      ∀ entry, entry ∈ provided' ↔
        entry ∈ bins.map (fun bin => (bin, rname)) ∨ entry ∈ provided := by
  induction bins generalizing provided with
  | nil =>
      obtain rfl := Except.ok.inj h
      exact ⟨hnodup, by simp⟩
  | cons bin bins ih =>
      unfold checkProvides at h
      split at h
      · split at h
        · cases h
        · rename_i hnone
          have hfresh : bin ∉ provided.map Prod.fst := by
            intro hmem
            obtain ⟨entry, hentry, rfl⟩ := List.mem_map.mp hmem
            simpa using List.lookup_eq_none_iff.mp hnone entry hentry
          obtain ⟨hnodup', hmem⟩ := ih h (List.nodup_cons.mpr ⟨hfresh, hnodup⟩)
          refine ⟨hnodup', fun entry => ?_⟩
          rw [hmem, List.map_cons, List.mem_cons, List.mem_cons]
          tauto
      · cases h

private theorem checkResolvers_eq_ok {gates : List String}
    {resolvers : List (String × ResolverConfig)} {provided provided' : List (String × String)}
    (h : checkResolvers repr gates resolvers provided = .ok provided')
    (hnodup : (provided.map Prod.fst).Nodup) :
    (∀ entry ∈ resolvers, binRefs entry.2.cmd = []) ∧ (provided'.map Prod.fst).Nodup ∧
      ∀ entry, entry ∈ provided' ↔
        entry ∈ providers (resolvers.map fun (r, resolver) => (r, withProvides r resolver)) ∨
          entry ∈ provided := by
  induction resolvers generalizing provided with
  | nil =>
      obtain rfl := Except.ok.inj h
      exact ⟨List.forall_mem_nil _, hnodup, by simp [providers]⟩
  | cons resolver resolvers ih =>
      obtain ⟨rname, resolver⟩ := resolver
      unfold checkResolvers at h
      obtain ⟨provided₁, hprovides, h⟩ := bind_eq_ok.mp h
      obtain ⟨hnodup₁, hmem₁⟩ := checkProvides_eq_ok hprovides hnodup
      by_cases hcmd : binRefs resolver.cmd = []
      · simp only [hcmd, List.isEmpty_nil, Bool.not_true, Bool.false_eq_true, if_false] at h
        split at h
        · cases h
        · obtain ⟨hcmds, hnodup', hmem⟩ := ih h hnodup₁
          refine ⟨List.forall_mem_cons.mpr ⟨hcmd, hcmds⟩, hnodup', fun entry => ?_⟩
          rw [hmem, hmem₁, List.map_cons, providers, providers, List.flatMap_cons, List.mem_append]
          tauto
      · simp only [List.isEmpty_eq_false_iff.mpr hcmd, Bool.not_false, if_true] at h
        cases h

private theorem checkGates_eq_ok {gates : List (String × GateConfig)}
    (h : checkGates gates = .ok ()) : ∀ entry ∈ gates, binRefs entry.2.check = [] := by
  rintro ⟨gname, gate⟩ hentry
  have hgate := forM_eq_ok.mp h (gname, gate) hentry
  by_contra hrefs
  simp only [List.isEmpty_eq_false_iff.mpr hrefs, Bool.false_eq_true, if_false] at hgate
  cases hgate

/-- The checks that an accepted configuration passes. -/
theorem validate_eq_ok {cfg cfg' : OrchestratorConfig} (h : cfg.validate repr = .ok cfg') :
    ∃ provided order,
      (checkNames repr "ports" (cfg.ports.map Prod.fst) = .ok () ∧
        checkNames repr "gates" (cfg.gates.map Prod.fst) = .ok () ∧
        checkNames repr "resolvers" (cfg.resolvers.map Prod.fst) = .ok () ∧
        checkNames repr "services" (cfg.services.map Prod.fst) = .ok ()) ∧
      checkResolvers repr (cfg.gates.map Prod.fst) cfg.resolvers [] = .ok provided ∧
      checkGates cfg.gates = .ok () ∧
      (∀ entry ∈ cfg.services, checkService repr (cfg.services.map Prod.fst)
        (cfg.gates.map Prod.fst) (provided.map Prod.fst) entry.1 entry.2 = .ok ()) ∧
      startOrder cfg.services = .ok order ∧
      { cfg with
        resolvers := cfg.resolvers.map fun (r, resolver) => (r, withProvides r resolver) } =
        cfg' := by
  unfold validate at h
  split at h
  · cases h
  · obtain ⟨_, hports, h⟩ := bind_eq_ok.mp h
    obtain ⟨_, hgateNames, h⟩ := bind_eq_ok.mp h
    obtain ⟨_, hresolverNames, h⟩ := bind_eq_ok.mp h
    obtain ⟨_, hserviceNames, h⟩ := bind_eq_ok.mp h
    obtain ⟨_, _, h⟩ := bind_eq_ok.mp h
    obtain ⟨provided, hresolvers, h⟩ := bind_eq_ok.mp h
    obtain ⟨_, hgates, h⟩ := bind_eq_ok.mp h
    obtain ⟨_, hservices, h⟩ := bind_eq_ok.mp h
    obtain ⟨order, horder, h⟩ := bind_eq_ok.mp h
    exact ⟨provided, order, ⟨hports, hgateNames, hresolverNames, hserviceNames⟩, hresolvers,
      hgates, forM_eq_ok.mp hservices, horder, Except.ok.inj h⟩

/-- What the validation returns has its binary names in order. -/
theorem binsAccepted_of_validate {cfg cfg' : OrchestratorConfig}
    (h : cfg.validate repr = .ok cfg') : cfg'.BinsAccepted := by
  obtain ⟨provided, -, -, hresolvers, hgates, -, -, rfl⟩ := validate_eq_ok h
  obtain ⟨hcmds, hnodup, hmem⟩ := checkResolvers_eq_ok hresolvers List.nodup_nil
  refine ⟨checkGates_eq_ok hgates, ?_, ?_⟩
  · rw [List.forall_mem_map]
    rintro ⟨rname, resolver⟩ hentry
    rw [← hcmds (rname, resolver) hentry, withProvides_cmd]
  · intro entry hentry entry' hentry' bin hbin hbin'
    have hprovided (entry : String × ResolverConfig)
        (hentry : entry ∈ cfg.resolvers.map fun (r, resolver) => (r, withProvides r resolver))
        (hbin : bin ∈ entry.2.provides) : (bin, entry.1) ∈ provided := by
      refine (hmem _).mpr (.inl (List.mem_flatMap.mpr ⟨entry, hentry, ?_⟩))
      exact List.mem_map_of_mem hbin
    have heq := List.inj_on_of_nodup_map hnodup (hprovided entry hentry hbin)
      (hprovided entry' hentry' hbin') rfl
    exact congrArg Prod.snd heq

/-- What the parser accepts has its binary names in order. -/
theorem binsAccepted_of_parse {raw : Toml} {cfg : OrchestratorConfig}
    (h : OrchestratorConfig.parse repr raw = .ok cfg) : cfg.BinsAccepted := by
  obtain ⟨tables, -, hvalidate⟩ := bind_eq_ok.mp h
  exact binsAccepted_of_validate hvalidate

end OrchestratorConfig

end Jetty.Orchestrator
