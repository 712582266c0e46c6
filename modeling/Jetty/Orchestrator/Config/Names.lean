import Jetty.Core.Python.Anchors
import Jetty.Orchestrator.Config.Accepted

/-!
# The names of a configuration

Names end up in directories, unit names and logs. A configuration is accepted only if the pattern
admits each of its names.
-/

namespace Jetty.Orchestrator

open Failure Python

/-- The characters of `_NAME_RE`. -/
def isPlainChar (c : Char) : Bool := isLower c || isAsciiDigit c || c == '_' || c == '-'

/-- The pattern `_NAME_RE` without its anchors. -/
def isPlainName (cs : List Char) : Bool :=
  match cs with
  | [] => false
  | c :: cs => (isLower c || isAsciiDigit c) && decide (cs.length ≤ 63) && cs.all isPlainChar

/-- A plain name has between 1 and 64 characters of its character set. -/
theorem inCharset_of_isPlainName {cs : List Char} (h : isPlainName cs = true) :
    InCharset isPlainChar 1 64 cs := by
  cases cs with
  | nil => cases h
  | cons c cs =>
      rw [isPlainName, Bool.and_eq_true, Bool.and_eq_true, decide_eq_true_eq, List.all_eq_true] at h
      obtain ⟨⟨hfirst, hlength⟩, hrest⟩ := h
      refine ⟨List.forall_mem_cons.mpr ⟨?_, hrest⟩, Nat.succ_pos _, Nat.succ_le_succ hlength⟩
      rw [isPlainChar, hfirst]
      rfl

/-- The pattern is anchored. -/
theorem isName_eq_anchored (s : String) : isName s = anchored '\n' isPlainName s.toList := by
  have hname : isName s = isPlainName
      (if s.toList.getLast? = some '\n' then s.toList.dropLast else s.toList) := by
    unfold isName matchesName
    dsimp only
    split
    · rename_i hnil
      rw [hnil]
      rfl
    · rename_i c cs hcons
      rw [hcons]
      rfl
  rw [hname, anchored]
  split
  · rename_i hlast
    have hnot : isPlainName s.toList = false := by
      rw [Bool.eq_false_iff]
      intro hplain
      exact absurd ((inCharset_of_isPlainName hplain).1 _ (List.mem_of_getLast? hlast)) (by decide)
    rw [hnot, hlast, beq_self_eq_true, Bool.true_and, Bool.false_or]
  · rename_i hlast
    rw [beq_eq_false_iff_ne.mpr hlast, Bool.false_and, Bool.or_false]

namespace Take

/-- Whatever the accessors return satisfies `P`. -/
def Ensures {α : Type} (take : Take α) (P : α → Prop) : Prop :=
  ∀ loc entries v rest, (take.run loc).run entries = .ok (v, rest) → P v

variable {α β : Type} {P : α → Prop} {Q : β → Prop}

private theorem Ensures.pure {v : α} (h : P v) : Ensures (Pure.pure v) P := by
  intro loc entries w rest hrun
  cases hrun
  exact h

private theorem Ensures.liftM {a : Except ParseError α} (h : ∀ v, a = .ok v → P v) :
    Ensures (liftM a) P := by
  intro loc entries v rest hrun
  cases a with
  | error e => cases hrun
  | ok w =>
      cases hrun
      exact h v rfl

private theorem Ensures.bind {take : Take α} {f : α → Take β} (h : Ensures take P)
    (hf : ∀ v, P v → Ensures (f v) Q) : Ensures (take >>= f) Q := by
  intro loc entries w rest hrun
  obtain ⟨⟨v, entries'⟩, htake, hrest⟩ := bind_eq_ok.mp hrun
  exact hf v (h loc entries v entries' htake) loc entries' w rest hrest

/-- Nothing is asked of what is taken on the way. -/
theorem Ensures.then {take : Take α} {f : α → Take β} (hf : ∀ v, Ensures (f v) Q) :
    Ensures (take >>= f) Q :=
  Ensures.bind (fun _ _ _ _ _ => trivial) fun v (_ : True) => hf v

private theorem ensures_of_parse {repr : Toml → String} {raw : Toml} {loc : String} {take : Take α}
    (h : Ensures take P) {v : α} (hparse : Take.parse repr raw loc take = .ok v) : P v := by
  unfold Take.parse at hparse
  split at hparse
  · rename_i entries
    obtain ⟨⟨w, rest⟩, hrun, rfl⟩ := map_eq_ok.mp hparse
    obtain ⟨⟨u, entries'⟩, htake, hfinish⟩ := bind_eq_ok.mp hrun
    obtain ⟨_, -, hpure⟩ := bind_eq_ok.mp hfinish
    cases hpure
    exact h loc entries _ entries' htake
  · cases hparse

end Take

namespace OrchestratorConfig

variable {repr : Toml → String}

/-- The text is a name in the configuration. -/
inductive Names (cfg : OrchestratorConfig) (s : String) : Prop
  | inst (h : s = cfg.inst.name)
  | port (h : s ∈ cfg.ports.map Prod.fst)
  | gate (h : s ∈ cfg.gates.map Prod.fst)
  | resolver (h : s ∈ cfg.resolvers.map Prod.fst)
  | service (h : s ∈ cfg.services.map Prod.fst)
  | binary {rname : String} {resolver : ResolverConfig} (h : (rname, resolver) ∈ cfg.resolvers)
      (hs : s ∈ resolver.provides)

private theorem isName_of_checkNames {kind : String} {names : List String}
    (h : checkNames repr kind names = .ok ()) : ∀ s ∈ names, isName s = true := by
  intro s hs
  have hname := forM_eq_ok.mp h s hs
  by_contra hnot
  rw [if_neg hnot] at hname
  cases hname

private theorem isName_of_checkProvides {rname : String} {bins : List String}
    {provided provided' : List (String × String)}
    (h : checkProvides repr rname bins provided = .ok provided') :
    ∀ bin ∈ bins, isName bin = true := by
  induction bins generalizing provided with
  | nil => exact List.forall_mem_nil _
  | cons bin bins ih =>
      rw [checkProvides] at h
      split at h
      · rename_i hname
        split at h
        · cases h
        · exact List.forall_mem_cons.mpr ⟨hname, ih h⟩
      · cases h

private theorem isName_of_checkResolvers {gates : List String}
    {resolvers : List (String × ResolverConfig)} {provided provided' : List (String × String)}
    (h : checkResolvers repr gates resolvers provided = .ok provided') :
    ∀ entry ∈ resolvers, ∀ bin ∈ (withProvides entry.1 entry.2).provides, isName bin = true := by
  induction resolvers generalizing provided with
  | nil => exact List.forall_mem_nil _
  | cons entry resolvers ih =>
      obtain ⟨rname, resolver⟩ := entry
      unfold checkResolvers at h
      obtain ⟨provided₁, hprovides, h⟩ := bind_eq_ok.mp h
      by_cases hcmd : binRefs resolver.cmd = []
      · simp only [hcmd, List.isEmpty_nil, Bool.not_true, Bool.false_eq_true, if_false] at h
        split at h
        · cases h
        · exact List.forall_mem_cons.mpr ⟨isName_of_checkProvides hprovides, ih h⟩
      · simp only [List.isEmpty_eq_false_iff.mpr hcmd, Bool.not_false, if_true] at h
        cases h

private theorem isName_of_parseInstance {raw : Toml} {loc : String} {inst : InstanceConfig}
    (h : InstanceConfig.parse repr raw loc = .ok inst) : isName inst.name = true := by
  obtain ⟨inst', -, h⟩ := bind_eq_ok.mp h
  cases hname : isName inst'.name with
  | true =>
      rw [hname] at h
      cases h
      exact hname
  | false =>
      rw [hname] at h
      cases h

private theorem isName_of_parseTables {raw : Toml} {cfg : OrchestratorConfig}
    (h : parseTables repr raw = .ok cfg) : isName cfg.inst.name = true := by
  refine Take.ensures_of_parse (P := fun cfg : OrchestratorConfig => isName cfg.inst.name = true)
    (Take.Ensures.then fun table => ?_) h
  refine Take.Ensures.bind (Take.Ensures.liftM fun inst => isName_of_parseInstance) ?_
  intro inst hinst
  refine Take.Ensures.then fun ports => Take.Ensures.then fun gates => ?_
  refine Take.Ensures.then fun gates => Take.Ensures.then fun resolvers => ?_
  refine Take.Ensures.then fun resolvers => Take.Ensures.then fun services => ?_
  exact Take.Ensures.then fun services => Take.Ensures.pure hinst

/-- The pattern admits every name of an accepted configuration. -/
theorem isName_of_names {raw : Toml} {cfg : OrchestratorConfig}
    (h : OrchestratorConfig.parse repr raw = .ok cfg) {s : String} (hs : cfg.Names s) :
    isName s = true := by
  obtain ⟨tables, htables, hvalidate⟩ := bind_eq_ok.mp h
  obtain ⟨provided, order, ⟨hports, hgates, hresolvers, hservices⟩, hprovided, -, -, -, rfl⟩ :=
    validate_eq_ok hvalidate
  cases hs with
  | inst hs =>
      subst hs
      exact (isName_of_parseTables htables : isName tables.inst.name = true)
  | port hs => exact isName_of_checkNames hports s hs
  | gate hs => exact isName_of_checkNames hgates s hs
  | resolver hs =>
      rw [List.map_map] at hs
      exact isName_of_checkNames hresolvers s hs
  | service hs => exact isName_of_checkNames hservices s hs
  | binary hresolver hs =>
      obtain ⟨⟨rname, resolver⟩, hentry, heq⟩ := List.mem_map.mp hresolver
      obtain ⟨rfl, rfl⟩ := Prod.mk.inj heq
      exact isName_of_checkResolvers hprovided _ hentry s hs

end OrchestratorConfig

end Jetty.Orchestrator
