import Jetty.Orchestrator.Config.Accepted
import Jetty.Orchestrator.Render.Lookups
import Mathlib.Data.List.Dedup

/-!
# The names that the contexts have

The check knows every binary, the static rendering none, and a service the binaries of the
resolvers that its own references select. Otherwise the contexts have the same names.
-/

namespace Jetty.Orchestrator

/-- A context says nothing of a name exactly if the name is not among its keys. -/
theorem lookup_eq_none {ctx : Context} {name : String} :
    ctx.lookup name = none ↔ name ∉ ctx.map Prod.fst := by
  simp only [List.lookup_eq_none_iff, List.mem_map, not_exists, not_and, bne_iff_ne, ne_eq]
  exact forall₂_congr fun entry _ => not_congr eq_comm

/-- A placeholder is missing exactly if it names neither a variable of the environment nor a key. -/
theorem missing_iff {ctx : Context} {name : String} :
    Missing ctx name ↔ envField name = none ∧ name ∉ ctx.map Prod.fst := by
  rw [Missing, lookup_eq_none]

/-- The names that every context of a configuration has. -/
def staticKeys (ports : List (String × Toml)) : List String :=
  ["instance.name", "state_dir", "logs_dir", "home"] ++
    ports.map fun (name, _) => "ports." ++ name

/-- The keys of `build_context` do not depend on the instance. -/
theorem keys_buildContext (host : Host) (name stateDir logsDir : String)
    (ports : List (String × Toml)) (port : String → ℕ) :
    (buildContext host name (ports.map fun (name, _) => (name, port name)) stateDir logsDir).map
      Prod.fst = staticKeys ports := by
  simp [buildContext, staticKeys]

/-- Every launch of the instance has the static keys. -/
theorem staticKeys_subset (host : Host) (name stateDir logsDir : String)
    (ports : List (String × Toml)) (port : String → ℕ) :
    staticKeys ports ⊆ (buildContext host name
      (ports.map fun (name, _) => (name, port name)) stateDir logsDir).map Prod.fst := by
  rw [keys_buildContext]
  exact List.Subset.refl _

/-- The name of a binary's placeholder leads back to the binary. -/
theorem binName_append (bin : String) : binName ("bin." ++ bin) = some bin := by
  have hlist : ("bin." ++ bin).toList = 'b' :: 'i' :: 'n' :: '.' :: bin.toList := by
    rw [String.toList_append]
    rfl
  simp [binName, hlist]

/-- A placeholder of a binary is its name behind `bin.`. -/
theorem eq_of_binName {name bin : String} (h : binName name = some bin) :
    name = "bin." ++ bin := by
  unfold binName at h
  split at h
  · rename_i hbegins
    obtain ⟨rest, hrest⟩ := hbegins
    obtain rfl := Option.some.inj h
    have hdrop : (String.ofList (name.toList.drop 4)).toList = rest := by
      rw [String.toList_ofList, ← hrest]
      exact List.drop_left' rfl
    apply String.toList_injective
    rw [String.toList_append, hdrop, hrest]
  · cases h

/-- The placeholder of a binary names no variable of the environment. -/
theorem envField_bin (bin : String) : envField ("bin." ++ bin) = none := by
  have hlist : ("bin." ++ bin).toList = 'b' :: 'i' :: 'n' :: '.' :: bin.toList := by
    rw [String.toList_append]
    rfl
  simp [envField, hlist]

/-- No static key is a binary's. -/
theorem binName_of_mem_staticKeys {ports : List (String × Toml)} {name : String}
    (h : name ∈ staticKeys ports) : binName name = none := by
  simp only [staticKeys, List.mem_append, List.mem_cons, List.not_mem_nil, or_false,
    List.mem_map] at h
  rcases h with (rfl | rfl | rfl | rfl) | ⟨⟨port, want⟩, -, rfl⟩
  any_goals rfl
  have hlist : ("ports." ++ port).toList =
      'p' :: 'o' :: 'r' :: 't' :: 's' :: '.' :: port.toList := by
    rw [String.toList_append]
    rfl
  simp [binName, hlist]

/-- A context whose keys are static ones and those of binaries has no number among them. -/
theorem lettered_of_keys {ctx : Context} (ports : List (String × Toml))
    (h : ∀ key ∈ ctx.map Prod.fst, key ∈ staticKeys ports ∨ ∃ bin, key = "bin." ++ bin) :
    Lettered ctx := by
  intro n
  rw [lookup_eq_none]
  intro hn
  rcases h _ hn with hkey | ⟨bin, hkey⟩
  · simp only [staticKeys, List.mem_append, List.mem_cons, List.not_mem_nil, or_false,
      List.mem_map] at hkey
    rcases hkey with (hkey | hkey | hkey | hkey) | ⟨⟨port, want⟩, -, hkey⟩
    · exact ne_toString_of_mem (c := 'i') (by decide) rfl n hkey
    · exact ne_toString_of_mem (c := 's') (by decide) rfl n hkey
    · exact ne_toString_of_mem (c := 'l') (by decide) rfl n hkey
    · exact ne_toString_of_mem (c := 'h') (by decide) rfl n hkey
    · refine ne_toString_of_mem (c := 'p') ?_ rfl n hkey.symm
      rw [String.toList_append]
      exact List.mem_append_left _ (by decide)
  · refine ne_toString_of_mem (c := 'b') ?_ rfl n hkey
    rw [String.toList_append]
    exact List.mem_append_left _ (by decide)

section Configuration

variable {cfg : OrchestratorConfig}

/-- Some resolver provides the binary. -/
def Provided (cfg : OrchestratorConfig) (bin : String) : Prop :=
  ∃ entry ∈ cfg.resolvers, bin ∈ entry.2.provides

/-- The check of a configuration knows the static keys and the binaries that some resolver provides.
-/
theorem mem_keys_checkContext {host : Host} {name : String} :
    name ∈ (checkContext host cfg).map Prod.fst ↔
      name ∈ staticKeys cfg.ports ∨ ∃ bin, Provided cfg bin ∧ name = "bin." ++ bin := by
  unfold checkContext
  rw [List.map_append, List.mem_append, keys_buildContext host _ _ _ cfg.ports fun _ => 1]
  refine or_congr_right ?_
  simp only [List.map_flatMap, List.map_map, List.mem_flatMap, List.mem_map, Function.comp,
    Provided]
  constructor
  · rintro ⟨entry, hentry, bin, hbin, rfl⟩
    exact ⟨bin, ⟨entry, hentry, hbin⟩, rfl⟩
  · rintro ⟨bin, ⟨entry, hentry, hbin⟩, rfl⟩
    exact ⟨entry, hentry, bin, hbin, rfl⟩

private theorem byBin_eq_some {bin rname : String} (h : byBin cfg.resolvers bin = some rname) :
    ∃ entry ∈ cfg.resolvers, bin ∈ entry.2.provides ∧ entry.1 = rname := by
  obtain ⟨entry, hfind, rfl⟩ := Option.map_eq_some_iff.mp h
  refine ⟨entry, List.mem_reverse.mp (List.mem_of_find?_eq_some hfind), ?_, rfl⟩
  simpa using List.find?_some hfind

private theorem exists_byBin {bin : String} (h : Provided cfg bin) :
    ∃ rname, byBin cfg.resolvers bin = some rname := by
  obtain ⟨entry, hentry, hbin⟩ := h
  refine Option.isSome_iff_exists.mp ?_
  rw [byBin, Option.isSome_map, List.find?_isSome]
  exact ⟨entry, List.mem_reverse.mpr hentry, by simpa using hbin⟩

/-- The context of a service has the binaries of the resolvers behind its references. -/
theorem mem_keys_contextFor (hbins : cfg.BinsAccepted) {path : String → String}
    {refs : List String} {name : String} :
    name ∈ (contextFor cfg.resolvers path refs).map Prod.fst ↔
      ∃ bin, Provided cfg bin ∧ name = "bin." ++ bin ∧
        ∃ ref ∈ refs, byBin cfg.resolvers ref = byBin cfg.resolvers bin := by
  simp only [contextFor, resolverNames, List.map_flatMap, List.map_map, List.mem_flatMap,
    List.mem_mergeSort, List.mem_dedup, List.mem_filterMap, List.mem_filter, decide_eq_true_eq,
    List.mem_map, Function.comp]
  constructor
  · rintro ⟨rname, ⟨ref, href, hrname⟩, entry, ⟨hentry, rfl⟩, bin, hbin, rfl⟩
    refine ⟨bin, ⟨entry, hentry, hbin⟩, rfl, ref, href, ?_⟩
    obtain ⟨rname', hrname'⟩ := exists_byBin ⟨entry, hentry, hbin⟩
    obtain ⟨entry', hentry', hbin', rfl⟩ := byBin_eq_some hrname'
    rw [hrname, hrname', hbins.provider entry hentry entry' hentry' bin hbin hbin']
  · rintro ⟨bin, hprovided, rfl, ref, href, heq⟩
    obtain ⟨rname, hrname⟩ := exists_byBin hprovided
    obtain ⟨entry, hentry, hbin, rfl⟩ := byBin_eq_some hrname
    exact ⟨entry.1, ⟨ref, href, heq.trans hrname⟩, entry, ⟨hentry, rfl⟩, bin, hbin, rfl⟩

end Configuration

end Jetty.Orchestrator
