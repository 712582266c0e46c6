import Jetty.Modules.Functions.Names
import Jetty.Orchestrator.Config.Names

/-!
# Charsets of the names

The gates in front of revsets, command lines, and the names of files and of cgroups, each with the
charset it is meant to admit.
-/

namespace Jetty

open Python

section Texts

variable (repr : Text → Text)

private theorem inCharset_of_isRev {s : Text} (h : Hg.isRev s = true) :
    InCharset Hg.isRevChar 1 120 s := by
  rw [Hg.isRev, Bool.and_eq_true, Bool.and_eq_true, decide_eq_true_eq, List.all_eq_true] at h
  obtain ⟨⟨hne, hlength⟩, hchars⟩ := h
  rw [Bool.not_eq_true', List.isEmpty_eq_false_iff] at hne
  exact ⟨hchars, List.length_pos_of_ne_nil hne, hlength⟩

private theorem guards_checkRev_iff (s : Text) :
    Guards (Hg.checkRev repr s) ⟨.invalidRequest, text "invalid revision " ++ repr s⟩
      Hg.isRevChar 1 120 s ↔ ¬ Trails Text.newline Hg.isRev s :=
  guards_iff (fun _ => inCharset_of_isRev) (by decide) _ s

private theorem guards_checkName_iff (s : Text) :
    Guards (Functions.checkName repr s)
      ⟨.invalidRequest, text "invalid function name " ++ repr s⟩ Functions.isNameChar 1 128 s ↔
      ¬ Trails Text.newline Functions.isName s :=
  guards_iff (fun _ => Functions.inCharset_of_isName) (by decide) _ s

private theorem guards_checkExecName_iff (s : Text) :
    Guards (Functions.checkExecName repr s)
      (text "functions.exec: " ++ repr s ++
        text " is not a valid function name (functions-v1 §2)") Functions.isNameChar 1 128 s ↔
      ¬ Trails Text.newline Functions.isName s :=
  guards_iff (fun _ => Functions.inCharset_of_isName) (by decide) _ s

end Texts

namespace Orchestrator

variable {repr : Toml → String}

/-- A gate that answers with its error unless the pattern admits the name. -/
theorem guards_isName_iff {answer : Except ParseError Unit} {error : ParseError} {s : String}
    (h : answer = if isName s then .ok () else .error error) :
    Guards answer error isPlainChar 1 64 s.toList ↔ ¬ Trails '\n' isPlainName s.toList := by
  rw [h, isName_eq_anchored]
  exact guards_iff (fun _ => inCharset_of_isPlainName) (by decide) error s.toList

private theorem checkNames_singleton (kind s : String) :
    OrchestratorConfig.checkNames repr kind [s] =
      if isName s then .ok ()
      else .error (.config
        s!"{kind} key {OrchestratorConfig.reprStr repr s} must match {namePattern}") := by
  cases hname : isName s with
  | true =>
      rw [OrchestratorConfig.checkNames, List.forM, hname]
      rfl
  | false =>
      rw [OrchestratorConfig.checkNames, List.forM, hname]
      rfl

private theorem checkProvides_singleton (rname s : String) :
    (OrchestratorConfig.checkProvides repr rname [s] []).map (fun _ => ()) =
      if isName s then .ok ()
      else .error (.config
        (s!"resolvers.{rname} provides {OrchestratorConfig.reprStr repr s}, which must " ++
          s!"match {namePattern}")) := by
  cases hname : isName s with
  | true =>
      rw [OrchestratorConfig.checkProvides, hname]
      rfl
  | false =>
      rw [OrchestratorConfig.checkProvides, hname]
      rfl

private theorem parseInstance_singleton (s : String) :
    (InstanceConfig.parse repr (.table [("name", .str s)]) "instance").map (fun _ => ()) =
      if isName s then .ok ()
      else .error (.config
        s!"instance.name {OrchestratorConfig.reprStr repr s} must match {namePattern}") := by
  have htake : InstanceConfig.parse repr (.table [("name", .str s)]) "instance" =
      if !isName s then .error (.config s!"instance.name {repr (.str s)} must match {namePattern}")
      else .ok { name := s, containment := .auto, workdir := none } := rfl
  rw [htake]
  cases isName s <;> rfl

/-- Every gate admits exactly its charset, and refuses the rest with its error, for the texts that
no newline trails. So does a configuration as a whole for each of its names. -/
theorem charsets_iff (repr : Text → Text) (toml : Toml → String) :
    (∀ s : Text,
      (Guards (Hg.checkRev repr s) ⟨.invalidRequest, text "invalid revision " ++ repr s⟩
        Hg.isRevChar 1 120 s ↔ ¬ Trails Text.newline Hg.isRev s) ∧
      (Guards (Functions.checkName repr s)
        ⟨.invalidRequest, text "invalid function name " ++ repr s⟩ Functions.isNameChar 1 128 s ↔
        ¬ Trails Text.newline Functions.isName s) ∧
      (Guards (Functions.checkExecName repr s)
        (text "functions.exec: " ++ repr s ++
          text " is not a valid function name (functions-v1 §2)") Functions.isNameChar 1 128 s ↔
        ¬ Trails Text.newline Functions.isName s)) ∧
    (∀ s : String,
      (∀ kind, Guards (OrchestratorConfig.checkNames toml kind [s])
        (.config s!"{kind} key {OrchestratorConfig.reprStr toml s} must match {namePattern}")
        isPlainChar 1 64 s.toList ↔ ¬ Trails '\n' isPlainName s.toList) ∧
      (∀ rname, Guards ((OrchestratorConfig.checkProvides toml rname [s] []).map fun _ => ())
        (.config (s!"resolvers.{rname} provides {OrchestratorConfig.reprStr toml s}, which must " ++
          s!"match {namePattern}"))
        isPlainChar 1 64 s.toList ↔ ¬ Trails '\n' isPlainName s.toList) ∧
      (Guards
        ((InstanceConfig.parse toml (.table [("name", .str s)]) "instance").map fun _ => ())
        (.config s!"instance.name {OrchestratorConfig.reprStr toml s} must match {namePattern}")
        isPlainChar 1 64 s.toList ↔ ¬ Trails '\n' isPlainName s.toList)) ∧
    ∀ raw cfg, OrchestratorConfig.parse toml raw = .ok cfg → ∀ s, cfg.Names s →
      (InCharset isPlainChar 1 64 s.toList ↔ ¬ Trails '\n' isPlainName s.toList) := by
  refine ⟨fun s => ⟨guards_checkRev_iff repr s, guards_checkName_iff repr s,
    guards_checkExecName_iff repr s⟩, fun s => ⟨fun kind => ?_, fun rname => ?_, ?_⟩, ?_⟩
  · exact guards_isName_iff (checkNames_singleton kind s)
  · exact guards_isName_iff (checkProvides_singleton rname s)
  · exact guards_isName_iff (parseInstance_singleton s)
  · intro raw cfg hparse s hs
    have hname := OrchestratorConfig.isName_of_names hparse hs
    rw [isName_eq_anchored] at hname
    exact inCharset_iff (fun _ => inCharset_of_isPlainName) (by decide) hname

private def served : Toml :=
  .table [("instance", .table [("name", .str "demo")]),
    ("services", .table [("web", .table [("cmd", .list [.str "serve"])])])]

private theorem served_parses : ∃ cfg,
    OrchestratorConfig.parse (fun _ => "") served = .ok cfg ∧ cfg.Names "web" := by
  have hservices : ((OrchestratorConfig.parse (fun _ => "") served).toOption.map fun cfg =>
      cfg.services.map Prod.fst) = some ["web"] := by decide +kernel
  cases hparse : OrchestratorConfig.parse (fun _ => "") served with
  | error e =>
      rw [hparse] at hservices
      cases hservices
  | ok cfg =>
      rw [hparse] at hservices
      have hnames : cfg.services.map Prod.fst = ["web"] := Option.some.inj hservices
      exact ⟨cfg, rfl, .service (hnames ▸ List.mem_singleton_self _)⟩

/-- A revision, a function and a service with plain names. -/
theorem charsets_plain :
    Guards (Hg.checkRev id (text "tip")) ⟨.invalidRequest, text "invalid revision tip"⟩
        Hg.isRevChar 1 120 (text "tip") ∧
      Guards (Functions.checkName id (text "f")) ⟨.invalidRequest, text "invalid function name f"⟩
        Functions.isNameChar 1 128 (text "f") ∧
      ∃ cfg, OrchestratorConfig.parse (fun _ => "") served = .ok cfg ∧ cfg.Names "web" ∧
        InCharset isPlainChar 1 64 "web".toList := by
  obtain ⟨htexts, -, hconfigs⟩ := charsets_iff id fun _ => ""
  obtain ⟨cfg, hparse, hweb⟩ := served_parses
  have hplain {α : Type} [DecidableEq α] {newline : α} {full : List α → Bool} {s : List α}
      (hlast : s.getLast? ≠ some newline) : ¬ Trails newline full s := by
    rintro ⟨t, rfl, -⟩
    exact hlast List.getLast?_concat
  refine ⟨(htexts _).1.mpr (hplain (by decide)), (htexts _).2.1.mpr (hplain (by decide)), ?_⟩
  exact ⟨cfg, hparse, hweb, (hconfigs _ cfg hparse "web" hweb).mpr (hplain (by decide))⟩

/-- A newline at the end is accepted. -/
theorem not_charsets : ¬ ∀ (repr : Text → Text) (s : Text),
    Guards (Hg.checkRev repr s) ⟨.invalidRequest, text "invalid revision " ++ repr s⟩
      Hg.isRevChar 1 120 s := by
  intro h
  refine (guards_checkRev_iff id (text "tip\n")).mp (h id _) ⟨text "tip", ?_, ?_⟩
  · decide
  · decide

end Orchestrator

end Jetty
