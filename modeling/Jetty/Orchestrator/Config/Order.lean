import Jetty.Core.Precedence
import Jetty.Orchestrator.Config.Accepted
import Mathlib.Data.List.Perm.Basic

/-!
# The start order

`start_order` rejects a services table exactly if its `after` relation has a cycle, and
otherwise lists the services so that each comes after everything in its `after`. The loop
keeps, for every service that remains, what it still waits for.
-/

namespace Jetty.Orchestrator

open Precedence

/-- A services table whose `after` names exist. -/
structure ServiceTable where
  entries : List (String × ServiceConfig)
  nodup : (entries.map Prod.fst).Nodup
  known : ∀ entry ∈ entries, ∀ dep ∈ entry.2.after, dep ∈ entries.map Prod.fst

namespace ServiceTable

variable (t : ServiceTable)

def names : List String := t.entries.map Prod.fst

/-- The `after` of a service; empty for other names. -/
def after (name : String) : List String :=
  match t.entries.lookup name with
  | some svc => svc.after
  | none => []

/-- The first service is in the `after` of the second. -/
def Before (dep name : String) : Prop := dep ∈ t.after name

variable {t : ServiceTable}

private theorem after_eq {entry : String × ServiceConfig} (h : entry ∈ t.entries) :
    t.after entry.1 = entry.2.after := by
  obtain ⟨before, later, heq⟩ := List.append_of_mem h
  have hnodup := t.nodup
  rw [heq, List.map_append, List.map_cons, List.nodup_append] at hnodup
  have hlookup : t.entries.lookup entry.1 = some entry.2 := by
    refine List.lookup_eq_some_iff.mpr ⟨before, later, heq, fun p hp => ?_⟩
    have hne := hnodup.2.2 p.1 (List.mem_map_of_mem hp) entry.1 (List.mem_cons_self ..)
    simpa using hne.symm
  simp only [after, hlookup]

private theorem Before.exists_entry {dep name : String} (h : t.Before dep name) :
    ∃ svc, (name, svc) ∈ t.entries ∧ dep ∈ svc.after := by
  unfold Before after at h
  split at h
  · rename_i svc hsvc
    obtain ⟨_, _, heq, -⟩ := List.lookup_eq_some_iff.mp hsvc
    exact ⟨svc, by simp [heq], h⟩
  · cases h

/-- Only services of the table come before each other. -/
theorem Before.mem_names {dep name : String} (h : t.Before dep name) :
    dep ∈ t.names ∧ name ∈ t.names := by
  obtain ⟨svc, hmem, hdep⟩ := h.exists_entry
  exact ⟨t.known _ hmem _ hdep, List.mem_map_of_mem hmem⟩

/-! ### The waves of the start order -/

/-- The loop of `start_order`: the services that remain wait for what is not in the order
yet, and the order so far is good. -/
structure Waiting (t : ServiceTable) (remaining : List (String × List String))
    (order : List String) : Prop where
  perm : (order ++ remaining.map Prod.fst).Perm t.names
  waits : ∀ entry ∈ remaining, entry.2 = (t.after entry.1).filter fun dep => dep ∉ order
  respects : Respects t.Before order

/-- `ready`. -/
def readyOf (remaining : List (String × List String)) : List String :=
  ((remaining.filter fun entry => entry.2.isEmpty).map Prod.fst).mergeSort

/-- What remains after a wave. -/
def without (ready : List String) (remaining : List (String × List String)) :
    List (String × List String) :=
  (remaining.filter fun entry => entry.1 ∉ ready).map fun entry =>
    (entry.1, entry.2.filter fun dep => dep ∉ ready)

private theorem mem_readyOf {remaining : List (String × List String)} {name : String} :
    name ∈ readyOf remaining ↔ ∃ entry ∈ remaining, entry.2 = [] ∧ entry.1 = name := by
  simp only [readyOf, List.mem_mergeSort, List.mem_map, List.mem_filter, List.isEmpty_iff,
    and_assoc]

variable {remaining : List (String × List String)} {order : List String}

private theorem Waiting.nodup (h : t.Waiting remaining order) :
    (order ++ remaining.map Prod.fst).Nodup :=
  h.perm.nodup_iff.mpr t.nodup

private theorem waiting_init : t.Waiting (t.entries.map fun entry => (entry.1, entry.2.after))
    [] where
  perm := by
    rw [List.nil_append, List.map_map]
    exact .refl _
  waits := by
    intro entry hentry
    obtain ⟨e, he, rfl⟩ := List.mem_map.mp hentry
    simp [after_eq he]
  respects := respects_nil

private theorem map_fst_without (ready : List String) :
    (without ready remaining).map Prod.fst
      = (remaining.map Prod.fst).filter fun name => name ∉ ready := by
  rw [without, List.map_map, List.filter_map]
  rfl

/-- The ready services move from what remains to the order. -/
private theorem perm_wave (hnodup : (remaining.map Prod.fst).Nodup) :
    (readyOf remaining ++ (without (readyOf remaining) remaining).map Prod.fst).Perm
      (remaining.map Prod.fst) := by
  have hsub : ∀ name ∈ readyOf remaining, name ∈ remaining.map Prod.fst := by
    intro name hname
    obtain ⟨entry, hentry, -, rfl⟩ := mem_readyOf.mp hname
    exact List.mem_map_of_mem hentry
  have hready : (readyOf remaining).Nodup := by
    rw [readyOf, (List.mergeSort_perm ..).nodup_iff]
    exact hnodup.sublist (List.filter_sublist.map _)
  rw [map_fst_without]
  refine (List.perm_ext_iff_of_nodup ?_ hnodup).mpr fun name => ?_
  · refine List.nodup_append.mpr ⟨hready, hnodup.filter _, fun a ha b hb => ?_⟩
    rintro rfl
    simpa [ha] using (List.mem_filter.mp hb).2
  · simp only [List.mem_append, List.mem_filter, decide_eq_true_eq]
    by_cases hname : name ∈ readyOf remaining
    · simp [hname, hsub name hname]
    · simp [hname]

/-- A service is ready once its `after` is in the order. -/
theorem Waiting.ready (h : t.Waiting remaining order) {name : String}
    (hname : name ∈ readyOf remaining) {dep : String} (hdep : t.Before dep name) :
    dep ∈ order := by
  obtain ⟨entry, hentry, hnil, rfl⟩ := mem_readyOf.mp hname
  have hempty := h.waits entry hentry
  rw [hnil] at hempty
  by_contra hnot
  have hmem : dep ∈ (t.after entry.1).filter fun dep => dep ∉ order :=
    List.mem_filter.mpr ⟨hdep, by simpa using hnot⟩
  rw [← hempty] at hmem
  cases hmem

private theorem Waiting.step (h : t.Waiting remaining order) :
    t.Waiting (without (readyOf remaining) remaining) (order ++ readyOf remaining) where
  perm := by
    rw [List.append_assoc]
    exact ((perm_wave h.nodup.of_append_right).append_left order).trans h.perm
  waits := by
    intro entry hentry
    obtain ⟨e, he, rfl⟩ := List.mem_map.mp hentry
    rw [h.waits e (List.mem_filter.mp he).1, List.filter_filter]
    refine List.filter_congr fun dep _ => ?_
    simp only [List.mem_append, not_or, Bool.decide_and, Bool.and_comm]
  respects := h.respects.append fun _ hname _ hdep => h.ready hname hdep

/-- If nothing is ready, the services that remain wait for each other. -/
theorem Waiting.cyclic (h : t.Waiting remaining order) (hne : remaining ≠ [])
    (hready : readyOf remaining = []) : Cyclic t.Before := by
  by_contra hcyclic
  have hmap : remaining.map Prod.fst ≠ [] := by simpa using hne
  obtain ⟨name, hname, hfirst⟩ := exists_first hcyclic hmap
  obtain ⟨entry, hentry, rfl⟩ := List.mem_map.mp hname
  have hwaits : entry.2 = [] := by
    rw [h.waits entry hentry, List.filter_eq_nil_iff]
    intro dep hdep hnot
    have hmem : dep ∈ order ++ remaining.map Prod.fst :=
      h.perm.mem_iff.mpr (Before.mem_names hdep).1
    rcases List.mem_append.mp hmem with hdone | hleft
    · simp [hdone] at hnot
    · exact hfirst dep hleft hdep
  have hmem : entry.1 ∈ readyOf remaining := mem_readyOf.mpr ⟨entry, hentry, hwaits, rfl⟩
  rw [hready] at hmem
  cases hmem

private theorem startWaves_cons {n : ℕ} {entry : String × List String}
    {rest : List (String × List String)} :
    startWaves (n + 1) (entry :: rest) order =
      if (readyOf (entry :: rest)).isEmpty then
        let cycle := ", ".intercalate ((entry :: rest).map Prod.fst).mergeSort
        .error (.config s!"`after` dependencies form a cycle among: {cycle}")
      else startWaves n (without (readyOf (entry :: rest)) (entry :: rest))
        (order ++ readyOf (entry :: rest)) := by
  rw [startWaves]
  · rfl
  · exact List.cons_ne_nil _ _

/-- The waves end with an order of all services, or find a cycle. -/
theorem Waiting.startWaves {n : ℕ} (h : t.Waiting remaining order) (hn : remaining.length ≤ n) :
    (∃ order', startWaves n remaining order = .ok order' ∧ order'.Perm t.names ∧
        Respects t.Before order') ∨
      Cyclic t.Before ∧ ∃ message, startWaves n remaining order = .error (.config message) := by
  induction n generalizing remaining order with
  | zero =>
      obtain rfl := List.length_eq_zero_iff.mp (Nat.le_zero.mp hn)
      exact .inl ⟨order, by simp [Orchestrator.startWaves], by simpa using h.perm, h.respects⟩
  | succ n ih =>
      cases remaining with
      | nil =>
          exact .inl ⟨order, by simp [Orchestrator.startWaves], by simpa using h.perm, h.respects⟩
      | cons entry rest =>
          rw [startWaves_cons]
          by_cases hready : readyOf (entry :: rest) = []
          · right
            rw [if_pos (List.isEmpty_iff.mpr hready)]
            exact ⟨h.cyclic (List.cons_ne_nil _ _) hready, _, rfl⟩
          · rw [if_neg (mt List.isEmpty_iff.mp hready)]
            refine ih h.step ?_
            have hperm := (perm_wave h.nodup.of_append_right).length_eq
            have hpos := List.length_pos_of_ne_nil hready
            simp only [List.length_append, List.length_map] at hperm
            omega

/-- `start_order` accepts a table without a cycle, with an order of all its services that
respects `after`, and raises `ConfigError` for a table with one. -/
theorem startOrder_cases (t : ServiceTable) :
    (¬ Cyclic t.Before ∧ ∃ order, startOrder t.entries = .ok order ∧ order.Perm t.names ∧
        Respects t.Before order) ∨
      Cyclic t.Before ∧ ∃ message, startOrder t.entries = .error (.config message) := by
  rcases (waiting_init (t := t)).startWaves (List.length_map _).le with
    ⟨order, hok, hperm, hrespects⟩ | hcyclic
  · exact .inl ⟨hrespects.not_cyclic fun _ _ hr =>
      hperm.mem_iff.mpr (Before.mem_names hr).2, order, hok, hperm, hrespects⟩
  · exact .inr hcyclic

/-- The validation leaves a table whose `after` names exist and form no cycle. -/
theorem exists_of_validate {repr : Toml → String} {cfg cfg' : OrchestratorConfig}
    (h : cfg.validate repr = .ok cfg') (hkeys : (cfg.services.map Prod.fst).Nodup) :
    ∃ t : ServiceTable, t.entries = cfg'.services ∧ ¬ Cyclic t.Before := by
  obtain ⟨provided, order, -, -, -, hservices, horder, rfl⟩ := OrchestratorConfig.validate_eq_ok h
  have hknown : ∀ entry ∈ cfg.services, ∀ dep ∈ entry.2.after,
      dep ∈ cfg.services.map Prod.fst := by
    intro entry hentry dep hdep
    obtain ⟨_, hafter, -⟩ := Failure.bind_eq_ok.mp (hservices entry hentry)
    have hcheck := Failure.forM_eq_ok.mp hafter dep hdep
    unfold OrchestratorConfig.checkDep at hcheck
    split at hcheck
    · cases hcheck
    · split at hcheck
      · assumption
      · cases hcheck
  let t : ServiceTable := ⟨cfg.services, hkeys, hknown⟩
  refine ⟨t, rfl, fun hcyclic => ?_⟩
  rcases startOrder_cases t with ⟨hnot, -⟩ | ⟨-, message, herror⟩
  · exact hnot hcyclic
  · exact nomatch horder.symm.trans herror

end ServiceTable

end Jetty.Orchestrator
