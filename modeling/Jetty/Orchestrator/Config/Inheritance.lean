import Jetty.Core.Failure
import Jetty.Orchestrator.Config.Extends
import Mathlib.Data.List.Nodup

/-!
# The result of inheritance

What `merge_raw` leaves at each key path, and what `load_raw` returns: a chain of files is followed
until it ends or comes to a file again, and the tables are merged from its far end.
-/

namespace Jetty.Orchestrator

/-! ### One merge -/

section Merging

variable {base override table : List (String × Toml)} {key key' : String} {value : Toml}

private theorem lookup_overwrite :
    (table.map fun e => if e.1 = key then (key, value) else e).lookup key' =
      if key' = key ∧ key ∈ table.map Prod.fst then some value else table.lookup key' := by
  induction table with
  | nil => simp
  | cons e table ih =>
      obtain ⟨k, v⟩ := e
      rw [List.map_cons, List.lookup_cons, ih, List.lookup_cons]
      grind

@[simp] theorem lookup_setKey : (setKey table key value).lookup key' =
    if key' = key then some value else table.lookup key' := by
  unfold setKey
  split
  · rename_i hmem
    rw [lookup_overwrite]
    grind
  · rename_i hmem
    have hnone : table.lookup key = none := by
      rw [List.lookup_eq_none_iff]
      intro e he
      rw [bne_iff_ne]
      rintro rfl
      exact hmem (List.mem_map_of_mem he)
    rw [List.lookup_append, List.lookup_cons, List.lookup_nil]
    grind

@[simp] theorem lookup_popKey :
    (popKey table key).lookup key' = if key' = key then none else table.lookup key' := by
  unfold popKey
  induction table with
  | nil => simp
  | cons e table ih =>
      obtain ⟨k, v⟩ := e
      rw [List.filter_cons, List.lookup_cons]
      grind

/-- What one key is merged to. -/
def mergedEntry : Option Toml → Toml → Option Toml
  | some (.table inherited), .table value => some (.table (mergeRaw inherited value))
  | some (.table _), .bool false => none
  | _, value => some value

/-- The effect of one entry of the override. -/
def putEntry (base : List (String × Toml)) (key : String) : Option Toml → List (String × Toml)
  | some value => setKey base key value
  | none => popKey base key

private theorem mergeRaw_cons_plain (htable : ∀ entries, value ≠ .table entries)
    (hfalse : value ≠ .bool false) :
    mergeRaw base ((key, value) :: override) =
      mergeRaw (putEntry base key (mergedEntry (base.lookup key) value)) override := by
  have hentry : mergedEntry (base.lookup key) value = some value := by
    cases base.lookup key with
    | none => rfl
    | some v =>
        unfold mergedEntry
        split
        · exact absurd rfl (htable _)
        · exact absurd rfl hfalse
        · rfl
  rw [hentry, mergeRaw]
  · rfl
  · exact htable
  · exact hfalse

private theorem mergeRaw_cons : mergeRaw base ((key, value) :: override) =
    mergeRaw (putEntry base key (mergedEntry (base.lookup key) value)) override := by
  cases value with
  | table entries =>
      rw [mergeRaw]
      cases base.lookup key with
      | none => rfl
      | some v => cases v <;> rfl
  | bool b =>
      cases b with
      | false =>
          rw [mergeRaw]
          cases base.lookup key with
          | none => rfl
          | some v => cases v <;> rfl
      | true => exact mergeRaw_cons_plain (by simp) (by simp)
  | _ => exact mergeRaw_cons_plain (by simp) (by simp)

private theorem lookup_putEntry {v : Option Toml} :
    (putEntry base key v).lookup key' = if key' = key then v else base.lookup key' := by
  cases v with
  | none => exact lookup_popKey
  | some v => exact lookup_setKey

private theorem lookup_mergeRaw_of_not_mem (h : key ∉ override.map Prod.fst) :
    (mergeRaw base override).lookup key = base.lookup key := by
  induction override generalizing base with
  | nil => rw [mergeRaw]
  | cons e override ih =>
      rw [List.map_cons, List.mem_cons, not_or] at h
      rw [mergeRaw_cons, ih h.2, lookup_putEntry, if_neg h.1]

/-- A key of the override is merged with what the base has there. -/
theorem lookup_mergeRaw (hnodup : (override.map Prod.fst).Nodup)
    (h : override.lookup key = some value) :
    (mergeRaw base override).lookup key = mergedEntry (base.lookup key) value := by
  induction override generalizing base with
  | nil => cases h
  | cons e override ih =>
      obtain ⟨k, v⟩ := e
      rw [List.map_cons, List.nodup_cons] at hnodup
      rw [mergeRaw_cons]
      by_cases hkey : key = k
      · subst hkey
        rw [List.lookup_cons_self] at h
        obtain rfl := Option.some.inj h
        rw [lookup_mergeRaw_of_not_mem hnodup.1, lookup_putEntry, if_pos rfl]
      · have hne : (key == k) = false := beq_eq_false_iff_ne.mpr hkey
        rw [List.lookup_cons, hne] at h
        rw [ih hnodup.2 h, lookup_putEntry, if_neg hkey]

/-- No key occurs twice, in the table and in the tables below it. -/
inductive DistinctKeys : List (String × Toml) → Prop
  | mk {table : List (String × Toml)} : (table.map Prod.fst).Nodup →
      (∀ key entries, table.lookup key = some (.table entries) → DistinctKeys entries) →
      DistinctKeys table

/-- The value at a key path below a value. -/
def valueIn : List String → Toml → Option Toml
  | [], value => some value
  | key :: keys, .table entries => (entries.lookup key).bind (valueIn keys)
  | _ :: _, _ => none

/-- The value at a key path of a merged table, as documented: what the override does not mention is
inherited, tables are merged recursively, `false` deletes an inherited table, and everything else
replaces what was there. -/
def mergedAt (base override : List (String × Toml)) : List String → Option Toml
  | [] => some (.table (mergeRaw base override))
  | key :: keys =>
    match override.lookup key, base.lookup key with
    | none, inherited => inherited.bind (valueIn keys)
    | some (.table value), some (.table inherited) => mergedAt inherited value keys
    | some (.bool false), some (.table _) => none
    | some value, _ => valueIn keys value

private theorem valueIn_mergeRaw (h : DistinctKeys override) (base : List (String × Toml))
    (keys : List String) :
    valueIn keys (.table (mergeRaw base override)) = mergedAt base override keys := by
  induction keys generalizing base override with
  | nil => rfl
  | cons key keys ih =>
      obtain ⟨hnodup, hbelow⟩ := h
      rw [valueIn, mergedAt]
      split
      · rename_i hnone
        have hmem : key ∉ override.map Prod.fst := by
          intro hmem
          obtain ⟨e, he, rfl⟩ := List.mem_map.mp hmem
          exact absurd (List.lookup_eq_none_iff.mp hnone e he) (by simp)
        rw [lookup_mergeRaw_of_not_mem hmem]
      · rename_i value inherited hvalue hinherited
        rw [lookup_mergeRaw hnodup hvalue, hinherited, mergedEntry, Option.bind_some]
        exact ih (hbelow key value hvalue) inherited
      · rename_i inherited hvalue hinherited
        rw [lookup_mergeRaw hnodup hvalue, hinherited, mergedEntry, Option.bind_none]
      · rename_i value hvalue htable hfalse
        have hentry : mergedEntry (base.lookup key) value = some value := by
          unfold mergedEntry
          split
          · rename_i inherited entries hinherited
            exact absurd rfl (htable _ _ hinherited)
          · rename_i inherited hinherited
            exact absurd rfl (hfalse _ hinherited)
          · rfl
        rw [lookup_mergeRaw hnodup hvalue, hentry, Option.bind_some]

end Merging

/-! ### The chain -/

section Chains

variable (host : Host) (files : String → ReadOutcome)

/-- What the file of a resolved path contributes, and which path it extends; nothing where it
cannot be loaded or its link cannot be followed. -/
def contribution (real : String) : Option (List (String × Toml) × Option String) :=
  match files real with
  | .parsed raw =>
    match raw.lookup "extends" with
    | none => some (raw, none)
    | some (.str value) =>
      match resolveExtends host value (parentDir real) with
      | .ok parent => some (popKey raw "extends", some parent)
      | .error _ => none
    | some _ => none
  | _ => none

/-- The path that the file of a resolved path extends. -/
def parentOf (real : String) : Option String := (contribution host files real).bind Prod.snd

/-- The paths that the chain of a file comes to. -/
def visited (path : String) : ℕ → Option String
  | 0 => some path
  | n + 1 => (visited path n).bind fun p => parentOf host files (host.realpath p)

/-- The chain comes to a file again. -/
def Revisits (path : String) : Prop :=
  ∃ i j p q, i < j ∧ visited host files path i = some p ∧ visited host files path j = some q ∧
    host.realpath p = host.realpath q

/-- Every file of the chain can be loaded, and its link followed. -/
def AllLoad (path : String) : Prop :=
  ∀ n p, visited host files path n = some p → (contribution host files (host.realpath p)).isSome

/-- The tables of a chain that ends, the file itself first. -/
inductive Chain : String → List (List (String × Toml)) → Prop
  | last {path : String} {table : List (String × Toml)} :
      contribution host files (host.realpath path) = some (table, none) → Chain path [table]
  | next {path parent : String} {table : List (String × Toml)}
      {tables : List (List (String × Toml))} :
      contribution host files (host.realpath path) = some (table, some parent) →
      Chain parent tables → Chain path (table :: tables)

/-- The merge of a chain, from its far end. -/
def mergeChain : List (List (String × Toml)) → List (String × Toml)
  | [] => []
  | [table] => table
  | table :: tables => mergeRaw (mergeChain tables) table

variable {host files} {path parent : String} {seen : List String} {fuel : ℕ}
  {result : Except LoadError (List (String × Toml))}

variable (files) in
/-- `load_raw` of a file that was not seen before, by what the file contributes; a file that
contributes nothing has an error of its own. -/
theorem loadRaw_unseen (hnew : host.realpath path ∉ seen) :
    ∃ e, ∀ fuel, loadRaw host files (fuel + 1) path seen =
      match contribution host files (host.realpath path) with
      | none => some (.error e)
      | some (table, none) => some (.ok table)
      | some (table, some parent) =>
          (loadRaw host files fuel parent (host.realpath path :: seen)).map fun result =>
            result.map fun base => mergeRaw base table := by
  simp only [loadRaw, if_neg hnew, contribution]
  cases hfile : files (host.realpath path) with
  | parsed raw =>
      dsimp only
      cases hlookup : raw.lookup "extends" with
      | none => exact ⟨.config "", fun _ => rfl⟩
      | some value =>
          cases value with
          | str value =>
              dsimp only
              cases hparent : resolveExtends host value (parentDir (host.realpath path)) with
              | error e => exact ⟨_, fun _ => rfl⟩
              | ok parent => exact ⟨.config "", fun _ => rfl⟩
          | _ => exact ⟨_, fun _ => rfl⟩
  | _ => exact ⟨_, fun _ => rfl⟩

private theorem loadRaw_of_contribution {table : List (String × Toml)} {next : Option String}
    (hnew : host.realpath path ∉ seen)
    (h : contribution host files (host.realpath path) = some (table, next)) :
    loadRaw host files (fuel + 1) path seen =
      match next with
      | none => some (.ok table)
      | some parent =>
          (loadRaw host files fuel parent (host.realpath path :: seen)).map fun result =>
            result.map fun base => mergeRaw base table := by
  obtain ⟨e, hload⟩ := loadRaw_unseen files hnew
  cases next with
  | none => simp only [hload, h]
  | some parent => simp only [hload, h]

/-- A file that cannot be loaded or followed ends the chain with an error. -/
theorem loadRaw_of_no_contribution (hnew : host.realpath path ∉ seen)
    (h : contribution host files (host.realpath path) = none) :
    ∃ e, ∀ fuel, loadRaw host files (fuel + 1) path seen = some (.error e) := by
  obtain ⟨e, hload⟩ := loadRaw_unseen files hnew
  exact ⟨e, fun fuel => by rw [hload, h]⟩

private theorem loadRaw_of_seen (h : host.realpath path ∈ seen) : loadRaw host files
    (fuel + 1) path seen = some (.error (.config s!"extends cycle involving {path}")) := by
  rw [loadRaw, if_pos h]

private theorem parentOf_of_contribution {table : List (String × Toml)} {next : Option String}
    (h : contribution host files (host.realpath path) = some (table, next)) :
    parentOf host files (host.realpath path) = next := by
  rw [parentOf, h, Option.bind_some]

private theorem visited_succ (h : parentOf host files (host.realpath path) = some parent) (n : ℕ) :
    visited host files path (n + 1) = visited host files parent n := by
  induction n with
  | zero => exact h
  | succ n ih => rw [visited, ih, visited]

private theorem AllLoad.next (h : AllLoad host files path)
    (hparent : parentOf host files (host.realpath path) = some parent) :
    AllLoad host files parent := fun n p hp => h (n + 1) p ((visited_succ hparent n).trans hp)

/-- What is returned is the merge of a chain that ends. -/
theorem chain_of_ok {table : List (String × Toml)}
    (h : loadRaw host files fuel path seen = some (.ok table)) :
    ∃ tables, Chain host files path tables ∧ table = mergeChain tables := by
  induction fuel generalizing path seen table with
  | zero => cases h
  | succ fuel ih =>
      by_cases hseen : host.realpath path ∈ seen
      · rw [loadRaw_of_seen hseen] at h
        cases h
      cases hcontribution : contribution host files (host.realpath path) with
      | none =>
          obtain ⟨e, he⟩ := loadRaw_of_no_contribution hseen hcontribution
          rw [he] at h
          cases h
      | some c =>
          obtain ⟨own, next⟩ := c
          rw [loadRaw_of_contribution hseen hcontribution] at h
          cases next with
          | none =>
              obtain rfl := Except.ok.inj (Option.some.inj h)
              exact ⟨[own], .last hcontribution, rfl⟩
          | some parent =>
              obtain ⟨result, hresult, hok⟩ := Option.map_eq_some_iff.mp h
              obtain ⟨base, rfl, rfl⟩ := Failure.map_eq_ok.mp hok
              obtain ⟨tables, hchain, rfl⟩ := ih hresult
              refine ⟨own :: tables, .next hcontribution hchain, ?_⟩
              cases hchain <;> rfl

/-- Where everything can be loaded, what is raised is that the chain has come to a file again. -/
theorem revisits_of_error {e : LoadError} (hall : AllLoad host files path)
    (h : loadRaw host files fuel path seen = some (.error e)) :
    (∃ n p, visited host files path n = some p ∧ (host.realpath p ∈ seen ∨
      ∃ m q, m < n ∧ visited host files path m = some q ∧ host.realpath q = host.realpath p)) ∧
      ∃ message, e = .config message := by
  induction fuel generalizing path seen with
  | zero => cases h
  | succ fuel ih =>
      by_cases hseen : host.realpath path ∈ seen
      · rw [loadRaw_of_seen hseen] at h
        exact ⟨⟨0, path, rfl, .inl hseen⟩, _, (Except.error.inj (Option.some.inj h)).symm⟩
      obtain ⟨⟨own, next⟩, hcontribution⟩ := Option.isSome_iff_exists.mp (hall 0 path rfl)
      rw [loadRaw_of_contribution hseen hcontribution] at h
      cases next with
      | none => cases Option.some.inj h
      | some parent =>
          obtain ⟨result, hresult, herror⟩ := Option.map_eq_some_iff.mp h
          rw [Failure.map_eq_error] at herror
          rw [herror] at hresult
          have hparent := parentOf_of_contribution hcontribution
          obtain ⟨⟨n, p, hp, hmet⟩, hmessage⟩ := ih (hall.next hparent) hresult
          refine ⟨⟨n + 1, p, (visited_succ hparent n).trans hp, ?_⟩, hmessage⟩
          rcases hmet with hmem | ⟨m, q, hm, hq, heq⟩
          · rcases List.mem_cons.mp hmem with heq | hmem
            · exact .inr ⟨0, path, Nat.succ_pos n, rfl, heq.symm⟩
            · exact .inl hmem
          · exact .inr ⟨m + 1, q, Nat.succ_lt_succ hm, (visited_succ hparent m).trans hq, heq⟩

/-- Finitely many files: the call returns, as each file of the chain is new. -/
theorem loadRaw_returns {reals : List String}
    (hreals : ∀ real raw, files real = .parsed raw → real ∈ reals) (n : ℕ) :
    ∀ path seen, (reals.filter (· ∉ seen)).length < n →
      ∃ result, ∀ fuel, n ≤ fuel → loadRaw host files fuel path seen = some result := by
  induction n with
  | zero => exact fun path seen h => absurd h (Nat.not_lt_zero _)
  | succ n ih =>
      intro path seen hlength
      have hfuel : ∀ result, (∀ fuel, n ≤ fuel →
          loadRaw host files (fuel + 1) path seen = some result) →
          ∀ fuel, n + 1 ≤ fuel → loadRaw host files fuel path seen = some result := by
        intro result h fuel hle
        obtain ⟨fuel, rfl⟩ := Nat.exists_eq_add_of_le' (Nat.le_trans (Nat.le_add_left 1 n) hle)
        exact h fuel (Nat.le_of_succ_le_succ hle)
      by_cases hseen : host.realpath path ∈ seen
      · exact ⟨_, hfuel _ fun fuel _ => loadRaw_of_seen hseen⟩
      cases hcontribution : contribution host files (host.realpath path) with
      | none =>
          obtain ⟨e, he⟩ := loadRaw_of_no_contribution hseen hcontribution
          exact ⟨_, hfuel _ fun fuel _ => he fuel⟩
      | some c =>
          obtain ⟨own, next⟩ := c
          cases next with
          | none =>
              exact ⟨_, hfuel _ fun fuel _ => loadRaw_of_contribution hseen hcontribution⟩
          | some parent =>
              have hmem : host.realpath path ∈ reals := by
                unfold contribution at hcontribution
                cases hfile : files (host.realpath path) with
                | parsed raw => exact hreals _ raw hfile
                | _ => rw [hfile] at hcontribution; cases hcontribution
              have hless : (reals.filter (· ∉ host.realpath path :: seen)).length <
                  (reals.filter (· ∉ seen)).length := by
                have hfilter : reals.filter (· ∉ host.realpath path :: seen) =
                    (reals.filter (· ∉ seen)).filter (· ≠ host.realpath path) := by
                  rw [List.filter_filter]
                  exact List.filter_congr fun real _ => by simp [not_or]
                rw [hfilter, List.length_filter_lt_length_iff_exists]
                exact ⟨_, List.mem_filter.mpr ⟨hmem, decide_eq_true hseen⟩, by simp⟩
              obtain ⟨result, hresult⟩ := ih parent (host.realpath path :: seen)
                (Nat.lt_of_lt_of_le hless (Nat.le_of_lt_succ hlength))
              refine ⟨result.map fun base => mergeRaw base own, hfuel _ fun fuel hle => ?_⟩
              rw [loadRaw_of_contribution hseen hcontribution]
              exact congrArg (Option.map _) (hresult fuel hle)

/-- The files that the chain comes to after a file do not depend on how it came there. -/
theorem visited_periodic {i j : ℕ} {p q : String} (hp : visited host files path i = some p)
    (hq : visited host files path j = some q) (hreal : host.realpath p = host.realpath q) (m : ℕ) :
    (visited host files path (i + m)).map host.realpath =
      (visited host files path (j + m)).map host.realpath := by
  induction m with
  | zero => rw [Nat.add_zero, Nat.add_zero, hp, hq, Option.map_some, Option.map_some, hreal]
  | succ m ih =>
      have hnext : ∀ k, visited host files path (k + (m + 1)) =
          ((visited host files path (k + m)).map host.realpath).bind (parentOf host files) := by
        intro k
        rw [← Nat.add_assoc, visited, Option.bind_map]
        rfl
      rw [hnext, hnext, ih]

private theorem visited_isSome_of_le {n m : ℕ} (hle : n ≤ m)
    (h : (visited host files path m).isSome = true) :
    (visited host files path n).isSome = true := by
  induction hle with
  | refl => exact h
  | step hle ih =>
      rw [visited] at h
      exact ih (Option.isSome_of_isSome_bind h)

/-- A chain that comes to a file again does not end. -/
theorem Revisits.visited_isSome (h : Revisits host files path) (n : ℕ) :
    (visited host files path n).isSome = true := by
  obtain ⟨i, j, p, q, hij, hp, hq, hreal⟩ := h
  induction n using Nat.strong_induction_on with
  | _ n ih =>
      rcases Nat.le_total n j with hn | hn
      · exact visited_isSome_of_le hn (by rw [hq]; rfl)
      · have hback := visited_periodic hp hq hreal (n - j)
        have hearlier := ih (i + (n - j)) (by omega)
        rw [← Option.isSome_map (f := host.realpath), hback, Option.isSome_map] at hearlier
        rwa [Nat.add_sub_cancel' hn] at hearlier

private theorem Revisits.allLoad (h : Revisits host files path) : AllLoad host files path := by
  intro n p hp
  have hnext := h.visited_isSome (n + 1)
  rw [visited, hp, Option.bind_some, parentOf] at hnext
  exact Option.isSome_of_isSome_bind hnext

/-- A chain that ends is left. -/
theorem Chain.exists_none {tables : List (List (String × Toml))}
    (h : Chain host files path tables) : ∃ n, visited host files path n = none := by
  induction h with
  | last hcontribution => exact ⟨1, parentOf_of_contribution hcontribution⟩
  | next hcontribution _ ih =>
      obtain ⟨n, hn⟩ := ih
      exact ⟨n + 1, (visited_succ (parentOf_of_contribution hcontribution) n).trans hn⟩

/-- A chain of files is loaded: a file that it comes to again is an error, and otherwise the tables
are merged from its far end; what a merge leaves at a key path is as documented. -/
theorem load_merges_chain (reals : List String)
    (hreals : ∀ real raw, files real = .parsed raw → real ∈ reals) (path : String) :
    (∃ result, (∀ fuel, reals.length < fuel → loadRaw host files fuel path [] = some result) ∧
      (Revisits host files path → ∃ message, result = .error (.config message)) ∧
      (¬ Revisits host files path → AllLoad host files path →
        ∃ tables, Chain host files path tables ∧ result = .ok (mergeChain tables))) ∧
    ∀ base override keys, DistinctKeys override →
      valueIn keys (.table (mergeRaw base override)) = mergedAt base override keys := by
  refine ⟨?_, fun base override keys h => valueIn_mergeRaw h base keys⟩
  obtain ⟨result, hresult⟩ := loadRaw_returns hreals (reals.length + 1) path []
    (Nat.lt_succ_of_le (List.length_filter_le _ _))
  have hend := hresult (reals.length + 1) le_rfl
  refine ⟨result, fun fuel hfuel => hresult fuel hfuel, fun hrevisits => ?_, fun hnot hall => ?_⟩
  · cases result with
    | error e =>
        obtain ⟨-, message, rfl⟩ := revisits_of_error hrevisits.allLoad hend
        exact ⟨message, rfl⟩
    | ok table =>
        obtain ⟨tables, hchain, -⟩ := chain_of_ok hend
        obtain ⟨n, hn⟩ := hchain.exists_none
        have hsome := hrevisits.visited_isSome n
        rw [hn] at hsome
        cases hsome
  · cases result with
    | ok table =>
        obtain ⟨tables, hchain, rfl⟩ := chain_of_ok hend
        exact ⟨tables, hchain, rfl⟩
    | error e =>
        obtain ⟨⟨n, p, hp, hmet⟩, -⟩ := revisits_of_error hall hend
        rcases hmet with hmem | ⟨m, q, hm, hq, hreal⟩
        · cases hmem
        · exact absurd ⟨m, n, q, p, hm, hq, hp, hreal⟩ hnot

end Chains

/-- A file, and one that extends it. -/
def devFiles (real : String) : ReadOutcome :=
  if real = "/c/dev.toml" then
    .parsed [("extends", .str "prod.toml"), ("services", .table [("metrics", .bool false)])]
  else if real = "/c/prod.toml" then
    .parsed [("services", .table [("api", .table []), ("metrics", .table [])])]
  else .missing

/-- An inherited service is dropped. -/
theorem load_merges_chain_dev : ∃ result,
    (∀ fuel, 2 < fuel → loadRaw bareHost devFiles fuel "/c/dev.toml" [] = some result) ∧
      ∃ tables, Chain bareHost devFiles "/c/dev.toml" tables ∧ result = .ok (mergeChain tables) ∧
        valueIn ["services", "metrics"] (.table (mergeRaw
          [("services", .table [("api", .table []), ("metrics", .table [])])]
          [("services", .table [("metrics", .bool false)])])) = none := by
  have hreals : ∀ real raw, devFiles real = .parsed raw →
      real ∈ ["/c/dev.toml", "/c/prod.toml"] := by
    intro real raw h
    unfold devFiles at h
    split_ifs at h with hdev hprod
    · exact hdev ▸ List.mem_cons_self
    · exact hprod ▸ List.mem_cons_of_mem _ List.mem_cons_self
  have hparent : visited bareHost devFiles "/c/dev.toml" 1 = some "/c/prod.toml" := by
    decide +kernel
  have hvisited : ∀ n, visited bareHost devFiles "/c/dev.toml" (n + 2) = none := by
    intro n
    induction n with
    | zero => decide +kernel
    | succ n ih => rw [visited, ih, Option.bind_none]
  have hnot : ¬ Revisits bareHost devFiles "/c/dev.toml" := fun h => by
    have hsome := h.visited_isSome 2
    rw [hvisited 0] at hsome
    cases hsome
  have hall : AllLoad bareHost devFiles "/c/dev.toml" := by
    intro n p hp
    match n with
    | 0 =>
        obtain rfl := Option.some.inj hp
        rfl
    | 1 =>
        obtain rfl := Option.some.inj (hparent.symm.trans hp)
        rfl
    | n + 2 =>
        rw [hvisited n] at hp
        cases hp
  have hkeys : DistinctKeys [("services", .table [("metrics", .bool false)])] := by
    refine .mk (by decide) fun key entries h => ?_
    obtain ⟨rfl, rfl⟩ : key = "services" ∧ entries = [("metrics", .bool false)] := by
      rw [List.lookup_cons] at h
      split at h
      · rename_i hkey
        exact ⟨beq_iff_eq.mp hkey, (Toml.table.inj (Option.some.inj h)).symm⟩
      · cases h
    refine .mk (by decide) fun key entries h => ?_
    rw [List.lookup_cons] at h
    split at h
    · cases h
    · cases h
  obtain ⟨⟨result, hresult, -, hmerge⟩, hvalue⟩ := load_merges_chain _ hreals "/c/dev.toml"
  obtain ⟨tables, hchain, heq⟩ := hmerge hnot hall
  refine ⟨result, hresult, tables, hchain, heq, ?_⟩
  rw [hvalue _ _ _ hkeys]
  rfl

end Jetty.Orchestrator
