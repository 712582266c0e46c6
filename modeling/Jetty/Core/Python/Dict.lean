import Mathlib.Data.List.Nodup

/-!
# Dictionaries

A `dict` is the list of its entries in the order in which their keys were first assigned; no
key occurs twice.
-/

namespace Python

structure Dict (κ ν : Type*) where
  entries : List (κ × ν)
  nodup : (entries.map Prod.fst).Nodup

namespace Dict

variable {κ ν : Type*}

/-- `{}`. -/
def empty : Dict κ ν := ⟨[], List.nodup_nil⟩

def keys (d : Dict κ ν) : List κ := d.entries.map Prod.fst

def values (d : Dict κ ν) : List ν := d.entries.map Prod.snd

private theorem nodup_entries (d : Dict κ ν) : d.entries.Nodup := d.nodup.of_map _

/-- `{k: f(v) for k, v in d.items()}`. -/
def mapValues {μ : Type*} (f : ν → μ) (d : Dict κ ν) : Dict κ μ :=
  ⟨d.entries.map fun e => (e.1, f e.2), by
    rw [List.map_map]
    exact d.nodup⟩

/-- Mapping the values keeps the keys. -/
theorem keys_mapValues {μ : Type*} (f : ν → μ) (d : Dict κ ν) : (d.mapValues f).keys = d.keys := by
  unfold keys mapValues
  rw [List.map_map]
  rfl

/-- `d == d'`. -/
def Same (d d' : Dict κ ν) : Prop := d.entries.Perm d'.entries

instance [DecidableEq κ] [DecidableEq ν] (d d' : Dict κ ν) : Decidable (Same d d') :=
  inferInstanceAs (Decidable (d.entries.Perm d'.entries))

section Operations

variable [DecidableEq κ] (d : Dict κ ν) (k : κ) (v : ν)

/-- `d.get(k)`. -/
def get? : Option ν := (d.entries.find? fun e => e.1 = k).map Prod.snd

private theorem map_fst_overwrite :
    (d.entries.map fun e => if e.1 = k then (k, v) else e).map Prod.fst = d.keys := by
  rw [List.map_map, keys]
  refine List.map_congr_left fun e _ => ?_
  simp only [Function.comp_apply]
  split
  · rename_i he
    exact he.symm
  · rfl

/-- `d[k] = v`: an entry keeps its place, a new one comes last. -/
def set : Dict κ ν :=
  if h : k ∈ d.keys then
    ⟨d.entries.map fun e => if e.1 = k then (k, v) else e, by
      rw [map_fst_overwrite]
      exact d.nodup⟩
  else
    ⟨d.entries ++ [(k, v)], by
      rw [List.map_append, List.map_singleton]
      refine List.nodup_append.mpr ⟨d.nodup, List.nodup_singleton _, fun a ha b hb => ?_⟩
      rintro rfl
      obtain rfl : a = k := List.mem_singleton.mp hb
      exact h ha⟩

/-- `d.pop(k, None)`, as far as the dictionary is concerned. -/
def erase : Dict κ ν :=
  ⟨d.entries.filter fun e => e.1 ≠ k, d.nodup.sublist (List.filter_sublist.map _)⟩

/-- `d.setdefault(k, v)`, as far as the dictionary is concerned. -/
def setdefault : Dict κ ν := if k ∈ d.keys then d else d.set k v

end Operations

variable [DecidableEq κ] {d : Dict κ ν} {k k' : κ} {v : ν}

/-- A dictionary has no value exactly for what is no key. -/
theorem get?_eq_none : d.get? k = none ↔ k ∉ d.keys := by
  simp only [get?, keys, Option.map_eq_none_iff, List.find?_eq_none, decide_eq_true_eq,
    List.mem_map, not_exists, not_and]

/-- A key is what has a value. -/
theorem mem_keys : k ∈ d.keys ↔ ∃ v, d.get? k = some v := by
  rw [← Option.isSome_iff_exists, ← Option.ne_none_iff_isSome, ne_eq, get?_eq_none, not_not]

/-- A value is that of the entry with its key. -/
theorem get?_eq_some : d.get? k = some v ↔ (k, v) ∈ d.entries := by
  constructor
  · intro h
    obtain ⟨e, he, rfl⟩ := Option.map_eq_some_iff.mp h
    obtain rfl : e.1 = k := by simpa using List.find?_some he
    exact List.mem_of_find?_eq_some he
  · intro h
    have hkey : k ∈ d.keys := List.mem_map_of_mem h
    obtain ⟨w, hw⟩ := mem_keys.mp hkey
    obtain ⟨e, he, rfl⟩ := Option.map_eq_some_iff.mp hw
    have hfst : e.1 = k := by simpa using List.find?_some he
    have heq := List.inj_on_of_nodup_map d.nodup (List.mem_of_find?_eq_some he) h hfst
    rw [hw, heq]

/-- Mapping the values maps each of them. -/
theorem get?_mapValues {μ : Type*} (f : ν → μ) : (d.mapValues f).get? k = (d.get? k).map f := by
  unfold get? mapValues
  rw [List.find?_map, Option.map_map, Option.map_map]
  rfl

/-- A new key comes last, an old one keeps its place. -/
theorem keys_set : (d.set k v).keys = if k ∈ d.keys then d.keys else d.keys ++ [k] := by
  unfold set
  split
  · exact map_fst_overwrite d k v
  · exact List.map_append

/-- The keys after a value is set. -/
theorem mem_keys_set : k' ∈ (d.set k v).keys ↔ k' ∈ d.keys ∨ k' = k := by
  rw [keys_set]
  split
  · rename_i hk
    exact ⟨.inl, fun h => h.elim id fun heq => heq ▸ hk⟩
  · rw [List.mem_append, List.mem_singleton]

private theorem mem_entries_set {v' : ν} : (k', v') ∈ (d.set k v).entries ↔
    (k' = k ∧ v' = v) ∨ (k' ≠ k ∧ (k', v') ∈ d.entries) := by
  unfold set
  split
  · rename_i hk
    simp only [List.mem_map]
    constructor
    · rintro ⟨e, he, heq⟩
      split at heq
      · obtain ⟨rfl, rfl⟩ := Prod.mk.inj heq
        exact .inl ⟨rfl, rfl⟩
      · rename_i hne
        subst heq
        exact .inr ⟨hne, he⟩
    · rintro (⟨rfl, rfl⟩ | ⟨hne, he⟩)
      · obtain ⟨e, he, rfl⟩ := List.mem_map.mp hk
        exact ⟨e, he, if_pos rfl⟩
      · exact ⟨_, he, if_neg hne⟩
  · rename_i hk
    rw [List.mem_append, List.mem_singleton, Prod.mk.injEq]
    constructor
    · rintro (he | heq)
      · refine .inr ⟨?_, he⟩
        rintro rfl
        exact hk (List.mem_map_of_mem he)
      · exact .inl heq
    · rintro (heq | ⟨-, he⟩)
      · exact .inr heq
      · exact .inl he

@[simp] theorem get?_set_self : (d.set k v).get? k = some v :=
  get?_eq_some.mpr (mem_entries_set.mpr (.inl ⟨rfl, rfl⟩))

/-- The other keys keep their values. -/
theorem get?_set_of_ne (h : k' ≠ k) : (d.set k v).get? k' = d.get? k' := by
  ext w
  rw [get?_eq_some, get?_eq_some, mem_entries_set]
  exact ⟨fun hw => hw.elim (fun heq => absurd heq.1 h) And.right, fun hw => .inr ⟨h, hw⟩⟩

/-- Erasing a key keeps the order of the others. -/
theorem keys_erase : (d.erase k).keys = d.keys.filter (· ≠ k) := by
  rw [keys, keys, erase, List.filter_map]
  rfl

/-- The keys after one is erased. -/
theorem mem_keys_erase : k' ∈ (d.erase k).keys ↔ k' ∈ d.keys ∧ k' ≠ k := by
  rw [keys_erase, List.mem_filter, decide_eq_true_eq]

@[simp] theorem get?_erase_self : (d.erase k).get? k = none :=
  get?_eq_none.mpr fun h => (mem_keys_erase.mp h).2 rfl

/-- The other keys keep their values. -/
theorem get?_erase_of_ne (h : k' ≠ k) : (d.erase k).get? k' = d.get? k' := by
  ext w
  rw [get?_eq_some, get?_eq_some]
  simp [erase, h]

private theorem mem_entries_erase {v' : ν} :
    (k', v') ∈ (d.erase k).entries ↔ k' ≠ k ∧ (k', v') ∈ d.entries := by
  simp [erase, and_comm]

private theorem cons_erase_nodup : ((k, v) :: (d.erase k).entries).Nodup :=
  List.nodup_cons.mpr ⟨fun h => (mem_entries_erase.mp h).1 rfl, nodup_entries _⟩

/-- An assignment leaves the other entries. -/
theorem entries_set_perm : (d.set k v).entries.Perm ((k, v) :: (d.erase k).entries) := by
  refine (List.perm_ext_iff_of_nodup (nodup_entries _) cons_erase_nodup).mpr fun e => ?_
  rw [mem_entries_set, List.mem_cons, mem_entries_erase, Prod.ext_iff]

/-- A value, and the other entries. -/
theorem entries_perm (h : d.get? k = some v) :
    d.entries.Perm ((k, v) :: (d.erase k).entries) := by
  refine (List.perm_ext_iff_of_nodup (nodup_entries _) cons_erase_nodup).mpr fun e => ?_
  obtain ⟨k', v'⟩ := e
  rw [List.mem_cons, mem_entries_erase, Prod.mk.injEq]
  constructor
  · intro he
    by_cases hk : k' = k
    · subst hk
      exact .inl ⟨rfl, Option.some.inj ((get?_eq_some.mpr he).symm.trans h)⟩
    · exact .inr ⟨hk, he⟩
  · rintro (⟨rfl, rfl⟩ | ⟨-, he⟩)
    · exact get?_eq_some.mp h
    · exact he

/-- A value is the value of a key. -/
theorem mem_values {w : ν} : w ∈ d.values ↔ ∃ k, d.get? k = some w := by
  simp only [values, List.mem_map, Prod.exists, get?_eq_some, exists_eq_right]

/-- The values after an assignment are the value assigned and values from before. -/
theorem mem_values_of_set {w : ν} (h : w ∈ (d.set k v).values) : w = v ∨ w ∈ d.values := by
  obtain ⟨k', hk'⟩ := mem_values.mp h
  rcases mem_entries_set.mp (get?_eq_some.mp hk') with ⟨-, rfl⟩ | ⟨-, hold⟩
  · exact .inl rfl
  · exact .inr (mem_values.mpr ⟨k', get?_eq_some.mpr hold⟩)

/-- Erasing a key adds no value. -/
theorem mem_values_of_erase {w : ν} (h : w ∈ (d.erase k).values) : w ∈ d.values := by
  obtain ⟨k', hk'⟩ := mem_values.mp h
  exact mem_values.mpr ⟨k', get?_eq_some.mpr (mem_entries_erase.mp (get?_eq_some.mp hk')).2⟩

/-- Erasing what is no key changes nothing. -/
theorem erase_of_not_mem (h : k ∉ d.keys) : (d.erase k).entries = d.entries := by
  refine List.filter_eq_self.mpr fun e he => ?_
  simp only [ne_eq, decide_not, Bool.not_eq_eq_eq_not, Bool.not_true, decide_eq_false_iff_not]
  rintro rfl
  exact h (List.mem_map_of_mem he)

end Dict

end Python
