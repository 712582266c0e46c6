import Jetty.Core.Python.Text
import Mathlib.Data.List.Nodup

/-!
# Instances by the base of their name

A query names an instance exactly or by the base that its name was made of. The records do not say
what a name was made of, so every name that goes on with a dash is taken for one with that base,
also where it was pinned or has a longer base.
-/

namespace Jetty.Orchestrator

open Python

def dash : CodePoint := 0x2D

/-- `secrets.token_hex(2)`. -/
structure Suffix where
  digits : Text
  length : digits.length = 4
  hex : digits.all fun c => c ∈ text "0123456789abcdef"
deriving DecidableEq

/-- How `_cmd_up` comes to the name of an instance. -/
inductive Naming
  /-- `--name`. -/
  | pinned (name : Text)
  /-- The name in the configuration is a base. -/
  | suffixed (base : Text) (suffix : Suffix)
deriving DecidableEq

def Naming.name : Naming → Text
  | .pinned name => name
  | .suffixed base suffix => base ++ dash :: suffix.digits

/-- What a record says of an instance, and what is true of it. -/
structure Instance where
  naming : Naming
  /-- `supervisor_alive`. -/
  alive : Bool
deriving DecidableEq

def Instance.name (r : Instance) : Text := r.naming.name

/-- The records of a registry, in the order of their paths; a path has one name. -/
structure Records where
  all : List Instance
  nodup : (all.map Instance.name).Nodup

/-- `_fail`. -/
structure Failed where
  message : Text
  code : ℕ

namespace Records

variable (R : Records)

/-- `Registry.load`. -/
def load (name : Text) : Option Instance := R.all.find? fun r => r.name = name

/-- The records that a query might mean. -/
def matching (query : Text) : List Instance :=
  R.all.filter fun r => (query ++ [dash]).isPrefixOf r.name

/-- The live ones among some records. -/
def live (records : List Instance) : List Instance := records.filter fun r => r.alive

/-- `live or matches`. -/
def preferLive (records : List Instance) : List Instance :=
  if live records = [] then records else live records

/-- `_resolve_instance`. -/
def resolveInstance (repr : Text → Text) (query : Text) : Except Failed Instance :=
  match R.load query with
  | some record => .ok record
  | none =>
    match preferLive (R.matching query) with
    | [record] => .ok record
    | [] => .error ⟨text "no instance named " ++ repr query, 1⟩
    | candidates =>
      let names := (candidates.map Instance.name).mergeSort fun a b => decide (a ≤ b)
      let which := if live (R.matching query) = [] then text " (all dead)" else []
      .error ⟨repr query ++ text " is ambiguous" ++ which ++ text ": " ++
        (text ", ").intercalate names, 1⟩

/-! ### What the query stands for -/

/-- The name was made of this base. -/
def HasBase (base : Text) (r : Instance) : Prop := ∃ suffix, r.naming = .suffixed base suffix

instance (base : Text) (r : Instance) : Decidable (HasBase base r) :=
  match h : r.naming with
  | .pinned _ => .isFalse (by rintro ⟨suffix, hr⟩; rw [h] at hr; cases hr)
  | .suffixed base' suffix =>
    if hb : base' = base then .isTrue ⟨suffix, by rw [h, hb]⟩
    else .isFalse (by rintro ⟨suffix', hr⟩; rw [h] at hr; cases hr; exact hb rfl)

/-- The instance is the only live one of this base, or the only one where none is live. -/
def Chosen (base : Text) (r : Instance) : Prop :=
  r ∈ R.all ∧ HasBase base r ∧
    ((r.alive = true ∧ ∀ r' ∈ R.all, HasBase base r' → r'.alive = true → r' = r) ∨
      ∀ r' ∈ R.all, HasBase base r' → r'.alive = false ∧ r' = r)

/-- The query of a base is answered with the chosen instance, and refused if there is none. -/
def RespectsBase (repr : Text → Text) (base : Text) : Prop :=
  ∀ r, R.resolveInstance repr base = .ok r ↔ R.Chosen base r

/-- The records of a base. -/
def own (base : Text) : List Instance := R.all.filter fun r => HasBase base r

/-- The other records whose names begin with the base and a dash. -/
def strangers (base : Text) : List Instance :=
  R.all.filter fun r => (base ++ [dash]).isPrefixOf r.name ∧ ¬ HasBase base r

/-- No stranger is among the candidates, or there are several of them and the base does not choose
either. -/
def Distinguished (base : Text) : Prop :=
  R.strangers base = [] ∨
    (live (R.own base) ≠ [] ∧
      (live (R.strangers base) = [] ∨ 2 ≤ (live (R.own base)).length)) ∨
    (live (R.own base) = [] ∧ (R.own base).length ≠ 1 ∧
      (2 ≤ (live (R.strangers base)).length ∨
        live (R.strangers base) = [] ∧ 2 ≤ (R.own base).length + (R.strangers base).length))

/-! ### When it is understood -/

section Understood

variable {R : Records} {base : Text}

private theorem HasBase.matches {r : Instance} (h : HasBase base r) :
    (base ++ [dash]).isPrefixOf r.name = true := by
  obtain ⟨suffix, hr⟩ := h
  rw [List.isPrefixOf_iff_prefix, Instance.name, hr]
  exact ⟨suffix.digits, by simp [Naming.name]⟩

private theorem own_eq : R.own base = (R.matching base).filter fun r => HasBase base r := by
  unfold own matching
  rw [List.filter_filter]
  refine List.filter_congr fun r _ => ?_
  by_cases h : HasBase base r
  · simp [h, h.matches]
  · simp [h]

private theorem strangers_eq :
    R.strangers base = (R.matching base).filter fun r => !decide (HasBase base r) := by
  unfold strangers matching
  rw [List.filter_filter]
  refine List.filter_congr fun r _ => ?_
  by_cases h : HasBase base r
  · simp [h]
  · simp only [h, not_false_eq_true, and_true, decide_false, Bool.not_false, Bool.true_and]
    exact Bool.decide_coe _

private theorem length_matching :
    (R.matching base).length = (R.own base).length + (R.strangers base).length := by
  rw [own_eq, strangers_eq]
  exact List.length_eq_length_filter_add fun r => decide (HasBase base r)

private theorem length_live_matching : (live (R.matching base)).length =
    (live (R.own base)).length + (live (R.strangers base)).length := by
  unfold live
  rw [own_eq, strangers_eq, List.filter_comm _ fun r => decide (HasBase base r),
    List.filter_comm _ fun r => !decide (HasBase base r)]
  exact List.length_eq_length_filter_add fun r => decide (HasBase base r)

private theorem length_preferLive (l : List Instance) :
    (preferLive l).length = if (live l).length = 0 then l.length else (live l).length := by
  unfold preferLive
  simp only [List.length_eq_zero_iff]
  split <;> rfl

private theorem mem_preferLive {l : List Instance} {r : Instance} (h : r ∈ preferLive l) :
    r ∈ l := by
  unfold preferLive at h
  split at h
  · exact h
  · exact List.mem_of_mem_filter h

private theorem eq_singleton_of_nodup {l : List Instance} (h : l.Nodup) {r : Instance} :
    l = [r] ↔ r ∈ l ∧ ∀ r' ∈ l, r' = r := by
  constructor
  · rintro rfl
    exact ⟨List.mem_singleton_self r, fun r' => List.mem_singleton.mp⟩
  · rintro ⟨hr, hall⟩
    have hperm : l.Perm [r] := (List.perm_ext_iff_of_nodup h (List.nodup_singleton r)).mpr fun r' =>
      ⟨fun h => List.mem_singleton.mpr (hall r' h), fun h => List.mem_singleton.mp h ▸ hr⟩
    exact hperm.eq_singleton

private theorem mem_own {r : Instance} : r ∈ R.own base ↔ r ∈ R.all ∧ HasBase base r := by
  unfold own
  rw [List.mem_filter, decide_eq_true_iff]

private theorem mem_live {l : List Instance} {r : Instance} : r ∈ live l ↔ r ∈ l ∧ r.alive = true :=
  List.mem_filter

private theorem nodup_own : (R.own base).Nodup := (List.Nodup.of_map _ R.nodup).filter _

/-- The instance that is chosen is the only candidate of its base. -/
theorem chosen_iff {r : Instance} : R.Chosen base r ↔ preferLive (R.own base) = [r] := by
  have hlive : live (R.own base) = [r] ↔ r ∈ live (R.own base) ∧ ∀ r' ∈ live (R.own base), r' = r :=
    eq_singleton_of_nodup (nodup_own.filter _)
  unfold Chosen preferLive
  constructor
  · rintro ⟨hmem, hbase, ⟨halive, hother⟩ | hdead⟩
    · have hsingle := hlive.mpr ⟨mem_live.mpr ⟨mem_own.mpr ⟨hmem, hbase⟩, halive⟩, fun r' hr' => by
        obtain ⟨hown, halive'⟩ := mem_live.mp hr'
        exact hother r' (mem_own.mp hown).1 (mem_own.mp hown).2 halive'⟩
      rw [hsingle, if_neg (List.cons_ne_nil r [])]
    · have hnone : live (R.own base) = [] := List.eq_nil_iff_forall_not_mem.mpr fun r' hr' => by
        obtain ⟨hown, halive'⟩ := mem_live.mp hr'
        rw [(hdead r' (mem_own.mp hown).1 (mem_own.mp hown).2).1] at halive'
        cases halive'
      rw [if_pos hnone]
      exact (eq_singleton_of_nodup nodup_own).mpr ⟨mem_own.mpr ⟨hmem, hbase⟩, fun r' hr' =>
        (hdead r' (mem_own.mp hr').1 (mem_own.mp hr').2).2⟩
  · intro h
    split at h
    · rename_i hnone
      obtain ⟨hr, hall⟩ := (eq_singleton_of_nodup nodup_own).mp h
      refine ⟨(mem_own.mp hr).1, (mem_own.mp hr).2, .inr fun r' hmem hbase => ?_⟩
      have hown : r' ∈ R.own base := mem_own.mpr ⟨hmem, hbase⟩
      refine ⟨Bool.eq_false_iff.mpr fun halive => ?_, hall r' hown⟩
      exact List.not_mem_nil (hnone ▸ mem_live.mpr ⟨hown, halive⟩)
    · obtain ⟨hr, hall⟩ := hlive.mp h
      obtain ⟨hown, halive⟩ := mem_live.mp hr
      exact ⟨(mem_own.mp hown).1, (mem_own.mp hown).2, .inl ⟨halive, fun r' hmem hbase halive' =>
        hall r' (mem_live.mpr ⟨mem_own.mpr ⟨hmem, hbase⟩, halive'⟩)⟩⟩

/-- The answer to a query that is no exact name. -/
theorem resolveInstance_eq_ok {repr : Text → Text} (hload : R.load base = none) {r : Instance} :
    R.resolveInstance repr base = .ok r ↔ preferLive (R.matching base) = [r] := by
  unfold resolveInstance
  rw [hload]
  dsimp only
  split
  · rename_i record hrecord
    rw [hrecord]
    simp
  · rename_i hnil
    simp [hnil]
  · rename_i hone _
    exact iff_of_false nofun fun h => hone r h

/-- Without a stranger among the candidates they are the base's own. -/
theorem preferLive_matching (h : R.strangers base = [] ∨
    live (R.own base) ≠ [] ∧ live (R.strangers base) = []) :
    preferLive (R.matching base) = preferLive (R.own base) := by
  have hall {l : List Instance} (h : (l.filter fun r => !decide (HasBase base r)) = []) :
      (l.filter fun r => HasBase base r) = l := by
    refine List.filter_eq_self.mpr fun r hr => ?_
    simpa using List.filter_eq_nil_iff.mp h r hr
  rcases h with hnone | ⟨hown, hnone⟩
  · have hsame : R.own base = R.matching base := by
      rw [own_eq]
      exact hall (strangers_eq ▸ hnone)
    rw [hsame]
  · have hsame : live (R.own base) = live (R.matching base) := by
      rw [strangers_eq, live, List.filter_comm] at hnone
      rw [own_eq, live, List.filter_comm]
      exact hall hnone
    unfold preferLive
    rw [← hsame, if_neg hown, if_neg hown]

/-- Otherwise one of them is a stranger. -/
theorem exists_stranger (h : ¬ (R.strangers base = [] ∨
    live (R.own base) ≠ [] ∧ live (R.strangers base) = [])) :
    ∃ r ∈ preferLive (R.matching base), ¬ HasBase base r := by
  obtain ⟨hstrangers, hlive⟩ := not_or.mp h
  have hmem {r : Instance} (hr : r ∈ R.strangers base) :
      r ∈ R.matching base ∧ ¬ HasBase base r := by
    rw [strangers_eq, List.mem_filter] at hr
    simpa using hr
  unfold preferLive
  by_cases hnone : live (R.matching base) = []
  · rw [if_pos hnone]
    obtain ⟨r, hr⟩ := List.exists_mem_of_ne_nil _ hstrangers
    exact ⟨r, hmem hr⟩
  · rw [if_neg hnone]
    by_cases hs : live (R.strangers base) = []
    · have hown : live (R.own base) = [] := by
        by_contra hown
        exact hlive ⟨hown, hs⟩
      have hlength : (live (R.matching base)).length =
          (live (R.own base)).length + (live (R.strangers base)).length := length_live_matching
      rw [hs, hown] at hlength
      exact absurd (List.length_eq_zero_iff.mp hlength) hnone
    · obtain ⟨r, hr⟩ := List.exists_mem_of_ne_nil _ hs
      obtain ⟨hr, halive⟩ := mem_live.mp hr
      exact ⟨r, mem_live.mpr ⟨(hmem hr).1, halive⟩, (hmem hr).2⟩

end Understood

variable {R}

/-- For every registry and every base that is no name: the query of the base is answered as it
should be if and only if the base is distinguished. -/
theorem respectsBase_iff {base : Text} (hname : ∀ r ∈ R.all, r.name ≠ base)
    (repr : Text → Text) : R.RespectsBase repr base ↔ R.Distinguished base := by
  have hload : R.load base = none := by
    unfold load
    rw [List.find?_eq_none]
    simpa using hname
  have hanswers : R.RespectsBase repr base ↔
      ∀ r, preferLive (R.matching base) = [r] ↔ preferLive (R.own base) = [r] :=
    forall_congr' fun r => iff_congr (resolveInstance_eq_ok hload) chosen_iff
  rw [hanswers]
  by_cases halone : R.strangers base = [] ∨
      live (R.own base) ≠ [] ∧ live (R.strangers base) = []
  · refine iff_of_true (fun r => ?_) ?_
    · rw [preferLive_matching halone]
    · unfold Distinguished
      exact halone.imp_right fun h => .inl ⟨h.1, .inl h.2⟩
  · obtain ⟨s, hs, hstranger⟩ := exists_stranger halone
    have hcrowd : (∀ r, preferLive (R.matching base) = [r] ↔ preferLive (R.own base) = [r]) ↔
        (preferLive (R.matching base)).length ≠ 1 ∧ (preferLive (R.own base)).length ≠ 1 := by
      have hnot : ∀ r, preferLive (R.matching base) = [r] → preferLive (R.own base) ≠ [r] := by
        intro r hr hown
        rw [hr, List.mem_singleton] at hs
        have hmem : r ∈ R.own base := mem_preferLive (hown ▸ List.mem_singleton_self r)
        exact hstranger (hs ▸ (mem_own.mp hmem).2)
      simp only [ne_eq, List.length_eq_one_iff, not_exists]
      constructor
      · exact fun h => ⟨fun r hr => hnot r hr ((h r).mp hr), fun r hr => hnot r ((h r).mpr hr) hr⟩
      · exact fun h r => iff_of_false (h.1 r) (h.2 r)
    rw [hcrowd, length_preferLive, length_preferLive, length_matching, length_live_matching]
    unfold Distinguished
    simp only [← List.length_eq_zero_iff, ne_eq] at halone ⊢
    have hle := List.length_filter_le (fun r : Instance => r.alive) (R.strangers base)
    change (live (R.strangers base)).length ≤ _ at hle
    split_ifs <;> omega

end Records

/-- `a3f1`. -/
private def suffix : Suffix := ⟨text "a3f1", by decide, by decide⟩

/-- The live instance `app-dev-a3f1`, and `app-dev-web-a3f1` of another base, which is dead. -/
private def appDev : Records :=
  ⟨[⟨.suffixed (text "app-dev-web") suffix, false⟩, ⟨.suffixed (text "app-dev") suffix, true⟩],
    by decide⟩

/-- A dead instance of a longer base does not keep the shorter one from its own. -/
theorem respectsBase_appDev :
    (appDev.strangers (text "app-dev")).length = 1 ∧
      appDev.RespectsBase id (text "app-dev") ∧
      appDev.resolveInstance id (text "app-dev") =
        .ok ⟨.suffixed (text "app-dev") suffix, true⟩ := by
  have hdistinguished : appDev.Distinguished (text "app-dev") :=
    .inr (.inl ⟨by decide, .inl (by decide)⟩)
  exact ⟨by decide, (Records.respectsBase_iff (by decide) id).mpr hdistinguished, by rfl⟩

/-- The instance `app-dev-web-a3f1` of the base `app-dev-web`. -/
private def appDevWeb : Records := ⟨[⟨.suffixed (text "app-dev-web") suffix, true⟩], by decide⟩

/-- The only instance of a longer base is what the shorter one leads to. -/
theorem longer_base_chosen : ¬ ∀ (R : Records) (repr : Text → Text) (base : Text),
    (∀ r ∈ R.all, r.name ≠ base) → R.RespectsBase repr base := by
  intro h
  have hanswer : appDevWeb.resolveInstance id (text "app-dev") =
      .ok ⟨.suffixed (text "app-dev-web") suffix, true⟩ := by rfl
  obtain ⟨-, ⟨other, hbase⟩, -⟩ := (h appDevWeb id (text "app-dev") (by decide) _).mp hanswer
  have hne : text "app-dev-web" ≠ text "app-dev" := by decide
  exact hne (Naming.suffixed.inj hbase).1

end Jetty.Orchestrator
