import Jetty.Core.Failure
import Jetty.Core.Python.Numerals
import Jetty.Orchestrator.Config.Validate

/-!
# The grammar of port specs

A port is `"auto"`, a number, a lowest port with a plus sign, or two ports with a dash between
them. What is not, the parser reports as malformed, and the validation as an error of the
configuration, unless it is a template that is rendered later.
-/

namespace Jetty.Orchestrator

open Failure

/-- The well-formed port specs, with what they ask for. -/
inductive PortSpec : Toml → PortRange → Prop
  | auto : PortSpec (.str "auto") .auto
  | int {port : ℕ} (hlow : 1 ≤ port) (hhigh : port ≤ 65535) :
      PortSpec (.int port) (.range port port)
  | fixed {s : String} {port : ℕ} (hport : Python.Numeral s.toList port) (hlow : 1 ≤ port)
      (hhigh : port ≤ 65535) : PortSpec (.str s) (.range port port)
  | above {s : String} {l : List Char} {low : ℕ} (hs : s.toList = l ++ ['+'])
      (hnum : Python.Numeral l low) (hlow : 1 ≤ low) (hhigh : low ≤ 65535) :
      PortSpec (.str s) (.range low 65535)
  | between {s : String} {l h : List Char} {low high : ℕ} (hs : s.toList = l ++ '-' :: h)
      (hbelow : Python.Numeral l low) (habove : Python.Numeral h high) (hlow : 1 ≤ low)
      (horder : low ≤ high) (hhigh : high ≤ 65535) : PortSpec (.str s) (.range low high)

/-- The value is not the boolean that passes for the number 1, and the texts of digits in it
that are read as numbers are plain ones. -/
def Ordinary : Toml → Prop
  | .bool b => b = false
  | .str s => Python.Plain s.toList ∧ (∀ l, s.toList = l ++ ['+'] → Python.Plain l) ∧
      ∀ l h, s.toList = l ++ '-' :: h → Python.isDigit l = true → Python.isDigit h = true →
        Python.Plain l ∧ Python.Plain h
  | _ => True

/-- A short text whose digits are ASCII is an ordinary one. -/
theorem ordinary_of_ascii {s : String}
    (h : (s.toList.all fun c => !Python.isDigitChar c || c.isDigit) = true)
    (hs : s.toList.length ≤ 4300) : Ordinary (.str s) := by
  have hascii (c : Char) (hc : c ∈ s.toList) (hdigit : Python.isDigitChar c = true) :
      c.isDigit = true := by
    simpa only [hdigit, Bool.not_true, Bool.false_or] using List.all_eq_true.mp h c hc
  have hpart {t : List Char} (ht : t.Sublist s.toList) : Python.Plain t :=
    Python.plain_of_ascii (fun c hc => hascii c (ht.subset hc)) (ht.length_le.trans hs)
  refine ⟨hpart (List.Sublist.refl _), fun l hl => ?_, fun l r hl _ _ => ⟨?_, ?_⟩⟩ <;>
    refine hpart ?_ <;> rw [hl]
  · exact List.sublist_append_left _ _
  · exact List.sublist_append_left _ _
  · exact (List.sublist_cons_self _ _).trans (List.sublist_append_right _ _)

private theorem not_mem_of_isDigit {s : List Char} (h : Python.isDigit s = true) {c : Char}
    (hc : Python.isDigitChar c = false) : c ∉ s := fun hmem =>
  absurd (Python.isDigitChar_of_mem h hmem) (Bool.eq_false_iff.mp hc)

private theorem dash_not_digit : Python.isDigitChar '-' = false := by decide +kernel

private theorem plus_not_digit : Python.isDigitChar '+' = false := by decide +kernel

/-- The text in front of the first separator, and the one behind it. -/
theorem eq_of_partition {c : Char} {s before after : List Char}
    (h : partition c s = (before, true, after)) : s = before ++ c :: after := by
  have hmem : c ∈ s := partition_found.mp (by rw [h])
  obtain ⟨before', after', rfl, hbefore⟩ := List.eq_append_cons_of_mem hmem
  rw [partition_append hbefore] at h
  obtain ⟨rfl, -, rfl⟩ : before' = before ∧ true = true ∧ after' = after := by simpa using h
  rfl

private theorem fixedPort_eq_some {port : ℕ} {r : PortRange} :
    fixedPort port = some r ↔ 1 ≤ port ∧ port ≤ 65535 ∧ r = .range port port := by
  unfold fixedPort
  split_ifs with h
  · rw [Option.some_inj, Int.toNat_natCast, eq_comm]
    exact ⟨fun hr => ⟨by omega, by omega, hr⟩, fun hr => hr.2.2⟩
  · refine iff_of_false nofun fun hr => h ?_
    exact ⟨by exact_mod_cast hr.1, by exact_mod_cast hr.2.1⟩

private theorem intOf_eq_ok {s : List Char} {n : ℕ} (h : Python.toInt s = some n) :
    intOf s = .ok n := by
  rw [intOf, h]

/-- The parser takes every well-formed spec. -/
theorem parsePortSpec_of_spec {v : Toml} {r : PortRange} (hv : Ordinary v) (h : PortSpec v r) :
    parsePortSpec v = .ok (some r) := by
  cases h with
  | auto => rfl
  | int hlow hhigh => exact congrArg Except.ok (fixedPort_eq_some.mpr ⟨hlow, hhigh, rfl⟩)
  | @fixed s port hport hlow hhigh =>
      obtain ⟨n, hn, hnum⟩ := hv.1.toInt_eq hport.isDigit
      obtain rfl := hnum.unique hport
      have hauto : s ≠ "auto" := by
        rintro rfl
        exact absurd hport.isDigit (by decide +kernel)
      rw [parsePortSpec, if_neg hauto, if_pos hport.isDigit]
      refine bind_eq_ok.mpr ⟨n, intOf_eq_ok hn, congrArg Except.ok ?_⟩
      exact fixedPort_eq_some.mpr ⟨hlow, hhigh, rfl⟩
  | @above s l low hs hnum hlow hhigh =>
      obtain ⟨n, hn, hnum'⟩ := (hv.2.1 l hs).toInt_eq hnum.isDigit
      obtain rfl := hnum'.unique hnum
      have hplus : '+' ∈ s.toList := by simp [hs]
      have hdash : '-' ∉ s.toList := by
        rw [hs, List.mem_append, List.mem_singleton, not_or]
        exact ⟨not_mem_of_isDigit hnum.isDigit dash_not_digit, by decide⟩
      have hauto : s ≠ "auto" := by
        rintro rfl
        exact absurd hplus (by decide)
      have hdigit : ¬ Python.isDigit s.toList = true := fun hdigit =>
        not_mem_of_isDigit hdigit plus_not_digit hplus
      have hbelow := not_mem_of_isDigit hnum.isDigit plus_not_digit
      rw [parsePortSpec, if_neg hauto, if_neg hdigit, partition_of_not_mem hdash, hs,
        partition_append hbelow]
      simp only [hnum.isDigit, Bool.false_and, Bool.false_eq_true, if_false, Bool.not_false,
        List.isEmpty_nil, Bool.and_self, if_true]
      exact bind_eq_ok.mpr ⟨n, intOf_eq_ok hn, congrArg Except.ok (if_pos ⟨hlow, hhigh⟩)⟩
  | @between s l h low high hs hbelow habove hlow horder hhigh =>
      obtain ⟨hplain, hplain'⟩ := hv.2.2 l h hs hbelow.isDigit habove.isDigit
      obtain ⟨m, hm, hnum⟩ := hplain.toInt_eq hbelow.isDigit
      obtain rfl := hnum.unique hbelow
      obtain ⟨n, hn, hnum'⟩ := hplain'.toInt_eq habove.isDigit
      obtain rfl := hnum'.unique habove
      have hdash : '-' ∈ s.toList := by simp [hs]
      have hauto : s ≠ "auto" := by
        rintro rfl
        exact absurd hdash (by decide)
      have hdigit : ¬ Python.isDigit s.toList = true := fun hdigit =>
        not_mem_of_isDigit hdigit dash_not_digit hdash
      have hfront := not_mem_of_isDigit hbelow.isDigit dash_not_digit
      rw [parsePortSpec, if_neg hauto, if_neg hdigit, hs, partition_append hfront]
      simp only [hbelow.isDigit, habove.isDigit, Bool.and_self, if_true]
      refine bind_eq_ok.mpr ⟨m, intOf_eq_ok hm, bind_eq_ok.mpr ⟨n, intOf_eq_ok hn, ?_⟩⟩
      exact congrArg Except.ok (if_pos ⟨hlow, horder, hhigh⟩)

/-- The parser returns on every ordinary integer, boolean and string, and takes nothing but
well-formed specs. -/
theorem parsePortSpec_returns {v : Toml} (hkind : isIntOrStr v = true) (hv : Ordinary v) :
    ∃ want, parsePortSpec v = .ok want ∧ ∀ r, want = some r → PortSpec v r := by
  cases v with
  | int n =>
      refine ⟨_, rfl, fun r hr => ?_⟩
      have hpos : 0 ≤ n := by
        unfold fixedPort at hr
        split_ifs at hr with h
        exact Int.le_trans Int.one_nonneg h.1
      lift n to ℕ using hpos
      obtain ⟨hlow, hhigh, rfl⟩ := fixedPort_eq_some.mp hr
      exact .int hlow hhigh
  | bool b =>
      obtain rfl : b = false := hv
      exact ⟨none, rfl, nofun⟩
  | str s =>
      rw [parsePortSpec]
      split_ifs with hauto hdigit
      · rw [hauto]
        exact ⟨some .auto, rfl, fun r hr => Option.some.inj hr ▸ .auto⟩
      · obtain ⟨n, hn, hnum⟩ := hv.1.toInt_eq hdigit
        rw [intOf_eq_ok hn]
        refine ⟨_, rfl, fun r hr => ?_⟩
        obtain ⟨hlow, hhigh, rfl⟩ := fixedPort_eq_some.mp hr
        exact .fixed hnum hlow hhigh
      · rcases hp : partition '-' s.toList with ⟨l, dash, h⟩
        rcases hq : partition '+' s.toList with ⟨below, plus, rest⟩
        dsimp only
        split_ifs with hbetween habove
        · obtain ⟨⟨rfl, hh⟩, hl⟩ : (dash = true ∧ Python.isDigit h = true) ∧
              Python.isDigit l = true := by
            rwa [Bool.and_eq_true, Bool.and_eq_true] at hbetween
          have hs := eq_of_partition hp
          obtain ⟨hplain, hplain'⟩ := hv.2.2 l h hs hl hh
          obtain ⟨low, hlow, hnum⟩ := hplain.toInt_eq hl
          obtain ⟨high, hhigh, hnum'⟩ := hplain'.toInt_eq hh
          refine ⟨_, bind_eq_ok.mpr ⟨low, intOf_eq_ok hlow, bind_eq_ok.mpr
            ⟨high, intOf_eq_ok hhigh, rfl⟩⟩, fun r hr => ?_⟩
          split_ifs at hr with hbounds
          obtain rfl := Option.some.inj hr
          exact .between hs hnum hnum' hbounds.1 hbounds.2.1 hbounds.2.2
        · obtain ⟨⟨⟨-, rfl⟩, rfl⟩, hbelow⟩ : ((dash = false ∧ plus = true) ∧ rest = []) ∧
              Python.isDigit below = true := by
            simpa only [Bool.and_eq_true, Bool.not_eq_true', List.isEmpty_iff] using habove
          have hs := eq_of_partition hq
          obtain ⟨low, hlow, hnum⟩ := (hv.2.1 below hs).toInt_eq hbelow
          refine ⟨_, bind_eq_ok.mpr ⟨low, intOf_eq_ok hlow, rfl⟩, fun r hr => ?_⟩
          split_ifs at hr with hbounds
          obtain rfl := Option.some.inj hr
          exact .above hs hnum hbounds.1 hbounds.2
        · exact ⟨none, rfl, nofun⟩
  | float | moment | list | table => cases hkind

/-- A range that the parser returns is one of ports, whatever the value. -/
theorem parsePortSpec_bounds {v : Toml} {low high : ℕ}
    (h : parsePortSpec v = .ok (some (.range low high))) :
    1 ≤ low ∧ low ≤ high ∧ high ≤ 65535 := by
  have hfixed {port : ℤ} (h : fixedPort port = some (.range low high)) :
      1 ≤ low ∧ low ≤ high ∧ high ≤ 65535 := by
    unfold fixedPort at h
    split_ifs at h with hport
    obtain ⟨rfl, rfl⟩ := PortRange.range.inj (Option.some.inj h)
    omega
  cases v with
  | int => exact hfixed (Except.ok.inj h)
  | bool => exact hfixed (Except.ok.inj h)
  | float | moment | list | table => cases h
  | str s =>
      rw [parsePortSpec] at h
      dsimp only at h
      split_ifs at h
      · cases h
      · obtain ⟨port, -, h⟩ := bind_eq_ok.mp h
        exact hfixed (Except.ok.inj h)
      · obtain ⟨m, -, h⟩ := bind_eq_ok.mp h
        obtain ⟨n, -, h⟩ := bind_eq_ok.mp h
        have hbounds := Except.ok.inj h
        split_ifs at hbounds with hports
        obtain ⟨rfl, rfl⟩ := PortRange.range.inj (Option.some.inj hbounds)
        exact hports
      · obtain ⟨n, -, h⟩ := bind_eq_ok.mp h
        have hbounds := Except.ok.inj h
        split_ifs at hbounds with hports
        obtain ⟨rfl, rfl⟩ := PortRange.range.inj (Option.some.inj hbounds)
        exact ⟨hports.1, hports.2, le_rfl⟩
      · cases h

/-- The specs that the parser takes are the well-formed ones. -/
theorem parsePortSpec_eq_ok {v : Toml} (hkind : isIntOrStr v = true) (hv : Ordinary v) :
    ∃ want, parsePortSpec v = .ok want ∧ ∀ r, want = some r ↔ PortSpec v r := by
  obtain ⟨want, hwant, hsound⟩ := parsePortSpec_returns hkind hv
  refine ⟨want, hwant, fun r => ⟨hsound r, fun hr => ?_⟩⟩
  exact Except.ok.inj (hwant.symm.trans (parsePortSpec_of_spec hv hr))

/-- A well-formed spec is an integer or a string. -/
theorem PortSpec.isIntOrStr {v : Toml} {r : PortRange} (h : PortSpec v r) :
    isIntOrStr v = true := by
  cases h <;> rfl

/-- What the validation makes of a spec: it asks the parser only for integers and strings, and
takes everything else for malformed. -/
theorem checkedSpec_eq_ok {v : Toml} (hv : Ordinary v) :
    ∃ want, checkedSpec v = .ok want ∧ ∀ r, want = some r ↔ PortSpec v r := by
  rw [checkedSpec]
  split_ifs with hkind
  · exact parsePortSpec_eq_ok hkind hv
  · exact ⟨none, rfl, fun r => iff_of_false nofun fun hr => hkind hr.isIntOrStr⟩

namespace OrchestratorConfig

variable (repr : Toml → String)

/-- The validation ends with a message about the configuration. -/
def Refused {α : Type} (result : Except ParseError α) : Prop :=
  ∃ message, result = .error (.config message)

private theorem Refused.bind {α β : Type} {result : Except ParseError α} (h : Refused result)
    (next : α → Except ParseError β) : Refused (result >>= next) := by
  obtain ⟨message, rfl⟩ := h
  exact ⟨message, rfl⟩

private theorem checkNames_settles (kind : String) (names : List String) :
    checkNames repr kind names = .ok () ∨ Refused (checkNames repr kind names) := by
  induction names with
  | nil => exact .inl rfl
  | cons name names ih =>
      have hcons : checkNames repr kind (name :: names) =
          (if isName name then .ok ()
            else .error (.config s!"{kind} key {reprStr repr name} must match {namePattern}")) >>=
            fun _ => checkNames repr kind names := rfl
      rw [hcons]
      by_cases hname : isName name = true
      · rw [if_pos hname]
        exact ih
      · rw [if_neg hname]
        exact .inr ⟨_, rfl⟩

/-- A malformed spec is not overlooked: each spec before it is passed over, or ends the check
with a message of its own. -/
theorem checkPorts_refused {ports : List (String × Toml)} (hports : ∀ e ∈ ports, Ordinary e.2)
    {entry : String × Toml} (hentry : entry ∈ ports) (htemplate : isTemplated entry.2 = false)
    (hbad : ∀ r, ¬ PortSpec entry.2 r) (fixed : List (ℕ × String)) :
    Refused (checkPorts repr ports fixed) := by
  induction ports generalizing fixed with
  | nil => cases hentry
  | cons head ports ih =>
      obtain ⟨name, v⟩ := head
      rw [List.forall_mem_cons] at hports
      have hrest (hne : entry ≠ (name, v)) (fixed : List (ℕ × String)) :
          Refused (checkPorts repr ports fixed) :=
        ih hports.2 ((List.mem_cons.mp hentry).resolve_left hne) fixed
      obtain ⟨want, hwant, hspec⟩ := checkedSpec_eq_ok hports.1
      rw [checkPorts]
      split_ifs with hv
      · refine hrest ?_ fixed
        rintro rfl
        exact absurd (htemplate.symm.trans hv) Bool.false_ne_true
      · rw [hwant]
        have hne {r : PortRange} (hr : want = some r) : entry ≠ (name, v) := by
          rintro rfl
          exact hbad r ((hspec r).mp hr)
        cases want with
        | none => exact ⟨_, rfl⟩
        | some r =>
            cases r with
            | auto => exact hrest (hne rfl) fixed
            | range low high =>
                change Refused (if low = high then _ else _)
                split_ifs with hpinned
                · cases fixed.lookup low with
                  | some other => exact ⟨_, rfl⟩
                  | none => exact hrest (hne rfl) _
                · exact hrest (hne rfl) fixed

/-- A configuration with a malformed spec that is not a template is an error. -/
theorem validate_refused {cfg : OrchestratorConfig} (hports : ∀ e ∈ cfg.ports, Ordinary e.2)
    {entry : String × Toml} (hentry : entry ∈ cfg.ports) (htemplate : isTemplated entry.2 = false)
    (hbad : ∀ r, ¬ PortSpec entry.2 r) : Refused (cfg.validate repr) := by
  have hnames {α : Type} (kind : String) (names : List String) (next : Unit → Except ParseError α)
      (hnext : Refused (next ())) : Refused (checkNames repr kind names >>= next) := by
    obtain hok | hrefused := checkNames_settles repr kind names
    · rw [hok]
      exact hnext
    · exact hrefused.bind next
  unfold validate
  split
  · exact ⟨_, rfl⟩
  · refine hnames _ _ _ (hnames _ _ _ (hnames _ _ _ (hnames _ _ _ ?_)))
    exact (checkPorts_refused repr hports hentry htemplate hbad []).bind _

/-- The parser returns on every ordinary integer, boolean and string and takes exactly the
well-formed specs, each for what it asks. Among ordinary ports, of whatever kind, the validation
rejects each one that is not well formed, except the templates. -/
theorem portSpecs_settled :
    (∀ v, isIntOrStr v = true → Ordinary v →
      ∃ want, parsePortSpec v = .ok want ∧ ∀ r, want = some r ↔ PortSpec v r) ∧
    ∀ cfg : OrchestratorConfig, (∀ e ∈ cfg.ports, Ordinary e.2) →
      ∀ e ∈ cfg.ports, isTemplated e.2 = false → (∀ r, ¬ PortSpec e.2 r) →
        Refused (cfg.validate repr) :=
  ⟨fun _ hkind hv => parsePortSpec_eq_ok hkind hv,
    fun _ hports _ hentry htemplate hbad => validate_refused repr hports hentry htemplate hbad⟩

private theorem not_portSpec {v : Toml} (hv : Ordinary v) (h : parsePortSpec v = .ok none)
    (r : PortRange) : ¬ PortSpec v r := fun hr => by
  cases h.symm.trans (parsePortSpec_of_spec hv hr)

/-- A configuration of one service, with these ports. -/
def withPorts (ports : List (String × Toml)) : OrchestratorConfig where
  inst := { name := "dev" }
  ports := ports
  gates := []
  resolvers := []
  services := [("web", { cmd := ["web"] })]

/-- An open range is parsed, a reversed one is refused. -/
theorem portSpecs_settled_reversed :
    (∃ want, parsePortSpec (.str "8000+") = .ok want ∧
      ∀ r, want = some r ↔ PortSpec (.str "8000+") r) ∧
    Refused ((withPorts [("a", .str "8000-8020"), ("b", .str "9020-9000")]).validate
      fun _ => "") := by
  have hplus : Ordinary (.str "8000+") := ordinary_of_ascii (by decide +kernel) (by decide)
  have hrange : Ordinary (.str "8000-8020") := ordinary_of_ascii (by decide +kernel) (by decide)
  have hreversed : Ordinary (.str "9020-9000") := ordinary_of_ascii (by decide +kernel) (by decide)
  obtain ⟨hparse, hvalidate⟩ := portSpecs_settled fun _ => ""
  refine ⟨hparse _ rfl hplus, hvalidate _ ?_ _ (.tail _ (.head _)) rfl ?_⟩
  · exact List.forall_mem_cons.mpr ⟨hrange, List.forall_mem_singleton.mpr hreversed⟩
  · exact not_portSpec hreversed (by decide)

/-- A template is no port spec, and is not rejected either. -/
theorem template_not_refused :
    let template : Toml := .str "\x7benv.HTTP_PORT:-8080+\x7d"
    (∀ r, ¬ PortSpec template r) ∧
      ¬ Refused ((withPorts [("http", template)]).validate fun _ => "") := by
  refine ⟨not_portSpec (ordinary_of_ascii (by decide +kernel) (by decide)) (by decide), ?_⟩
  rintro ⟨message, h⟩
  have hok : ((withPorts [("http", .str "\x7benv.HTTP_PORT:-8080+\x7d")]).validate
      fun _ => "").isOk = true := by decide +kernel
  rw [h] at hok
  cases hok

end OrchestratorConfig

end Jetty.Orchestrator
