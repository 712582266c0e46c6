import Jetty.Core.Python.Format
import Jetty.Core.Failure

/-!
# The fields that a template looks up

Which fields `vformat` looks up depends on the template alone: those of the template, of its
format specifications, and of theirs. A formatter that finds all of them goes the way of
another one that finds them with the same values.
-/

namespace Python

open Failure

/-- The names of the fields of a template, format specifications included, `depth` deep. -/
def fieldNames : ℕ → String → List String
  | 0, _ => []
  | depth + 1, template =>
    (parse template).fields.flatMap fun field => field.name :: fieldNames depth field.spec

namespace Formatter

variable {ω ε : Type}

/-- A number is only looked up for a field that has no name. -/
theorem number_eq_ok {name name' : String} {auto auto' : Option ℕ}
    (h : number name auto = .ok (name', auto')) :
    name' = name ∨ name = "" ∧ ∃ n : ℕ, name' = toString n := by
  unfold number at h
  split at h
  · rename_i hempty
    split at h
    · cases h
    · rename_i n
      cases h
      exact .inr ⟨hempty, n, rfl⟩
  · split at h
    · split at h
      · cases h
      · cases h
        exact .inl rfl
    · cases h
      exact .inl rfl

/-- One field, step by step. -/
private theorem format_field (F : Formatter ω ε)
    (expand : String → Option ℕ → Except ε (String × Option ℕ)) (literal : String) (field : Field)
    (rest : Parsed) (auto : Option ℕ) :
    F.format expand (.piece literal (some field) rest) auto =
      (number field.name auto).mapError F.valueError >>= fun numbered =>
      F.getField numbered.1 >>= fun value => F.convertField value field.conversion >>= fun value =>
      expand field.spec numbered.2 >>= fun expanded => F.formatField value expanded.1 >>=
      fun text => F.format expand rest expanded.2 >>= fun out =>
      .ok (literal ++ text ++ out.1, out.2) := by
  rw [format]

private theorem forall_fieldNames {P : String → Prop} {names : String → List String}
    {literal : String} {field : Field} {rest : Parsed} :
    (∀ name ∈ (Parsed.piece literal (some field) rest).fields.flatMap
        fun field => field.name :: names field.spec, P name) ↔
      P field.name ∧ (∀ name ∈ names field.spec, P name) ∧
        ∀ name ∈ rest.fields.flatMap fun field => field.name :: names field.spec, P name := by
  rw [Parsed.fields, Option.toList_some, List.singleton_append, List.flatMap_cons,
    List.forall_mem_append, List.forall_mem_cons, and_assoc]

section Success

variable {F : Formatter ω ε}

/-- What the success of the loop says about the fields of the pieces. -/
private theorem format_needs {expand : String → Option ℕ → Except ε (String × Option ℕ)}
    {names : String → List String} (hnumber : ∀ (n : ℕ) v, F.getField (toString n) ≠ .ok v)
    (hexpand : ∀ spec auto, Needs (expand spec auto)
      (∀ name ∈ names spec, name ≠ "" ∧ ∃ v, F.getField name = .ok v)) (p : Parsed)
    (auto : Option ℕ) :
    Needs (F.format expand p auto) (p.error = none ∧
      ∀ name ∈ p.fields.flatMap fun field => field.name :: names field.spec,
        name ≠ "" ∧ ∃ v, F.getField name = .ok v) := by
  induction p generalizing auto with
  | done => exact fun _ _ => ⟨rfl, List.forall_mem_nil _⟩
  | failed e => exact nofun
  | piece literal field rest ih =>
      cases field with
      | none => exact (ih auto).bind_left
      | some field =>
          intro out hout
          rw [format_field] at hout
          obtain ⟨⟨name, auto₁⟩, hname, hout⟩ := bind_eq_ok.mp hout
          obtain ⟨value, hvalue, hout⟩ := bind_eq_ok.mp hout
          obtain ⟨converted, -, hout⟩ := bind_eq_ok.mp hout
          obtain ⟨⟨spec, auto₂⟩, hspec, hout⟩ := bind_eq_ok.mp hout
          obtain ⟨text, -, hout⟩ := bind_eq_ok.mp hout
          obtain ⟨herror, hrest⟩ := (ih auto₂).bind_left out hout
          have hname := mapError_eq_ok.mp hname
          have hfound : field.name ≠ "" ∧ ∃ v, F.getField field.name = .ok v := by
            rcases number_eq_ok hname with rfl | ⟨-, n, rfl⟩
            · refine ⟨fun hempty => ?_, value, hvalue⟩
              unfold number at hname
              rw [if_pos hempty] at hname
              cases auto with
              | none => cases hname
              | some n =>
                  have hn : toString n = field.name := congrArg Prod.fst (Except.ok.inj hname)
                  rw [← hn] at hvalue
                  exact hnumber n value hvalue
            · exact absurd hvalue (hnumber n value)
          exact ⟨herror, forall_fieldNames.mpr ⟨hfound, hexpand field.spec auto₁ _ hspec, hrest⟩⟩

/-- If `vformat` succeeds, it finds every field, and none is without a name. -/
theorem vformatAux_needs (hnumber : ∀ (n : ℕ) v, F.getField (toString n) ≠ .ok v) (depth : ℕ)
    (template : String) (auto : Option ℕ) :
    Needs (F.vformatAux depth template auto)
      (∀ name ∈ fieldNames depth template, name ≠ "" ∧ ∃ v, F.getField name = .ok v) := by
  induction depth generalizing template auto with
  | zero => exact nofun
  | succ depth ih =>
      exact (format_needs hnumber ih (parse template) auto).mono And.right

/-- If `vformat` succeeds, the template is well formed. -/
theorem parse_error_of_vformatAux (hnumber : ∀ (n : ℕ) v, F.getField (toString n) ≠ .ok v)
    (depth : ℕ) (template : String) (auto : Option ℕ) :
    Needs (F.vformatAux depth template auto) ((parse template).error = none) := by
  cases depth with
  | zero => exact nofun
  | succ depth =>
      exact (format_needs hnumber (F.vformatAux_needs hnumber depth) (parse template) auto).mono
        And.left

end Success

section Agreement

variable {F G : Formatter ω ε} {bad : ε → Prop}

/-- Two formatters that differ in nothing but their look-up. -/
structure SameButFields (F G : Formatter ω ε) : Prop where
  formatField : F.formatField = G.formatField
  str : F.str = G.str
  repr : F.repr = G.repr
  ascii : F.ascii = G.ascii
  valueError : F.valueError = G.valueError

private theorem SameButFields.convertField (h : SameButFields F G) :
    F.convertField = G.convertField := by
  funext value conversion
  unfold Formatter.convertField
  rw [h.str, h.repr, h.ascii, h.valueError]

private theorem format_follows {expandF expandG : String → Option ℕ → Except ε (String × Option ℕ)}
    {found : String → Prop} {names : String → List String} (hFG : SameButFields F G)
    (hnumber : ∀ (n : ℕ) v, F.getField (toString n) ≠ .ok v)
    (hfield : ∀ name, Follows bad Eq (found name) (F.getField name) (G.getField name))
    (hexpand : ∀ spec auto, Follows bad Eq (∀ name ∈ names spec, found name)
      (expandF spec auto) (expandG spec auto)) (p : Parsed) (auto : Option ℕ) :
    Follows bad Eq
      (∀ name ∈ p.fields.flatMap fun field => field.name :: names field.spec, found name)
      (F.format expandF p auto) (G.format expandG p auto) := by
  induction p generalizing auto with
  | done => exact (follows_ok rfl).congr (by simp [Parsed.fields])
  | failed e => exact follows_of_error nofun
  | piece literal field rest ih =>
      cases field with
      | none =>
          refine (((ih auto).bind ?_).congr (and_iff_left trivial))
          rintro v _ rfl
          exact follows_ok rfl
      | some field =>
          cases hname : number field.name auto with
          | error e =>
              refine follows_of_error fun v hv => ?_
              simp only [format, hname] at hv
              cases hv
          | ok numbered =>
              obtain ⟨name, auto₁⟩ := numbered
              rw [format_field, format_field, hname, hFG.convertField, hFG.formatField]
              have hnext : Follows bad Eq (found field.name ∧
                  (∀ name ∈ names field.spec, found name) ∧
                  ∀ name ∈ rest.fields.flatMap fun field => field.name :: names field.spec,
                    found name)
                  (F.getField name >>= fun value => G.convertField value field.conversion >>=
                    fun value => expandF field.spec auto₁ >>= fun expanded =>
                    G.formatField value expanded.1 >>= fun text =>
                    F.format expandF rest expanded.2 >>= fun out =>
                    .ok (literal ++ text ++ out.1, out.2))
                  (G.getField name >>= fun value => G.convertField value field.conversion >>=
                    fun value => expandG field.spec auto₁ >>= fun expanded =>
                    G.formatField value expanded.1 >>= fun text =>
                    G.format expandG rest expanded.2 >>= fun out =>
                    .ok (literal ++ text ++ out.1, out.2)) := by
                rcases number_eq_ok hname with rfl | ⟨-, n, rfl⟩
                · refine (hfield field.name).bind ?_
                  rintro value _ rfl
                  refine ((follows_refl _).bind ?_).congr (and_iff_right trivial)
                  rintro value _ rfl
                  refine (hexpand field.spec auto₁).bind ?_
                  rintro expanded _ rfl
                  refine ((follows_refl _).bind ?_).congr (and_iff_right trivial)
                  rintro text _ rfl
                  refine ((ih expanded.2).bind ?_).congr (and_iff_left trivial)
                  rintro out _ rfl
                  exact follows_ok rfl
                · refine follows_of_error fun v hv => ?_
                  obtain ⟨value, hvalue, -⟩ := bind_eq_ok.mp hv
                  exact hnumber n value hvalue
              exact hnext.congr forall_fieldNames.symm

/-- A formatter goes the way of another one if it finds all fields of the template, and else
raises the error of a look-up. -/
theorem vformatAux_follows {found : String → Prop} (hFG : SameButFields F G)
    (hnumber : ∀ (n : ℕ) v, F.getField (toString n) ≠ .ok v)
    (hfield : ∀ name, Follows bad Eq (found name) (F.getField name) (G.getField name)) (depth : ℕ)
    (template : String) (auto : Option ℕ) :
    Follows bad Eq (∀ name ∈ fieldNames depth template, found name)
      (F.vformatAux depth template auto) (G.vformatAux depth template auto) := by
  induction depth generalizing template auto with
  | zero => exact follows_of_error nofun
  | succ depth ih => exact format_follows hFG hnumber hfield ih (parse template) auto

end Agreement

section Errors

variable {F : Formatter ω ε} {bad : ε → Prop}

private theorem convertField_spares (hvalue : ∀ e, ¬ bad (F.valueError e)) (value : ω)
    (conversion : Option Char) : Spares bad (F.convertField value conversion) := by
  unfold convertField
  split
  case h_5 =>
    intro d hd
    obtain rfl := Except.error.inj hd
    exact hvalue _
  all_goals exact spares_ok _

private theorem format_spares {expand : String → Option ℕ → Except ε (String × Option ℕ)}
    {names : String → List String} (hvalue : ∀ e, ¬ bad (F.valueError e))
    (hformat : ∀ value spec, Spares bad (F.formatField value spec)) (p : Parsed)
    (hfield : ∀ name ∈ p.fields.flatMap fun field => field.name :: names field.spec,
      name ≠ "" ∧ Spares bad (F.getField name))
    (hexpand : ∀ spec auto, (∀ name ∈ names spec, name ≠ "" ∧ Spares bad (F.getField name)) →
      Spares bad (expand spec auto)) (auto : Option ℕ) : Spares bad (F.format expand p auto) := by
  induction p generalizing auto with
  | done => exact spares_ok _
  | failed e =>
      intro d hd
      obtain rfl := Except.error.inj hd
      exact hvalue e
  | piece literal field rest ih =>
      cases field with
      | none => exact (ih hfield auto).bind fun _ => spares_ok _
      | some field =>
          obtain ⟨⟨hname, hget⟩, hspec, hrest⟩ := forall_fieldNames.mp hfield
          rw [format_field]
          cases hnumber : number field.name auto with
          | error e =>
              intro d hd
              obtain rfl := Except.error.inj hd
              exact hvalue e
          | ok numbered =>
              obtain ⟨name, auto₁⟩ := numbered
              obtain rfl : name = field.name :=
                (number_eq_ok hnumber).resolve_right fun h => hname h.1
              refine hget.bind fun value => Spares.bind (convertField_spares hvalue value _) ?_
              intro value
              refine (hexpand field.spec auto₁ hspec).bind fun expanded => ?_
              refine (hformat value expanded.1).bind fun text => ?_
              exact (ih hrest expanded.2).bind fun _ => spares_ok _

/-- `vformat` raises a bad error only where a look-up does. -/
theorem vformatAux_spares (hvalue : ∀ e, ¬ bad (F.valueError e))
    (hformat : ∀ value spec, Spares bad (F.formatField value spec)) (depth : ℕ)
    (template : String)
    (hfield : ∀ name ∈ fieldNames depth template, name ≠ "" ∧ Spares bad (F.getField name))
    (auto : Option ℕ) : Spares bad (F.vformatAux depth template auto) := by
  induction depth generalizing template auto with
  | zero =>
      intro d hd
      obtain rfl := Except.error.inj hd
      exact hvalue _
  | succ depth ih =>
      exact format_spares hvalue hformat (parse template) hfield
        (fun spec auto hspec => ih spec hspec auto) auto

end Errors

end Formatter

end Python
