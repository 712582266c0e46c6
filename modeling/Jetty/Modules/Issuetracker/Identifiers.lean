import Jetty.Core.Python.Literals
import Jetty.Modules.Issuetracker.Masks

/-!
# Identifiers

What `_parse_id64` makes of an identifier on the wire. It is one of 64 bits in its name only, and a
text is left to `int`, which takes more than the decimal form of a number.
-/

namespace Jetty.Issuetracker

open Python

/-- The largest `int64`. -/
def maxInt64 : ℕ := 2 ^ 63 - 1

/-- The decimal form of the number, with zeros in front of it or without. -/
def DecimalForm (s : Text) (n : ℕ) : Prop := ∃ zeros, s = List.replicate zeros 0x30 ++ numeral n

/-- What is promised of an identifier: a positive `int64` or `INVALID_ARGUMENT`, the number itself
for a number, exactly the decimal forms among the texts, and nothing else. -/
def PromisedId (value : Json) (r : Outcome ℤ) : Prop :=
  ((∃ message, r = invalid message) ∨ ∃ n : ℤ, r = .ok n ∧ 1 ≤ n ∧ n ≤ maxInt64) ∧
    match value with
    | .int m => ∀ n, r = .ok n → n = m
    | .str s => ∀ n : ℕ, r = .ok (n : ℤ) ↔ 1 ≤ n ∧ n ≤ maxInt64 ∧ DecimalForm s n
    | _ => ∃ message, r = invalid message

/-- A number that is not too large, or a text that `int` does not read in another way than meant:
a decimal form with no more digits than it converts, or no literal of a positive number. -/
def PlainId : Json → Prop
  | .int n => n ≤ maxInt64
  | .str s =>
    (∀ n, 1 ≤ n → n ≤ maxInt64 → DecimalForm s n → s.length ≤ 4300) ∧
      ∀ n : ℕ, 1 ≤ n → Literal s n → n ≤ maxInt64 ∧ DecimalForm s n
  | _ => True

section Identifiers

variable {value : Json} {fieldName : Text} {s : Text}

/-- Of a decimal form `int` converts so many digits. -/
theorem DecimalForm.intOfText_eq {n : ℕ} (h : DecimalForm s n) :
    intOfText s = if s.length ≤ 4300 then some (n : ℤ) else none := by
  obtain ⟨zeros, rfl⟩ := h
  have hdigit : ∀ c ∈ List.replicate zeros (0x30 : CodePoint) ++ numeral n,
      0x30 ≤ c.val ∧ c.val ≤ 0x39 := by
    intro c hc
    rcases List.mem_append.mp hc with hc | hc
    · rw [List.eq_of_mem_replicate hc]
      decide
    · exact digit_of_mem_numeral hc
  have hne : List.replicate zeros (0x30 : CodePoint) ++ numeral n ≠ [] := fun h =>
    numeral_ne_nil n (List.append_eq_nil_iff.mp h).2
  have hzeros : ((List.replicate zeros (0x30 : CodePoint)).map fun c => c.val - 0x30).foldl
      (fun m d => m * 10 + d) 0 = 0 := by
    rw [List.map_replicate]
    clear hdigit hne
    induction zeros with
    | zero => rfl
    | succ zeros ih => exact ih
  rw [intOfText_of_ascii hdigit hne, List.map_append, List.foldl_append, hzeros, foldl_numeral]

private theorem positive_eq_ok {message : Text} {m n : ℤ} :
    (if m ≤ 0 then invalid message else .ok m) = (.ok n : Outcome ℤ) ↔ 1 ≤ n ∧ m = n := by
  split
  · refine iff_of_false nofun ?_
    rintro ⟨hn, rfl⟩
    omega
  · rw [Except.ok.injEq]
    constructor
    · rintro rfl
      exact ⟨by omega, rfl⟩
    · exact And.right

private theorem parseId64_int {m n : ℤ} : parseId64 (.int m) fieldName = .ok n ↔ 1 ≤ n ∧ m = n :=
  positive_eq_ok

/-- A text stands for the positive numbers it is a literal of. -/
theorem parseId64_str {n : ℤ} :
    parseId64 (.str s) fieldName = .ok n ↔ 1 ≤ n ∧ intOfText s = some n := by
  unfold parseId64
  dsimp only
  cases intOfText s with
  | none => exact iff_of_false nofun nofun
  | some m =>
      rw [Option.some.injEq]
      exact positive_eq_ok

end Identifiers

/-- What is promised of an identifier holds exactly of the plain ones. -/
theorem promisedId_iff_plain (value : Json) (fieldName : Text) :
    PromisedId value (parseId64 value fieldName) ↔ PlainId value := by
  cases value with
  | int m =>
      unfold PromisedId PlainId
      dsimp only
      constructor
      · rintro ⟨hanswer, -⟩
        by_contra hlarge
        have hok : parseId64 (.int m) fieldName = .ok m := parseId64_int.mpr ⟨by omega, rfl⟩
        rw [hok] at hanswer
        rcases hanswer with ⟨message, hmessage⟩ | ⟨n, hn, -, hle⟩
        · cases hmessage
        · obtain rfl := Except.ok.inj hn
          exact hlarge hle
      · intro hm
        refine ⟨(parseId64_cases (.int m) fieldName).imp_right ?_, fun n hn => ?_⟩
        · rintro ⟨n, hn, hpos⟩
          obtain ⟨-, rfl⟩ := parseId64_int.mp hn
          exact ⟨m, hn, hpos, hm⟩
        · exact (parseId64_int.mp hn).2.symm
  | str s =>
      unfold PromisedId PlainId
      dsimp only
      have htaken (n : ℕ) : parseId64 (.str s) fieldName = .ok (n : ℤ) ↔ 1 ≤ n ∧ Literal s n := by
        have hpos : (1 : ℤ) ≤ n ↔ 1 ≤ n := by omega
        rw [parseId64_str, intOfText_eq_some, hpos]
      constructor
      · rintro ⟨-, hexact⟩
        refine ⟨fun n hpos hle hform => ?_, fun n hpos hliteral => ?_⟩
        · have hok := (htaken n).mp ((hexact n).mpr ⟨hpos, hle, hform⟩)
          have hread := intOfText_eq_some.mpr hok.2
          rw [hform.intOfText_eq] at hread
          by_contra hlong
          rw [if_neg hlong] at hread
          cases hread
        · exact ((hexact n).mp ((htaken n).mpr ⟨hpos, hliteral⟩)).2
      · rintro ⟨hlength, hliteral⟩
        refine ⟨(parseId64_cases (.str s) fieldName).imp_right ?_, fun n => ?_⟩
        · rintro ⟨n, hn, hpos⟩
          obtain ⟨k, rfl⟩ := Int.eq_ofNat_of_zero_le (by omega : 0 ≤ n)
          obtain ⟨hk, hread⟩ := (htaken k).mp hn
          exact ⟨k, hn, hpos, Int.ofNat_le.mpr (hliteral k hk hread).1⟩
        · rw [htaken]
          constructor
          · rintro ⟨hpos, hread⟩
            exact ⟨hpos, hliteral n hpos hread⟩
          · rintro ⟨hpos, hle, hform⟩
            refine ⟨hpos, intOfText_eq_some.mp ?_⟩
            rw [hform.intOfText_eq, if_pos (hlength n hpos hle hform)]
  | _ => exact iff_of_true ⟨.inl ⟨_, rfl⟩, _, rfl⟩ trivial

example : parseId64 (.str (text " +1_0")) [] = .ok 10 := by decide +kernel

/-- `2 ** 63` is taken. -/
theorem not_promisedId_large : ¬ ∀ (value : Json) (fieldName : Text),
    PromisedId value (parseId64 value fieldName) := by
  intro h
  obtain ⟨⟨message, hmessage⟩ | ⟨n, hn, -, hle⟩, -⟩ := h (.int (2 ^ 63)) []
  · cases hmessage
  · obtain rfl := Except.ok.inj hn
    revert hle
    decide

end Jetty.Issuetracker
