import Jetty.Orchestrator.Watch.Signature
import Mathlib.Data.List.Lex
import Mathlib.Data.List.Nodup
import Mathlib.Data.List.Sort

/-!
# What a signature tells apart

Two walks feed the same bytes to the digest if and only if their entries, one after the other,
spell the same text. An entry's text is its name, the numbers of a file and the paths of the
directories that are entered next, without anything between them, so different entries may spell
the same.
-/

namespace Jetty.Orchestrator.Watch

section Lines

/-- An entry of the walk, with the paths of the directories entered before the next one. -/
structure Line where
  entry : Entry
  entered : List (List Name)

/-- What a line spells, from its mark on. -/
def Line.text (l : Line) : Bytes :=
  l.entry.kind.mark :: (l.entry.name.bytes ++ l.entry.kind.numbers ++ l.entered.flatMap relpath)

/-- The directories entered first. -/
def lead : List Token → List (List Name)
  | .enter path :: ts => path :: lead ts
  | _ => []

def lines : List Token → List Line
  | [] => []
  | .enter _ :: ts => lines ts
  | .entry e :: ts => ⟨e, lead ts⟩ :: lines ts

def Token.entry? : Token → Option Entry
  | enter _ => none
  | entry e => some e

def entries (ts : List Token) : List Entry := ts.filterMap Token.entry?

/-- The bytes of a walk: the lines, with a NUL in front of each. -/
theorem flatMap_bytes (ts : List Token) : ts.flatMap Token.bytes =
    (lead ts).flatMap relpath ++ ((lines ts).map Line.text).flatMap (0 :: ·) := by
  induction ts with
  | nil => rfl
  | cons t ts ih =>
      cases t with
      | enter path =>
          rw [List.flatMap_cons, ih, ← List.append_assoc]
          rfl
      | entry e =>
          rw [List.flatMap_cons, ih]
          simp [lead, lines, Token.bytes, Line.text]

/-- Texts without a NUL are told apart where a NUL stands in front of each. -/
theorem flatMap_zero_inj {ts us : List Bytes} (hts : ∀ t ∈ ts, 0 ∉ t) (hus : ∀ u ∈ us, 0 ∉ u)
    (h : ts.flatMap (0 :: ·) = us.flatMap (0 :: ·)) : ts = us := by
  have hfirst {t : Bytes} {rest : List Bytes} (ht : 0 ∉ t) :
      (t ++ rest.flatMap (0 :: ·)).takeWhile (· ≠ 0) = t := by
    have hall : ∀ b ∈ t, decide (b ≠ 0) = true := by
      rintro b hb
      rw [decide_eq_true_eq]
      rintro rfl
      exact ht hb
    rw [List.takeWhile_append_of_pos hall]
    cases rest <;> simp
  induction ts generalizing us with
  | nil =>
      cases us with
      | nil => rfl
      | cons u us => simp at h
  | cons t ts ih =>
      cases us with
      | nil => simp at h
      | cons u us =>
          obtain ⟨ht, htail⟩ := List.forall_mem_cons.mp hts
          obtain ⟨hu, hutail⟩ := List.forall_mem_cons.mp hus
          rw [List.flatMap_cons, List.flatMap_cons, List.cons_append, List.cons_append,
            List.cons_inj_right] at h
          have htu : t = u := by rw [← hfirst ht, h, hfirst hu]
          subst htu
          have hrest : ts = us := ih htail hutail (List.append_cancel_left h)
          rw [hrest]

private theorem nul_not_mem_digits (n : ℕ) : '\x00' ∉ Nat.toDigits 10 n := fun h => by
  have hdigit := Nat.isDigit_of_mem_toDigits (by decide) (Nat.le_refl 10) h
  cases hdigit

private theorem nul_not_mem_repr (n : ℕ) : '\x00' ∉ (toString n).toList := by
  rw [Nat.toString_eq_ofList_toDigits, String.toList_ofList]
  exact nul_not_mem_digits n

private theorem nul_not_mem_int (z : ℤ) : '\x00' ∉ (toString z).toList := by
  cases z with
  | ofNat n => exact nul_not_mem_repr n
  | negSucc n =>
      change '\x00' ∉ ("-" ++ toString (n + 1)).toList
      rw [String.toList_append, List.mem_append, not_or]
      exact ⟨by decide, nul_not_mem_repr (n + 1)⟩

private theorem nul_not_mem_ascii {s : String} (h : '\x00' ∉ s.toList) :
    0 ∉ ascii s := fun hmem => by
  obtain ⟨c, hc, hzero⟩ := List.mem_map.mp hmem
  obtain rfl : c = '\x00' := Char.toNat_inj.mp hzero
  exact h hc

private theorem nul_not_mem_numbers (kind : Kind) : 0 ∉ kind.numbers := by
  match kind with
  | .directory => exact List.not_mem_nil
  | .file none => exact List.not_mem_nil
  | .file (some ⟨ino, size, mtimeNs⟩) =>
      refine nul_not_mem_ascii ?_
      have hcolon : '\x00' ∉ (toString ":").toList := by decide
      simp only [String.toList_append, List.mem_append, not_or]
      exact ⟨⟨⟨⟨nul_not_mem_repr ino, hcolon⟩, nul_not_mem_repr size⟩, hcolon⟩,
        nul_not_mem_int mtimeNs⟩

private theorem nul_not_mem_name (name : Name) : 0 ∉ name.bytes := fun h =>
  absurd (name.valid 0 h).1 (Nat.lt_irrefl 0)

private theorem nul_not_mem_relpath (path : List Name) : 0 ∉ relpath path := by
  have hjoined : 0 ∉ [0x2F].intercalate (path.map Name.bytes) := by
    induction path with
    | nil => exact List.not_mem_nil
    | cons name path ih =>
        rw [List.map_cons]
        by_cases hpath : path.map Name.bytes = []
        · rw [hpath, List.intercalate_singleton]
          exact nul_not_mem_name name
        · rw [List.intercalate_cons_of_ne_nil hpath]
          simp only [List.mem_append, not_or]
          exact ⟨⟨nul_not_mem_name name, by decide⟩, ih⟩
  cases path with
  | nil => decide
  | cons name path => exact hjoined

private theorem mark_ne_nul (kind : Kind) : 0 ≠ kind.mark := by
  match kind with
  | .directory => decide
  | .file none => decide
  | .file (some stat) => exact nofun

/-- A record has no NUL but the one in front of it. -/
theorem nul_not_mem_text (l : Line) : 0 ∉ l.text := by
  have hentered : 0 ∉ l.entered.flatMap relpath := fun h => by
    obtain ⟨path, -, hpath⟩ := List.mem_flatMap.mp h
    exact nul_not_mem_relpath path hpath
  simp only [Line.text, List.mem_cons, List.mem_append, not_or]
  exact ⟨mark_ne_nul _, ⟨nul_not_mem_name _, nul_not_mem_numbers _⟩, hentered⟩

end Lines

end Jetty.Orchestrator.Watch
