import Jetty.Core.Python.Dict
import Jetty.Core.Python.Replacement
import Mathlib.Data.List.DropRight

/-!
# Console lines

How log bytes become lines: at the newlines, as they arrive (`LineBuffer`), and all at once
(`bytes.splitlines`), where a carriage return ends a line as well.
-/

namespace Jetty.Orchestrator.Console

open Python

/-! ### Prefixes -/

/-- `RESET`. -/
def reset : Text := 0x1B :: text "[0m"

/-- `_COLORS`. -/
def colors : List Text :=
  ["[36m", "[33m", "[32m", "[35m", "[34m", "[91m", "[96m", "[93m", "[92m", "[95m"].map fun code =>
    0x1B :: text code

/-- `str.ljust`. -/
def ljust (s : Text) (width : ℕ) : Text := s ++ List.replicate (width - s.length) 0x20

/-- The labels by name. -/
structure Prefixer where
  labels : Dict Text Text

namespace Prefixer

/-- `Prefixer.__init__`. -/
def make (names : List Text) (color : Bool) : Prefixer :=
  let width := (names.map List.length).foldl max 0
  let label (name : Text) (i : ℕ) : Text :=
    let plain := text "[" ++ ljust name width ++ text "]"
    if color then colors.getD (i % colors.length) [] ++ plain ++ reset else plain
  { labels := names.zipIdx.foldl (fun labels (name, i) => labels.set name (label name i)) .empty }

def label (p : Prefixer) (name : Text) : Text :=
  (p.labels.get? name).getD (text "[" ++ name ++ text "]")

def format (p : Prefixer) (name line : Text) : Text := p.label name ++ text " " ++ line

/-- No two lines look alike behind one prefix. -/
theorem format_injective (p : Prefixer) (name : Text) : Function.Injective (p.format name) :=
  fun _ _ h => List.append_cancel_left h

end Prefixer

/-! ### Lines as they arrive -/

/-- `\n`. -/
def lf : ℕ := 0x0A

/-- `\r`. -/
def cr : ℕ := 0x0D

/-- `str.rstrip("\r")`. -/
def rstrip (s : Text) : Text := s.rdropWhile (· = Fin.ofNat _ cr)

/-- The bytes of the lines that end. -/
def completeLines (bytes : List ℕ) : List (List ℕ) := (bytes.splitOn lf).dropLast

/-- The bytes after the last newline. -/
def openLine (bytes : List ℕ) : List ℕ := (bytes.splitOn lf).getLast (List.splitOn_ne_nil lf bytes)

/-- What is printed of a line. -/
def render (line : List ℕ) : Text := rstrip (Text.decodeReplacing line)

structure LineBuffer where
  /-- `_partial`. -/
  held : List ℕ := []

def LineBuffer.feed (b : LineBuffer) (chunk : List ℕ) : List Text × LineBuffer :=
  let data := b.held ++ chunk
  ((completeLines data).map render, ⟨openLine data⟩)

def LineBuffer.flush (b : LineBuffer) : Option Text × LineBuffer :=
  if b.held = [] then (none, b) else (some (Text.decodeReplacing b.held), ⟨[]⟩)

section Feeding

variable {xs ys line : List ℕ}

/-- Bytes without a line feed complete no line. -/
theorem completeLines_of_not_mem (h : lf ∉ xs) : completeLines xs = [] := by
  rw [completeLines, List.splitOn_eq_singleton h]
  rfl

/-- Bytes without a line feed are all of the open line. -/
theorem openLine_of_not_mem (h : lf ∉ xs) : openLine xs = xs := by
  simp only [openLine, List.splitOn_eq_singleton h, List.getLast_singleton]

/-- A line feed completes the lines before it. -/
theorem completeLines_newline :
    completeLines (xs ++ lf :: ys) = xs.splitOn lf ++ completeLines ys := by
  rw [completeLines, List.splitOn_append_cons_self,
    List.dropLast_append_of_ne_nil (List.splitOn_ne_nil _ _)]
  rfl

/-- A line feed begins the open line anew. -/
theorem openLine_newline : openLine (xs ++ lf :: ys) = openLine ys := by
  simp only [openLine, List.splitOn_append_cons_self]
  exact List.getLast_append_of_ne_nil _ (List.splitOn_ne_nil lf ys)

/-- The bytes end somewhere behind their last newline. -/
theorem exists_openLine (xs : List ℕ) :
    lf ∉ xs ∨ ∃ before last, xs = before ++ lf :: last ∧ lf ∉ last := by
  induction xs with
  | nil => exact .inl (List.not_mem_nil)
  | cons b xs ih =>
      rcases ih with hxs | ⟨before, last, rfl, hlast⟩
      · by_cases hb : b = lf
        · exact .inr ⟨[], xs, by rw [hb, List.nil_append], hxs⟩
        · exact .inl (List.not_mem_cons_of_ne_of_not_mem (Ne.symm hb) hxs)
      · exact .inr ⟨b :: before, last, rfl, hlast⟩

/-- Bytes that arrive later complete the open line. -/
theorem completeLines_append :
    completeLines (xs ++ ys) = completeLines xs ++ completeLines (openLine xs ++ ys) := by
  rcases exists_openLine xs with hxs | ⟨before, last, rfl, hlast⟩
  · rw [completeLines_of_not_mem hxs, openLine_of_not_mem hxs, List.nil_append]
  · rw [openLine_newline, openLine_of_not_mem hlast, List.append_assoc, List.cons_append,
      completeLines_newline, completeLines_newline, completeLines_of_not_mem hlast,
      List.append_nil]

/-- The open line of a chunk goes on from the one before. -/
theorem openLine_append : openLine (xs ++ ys) = openLine (openLine xs ++ ys) := by
  rcases exists_openLine xs with hxs | ⟨before, last, rfl, hlast⟩
  · rw [openLine_of_not_mem hxs]
  · rw [openLine_newline, openLine_of_not_mem hlast, List.append_assoc, List.cons_append,
      openLine_newline]

end Feeding

/-! ### Lines all at once -/

/-- The lines, after the bytes of one that has begun; whether a carriage return has just ended
one. -/
def splitlinesFrom (line : List ℕ) (returned : Bool) : List ℕ → List (List ℕ)
  | [] => if line = [] then [] else [line]
  | b :: bytes =>
    if b = lf ∧ returned = true then splitlinesFrom [] false bytes
    else if b = lf ∨ b = cr then line :: splitlinesFrom [] (decide (b = cr)) bytes
    else splitlinesFrom (line ++ [b]) false bytes

/-- `bytes.splitlines`. -/
def splitlines (bytes : List ℕ) : List (List ℕ) := splitlinesFrom [] false bytes

/-- What is cut out of a line. -/
def pieces (line : List ℕ) : List (List ℕ) := splitlines (line ++ [lf])

/-- A carriage return may stand right before the newline only. -/
def Clean (line : List ℕ) : Prop := cr ∉ line.dropLast

instance (line : List ℕ) : Decidable (Clean line) := inferInstanceAs (Decidable (_ ∉ _))

/-- There are carriage returns only. -/
def Blank (line : List ℕ) : Prop := ∀ b ∈ line, b = cr

instance (line : List ℕ) : Decidable (Blank line) :=
  inferInstanceAs (Decidable (∀ b ∈ line, b = cr))

section Cutting

variable {u v xs ys line : List ℕ} {returned : Bool}

/-- `splitlines` begins anew behind a line feed. -/
theorem splitlinesFrom_newline : splitlinesFrom line returned (xs ++ lf :: ys) =
    splitlinesFrom line returned (xs ++ [lf]) ++ splitlinesFrom [] false ys := by
  induction xs generalizing line returned with
  | nil =>
      simp only [List.nil_append, splitlinesFrom]
      split
      · rfl
      · rfl
  | cons b xs ih =>
      simp only [List.cons_append, splitlinesFrom]
      split
      · exact ih
      · split
        · rw [ih, List.cons_append]
        · exact ih

private theorem splitlinesFrom_return : splitlinesFrom line returned (xs ++ cr :: ys) =
    splitlinesFrom line returned (xs ++ [cr]) ++ splitlinesFrom [] true ys := by
  induction xs generalizing line returned with
  | nil => rfl
  | cons b xs ih =>
      simp only [List.cons_append, splitlinesFrom]
      split
      · exact ih
      · split
        · rw [ih, List.cons_append]
        · exact ih

private theorem splitlinesFrom_ne_nil : splitlinesFrom line returned (xs ++ [cr]) ≠ [] := by
  induction xs generalizing line returned with
  | nil => exact List.cons_ne_nil _ _
  | cons b xs ih =>
      simp only [List.cons_append, splitlinesFrom]
      split
      · exact ih
      · split
        · exact List.cons_ne_nil _ _
        · exact ih

/-- A line without carriage returns, but for one at its end. -/
theorem splitlinesFrom_plain (hcr : cr ∉ v) (hlf : lf ∉ v) {e : List ℕ} (he : e = [] ∨ e = [cr])
    (hopen : returned = true → v ++ e ≠ []) :
    splitlinesFrom line returned (v ++ e ++ [lf]) = [line ++ v] := by
  induction v generalizing line returned with
  | nil =>
      rcases he with rfl | rfl
      · cases returned with
        | false => simp [splitlinesFrom]
        | true => exact absurd rfl (hopen rfl)
      · simp [splitlinesFrom, cr, lf]
  | cons b v ih =>
      obtain ⟨hb, hcr⟩ := List.ne_and_not_mem_of_not_mem_cons hcr
      obtain ⟨hb', hlf⟩ := List.ne_and_not_mem_of_not_mem_cons hlf
      simp only [List.cons_append, splitlinesFrom]
      rw [if_neg fun h => hb' h.1.symm, if_neg fun h => h.elim hb'.symm hb.symm,
        @ih (line ++ [b]) false hcr hlf (fun h => by cases h), List.append_assoc]
      rfl

/-- The last stretch of a line without carriage returns, and what is before it. -/
theorem exists_stretch (line : List ℕ) : ∃ v e, cr ∉ v ∧ (e = [] ∨ e = [cr]) ∧
    (line = v ++ e ∨ v ++ e ≠ [] ∧ ∃ u, line = u ++ cr :: (v ++ e)) := by
  induction line with
  | nil => exact ⟨[], [], List.not_mem_nil, .inl rfl, .inl rfl⟩
  | cons b line ih =>
      obtain ⟨v, e, hv, he, rfl | ⟨hne, u, rfl⟩⟩ := ih
      · by_cases hb : b = cr
        · subst hb
          by_cases hne : v ++ e = []
          · obtain ⟨rfl, rfl⟩ := List.append_eq_nil_iff.mp hne
            exact ⟨[], [cr], List.not_mem_nil, .inr rfl, .inl rfl⟩
          · exact ⟨v, e, hv, he, .inr ⟨hne, [], rfl⟩⟩
        · exact ⟨b :: v, e, List.not_mem_cons_of_ne_of_not_mem (Ne.symm hb) hv, he, .inl rfl⟩
      · exact ⟨v, e, hv, he, .inr ⟨hne, b :: u, rfl⟩⟩

private theorem clean_stretch (hv : cr ∉ v) {e : List ℕ} (he : e = [] ∨ e = [cr]) : Clean
    (v ++ e) := by
  rcases he with rfl | rfl
  · rw [List.append_nil]
    exact fun h => hv (List.dropLast_subset v h)
  · rw [Clean, List.dropLast_concat]
    exact hv

private theorem not_clean_stretch (hne : v ≠ []) : ¬ Clean (u ++ cr :: v) := by
  intro h
  apply h
  rw [List.dropLast_append_of_ne_nil (List.cons_ne_nil _ _), List.dropLast_cons_of_ne_nil hne]
  exact List.mem_append_right _ List.mem_cons_self

private theorem rstrip_of_not_mem {t : Text} (h : (Fin.ofNat _ cr : CodePoint) ∉ t) :
    rstrip t = t := by
  refine List.rdropWhile_eq_self_iff.mpr fun hne hlast => ?_
  rw [decide_eq_true_iff] at hlast
  exact h (hlast ▸ List.getLast_mem hne)

private theorem rstrip_concat (t : Text) : rstrip (t ++ [Fin.ofNat _ cr]) = rstrip t :=
  List.rdropWhile_concat_pos _ _ _ (decide_eq_true rfl)

private theorem rstrip_append {s t : Text} (h : rstrip t ≠ []) : rstrip
    (s ++ t) = s ++ rstrip t := by
  unfold rstrip List.rdropWhile at h ⊢
  rw [List.reverse_append, List.dropWhile_append, if_neg, List.reverse_append, List.reverse_reverse]
  rw [List.isEmpty_iff]
  exact fun hnil => h (by rw [hnil, List.reverse_nil])

/-- Of carriage returns nothing is left, and of nothing else. -/
theorem render_eq_nil : render line = [] ↔ Blank line := by
  rw [render, rstrip, List.rdropWhile_eq_nil_iff]
  simp only [decide_eq_true_iff]
  constructor
  · exact Text.forall_of_forall_decodeReplacing (by decide)
  · intro hblank
    induction line with
    | nil => exact List.forall_mem_nil _
    | cons b line ih =>
        obtain ⟨rfl, hrest⟩ := List.forall_mem_cons.mp hblank
        rw [← List.nil_append (cr :: line), Text.decodeReplacing_append (by decide)]
        exact List.forall_mem_cons.mpr ⟨rfl, ih hrest⟩

private theorem render_stretch (hv : cr ∉ v) {e : List ℕ} (he : e = [] ∨ e = [cr]) :
    render (v ++ e) = Text.decodeReplacing v := by
  have hnone : (Fin.ofNat _ cr : CodePoint) ∉ Text.decodeReplacing v := fun h =>
    hv (Text.mem_of_mem_decodeReplacing (by decide) h)
  unfold render
  rcases he with rfl | rfl
  · rw [List.append_nil, rstrip_of_not_mem hnone]
  · rw [Text.decodeReplacing_append (by decide), Text.decodeReplacing_nil, rstrip_concat,
      rstrip_of_not_mem hnone]

/-- A clean line is one piece, printed as it is rendered. -/
theorem pieces_of_clean (hclean : Clean line) (hlf : lf ∉ line) :
    (pieces line).map Text.decodeReplacing = [render line] := by
  obtain ⟨v, e, hv, he, rfl | ⟨hne, u, rfl⟩⟩ := exists_stretch line
  · have hlf' : lf ∉ v := fun h => hlf (List.mem_append_left _ h)
    rw [pieces, splitlines, splitlinesFrom_plain hv hlf' he (fun h => by cases h),
      List.nil_append, List.map_singleton, render_stretch hv he]
  · exact absurd hclean (not_clean_stretch hne)

/-- Any other line is several, the last of which is not printed as the line is rendered, unless
there are carriage returns only. -/
theorem pieces_of_not_clean (hclean : ¬ Clean line) (hlf : lf ∉ line) :
    ∃ front last, front ≠ [] ∧ pieces line = front ++ [last] ∧
      (Text.decodeReplacing last = render line → Blank line) := by
  obtain ⟨v, e, hv, he, rfl | ⟨hne, u, rfl⟩⟩ := exists_stretch line
  · exact absurd (clean_stretch hv he) hclean
  · have hlf' : lf ∉ v := fun h => hlf <| List.mem_append_right _ <|
      List.mem_cons_of_mem _ <| List.mem_append_left _ h
    refine ⟨splitlines (u ++ [cr]), v, splitlinesFrom_ne_nil, ?_, fun h => ?_⟩
    · rw [pieces, splitlines, List.append_assoc, List.cons_append, splitlinesFrom_return,
        splitlinesFrom_plain hv hlf' he fun _ => hne]
      rfl
    · by_cases hv' : v = []
      · subst hv'
        exact render_eq_nil.mp h.symm
      · have hrest : render (v ++ e) ≠ [] := by
          rw [render_stretch hv he]
          exact fun hnil => hv' (Text.decodeReplacing_eq_nil.mp hnil)
        have hlong : render (u ++ cr :: (v ++ e)) =
            Text.decodeReplacing u ++ [Fin.ofNat _ cr] ++ Text.decodeReplacing v := by
          rw [render, Text.decodeReplacing_append (by decide), ← List.singleton_append,
            ← List.append_assoc, rstrip_append hrest]
          exact congrArg _ (render_stretch hv he)
        have hlength := congrArg List.length (h.trans hlong)
        simp only [List.length_append, List.length_singleton] at hlength
        omega

/-- A blank line falls into empty pieces. -/
theorem pieces_of_blank (hblank : Blank line) :
    pieces line ≠ [] ∧ ∀ piece ∈ pieces line, piece = [] := by
  have hall : ∀ returned, ∀ piece ∈ splitlinesFrom [] returned (line ++ [lf]), piece = [] := by
    induction line with
    | nil =>
        intro returned piece hpiece
        cases returned with
        | false => exact List.mem_singleton.mp hpiece
        | true => cases hpiece
    | cons b line ih =>
        obtain ⟨rfl, hrest⟩ := List.forall_mem_cons.mp hblank
        intro returned piece hpiece
        rcases List.mem_cons.mp hpiece with rfl | hpiece
        · rfl
        · exact ih hrest true piece hpiece
  refine ⟨?_, hall false⟩
  cases line with
  | nil => exact List.cons_ne_nil _ _
  | cons b line =>
      obtain rfl := hblank b List.mem_cons_self
      exact List.cons_ne_nil _ _

end Cutting

end Jetty.Orchestrator.Console
