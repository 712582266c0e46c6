import Jetty.Orchestrator.Console.Lines

/-!
# The last lines

The last lines of a log, cut wherever a line of Python ends, against the last lines that end in a
newline. They are compared from the end of the log, where the two are in step until a line is cut
in more than one piece.
-/

namespace Jetty.Orchestrator.Console

open Python

/-- `xs[-n:]`. -/
def sliceLast {α : Type} (n : ℕ) (xs : List α) : List α := if n = 0 then xs else xs.rtake n

/-- What is printed of the pieces of a line, the last one first. -/
def cuts (line : List ℕ) : List Text := ((pieces line).map Text.decodeReplacing).reverse

/-- The log ends in a newline, and lines are asked for. Of the last lines none is cut in pieces,
but that they may begin with lines of carriage returns, if there are as many lines as asked for. -/
def Legible (n : ℕ) (content : List ℕ) : Prop :=
  content = [] ∨ 1 ≤ n ∧ openLine content = [] ∧ ∃ blanks clean,
    (completeLines content).rtake n = blanks ++ clean ∧ (∀ line ∈ blanks, Blank line) ∧
      (∀ line ∈ clean, Clean line) ∧ (blanks = [] ∨ n ≤ (completeLines content).length)

section Cuts

variable {line : List ℕ} {n : ℕ} {lines : List (List ℕ)} {extra : List Text}

private theorem cuts_of_clean (hclean : Clean line) (hlf : lf ∉ line) : cuts line =
    [render line] := by
  rw [cuts, pieces_of_clean hclean hlf, List.reverse_singleton]

private theorem cuts_of_not_clean (hclean : ¬ Clean line) (hlf : lf ∉ line) : ∃ first rest,
    cuts line = first :: rest ∧ rest ≠ [] ∧ (first = render line → Blank line) := by
  obtain ⟨front, last, hfront, hpieces, hlast⟩ := pieces_of_not_clean hclean hlf
  refine ⟨Text.decodeReplacing last, (front.map Text.decodeReplacing).reverse, ?_, ?_, hlast⟩
  · rw [cuts, hpieces, List.map_append, List.map_singleton, List.reverse_append,
      List.reverse_singleton, List.singleton_append]
  · simpa using hfront

private theorem cuts_of_blank (hblank : Blank line) : cuts line ≠ [] ∧ ∀ cut ∈ cuts line, cut =
    [] := by
  obtain ⟨hne, hall⟩ := pieces_of_blank hblank
  refine ⟨by simpa [cuts] using hne, fun cut hcut => ?_⟩
  obtain ⟨piece, hpiece, rfl⟩ := List.mem_map.mp (List.mem_reverse.mp hcut)
  rw [hall piece hpiece, Text.decodeReplacing_nil]

/-- Once there are more pieces than lines, only lines of carriage returns go unnoticed. -/
theorem take_surplus_iff (hne : extra ≠ []) (hempty : ∀ cut ∈ extra, cut = []) :
    (extra ++ lines.flatMap cuts).take n = (lines.take n).map render ↔
      (∀ line ∈ lines.take n, Blank line) ∧ n ≤ lines.length := by
  induction lines generalizing n extra with
  | nil =>
      rw [List.flatMap_nil, List.append_nil, List.take_nil, List.map_nil, List.take_eq_nil_iff,
        List.length_nil, Nat.le_zero]
      simp [hne]
  | cons line lines ih =>
      cases n with
      | zero => simp
      | succ n =>
          obtain ⟨first, rest, rfl⟩ := List.exists_cons_of_ne_nil hne
          obtain ⟨rfl, hrest⟩ := List.forall_mem_cons.mp hempty
          rw [List.cons_append, List.flatMap_cons, ← List.append_assoc, List.take_succ_cons,
            List.take_succ_cons, List.map_cons, List.cons.injEq, List.forall_mem_cons,
            List.length_cons, Nat.add_le_add_iff_right]
          by_cases hblank : Blank line
          · obtain ⟨hcuts, hall⟩ := cuts_of_blank hblank
            rw [@ih n (rest ++ cuts line) (fun h => hcuts (List.append_eq_nil_iff.mp h).2)
              (List.forall_mem_append.mpr ⟨hrest, hall⟩), eq_comm (a := []), render_eq_nil,
              and_assoc]
          · refine iff_of_false (fun h => hblank (render_eq_nil.mp h.1.symm)) fun h => hblank h.1.1

/-- From the end, pieces and lines agree as long as no line is cut, and after a line of several
carriage returns only while there are carriage returns. -/
theorem take_cuts_iff (hlf : ∀ line ∈ lines, lf ∉ line) :
    (lines.flatMap cuts).take n = (lines.take n).map render ↔ ∃ clean blanks,
      lines.take n = clean ++ blanks ∧ (∀ line ∈ clean, Clean line) ∧
        (∀ line ∈ blanks, Blank line) ∧ (blanks = [] ∨ n ≤ lines.length) := by
  induction lines generalizing n with
  | nil =>
      refine iff_of_true (by simp) ⟨[], [], by simp, List.forall_mem_nil _, List.forall_mem_nil _,
        .inl rfl⟩
  | cons line lines ih =>
      obtain ⟨hline, hlf⟩ := List.forall_mem_cons.mp hlf
      cases n with
      | zero =>
          exact iff_of_true rfl ⟨[], [], rfl, List.forall_mem_nil _, List.forall_mem_nil _,
            .inl rfl⟩
      | succ n =>
          rw [List.flatMap_cons, List.take_succ_cons, List.map_cons, List.length_cons,
            Nat.add_le_add_iff_right]
          by_cases hclean : Clean line
          · rw [cuts_of_clean hclean hline, List.singleton_append, List.take_succ_cons,
              List.cons.injEq, and_iff_right rfl, ih hlf]
            constructor
            · rintro ⟨clean, blanks, heq, hcleans, hrest⟩
              exact ⟨line :: clean, blanks, by rw [heq, List.cons_append],
                List.forall_mem_cons.mpr ⟨hclean, hcleans⟩, hrest⟩
            · rintro ⟨clean, blanks, heq, hcleans, hblanks, hn⟩
              rcases List.cons_eq_append_iff.mp heq with ⟨rfl, rfl⟩ | ⟨clean, rfl, htail⟩
              · exact ⟨[], _, rfl, List.forall_mem_nil _, (List.forall_mem_cons.mp hblanks).2,
                  .inr (hn.resolve_left (List.cons_ne_nil _ _))⟩
              · exact ⟨clean, blanks, htail, (List.forall_mem_cons.mp hcleans).2, hblanks, hn⟩
          · obtain ⟨first, rest, hcuts, hrest, hfirst⟩ := cuts_of_not_clean hclean hline
            rw [hcuts, List.cons_append, List.take_succ_cons, List.cons.injEq]
            have hsurplus (hblank : Blank line) := @take_surplus_iff n lines rest hrest fun cut h =>
              (cuts_of_blank hblank).2 cut (hcuts ▸ List.mem_cons_of_mem _ h)
            constructor
            · rintro ⟨heq, htake⟩
              have hblank := hfirst heq
              obtain ⟨hblanks, hn⟩ := (hsurplus hblank).mp htake
              exact ⟨[], line :: lines.take n, rfl, List.forall_mem_nil _,
                List.forall_mem_cons.mpr ⟨hblank, hblanks⟩, .inr hn⟩
            · rintro ⟨clean, blanks, heq, hcleans, hblanks, hn⟩
              rcases List.cons_eq_append_iff.mp heq with ⟨rfl, rfl⟩ | ⟨clean, rfl, -⟩
              · obtain ⟨hblank, hblanks⟩ := List.forall_mem_cons.mp hblanks
                refine ⟨?_, (hsurplus hblank).mpr
                  ⟨hblanks, hn.resolve_left (List.cons_ne_nil _ _)⟩⟩
                rw [render_eq_nil.mpr hblank]
                exact (cuts_of_blank hblank).2 first (hcuts ▸ List.mem_cons_self)
              · exact absurd (hcleans line List.mem_cons_self) hclean

end Cuts

section Content

variable {content : List ℕ} {n : ℕ}

/-- A log is read line by line up to what is still open. -/
theorem lines_induction {motive : List ℕ → Prop} (ends : ∀ bytes, lf ∉ bytes → motive bytes)
    (line : ∀ line bytes, lf ∉ line → motive bytes → motive (line ++ lf :: bytes))
    (bytes : List ℕ) : motive bytes := by
  induction hn : bytes.length using Nat.strongRecOn generalizing bytes with
  | _ n ih =>
      by_cases hlf : lf ∈ bytes
      · obtain ⟨front, rest, rfl, hfront⟩ := List.eq_append_cons_of_mem hlf
        refine line front rest hfront (ih rest.length ?_ rest rfl)
        rw [← hn, List.length_append, List.length_cons]
        omega
      · exact ends bytes hlf

/-- The first complete line is what comes before the first line feed. -/
theorem completeLines_line {line rest : List ℕ} (hlf : lf ∉ line) :
    completeLines (line ++ lf :: rest) = line :: completeLines rest := by
  rw [completeLines_newline, List.splitOn_eq_singleton hlf, List.singleton_append]

/-- A line has no line feed in it. -/
theorem not_mem_of_mem_completeLines {line : List ℕ} (h : line ∈ completeLines content) :
    lf ∉ line := by
  induction content using lines_induction with
  | ends bytes hlf =>
      rw [completeLines_of_not_mem hlf] at h
      cases h
  | line front rest hlf ih =>
      rw [completeLines_line hlf] at h
      rcases List.mem_cons.mp h with rfl | h
      · exact hlf
      · exact ih h

/-- Neither has the open one. -/
theorem not_mem_openLine (content : List ℕ) : lf ∉ openLine content := by
  induction content using lines_induction with
  | ends bytes hlf => rwa [openLine_of_not_mem hlf]
  | line front rest _ ih => rwa [openLine_newline]

/-- `splitlines` cuts one line after the other. -/
theorem splitlines_eq (content : List ℕ) : splitlines content =
    (completeLines content).flatMap pieces ++ splitlines (openLine content) := by
  induction content using lines_induction with
  | ends bytes hlf =>
      rw [completeLines_of_not_mem hlf, openLine_of_not_mem hlf]
      rfl
  | line front rest hlf ih =>
      rw [completeLines_line hlf, openLine_newline, List.flatMap_cons, List.append_assoc, ← ih]
      exact splitlinesFrom_newline

private theorem pieces_ne_nil {line : List ℕ} (hlf : lf ∉ line) : pieces line ≠ [] := by
  intro hnil
  by_cases hclean : Clean line
  · have hone := pieces_of_clean hclean hlf
    rw [hnil] at hone
    cases hone
  · obtain ⟨front, last, -, hpieces, -⟩ := pieces_of_not_clean hclean hlf
    exact List.append_ne_nil_of_right_ne_nil _ (List.cons_ne_nil _ _) (hpieces.symm.trans hnil)

private theorem eq_nil_of_completeLines (hopen : openLine content = [])
    (h : completeLines content = []) : content = [] := by
  induction content using lines_induction with
  | ends bytes hlf => rwa [openLine_of_not_mem hlf] at hopen
  | line front rest hlf =>
      rw [completeLines_line hlf] at h
      cases h

/-- Of a log that ends in a newline the tail is printed line by line exactly if it is legible. -/
theorem tail_iff_legible (hopen : openLine content = []) :
    (sliceLast n (splitlines content)).map Text.decodeReplacing =
      ((completeLines content).rtake n).map render ↔ Legible n content := by
  have hpieces : splitlines content = (completeLines content).flatMap pieces := by
    rw [splitlines_eq, hopen]
    exact List.append_nil _
  rw [Legible, and_iff_right hopen]
  by_cases hn : n = 0
  · subst hn
    rw [sliceLast, if_pos rfl, List.rtake_zero, List.map_nil, List.map_eq_nil_iff, hpieces]
    constructor
    · intro hnil
      refine .inl (eq_nil_of_completeLines hopen (List.eq_nil_iff_forall_not_mem.mpr ?_))
      intro line hline
      exact pieces_ne_nil (not_mem_of_mem_completeLines hline)
        (List.flatMap_eq_nil_iff.mp hnil line hline)
    · rintro (rfl | ⟨hpos, -⟩)
      · rfl
      · exact absurd hpos (by omega)
  · rw [sliceLast, if_neg hn, ← List.reverse_inj, ← List.map_reverse, ← List.map_reverse,
      List.rtake_eq_reverse_take_reverse, List.rtake_eq_reverse_take_reverse,
      List.reverse_reverse, List.reverse_reverse, hpieces, List.map_take, List.reverse_flatMap,
      List.map_flatMap]
    have hcuts : (fun line => ((List.reverse ∘ pieces) line).map Text.decodeReplacing) = cuts :=
      funext fun line => List.map_reverse
    have hlf : ∀ line ∈ (completeLines content).reverse, lf ∉ line := fun line hline =>
      not_mem_of_mem_completeLines (List.mem_reverse.mp hline)
    rw [hcuts, take_cuts_iff hlf, List.length_reverse]
    constructor
    · rintro ⟨clean, blanks, heq, hclean, hblanks, hlength⟩
      refine .inr ⟨Nat.pos_of_ne_zero hn, blanks.reverse, clean.reverse, ?_, ?_, ?_, ?_⟩
      · rw [heq, List.reverse_append]
      · exact fun line hline => hblanks line (List.mem_reverse.mp hline)
      · exact fun line hline => hclean line (List.mem_reverse.mp hline)
      · exact hlength.imp_left List.reverse_eq_nil_iff.mpr
    · rintro (rfl | ⟨-, blanks, clean, heq, hblanks, hclean, hlength⟩)
      · refine ⟨[], [], ?_, List.forall_mem_nil _, List.forall_mem_nil _, .inl rfl⟩
        rw [completeLines_of_not_mem List.not_mem_nil, List.reverse_nil, List.take_nil]
        rfl
      · refine ⟨clean.reverse, blanks.reverse, ?_, ?_, ?_, ?_⟩
        · rw [← List.reverse_append, ← heq, List.reverse_reverse]
        · exact fun line hline => hclean line (List.mem_reverse.mp hline)
        · exact fun line hline => hblanks line (List.mem_reverse.mp hline)
        · exact hlength.imp_left List.reverse_eq_nil_iff.mpr

end Content

end Jetty.Orchestrator.Console
