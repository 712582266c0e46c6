import Jetty.Orchestrator.Resolvers.Output

/-!
# The output contract of a resolver

What `parse_output` accepts, as a condition on the lines that count: one bare path for one name, or
one line for each name. The condition does not look at the order of the lines, and the lines of an
assignment of paths meet it, unless a name ends in a newline.
-/

namespace Jetty.Orchestrator

open Failure Python

/-- The name and the path of a `name=path` line. -/
def entryOf (line : List Char) : String × String :=
  (String.ofList (stripLine (partition '=' line).1),
    String.ofList (stripLine (partition '=' line).2.2))

/-- A line that assigns something to a provided name. -/
structure Assigns (provides : List String) (line : List Char) : Prop where
  equals : '=' ∈ line
  name_ne : (entryOf line).1 ≠ ""
  path_ne : (entryOf line).2 ≠ ""
  provided : (entryOf line).1 ∈ provides

/-- Lines that assign a path to each provided name once. -/
structure Fits (provides : List String) (lines : List (List Char)) : Prop where
  assigns : ∀ line ∈ lines, Assigns provides line
  once : (lines.map fun line => (entryOf line).1).Nodup
  all : ∀ p ∈ provides, p ∈ lines.map fun line => (entryOf line).1

/-- The lines that count are accepted with the entries. -/
def Accepts (provides : List String) (lines : List (List Char))
    (entries : List (String × String)) : Prop :=
  (∃ p line, provides = [p] ∧ lines = [line] ∧ '=' ∉ line ∧ entries = [(p, String.ofList line)]) ∨
    Fits provides lines ∧ entries = lines.map entryOf

section Accepted

variable {repr : String → String} {name : String} {provides : List String}

private theorem parseLine_eq_ok {out out' : Dict String String} {line : List Char} :
    parseLine repr name provides out line = .ok out' ↔
      Assigns provides line ∧ (entryOf line).1 ∉ out.keys ∧
        out' = out.set (entryOf line).1 (entryOf line).2 := by
  have hfound := @partition_found '=' line
  unfold parseLine entryOf
  dsimp only
  split_ifs with hparsed hknown hfresh
  · refine ⟨nofun, ?_⟩
    rintro ⟨hassigns, -⟩
    simp only [Bool.or_eq_true, Bool.not_eq_true', decide_eq_true_eq] at hparsed
    rcases hparsed with (hsep | hname) | hpath
    · rw [hfound.mpr hassigns.equals] at hsep
      cases hsep
    · exact absurd hname hassigns.name_ne
    · exact absurd hpath hassigns.path_ne
  · exact ⟨nofun, fun h => absurd hfresh h.2.1⟩
  · simp only [Bool.or_eq_true, Bool.not_eq_true', decide_eq_true_eq, not_or,
      Bool.not_eq_false] at hparsed
    obtain ⟨⟨hsep, hname⟩, hpath⟩ := hparsed
    refine ⟨fun h => ⟨⟨hfound.mp hsep, hname, hpath, hknown⟩, hfresh, ?_⟩, ?_⟩
    · exact (Except.ok.inj h).symm
    · rintro ⟨-, -, rfl⟩
      rfl
  · exact ⟨nofun, fun h => absurd h.1.provided hknown⟩

private theorem entries_set_of_not_mem {d : Dict String String} {k v : String} (h : k ∉ d.keys) :
    (d.set k v).entries = d.entries ++ [(k, v)] := by
  rw [Dict.set, dif_neg h]

private theorem foldlM_parseLine_eq_ok {lines : List (List Char)} {out out' : Dict String String} :
    lines.foldlM (parseLine repr name provides) out = .ok out' ↔
      (∀ line ∈ lines, Assigns provides line) ∧
        (out.keys ++ lines.map fun line => (entryOf line).1).Nodup ∧
        out'.entries = out.entries ++ lines.map entryOf := by
  induction lines generalizing out with
  | nil =>
      simp only [List.foldlM_nil, List.map_nil, List.append_nil]
      refine ⟨fun h => ?_, fun h => ?_⟩
      · obtain rfl := Except.ok.inj h
        exact ⟨List.forall_mem_nil _, out.nodup, rfl⟩
      · obtain ⟨-, -, h⟩ := h
        cases out
        cases out'
        cases h
        rfl
  | cons line lines ih =>
      rw [List.foldlM_cons, bind_eq_ok]
      simp only [parseLine_eq_ok, List.forall_mem_cons, List.map_cons]
      constructor
      · rintro ⟨next, ⟨hline, hnew, rfl⟩, h⟩
        obtain ⟨hlines, hnodup, hentries⟩ := ih.mp h
        rw [Dict.keys_set, if_neg hnew, List.append_assoc] at hnodup
        rw [entries_set_of_not_mem hnew, List.append_assoc] at hentries
        exact ⟨⟨hline, hlines⟩, hnodup, hentries⟩
      · rintro ⟨⟨hline, hlines⟩, hnodup, hentries⟩
        have hnew : (entryOf line).1 ∉ out.keys := fun hmem =>
          (List.nodup_append.mp hnodup).2.2 _ hmem _ List.mem_cons_self rfl
        refine ⟨_, ⟨hline, hnew, rfl⟩, ih.mpr ⟨hlines, ?_, ?_⟩⟩
        · rw [Dict.keys_set, if_neg hnew, List.append_assoc]
          exact hnodup
        · rw [entries_set_of_not_mem hnew, List.append_assoc]
          exact hentries

private theorem parseLines_eq_ok {lines : List (List Char)} {out : Dict String String} :
    parseOutput.parseLines repr name provides lines = .ok out ↔
      Fits provides lines ∧ out.entries = lines.map entryOf := by
  have hkeys : ∀ out' : Dict String String, out'.entries = lines.map entryOf →
      out'.keys = lines.map fun line => (entryOf line).1 := by
    intro out' h
    rw [Dict.keys, h, List.map_map]
    rfl
  rw [parseOutput.parseLines, bind_eq_ok]
  simp only [foldlM_parseLine_eq_ok]
  constructor
  · rintro ⟨out', ⟨hassigns, honce, hentries⟩, h⟩
    split_ifs at h with hmissing
    obtain rfl := Except.ok.inj h
    refine ⟨⟨hassigns, honce, fun p hp => ?_⟩, hentries⟩
    have hnot := List.filter_eq_nil_iff.mp hmissing p hp
    rw [decide_eq_true_eq, not_not, hkeys _ hentries] at hnot
    exact hnot
  · rintro ⟨hfits, hentries⟩
    refine ⟨out, ⟨hfits.assigns, hfits.once, hentries⟩, if_pos ?_⟩
    refine List.filter_eq_nil_iff.mpr fun p hp => ?_
    rw [decide_eq_true_eq, not_not, hkeys _ hentries]
    exact hfits.all p hp

/-- An output is accepted exactly if its lines that count are. -/
theorem parseOutput_eq_ok {stdout : List Char} {out : Dict String String} :
    parseOutput repr name provides stdout = .ok out ↔
      Accepts provides (outputLines stdout) out.entries := by
  unfold parseOutput Accepts
  split
  · rename_i p line hlines
    rw [hlines]
    by_cases hbare : '=' ∉ line
    · rw [if_pos hbare]
      constructor
      · intro h
        obtain rfl := Except.ok.inj h
        exact .inl ⟨p, line, rfl, rfl, hbare, rfl⟩
      · rintro (⟨p', line', hp, hline, -, hentries⟩ | ⟨hfits, -⟩)
        · obtain rfl := (List.cons.inj hp).1
          obtain rfl := (List.cons.inj hline).1
          cases out
          cases hentries
          rfl
        · exact absurd (hfits.assigns line List.mem_cons_self).equals hbare
    · rw [if_neg hbare, parseLines_eq_ok]
      refine ⟨.inr, ?_⟩
      rintro (⟨p', line', -, hline, hbare', -⟩ | h)
      · rw [(List.cons.inj hline).1] at hbare
        exact absurd hbare' hbare
      · exact h
  · rename_i hnot
    rw [parseLines_eq_ok]
    refine ⟨.inr, ?_⟩
    rintro (⟨p, line, hp, hline, -⟩ | h)
    · exact absurd hline (hnot p line hp)
    · exact h

/-- The order of the lines does not matter. -/
theorem Accepts.perm {lines lines' : List (List Char)} {entries : List (String × String)}
    (h : Accepts provides lines entries) (hperm : lines.Perm lines') :
    ∃ entries', entries.Perm entries' ∧ Accepts provides lines' entries' := by
  rcases h with ⟨p, line, rfl, rfl, hbare, rfl⟩ | ⟨hfits, rfl⟩
  · obtain rfl := List.singleton_perm.mp hperm
    exact ⟨_, .refl _, .inl ⟨p, line, rfl, rfl, hbare, rfl⟩⟩
  · have hnames := hperm.map fun line => (entryOf line).1
    refine ⟨_, hperm.map entryOf, .inr ⟨⟨?_, ?_, ?_⟩, rfl⟩⟩
    · exact fun line hline => hfits.assigns line (hperm.mem_iff.mpr hline)
    · exact hnames.nodup_iff.mp hfits.once
    · exact fun p hp => hnames.mem_iff.mp (hfits.all p hp)

private theorem Accepts.unique {lines : List (List Char)}
    {entries entries' : List (String × String)}
    (h : Accepts provides lines entries) (h' : Accepts provides lines entries') :
    entries = entries' := by
  have hnever : ∀ {line : List Char}, lines = [line] → '=' ∉ line → ¬ Fits provides lines := by
    rintro line rfl hbare hfits
    exact hbare (hfits.assigns line List.mem_cons_self).equals
  rcases h with ⟨p, line, hp, hline, hbare, rfl⟩ | ⟨hfits, rfl⟩
  · rcases h' with ⟨p', line', hp', hline', -, rfl⟩ | ⟨hfits, -⟩
    · obtain rfl := (List.cons.inj (hp.symm.trans hp')).1
      obtain rfl := (List.cons.inj (hline.symm.trans hline')).1
      rfl
    · exact absurd hfits (hnever hline hbare)
  · rcases h' with ⟨p, line, -, hline, hbare, -⟩ | ⟨-, rfl⟩
    · exact absurd hfits (hnever hline hbare)
    · rfl

end Accepted

/-! ### Which lines count -/

def isBlank (line : List Char) : Bool := line.all isSpace

def isComment (line : List Char) : Bool := (line.dropWhile isSpace).head? == some '#'

/-- The lines that are neither blank nor comments. -/
def countingLines (stdout : List Char) : List (List Char) :=
  (splitlines stdout).filter fun line => !isBlank line && !isComment line

private theorem stripLine_eq_nil {line : List Char} : stripLine line =
    [] ↔ isBlank line = true := by
  rw [stripLine, List.reverse_eq_nil_iff, List.dropWhile_eq_nil_iff, lstrip, isBlank,
    List.all_eq_true]
  constructor
  · intro h c hc
    rw [← List.takeWhile_append_dropWhile (p := isSpace) (l := line), List.mem_append] at hc
    rcases hc with hc | hc
    · exact List.mem_takeWhile_imp hc
    · exact h c (List.mem_reverse.mpr hc)
  · exact fun h c hc => h c ((List.dropWhile_sublist _).mem (List.mem_reverse.mp hc))

private theorem prefix_singleton {c : Char} {s : List Char} : [c] <+: s ↔ s.head? = some c := by
  cases s with
  | nil => simp
  | cons d s => simp [List.cons_prefix_cons, eq_comm]

private theorem outputLines_eq (stdout : List Char) :
    outputLines stdout = (countingLines stdout).map stripLine := by
  rw [outputLines, countingLines]
  congr 1
  refine List.filter_congr fun line _ => ?_
  have hblank : decide (stripLine line ≠ []) = !isBlank line := by
    rw [Bool.eq_iff_iff, decide_eq_true_eq, ne_eq, stripLine_eq_nil, Bool.not_eq_true',
      Bool.not_eq_true]
  have hcomment : decide (['#'] <+: lstrip line) = isComment line := by
    rw [Bool.eq_iff_iff, decide_eq_true_eq, prefix_singleton, isComment, beq_iff_eq, lstrip]
  rw [hblank, hcomment]

/-- Both texts are refused, or both give the same mapping. -/
def Alike (result result' : Except ResolveError (Dict String String)) : Prop :=
  match result, result' with
  | .ok out, .ok out' => out.Same out'
  | .error _, .error _ => True
  | _, _ => False

private theorem parseOutput_alike (repr : String → String) (name : String) (provides : List String)
    {stdout stdout' : List Char} (h : (countingLines stdout).Perm (countingLines stdout')) :
    Alike (parseOutput repr name provides stdout) (parseOutput repr name provides stdout') := by
  have hlines : (outputLines stdout).Perm (outputLines stdout') := by
    rw [outputLines_eq, outputLines_eq]
    exact h.map stripLine
  have hnever : ∀ {s s' : List Char} {out : Dict String String} {e : ResolveError},
      (outputLines s).Perm (outputLines s') → parseOutput repr name provides s = .ok out →
      parseOutput repr name provides s' ≠ .error e := by
    intro s s' out e hperm hok herror
    obtain ⟨entries, hentries, haccepts⟩ := (parseOutput_eq_ok.mp hok).perm hperm
    have hnodup : (entries.map Prod.fst).Nodup := (hentries.map Prod.fst).nodup_iff.mp out.nodup
    have hok' : parseOutput repr name provides s' = .ok ⟨entries, hnodup⟩ :=
      parseOutput_eq_ok.mpr haccepts
    rw [herror] at hok'
    cases hok'
  cases hok : parseOutput repr name provides stdout with
  | error e =>
      cases hok' : parseOutput repr name provides stdout' with
      | error e' => trivial
      | ok out' => exact absurd hok (hnever hlines.symm hok')
  | ok out =>
      cases hok' : parseOutput repr name provides stdout' with
      | error e' => exact absurd hok' (hnever hlines hok)
      | ok out' =>
          obtain ⟨entries, hentries, haccepts⟩ := (parseOutput_eq_ok.mp hok).perm hlines
          have hsame : out'.entries = entries := (parseOutput_eq_ok.mp hok').unique haccepts
          change out.entries.Perm out'.entries
          rw [hsame]
          exact hentries

/-! ### Reading an assignment back -/

/-- A path that a line can carry: not empty, trimmed, without line breaks. -/
structure IsPath (path : List Char) : Prop where
  ne_nil : path ≠ []
  trimmed : stripLine path = path
  unbroken : ∀ c ∈ path, isBreak c = false

private theorem isPath_of_all {path : List Char} (hne : path ≠ [])
    (htrimmed : stripLine path = path)
    (hall : (path.all fun c => !isBreak c) = true) : IsPath path where
  ne_nil := hne
  trimmed := htrimmed
  unbroken c hc := by simpa only [Bool.not_eq_true'] using List.all_eq_true.mp hall c hc

/-- The `name=path` lines of an assignment of paths. -/
def listing (provides : List String) (paths : String → List Char) : List Char :=
  provides.flatMap fun name => name.toList ++ '=' :: paths name ++ ['\n']

private theorem linesFrom_break {c : Char} (hc : isBreak c = true) (line s : List Char)
    (h : c = '\r' → s.head? ≠ some '\n') :
    linesFrom line (c :: s) = line.reverse :: linesFrom [] s := by
  rw [linesFrom, if_pos hc]
  rintro s' rfl rfl
  exact h rfl rfl

private theorem linesFrom_keep {c : Char} (hc : isBreak c = false) (line s : List Char) :
    linesFrom line (c :: s) = linesFrom (c :: line) s := by
  rw [linesFrom, if_neg (by rw [hc]; exact Bool.false_ne_true)]
  rintro s' rfl
  cases hc

private theorem linesFrom_newline (line s : List Char) :
    linesFrom line ('\n' :: s) = line.reverse :: linesFrom [] s :=
  linesFrom_break rfl line s nofun

/-- A line break ends a line whatever comes after it. -/
theorem linesFrom_append (line s t : List Char) :
    linesFrom line (s ++ '\n' :: t) = linesFrom line (s ++ ['\n']) ++ linesFrom [] t := by
  induction line, s using linesFrom.induct with
  | case1 =>
      rw [List.nil_append, List.nil_append, linesFrom_newline, linesFrom_newline]
      rfl
  | case2 line hline =>
      rw [List.nil_append, List.nil_append, linesFrom_newline, linesFrom_newline]
      rfl
  | case3 line s ih =>
      simp only [List.cons_append, linesFrom]
      rw [ih]
  | case4 line c s hnot hbreak ih =>
      by_cases hs : c = '\r' ∧ s = []
      · obtain ⟨rfl, rfl⟩ := hs
        rfl
      · have hhead : ∀ u, c = '\r' → (s ++ '\n' :: u).head? ≠ some '\n' := by
          rintro u rfl hhead
          cases s with
          | nil => exact hs ⟨rfl, rfl⟩
          | cons d s =>
              obtain rfl := Option.some.inj hhead
              exact hnot s rfl rfl
        rw [List.cons_append, List.cons_append, linesFrom_break hbreak _ _ (hhead t),
          linesFrom_break hbreak _ _ (hhead []), ih, List.cons_append]
  | case5 line c s hnot hkeep ih =>
      rw [Bool.not_eq_true] at hkeep
      rw [List.cons_append, List.cons_append, linesFrom_keep hkeep, linesFrom_keep hkeep, ih]

private theorem splitlines_append (s t : List Char) :
    splitlines (s ++ '\n' :: t) = splitlines (s ++ ['\n']) ++ splitlines t :=
  linesFrom_append [] s t

private theorem splitlines_line {s : List Char} (h : ∀ c ∈ s, isBreak c = false) :
    splitlines (s ++ ['\n']) = [s] := by
  have hline : ∀ line, linesFrom line (s ++ ['\n']) = [line.reverse ++ s] := by
    induction s with
    | nil =>
        intro line
        rw [List.nil_append, linesFrom_newline, List.append_nil]
        rfl
    | cons c s ih =>
        intro line
        obtain ⟨hc, hs⟩ := List.forall_mem_cons.mp h
        rw [List.cons_append, linesFrom_keep hc, ih hs, List.reverse_cons, List.append_assoc]
        rfl
  exact hline []

/-- A character of a name. -/
def isNameChar (c : Char) : Bool := isLower c || isAsciiDigit c || c == '_' || c == '-'

private theorem isNameChar_range {c : Char} (h : isNameChar c = true) :
    (0x30 ≤ c.toNat ∧ c.toNat ≤ 0x39) ∨ (0x61 ≤ c.toNat ∧ c.toNat ≤ 0x7A) ∨ c.toNat = 0x5F ∨
      c.toNat = 0x2D := by
  simp only [isNameChar, isLower, isAsciiDigit, Bool.or_eq_true, Bool.and_eq_true,
    decide_eq_true_eq, beq_iff_eq, Char.le_def, UInt32.le_iff_toNat_le] at h
  rcases h with ((hlower | hdigit) | rfl) | rfl
  · exact .inr (.inl hlower)
  · exact .inl hdigit
  · exact .inr (.inr (.inl rfl))
  · exact .inr (.inr (.inr rfl))

private theorem isNameChar_plain {c : Char} (h : isNameChar c = true) :
    isSpace c = false ∧ isBreak c = false ∧ c ≠ '=' ∧ c ≠ '#' := by
  have hrange := isNameChar_range h
  have hval : (Fin.ofNat 0x110000 c.toNat).val = c.toNat := Nat.mod_eq_of_lt (by omega)
  refine ⟨?_, ?_, ?_, ?_⟩
  · simp only [isSpace, Text.isSpace, hval, List.mem_cons, List.not_mem_nil, or_false,
      Bool.or_eq_false_iff, Bool.and_eq_false_iff, decide_eq_false_iff_not]
    omega
  · simp only [isBreak, List.mem_cons, List.not_mem_nil, or_false, decide_eq_false_iff_not]
    omega
  · rintro rfl
    revert hrange
    decide
  · rintro rfl
    revert hrange
    decide

/-- A name is made of its characters, apart from a newline at its end. -/
theorem isName_chars {s : String} (h : isName s = true) :
    ∃ c cs, (∀ d ∈ c :: cs, isNameChar d = true) ∧
      (s.toList = c :: cs ∨ s.toList = c :: cs ++ ['\n']) := by
  unfold isName matchesName at h
  dsimp only at h
  have hend : (if s.toList.getLast? = some '\n' then s.toList.dropLast else s.toList) = s.toList ∨
      s.toList = (if s.toList.getLast? = some '\n' then s.toList.dropLast else s.toList) ++
        ['\n'] := by
    split
    · rename_i hlast
      exact .inr (List.dropLast_append_getLast? _ hlast).symm
    · exact .inl rfl
  split at h
  · cases h
  · rename_i c cs hcs
    rw [hcs] at hend
    simp only [Bool.and_eq_true, Bool.or_eq_true, List.all_eq_true] at h
    refine ⟨c, cs, ?_, hend.imp Eq.symm id⟩
    rintro d (_ | ⟨_, hd⟩)
    · simp only [isNameChar, Bool.or_eq_true]
      exact .inl (.inl h.1.1)
    · simp only [isNameChar, Bool.or_eq_true]
      exact h.2 d hd

section Reading

variable {repr : String → String} {name : String} {provides : List String}
  {paths : String → List Char}

private theorem stripLine_eq_self {c : Char} {s : List Char} (hc : isSpace c = false)
    (hlast : ∀ d, (c :: s).getLast? = some d → isSpace d = false) :
    stripLine (c :: s) = c :: s := by
  have hfront : lstrip (c :: s) = c :: s := by
    rw [lstrip, List.dropWhile_cons, if_neg (by rw [hc]; exact Bool.false_ne_true)]
  rw [stripLine, hfront]
  cases hreverse : (c :: s).reverse with
  | nil => simp at hreverse
  | cons d t =>
      have hd : isSpace d = false := hlast d (by rw [← List.head?_reverse, hreverse]; rfl)
      rw [List.dropWhile_cons, if_neg (by rw [hd]; exact Bool.false_ne_true), ← hreverse,
        List.reverse_reverse]

/-- What is trimmed has no space at its end. -/
theorem IsPath.last {path : List Char} (h : IsPath path) {d : Char}
    (hd : path.getLast? = some d) : isSpace d = false := by
  have hstrip := h.trimmed
  rw [stripLine] at hstrip
  have hhead : ((lstrip path).reverse.dropWhile isSpace).head? = some d := by
    rw [← List.getLast?_reverse, hstrip, hd]
  have hne := List.ne_nil_of_mem (List.mem_of_mem_head? hhead)
  have hnot := List.head_dropWhile_not isSpace hne
  rwa [List.head_of_mem_head? hhead] at hnot

/-- A line of a name without a newline: it counts as it is, and says what it was made for. -/
theorem line_reads {c : Char} {cs path : List Char} (hname : ∀ d ∈ c :: cs, isNameChar d = true)
    (hpath : IsPath path) :
    (∀ d ∈ c :: cs ++ '=' :: path, isBreak d = false) ∧
      isBlank (c :: cs ++ '=' :: path) = false ∧ isComment (c :: cs ++ '=' :: path) = false ∧
      stripLine (c :: cs ++ '=' :: path) = c :: cs ++ '=' :: path ∧
      entryOf (c :: cs ++ '=' :: path) = (String.ofList (c :: cs), String.ofList path) := by
  obtain ⟨hspace, -, -, hhash⟩ := isNameChar_plain (hname c List.mem_cons_self)
  have hequals : '=' ∉ c :: cs := fun h => (isNameChar_plain (hname _ h)).2.2.1 rfl
  have hstripName : stripLine (c :: cs) = c :: cs :=
    stripLine_eq_self hspace fun d hd =>
      (isNameChar_plain (hname d (List.mem_of_getLast? hd))).1
  refine ⟨fun d hd => ?_, ?_, ?_, ?_, ?_⟩
  · rcases List.mem_append.mp hd with hd | hd
    · exact (isNameChar_plain (hname d hd)).2.1
    · rcases List.mem_cons.mp hd with rfl | hd
      · rfl
      · exact hpath.unbroken d hd
  · rw [isBlank, List.cons_append, List.all_cons, hspace, Bool.false_and]
  · rw [isComment, List.cons_append, List.dropWhile_cons,
      if_neg (by rw [hspace]; exact Bool.false_ne_true)]
    simpa using hhash
  · have hlast : (c :: cs ++ '=' :: path).getLast? = path.getLast? := by
      obtain ⟨p, ps, hp⟩ := List.exists_cons_of_ne_nil hpath.ne_nil
      rw [hp, List.getLast?_append_of_ne_nil _ (List.cons_ne_nil _ _)]
      rfl
    exact stripLine_eq_self hspace fun d hd => hpath.last (hlast ▸ hd)
  · rw [entryOf, partition_append hequals, hstripName, hpath.trimmed]

private theorem splitlines_listing_cons (n : String) (provides : List String)
    (paths : String → List Char) : splitlines (listing (n :: provides) paths) =
      splitlines (n.toList ++ '=' :: paths n ++ ['\n']) ++ splitlines (listing provides paths) := by
  rw [listing, List.flatMap_cons, List.append_assoc _ ['\n'], List.singleton_append,
    splitlines_append]
  rfl

/-- Names without a newline: the lines of the listing are those that it was made of. -/
theorem splitlines_listing (hplain : ∀ n ∈ provides, ∀ d ∈ n.toList, isNameChar d = true)
    (hpaths : ∀ n ∈ provides, IsPath (paths n)) :
    splitlines (listing provides paths) = provides.map fun n => n.toList ++ '=' :: paths n := by
  induction provides with
  | nil => rfl
  | cons n provides ih =>
      obtain ⟨hn, hplain⟩ := List.forall_mem_cons.mp hplain
      obtain ⟨hpath, hpaths⟩ := List.forall_mem_cons.mp hpaths
      have hbreak : ∀ d ∈ n.toList ++ '=' :: paths n, isBreak d = false := by
        intro d hd
        rcases List.mem_append.mp hd with hd | hd
        · exact (isNameChar_plain (hn d hd)).2.1
        · rcases List.mem_cons.mp hd with rfl | hd
          · rfl
          · exact hpath.unbroken d hd
      rw [splitlines_listing_cons, splitlines_line hbreak, ih hplain hpaths, List.map_cons,
        List.singleton_append]

private theorem mem_splitlines_listing {n : String} (hn : n ∈ provides) {line : List Char}
    (h : line ∈ splitlines (n.toList ++ '=' :: paths n ++ ['\n'])) :
    line ∈ splitlines (listing provides paths) := by
  induction provides with
  | nil => cases hn
  | cons m provides ih =>
      rw [splitlines_listing_cons, List.mem_append]
      rcases List.mem_cons.mp hn with rfl | hn
      · exact .inl h
      · exact .inr (ih hn)

private theorem parseOutput_listing (hnodup : provides.Nodup)
    (hnames : ∀ n ∈ provides, isName n = true)
    (hplain : ∀ n ∈ provides, n.toList.getLast? ≠ some '\n')
    (hpaths : ∀ n ∈ provides, IsPath (paths n)) :
    ∃ out, parseOutput repr name provides (listing provides paths) = .ok out ∧
      out.entries = provides.map fun n => (n, String.ofList (paths n)) := by
  have hchars : ∀ n ∈ provides, ∃ c cs, n.toList = c :: cs ∧
      ∀ d ∈ c :: cs, isNameChar d = true := by
    intro n hn
    obtain ⟨c, cs, hcs, heq | heq⟩ := isName_chars (hnames n hn)
    · exact ⟨c, cs, heq, hcs⟩
    · exact absurd (by rw [heq, List.getLast?_concat]) (hplain n hn)
  have hreads : ∀ n ∈ provides, isBlank (n.toList ++ '=' :: paths n) = false ∧
      isComment (n.toList ++ '=' :: paths n) = false ∧
      stripLine (n.toList ++ '=' :: paths n) = n.toList ++ '=' :: paths n ∧
      entryOf (n.toList ++ '=' :: paths n) = (n, String.ofList (paths n)) := by
    intro n hn
    obtain ⟨c, cs, heq, hcs⟩ := hchars n hn
    have hname : n = String.ofList (c :: cs) := by rw [← heq, String.ofList_toList]
    have hline := (line_reads hcs (hpaths n hn)).2
    rw [← heq] at hline
    exact ⟨hline.1, hline.2.1, hline.2.2.1, by rw [hline.2.2.2, heq, ← hname]⟩
  have hlines : outputLines (listing provides paths) =
      provides.map fun n => n.toList ++ '=' :: paths n := by
    have hnameChars : ∀ n ∈ provides, ∀ d ∈ n.toList, isNameChar d = true := by
      intro n hn
      obtain ⟨c, cs, heq, hcs⟩ := hchars n hn
      rwa [heq]
    have hsplit := splitlines_listing hnameChars hpaths
    rw [outputLines_eq, countingLines, hsplit, List.filter_eq_self.mpr, List.map_map]
    · exact List.map_congr_left fun n hn => (hreads n hn).2.2.1
    · rw [List.forall_mem_map]
      intro n hn
      rw [(hreads n hn).1, (hreads n hn).2.1]
      rfl
  have hentries : (provides.map fun n => n.toList ++ '=' :: paths n).map entryOf =
      provides.map fun n => (n, String.ofList (paths n)) := by
    rw [List.map_map]
    exact List.map_congr_left fun n hn => (hreads n hn).2.2.2
  have hnamed : (provides.map fun n => n.toList ++ '=' :: paths n).map
      (fun line => (entryOf line).1) = provides := by
    rw [List.map_map]
    exact (List.map_congr_left fun n hn => congrArg Prod.fst (hreads n hn).2.2.2).trans
      (List.map_id' provides)
  have hfits : Fits provides (provides.map fun n => n.toList ++ '=' :: paths n) := by
    refine ⟨?_, hnamed.symm ▸ hnodup, fun p hp => hnamed.symm ▸ hp⟩
    rw [List.forall_mem_map]
    intro n hn
    have hentry := (hreads n hn).2.2.2
    obtain ⟨c, cs, heq, -⟩ := hchars n hn
    refine ⟨List.mem_append_right _ List.mem_cons_self, ?_, ?_, ?_⟩
    · rw [hentry]
      rintro rfl
      cases heq
    · rw [hentry]
      exact fun h => (hpaths n hn).ne_nil (String.ofList_eq_empty_iff.mp h)
    · rw [hentry]
      exact hn
  have hdict : ((provides.map fun n => (n, String.ofList (paths n))).map Prod.fst).Nodup := by
    rw [List.map_map]
    exact (List.map_id' provides).symm ▸ hnodup
  refine ⟨⟨_, hdict⟩, parseOutput_eq_ok.mpr ?_, rfl⟩
  rw [hlines]
  exact .inr ⟨hfits, hentries.symm⟩

/-- A name that ends in a newline stands on a line of its own, away from its path. -/
theorem parseOutput_listing_newline {n : String} (hn : n ∈ provides) (hname : isName n = true)
    (hlast : n.toList.getLast? = some '\n') (hpath : IsPath (paths n))
    {out : Dict String String} :
    parseOutput repr name provides (listing provides paths) ≠ .ok out := by
  obtain ⟨c, cs, hcs, heq | heq⟩ := isName_chars hname
  · have hmem := List.mem_of_getLast? hlast
    rw [heq] at hmem
    exact absurd (isNameChar_plain (hcs _ hmem)).2.1 (by decide)
  intro h
  have hspace := (isNameChar_plain (hcs c List.mem_cons_self)).1
  have hhash := (isNameChar_plain (hcs c List.mem_cons_self)).2.2.2
  have hequals : '=' ∉ c :: cs := fun hmem => (isNameChar_plain (hcs _ hmem)).2.2.1 rfl
  have hsplit : splitlines (n.toList ++ '=' :: paths n ++ ['\n']) =
      [c :: cs, '=' :: paths n] := by
    have hfirst : ∀ d ∈ c :: cs, isBreak d = false := fun d hd => (isNameChar_plain (hcs d hd)).2.1
    have hsecond : ∀ d ∈ '=' :: paths n, isBreak d = false :=
      List.forall_mem_cons.mpr ⟨rfl, hpath.unbroken⟩
    rw [heq, List.append_assoc, List.append_assoc, List.singleton_append, splitlines_append,
      splitlines_line hfirst, splitlines_line hsecond]
    rfl
  have hcounts : ∀ line, line ∈ [c :: cs, '=' :: paths n] → isBlank line = false →
      isComment line = false → stripLine line ∈ outputLines (listing provides paths) := by
    intro line hline hblank hcomment
    rw [outputLines_eq]
    refine List.mem_map_of_mem (List.mem_filter.mpr ⟨mem_splitlines_listing hn ?_, ?_⟩)
    · rwa [hsplit]
    · rw [hblank, hcomment]
      rfl
  have hbare : c :: cs ∈ outputLines (listing provides paths) := by
    have hstrip : stripLine (c :: cs) = c :: cs := stripLine_eq_self hspace fun d hd =>
      (isNameChar_plain (hcs d (List.mem_of_getLast? hd))).1
    rw [← hstrip]
    refine hcounts _ List.mem_cons_self ?_ ?_
    · rw [isBlank, List.all_cons, hspace, Bool.false_and]
    · rw [isComment, List.dropWhile_cons, if_neg (by rw [hspace]; exact Bool.false_ne_true)]
      simpa using hhash
  have hrest : '=' :: paths n ∈ outputLines (listing provides paths) := by
    have hstrip : stripLine ('=' :: paths n) = '=' :: paths n := by
      refine stripLine_eq_self rfl fun d hd => hpath.last ?_
      obtain ⟨p, ps, hp⟩ := List.exists_cons_of_ne_nil hpath.ne_nil
      rw [hp] at hd ⊢
      exact hd
    rw [← hstrip]
    exact hcounts _ (List.mem_cons_of_mem _ List.mem_cons_self) rfl rfl
  rcases parseOutput_eq_ok.mp h with ⟨p, line, -, hlines, -⟩ | ⟨hfits, -⟩
  · rw [hlines, List.mem_singleton] at hbare hrest
    exact hequals (by rw [hbare, ← hrest]; exact List.mem_cons_self)
  · exact hequals (hfits.assigns _ hbare).equals

end Reading

/-- The lines of every assignment of paths are read back. -/
def ReadsBack (repr : String → String) (name : String) (provides : List String) : Prop :=
  ∀ paths : String → List Char, (∀ n ∈ provides, IsPath (paths n)) →
    ∃ out, parseOutput repr name provides (listing provides paths) = .ok out ∧
      ∀ n ∈ provides, out.get? n = some (String.ofList (paths n))

/-- Order carries no meaning: a text is refused or gives exactly the provided names a path, lines
may be permuted, and blank lines and comments come and go; the lines of an assignment give it
back. -/
structure OrderFree (repr : String → String) (name : String) (provides : List String) : Prop where
  total : ∀ stdout, (∃ e, parseOutput repr name provides stdout = .error e) ∨
    ∃ out, parseOutput repr name provides stdout = .ok out ∧ ∀ k, k ∈ out.keys ↔ k ∈ provides
  alike : ∀ stdout stdout', (countingLines stdout).Perm (countingLines stdout') →
    Alike (parseOutput repr name provides stdout) (parseOutput repr name provides stdout')
  readsBack : ReadsBack repr name provides

/-- The names of a resolver are checked with a pattern that a newline at the end matches too; with
none of those the output contract holds. -/
theorem orderFree_iff (repr : String → String) (name : String) {provides : List String}
    (hnodup : provides.Nodup) (hnames : ∀ n ∈ provides, isName n = true) :
    OrderFree repr name provides ↔ ∀ n ∈ provides, n.toList.getLast? ≠ some '\n' := by
  constructor
  · intro h n hn hlast
    have hpath : IsPath "/x".toList :=
      isPath_of_all (by decide) (by decide) (by decide)
    obtain ⟨out, hout, -⟩ := h.readsBack (fun _ => "/x".toList) fun _ _ => hpath
    exact parseOutput_listing_newline hn (hnames n hn) hlast hpath hout
  · refine fun hplain => ⟨fun stdout => ?_, fun _ _ => parseOutput_alike repr name provides, ?_⟩
    · cases h : parseOutput repr name provides stdout with
      | error e => exact .inl ⟨e, rfl⟩
      | ok out => exact .inr ⟨out, rfl, parseOutput_keys h⟩
    · intro paths hpaths
      obtain ⟨out, hout, hentries⟩ : ∃ out,
          parseOutput repr name provides (listing provides paths) = .ok out ∧
          out.entries = provides.map fun n => (n, String.ofList (paths n)) :=
        parseOutput_listing hnodup hnames hplain hpaths
      refine ⟨out, hout, fun n hn => Dict.get?_eq_some.mpr ?_⟩
      rw [hentries]
      exact List.mem_map_of_mem hn

/-- Two binaries. -/
theorem orderFree_iff_pair : OrderFree id "rel" ["cp", "harness"] :=
  (orderFree_iff id "rel" (by decide) (by decide)).mpr (by decide)

/-- A name that the configuration accepts and no output can mention. -/
theorem not_orderFree : ¬ ∀ (repr : String → String) (name : String) (provides : List String),
    provides.Nodup → (∀ n ∈ provides, isName n = true) → OrderFree repr name provides := by
  intro h
  have hpath : IsPath "/x".toList :=
      isPath_of_all (by decide) (by decide) (by decide)
  obtain ⟨out, hout, -⟩ := (h id "rel" ["app\n"] (by decide) (by decide)).readsBack
    (fun _ => "/x".toList) fun _ _ => hpath
  have hlisting : listing ["app\n"] (fun _ => "/x".toList) = "app\n=/x\n".toList := by decide
  have herror : (parseOutput id "rel" ["app\n"] "app\n=/x\n".toList).isOk = false := by decide
  rw [hlisting] at hout
  rw [hout] at herror
  cases herror

end Jetty.Orchestrator
