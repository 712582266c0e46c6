import Jetty.Core.Failure
import Jetty.Core.Forest
import Jetty.Orchestrator.Console.Lines
import Jetty.Orchestrator.Containment.Procfs
import Mathlib.Data.List.Dedup
import Mathlib.Data.List.Sort

/-!
# The process tree

What `jetty-orc ps` prints: service by service, the processes under their parents. Where no command
line holds a newline, what is printed is enough to tell the parents again.
-/

namespace Jetty.Orchestrator.Console

open Failure Forest Procfs Python

/-- `str.rjust`. -/
def rjust (s : Text) (width : ℕ) : Text := List.replicate (width - s.length) 0x20 ++ s

/-- What a line says of a process: `rss`, `cpu` and `cmd`. -/
structure Usage where
  rss : Text
  cpu : Text
  cmd : Text
deriving Repr

/-- The texts hold no newline; a command line may, as `argv` may. -/
structure Usage.Unbroken (u : Usage) : Prop where
  rss : Text.newline ∉ u.rss
  cpu : Text.newline ∉ u.cpu
  cmd : Text.newline ∉ u.cmd

/-- `sorted(set(pids))`. -/
def sortedSet (pids : List ℕ) : List ℕ := pids.dedup.insertionSort (· ≤ ·)

/-- `parent if parent in pids else None`. -/
def parentAmong (pids : List ℕ) (parent : Option ℤ) : Option ℕ :=
  pids.find? fun (pid : ℕ) => parent = some (pid : ℤ)

abbrev Children := Dict (Option ℕ) (List ℕ)

/-- `children.get(parent, [])`. -/
def Children.of (children : Children) (parent : Option ℕ) : List ℕ :=
  (children.get? parent).getD []

/-- `children.setdefault(parent, []).append(pid)`. -/
def Children.put (children : Children) (parent : Option ℕ) (pid : ℕ) : Children :=
  Dict.set (children.setdefault parent []) parent (children.of parent ++ [pid])

/-- `children`. -/
def psChildren (F : Procfs.Files) (pids : List ℕ) : Except Raised Children :=
  pids.foldlM (fun children pid => do
    let parent ← ppid F pid
    return children.put (parentAmong pids parent) pid) .empty

def elbow : Text := text "└─ "

def tee : Text := text "├─ "

def gap : Text := text "   "

def bar : Text := text "│  "

/-- What stands before the lines below a node. -/
def handDown (lead : Text) (last : Bool) : Text := lead ++ if last then gap else bar

def treeLine (usage : ℕ → Usage) (lead : Text) (last : Bool) (pid : ℕ) : Text :=
  lead ++ (if last then elbow else tee) ++ ljust (numeral pid) 7 ++ text " " ++
    rjust (usage pid).rss 9 ++ text " " ++ rjust (usage pid).cpu 6 ++ text "  " ++ (usage pid).cmd

/-- `render`, to as many levels. -/
def renderTree (children : Children) (usage : ℕ → Usage) : ℕ → List ℕ → Text → List Text
  | 0, _, _ => []
  | levels + 1, nodes, lead =>
    (marked nodes).flatMap fun m =>
      treeLine usage lead m.1 m.2 ::
        renderTree children usage levels (children.of (some m.2)) (handDown lead m.1)

/-- What `_cmd_ps` prints of a service. -/
def psService (F : Procfs.Files) (usage : ℕ → Usage) (levels : ℕ) (p : Prefixer) (sname : Text)
    (pids : List ℕ) : Except Raised (List Text) := do
  let nothing := if pids = [] then [text "(no processes)"] else []
  let children ← psChildren F pids
  return (nothing ++ renderTree children usage levels (children.of none) []).map (p.format sname)

/-- The services in their order, each with its pids, until a stat file cannot be read. -/
def psServices (F : Procfs.Files) (usage : ℕ → Usage) (levels : ℕ) (p : Prefixer) :
    List (Text × List ℕ) → List Text × Except Raised Unit
  | [] => ([], .ok ())
  | (sname, pids) :: rest =>
    match psService F usage levels p sname pids with
    | .error e => ([], .error e)
    | .ok lines =>
      let (later, ending) := psServices F usage levels p rest
      (lines ++ later, ending)

/-- `_cmd_ps`, from what `_service_pids` finds: what it prints below the first line, call by call,
and how it ends. -/
def psLines (F : Procfs.Files) (usage : ℕ → Usage) (levels : ℕ) (color : Bool)
    (services : List (Text × List ℕ)) : List Text × Except Raised Unit :=
  psServices F usage levels (.make (services.map Prod.fst) color)
    (services.map fun (sname, pids) => (sname, sortedSet pids))

/-- What calls of `print` write. -/
def printed (calls : List Text) : Text := calls.flatMap fun call => call ++ [Text.newline]

/-- What `_cmd_ps` writes below the first line. -/
def psOutput (F : Procfs.Files) (usage : ℕ → Usage) (levels : ℕ) (color : Bool)
    (services : List (Text × List ℕ)) : Text × Except Raised Unit :=
  (psLines F usage levels color services).map printed id

/-! ### The children -/

section Children

variable {F : Procfs.Files} {pids : List ℕ} {children : Children} {parent key : Option ℕ} {pid : ℕ}

private theorem Children.of_put :
    (children.put parent pid).of key =
      if key = parent then children.of key ++ [pid] else children.of key := by
  unfold Children.put Children.of
  split
  · rename_i hkey
    rw [hkey, Dict.get?_set_self, Option.getD_some]
  · rename_i hkey
    rw [Dict.get?_set_of_ne hkey]
    unfold Dict.setdefault
    split
    · rfl
    · rw [Dict.get?_set_of_ne hkey]

/-- The parent that a process has among the pids. -/
def parentOf (F : Procfs.Files) (pids : List ℕ) (pid : ℕ) : Option ℕ :=
  match ppid F pid with
  | .ok parent => parentAmong pids parent
  | .error _ => none

private theorem mem_of_parentOf {b : ℕ} (h : parentOf F pids pid = some b) : b ∈ pids := by
  unfold parentOf at h
  split at h
  · exact List.mem_of_find?_eq_some h
  · cases h

/-- Each process is put under its parent, in the order of the pids. -/
theorem of_psChildren (h : psChildren F pids = .ok children) :
    children.of parent = childrenOf pids (parentOf F pids) parent := by
  have hfold : ∀ (rest : List ℕ) (start children : Children),
      rest.foldlM (fun children pid => do
        let parent ← ppid F pid
        return children.put (parentAmong pids parent) pid) start = .ok children →
      children.of parent = start.of parent ++ childrenOf rest (parentOf F pids) parent := by
    intro rest
    induction rest with
    | nil =>
        rintro start children ⟨⟩
        exact (List.append_nil _).symm
    | cons pid rest ih =>
        intro start children hrun
        rw [List.foldlM_cons] at hrun
        obtain ⟨next, hnext, hrest⟩ := bind_eq_ok.mp hrun
        obtain ⟨found, hfound, hput⟩ := bind_eq_ok.mp hnext
        obtain rfl := Except.ok.inj hput
        have hparent : parentOf F pids pid = parentAmong pids found := by rw [parentOf, hfound]
        rw [ih _ _ hrest, Children.of_put, childrenOf, childrenOf, List.filter_cons, hparent]
        by_cases hkey : parent = parentAmong pids found
        · rw [if_pos hkey, if_pos (decide_eq_true hkey.symm), List.append_assoc,
            List.singleton_append]
        · rw [if_neg hkey, if_neg (by rw [decide_eq_true_eq]; exact fun h => hkey h.symm)]
  exact (hfold pids .empty children h).trans (List.nil_append _)

private theorem renderTree_eq_walk (children : Children) (usage : ℕ → Usage) (levels : ℕ)
    (nodes : List ℕ) (lead : Text) : renderTree children usage levels nodes lead =
      (walk (fun pid => children.of (some pid)) handDown levels lead nodes).map fun v =>
        treeLine usage v.above v.last v.node := by
  induction levels generalizing nodes lead with
  | zero => rfl
  | succ levels ih =>
      simp only [renderTree, walk, List.map_flatMap, List.map_cons, ih]

/-- With enough levels the lines are those of a tour. -/
theorem renderTree_eq_tour (h : psChildren F pids = .ok children) (usage : ℕ → Usage) {levels : ℕ}
    (hlevels : pids.length < levels) : renderTree children usage levels (children.of none) [] =
      (tour pids (parentOf F pids) handDown []).map fun v =>
        treeLine usage v.above v.last v.node := by
  have hchildren : (fun pid => children.of (some pid)) =
      fun pid => childrenOf pids (parentOf F pids) (some pid) :=
    funext fun _ => of_psChildren h
  rw [renderTree_eq_walk, hchildren, of_psChildren h, tour]
  congr 1
  exact walk_eq_walk (fun _ _ => mem_of_parentOf) below_roots hlevels (Nat.lt_succ_self _)

end Children

/-! ### Reading the lines -/

/-- The depth of a line, and what stands behind the branch. -/
def readLead : Text → Option (ℕ × Text)
  | a :: b :: c :: rest =>
    if [a, b, c] = elbow ∨ [a, b, c] = tee then some (0, rest)
    else if [a, b, c] = gap ∨ [a, b, c] = bar then
      (readLead rest).map fun found => (found.1 + 1, found.2)
    else none
  | _ => none

/-- The number that a text begins with. -/
def leadingNumber (s : Text) : ℕ :=
  ((s.takeWhile fun c => decide (0x30 ≤ c.val ∧ c.val ≤ 0x39)).map fun c => c.val - 0x30).foldl
    (fun n d => n * 10 + d) 0

/-- The depth and the pid of a line. -/
def readTreeLine (line : Text) : Option (ℕ × ℕ) :=
  (readLead line).map fun found => (found.1, leadingNumber found.2)

/-- What a printed line says of the service, where it is one of that service. -/
def behindLabel (p : Prefixer) (sname line : Text) : Option Text :=
  if p.label sname ++ text " " <+: line then some (line.drop (p.label sname).length.succ) else none

/-- The lines of a text, each ended by its newline. -/
def linesOf (output : Text) : List Text := (output.splitOn Text.newline).dropLast

/-- The processes of a service with their parents, from the lines of the output. -/
def readTree (p : Prefixer) (sname output : Text) : List (ℕ × Option ℕ) :=
  parentsOf [] (((linesOf output).filterMap (behindLabel p sname)).filterMap readTreeLine)

/-- Calls of `print` without a newline write one line each. -/
theorem linesOf_printed {calls : List Text} (h : ∀ call ∈ calls, Text.newline ∉ call) :
    linesOf (printed calls) = calls := by
  induction calls with
  | nil => rfl
  | cons call calls ih =>
      obtain ⟨hcall, hcalls⟩ := List.forall_mem_cons.mp h
      have hsplit : printed (call :: calls) = call ++ Text.newline :: printed calls := by
        rw [printed, List.flatMap_cons, List.append_assoc]
        rfl
      rw [linesOf, hsplit, List.splitOn_append_cons_self, List.splitOn_eq_singleton hcall,
        List.singleton_append, List.dropLast_cons_of_ne_nil (List.splitOn_ne_nil _ _), ← linesOf,
        ih hcalls]

private theorem leadingNumber_numeral (n : ℕ) {rest : Text} (h : ∀ c ∈ rest.head?, c = 0x20) :
    leadingNumber (numeral n ++ rest) = n := by
  have hdigits : ∀ c ∈ numeral n, decide (0x30 ≤ c.val ∧ c.val ≤ 0x39) = true := fun c hc =>
    decide_eq_true (digit_of_mem_numeral hc)
  have hrest : rest.takeWhile (fun c => decide (0x30 ≤ c.val ∧ c.val ≤ 0x39)) = [] := by
    cases rest with
    | nil => rfl
    | cons c rest =>
        rw [h c rfl]
        rfl
  rw [leadingNumber, List.takeWhile_append_of_pos hdigits, hrest, List.append_nil, foldl_numeral]

/-- How deep a lead is. -/
def depthOf (lead : Text) : ℕ := lead.length / 3

private theorem depthOf_handDown (lead : Text) (last : Bool) :
    depthOf (handDown lead last) = depthOf lead + 1 := by
  have hlength : (if last = true then gap else bar).length = 3 := by cases last <;> decide
  rw [depthOf, handDown, List.length_append, hlength, Nat.add_div_right _ (by decide), depthOf]

/-- The text has come down level by level. -/
def Handed (lead : Text) : Prop :=
  ∃ flags : List Bool, lead = flags.flatMap fun last => if last then gap else bar

private theorem Handed.down {lead : Text} (h : Handed lead) (last : Bool) :
    Handed (handDown lead last) := by
  obtain ⟨flags, rfl⟩ := h
  exact ⟨flags ++ [last], by rw [List.flatMap_append, List.flatMap_singleton, handDown]⟩

private theorem readLead_branch (last : Bool) (rest : Text) :
    readLead ((if last then elbow else tee) ++ rest) = some (0, rest) := by
  cases last <;> rfl

private theorem readLead_of_handed {lead : Text} (h : Handed lead) (last : Bool) (rest : Text) :
    readLead (lead ++ ((if last then elbow else tee) ++ rest)) = some (depthOf lead, rest) := by
  obtain ⟨flags, rfl⟩ := h
  induction flags with
  | nil => exact readLead_branch last rest
  | cons flag flags ih =>
      have hstep (s : Text) : readLead ((if flag = true then gap else bar) ++ s) =
          (readLead s).map fun found => (found.1 + 1, found.2) := by
        cases flag <;> rfl
      have hlength : (if flag = true then gap else bar).length = 3 := by cases flag <;> decide
      rw [List.flatMap_cons, List.append_assoc, hstep, ih, Option.map_some, depthOf, depthOf,
        List.length_append, hlength, Nat.add_comm 3, Nat.add_div_right _ (by decide)]

private theorem readTreeLine_treeLine {usage : ℕ → Usage} {lead : Text} (h : Handed lead)
    (last : Bool)
    (pid : ℕ) : readTreeLine (treeLine usage lead last pid) = some (depthOf lead, pid) := by
  have hbehind : leadingNumber (ljust (numeral pid) 7 ++ (text " " ++ (rjust (usage pid).rss 9 ++
      (text " " ++ (rjust (usage pid).cpu 6 ++ (text "  " ++ (usage pid).cmd)))))) = pid := by
    rw [ljust, List.append_assoc]
    refine leadingNumber_numeral pid fun c hc => ?_
    rw [List.head?_append] at hc
    cases hpad : 7 - (numeral pid).length with
    | zero =>
        rw [hpad] at hc
        exact (Option.some.inj hc).symm
    | succ n =>
        rw [hpad] at hc
        exact (Option.some.inj hc).symm
  rw [readTreeLine, treeLine]
  simp only [List.append_assoc]
  rw [readLead_of_handed h, Option.map_some, hbehind]

/-! ### Telling the services apart -/

section Labels

variable {names : List Text} {color : Bool} {name name' : Text}

/-- `width`. -/
def labelWidth (names : List Text) : ℕ := (names.map List.length).foldl max 0

/-- The label of a name at that place. -/
def labelAt (names : List Text) (color : Bool) (name : Text) (i : ℕ) : Text :=
  let plain := text "[" ++ ljust name (labelWidth names) ++ text "]"
  if color then colors.getD (i % colors.length) [] ++ plain ++ reset else plain

private theorem get?_foldl_set {κ ν ι : Type*} [DecidableEq κ] (f : κ → ι → ν) (l : List (κ × ι))
    (d : Dict κ ν) {k : κ} (hk : k ∈ l.map Prod.fst) :
    ∃ i, (l.foldl (fun d e => d.set e.1 (f e.1 e.2)) d).get? k = some (f k i) := by
  induction l using List.reverseRecOn generalizing d with
  | nil => exact absurd hk List.not_mem_nil
  | append_singleton l e ih =>
      rw [List.foldl_append, List.foldl_cons, List.foldl_nil]
      by_cases hke : k = e.1
      · exact ⟨e.2, by rw [hke, Dict.get?_set_self]⟩
      · rw [List.map_append, List.mem_append, List.map_singleton, List.mem_singleton] at hk
        rw [Dict.get?_set_of_ne hke]
        exact ih d (hk.resolve_right hke)

private theorem exists_label (h : name ∈ names) :
    ∃ i, (Prefixer.make names color).label name = labelAt names color name i := by
  have hmem : name ∈ names.zipIdx.map Prod.fst := by rwa [List.zipIdx_map_fst]
  obtain ⟨i, hi⟩ := get?_foldl_set (labelAt names color) names.zipIdx .empty hmem
  refine ⟨i, ?_⟩
  have hget : (Prefixer.make names color).labels.get? name = some (labelAt names color name i) := hi
  rw [Prefixer.label, hget, Option.getD_some]

private theorem length_le_labelWidth (h : name ∈ names) : name.length ≤ labelWidth names := by
  have hmax : ∀ (ls : List ℕ) (m : ℕ), m ≤ ls.foldl max m ∧ ∀ l ∈ ls, l ≤ ls.foldl max m := by
    intro ls
    induction ls with
    | nil => exact fun m => ⟨le_rfl, fun l hl => absurd hl List.not_mem_nil⟩
    | cons l ls ih =>
        intro m
        obtain ⟨hfirst, hrest⟩ := ih (max m l)
        exact ⟨(le_max_left m l).trans hfirst,
          List.forall_mem_cons.mpr ⟨(le_max_right m l).trans hfirst, hrest⟩⟩
  exact (hmax (names.map List.length) 0).2 _ (List.mem_map_of_mem h)

private theorem length_ljust_name (h : name ∈ names) :
    (ljust name (labelWidth names)).length = labelWidth names := by
  have hle := length_le_labelWidth h
  rw [ljust, List.length_append, List.length_replicate]
  omega

private theorem length_color (i : ℕ) : (colors.getD (i % colors.length) []).length = 5 := by
  have hcolors : ∀ j < 10, (colors.getD j []).length = 5 := by decide
  exact hcolors _ (Nat.mod_lt i (by decide))

private theorem length_labelAt (h : name ∈ names) (h' : name' ∈ names) (i i' : ℕ) :
    (labelAt names color name i).length = (labelAt names color name' i').length := by
  unfold labelAt
  cases color with
  | false => simp only [List.length_append, length_ljust_name h, length_ljust_name h',
      Bool.false_eq_true, if_false]
  | true => simp only [List.length_append, length_ljust_name h, length_ljust_name h', length_color,
      if_true]

private theorem ljust_inj {width : ℕ} (h : 0x20 ∉ name) (h' : 0x20 ∉ name')
    (heq : ljust name width = ljust name' width) : name = name' := by
  have hread : ∀ {n : Text}, 0x20 ∉ n →
      (ljust n width).takeWhile (fun c => decide (c ≠ 0x20)) = n := by
    intro n hn
    have hpad : (List.replicate (width - n.length) (0x20 : CodePoint)).takeWhile
        (fun c => decide (c ≠ 0x20)) = [] := by
      rw [List.takeWhile_eq_nil_iff]
      intro hpos
      rw [List.get_eq_getElem, List.getElem_replicate]
      decide
    rw [ljust, List.takeWhile_append_of_pos, hpad, List.append_nil]
    intro c hc
    exact decide_eq_true fun hspace => hn (hspace ▸ hc)
  rw [← hread h, heq, hread h']

private theorem labelAt_inj (h : 0x20 ∉ name) (h' : 0x20 ∉ name') {i i' : ℕ}
    (heq : labelAt names color name i = labelAt names color name' i') : name = name' := by
  have hplain : text "[" ++ ljust name (labelWidth names) ++ text "]" =
      text "[" ++ ljust name' (labelWidth names) ++ text "]" := by
    unfold labelAt at heq
    cases color with
    | false => exact heq
    | true =>
        simp only [if_true] at heq
        exact (List.append_inj (List.append_cancel_right heq)
          ((length_color i).trans (length_color i').symm)).2
  exact ljust_inj h h' (List.append_cancel_left (List.append_cancel_right hplain))

private theorem behindLabel_format (p : Prefixer) (name line : Text) :
    behindLabel p name (p.format name line) = some line := by
  rw [behindLabel, Prefixer.format, if_pos (List.prefix_append _ _)]
  congr 1
  exact List.drop_left' (by rw [List.length_append]; rfl)

private theorem behindLabel_format_of_ne (hspace : ∀ n ∈ names, 0x20 ∉ n) (h : name ∈ names)
    (h' : name' ∈ names) (hne : name ≠ name') (line : Text) :
    behindLabel (.make names color) name ((Prefixer.make names color).format name' line) =
        none := by
  rw [behindLabel, if_neg]
  intro hprefix
  obtain ⟨i, hi⟩ : ∃ i, (Prefixer.make names color).label name = labelAt names color name i :=
    exists_label h
  obtain ⟨i', hi'⟩ : ∃ i, (Prefixer.make names color).label name' = labelAt names color name' i :=
    exists_label h'
  rw [Prefixer.format, hi, hi'] at hprefix
  obtain ⟨rest, hrest⟩ := hprefix
  rw [List.append_assoc, List.append_assoc] at hrest
  exact hne (labelAt_inj (hspace _ h) (hspace _ h')
    (List.append_inj hrest (length_labelAt h h' i i')).1)

end Labels

/-! ### The whole output -/

section Unbroken

variable {F : Procfs.Files} {usage : ℕ → Usage} {levels : ℕ} {p : Prefixer} {pids : List ℕ}
  {names lines : List Text} {color : Bool} {name lead s : Text} {pid : ℕ}

private theorem newline_not_mem_spaces (n : ℕ) :
    Text.newline ∉ List.replicate n (0x20 : CodePoint) :=
  fun h => absurd (List.eq_of_mem_replicate h) (by decide)

private theorem newline_not_mem_ljust {width : ℕ} (h : Text.newline ∉ s) :
    Text.newline ∉ ljust s width :=
  fun hmem => (List.mem_append.mp hmem).elim h (newline_not_mem_spaces _)

private theorem newline_not_mem_rjust {width : ℕ} (h : Text.newline ∉ s) :
    Text.newline ∉ rjust s width :=
  fun hmem => (List.mem_append.mp hmem).elim (newline_not_mem_spaces _) h

private theorem newline_not_mem_numeral (n : ℕ) : Text.newline ∉ numeral n := fun h => by
  have hdigit := (digit_of_mem_numeral h).1
  revert hdigit
  decide

/-- A label has no newline if the name has none. -/
theorem newline_not_mem_label (h : name ∈ names) (hname : Text.newline ∉ name) :
    Text.newline ∉ (Prefixer.make names color).label name := by
  obtain ⟨i, hi⟩ : ∃ i, (Prefixer.make names color).label name = labelAt names color name i :=
    exists_label h
  have hcolors : ∀ j < 10, Text.newline ∉ colors.getD j [] := by decide
  have hcolor : Text.newline ∉ colors.getD (i % colors.length) [] :=
    hcolors _ (Nat.mod_lt i (by decide))
  have hreset : Text.newline ∉ reset := by decide
  have hplain : Text.newline ∉ text "[" ++ ljust name (labelWidth names) ++ text "]" := by
    simp only [List.mem_append, not_or]
    exact ⟨⟨by decide, newline_not_mem_ljust hname⟩, by decide⟩
  rw [hi, labelAt]
  cases color with
  | false => exact hplain
  | true =>
      intro hmem
      rcases List.mem_append.mp hmem with hmem | hmem
      · exact (List.mem_append.mp hmem).elim hcolor hplain
      · exact hreset hmem

/-- A line of the tree has none if what it says of the process has none. -/
theorem newline_not_mem_treeLine (hlead : Text.newline ∉ lead) (husage : (usage pid).Unbroken)
    (last : Bool) : Text.newline ∉ treeLine usage lead last pid := by
  have hbranch : Text.newline ∉ if last then elbow else tee := by cases last <;> decide
  have hpid : Text.newline ∉ ljust (numeral pid) 7 :=
    newline_not_mem_ljust (newline_not_mem_numeral pid)
  have hrss : Text.newline ∉ rjust (usage pid).rss 9 := newline_not_mem_rjust husage.rss
  have hcpu : Text.newline ∉ rjust (usage pid).cpu 6 := newline_not_mem_rjust husage.cpu
  simp only [treeLine, List.mem_append, not_or, and_assoc]
  exact ⟨hlead, hbranch, hpid, by decide, hrss, by decide, hcpu, by decide, husage.cmd⟩

/-- What is printed of a service is lines. -/
theorem newline_not_mem_psService (hname : name ∈ names) (hnewline : Text.newline ∉ name)
    (hlevels : pids.length < levels) (husage : ∀ pid ∈ pids, (usage pid).Unbroken)
    (h : psService F usage levels (.make names color) name pids = .ok lines) :
    ∀ line ∈ lines, Text.newline ∉ line := by
  obtain ⟨children, hchildren, hlines⟩ := bind_eq_ok.mp h
  obtain rfl := Except.ok.inj hlines
  have hformat {line : Text} (hline : Text.newline ∉ line) :
      Text.newline ∉ (Prefixer.make names color).format name line := by
    simp only [Prefixer.format, List.mem_append, not_or]
    exact ⟨⟨newline_not_mem_label hname hnewline, by decide⟩, hline⟩
  rw [List.forall_mem_map, renderTree_eq_tour hchildren _ hlevels]
  intro line hline
  refine hformat ?_
  rcases List.mem_append.mp hline with hnothing | htree
  · split at hnothing
    · obtain rfl := List.mem_singleton.mp hnothing
      decide
    · exact absurd hnothing List.not_mem_nil
  · obtain ⟨v, hv, rfl⟩ := List.mem_map.mp htree
    have hlead : Text.newline ∉ v.above := by
      refine forall_above (fun lead => Text.newline ∉ lead) (fun lead last hlead => ?_)
        List.not_mem_nil v hv
      have hmargin : Text.newline ∉ if last then gap else bar := by cases last <;> decide
      exact fun hmem => (List.mem_append.mp hmem).elim hlead hmargin
    exact newline_not_mem_treeLine hlead (husage _ (lineage_of_mem_walk below_roots hv).1) v.last

private theorem newline_not_mem_psServices {services : List (Text × List ℕ)} {calls : List Text}
    (hnames : services.map Prod.fst ⊆ names)
    (hnewline : ∀ service ∈ services, Text.newline ∉ service.1)
    (hlevels : ∀ service ∈ services, service.2.length < levels)
    (husage : ∀ service ∈ services, ∀ pid ∈ service.2, (usage pid).Unbroken)
    (h : psServices F usage levels (.make names color) services = (calls, .ok ())) :
    ∀ call ∈ calls, Text.newline ∉ call := by
  induction services generalizing calls with
  | nil =>
      obtain ⟨rfl, -⟩ := Prod.mk.inj h
      exact List.forall_mem_nil _
  | cons service services ih =>
      obtain ⟨name, pids⟩ := service
      obtain ⟨hfirst, hnames⟩ := List.cons_subset.mp hnames
      rw [List.forall_mem_cons] at hnewline hlevels husage
      unfold psServices at h
      cases hlines : psService F usage levels (.make names color) name pids with
      | error e =>
          rw [hlines] at h
          cases (Prod.mk.inj h).2
      | ok lines =>
          rw [hlines] at h
          obtain ⟨hcalls, hending⟩ := Prod.mk.inj h
          subst hcalls
          refine List.forall_mem_append.mpr ⟨?_, ?_⟩
          · exact newline_not_mem_psService hfirst hnewline.1 hlevels.1 husage.1 hlines
          · exact ih hnames hnewline.2 hlevels.2 husage.2 (Prod.ext rfl hending)

end Unbroken

section Printed

variable {F : Procfs.Files} {usage : ℕ → Usage} {levels : ℕ} {p : Prefixer} {pids : List ℕ}
  {sname : Text} {lines printed : List Text} {services : List (Text × List ℕ)}

private theorem parentAmong_eq_some {parent : Option ℤ} {b : ℕ} :
    parentAmong pids parent = some b ↔ parent = some (b : ℤ) ∧ b ∈ pids := by
  have hfound {c : ℕ} (h : parentAmong pids parent = some c) : parent = some (c : ℤ) := by
    simpa using List.find?_some h
  constructor
  · intro h
    exact ⟨hfound h, List.mem_of_find?_eq_some h⟩
  · rintro ⟨hb, hmem⟩
    cases hsome : parentAmong pids parent with
    | none => exact absurd (decide_eq_true hb) (List.find?_eq_none.mp hsome b hmem)
    | some c => rw [Int.ofNat_inj.mp (Option.some.inj ((hfound hsome).symm.trans hb))]

private theorem mem_sortedSet {pid : ℕ} : pid ∈ sortedSet pids ↔ pid ∈ pids := by
  rw [sortedSet, List.mem_insertionSort, List.mem_dedup]

private theorem nodup_sortedSet (pids : List ℕ) : (sortedSet pids).Nodup :=
  (List.perm_insertionSort _ _).nodup_iff.mpr (List.nodup_dedup pids)

private theorem parentOf_sortedSet (F : Procfs.Files) (pids : List ℕ) :
    parentOf F (sortedSet pids) = parentOf F pids := by
  funext pid
  unfold parentOf
  split
  · refine Option.ext fun b => ?_
    rw [parentAmong_eq_some, parentAmong_eq_some, mem_sortedSet]
  · rfl

private theorem readTreeLine_nothing : readTreeLine (text "(no processes)") = none := by decide

/-- The lines of a service tell its tour. -/
theorem filterMap_psService (hlevels : pids.length < levels)
    (h : psService F usage levels p sname pids = .ok lines) :
    (lines.filterMap (behindLabel p sname)).filterMap readTreeLine =
      (tour pids (parentOf F pids) handDown []).map fun v => (depthOf v.above, v.node) := by
  obtain ⟨children, hchildren, hlines⟩ := bind_eq_ok.mp h
  obtain rfl := Except.ok.inj hlines
  have hplain (ls : List Text) :
      (ls.map (p.format sname)).filterMap (behindLabel p sname) = ls := by
    rw [List.filterMap_map]
    exact (List.filterMap_congr fun line _ => behindLabel_format p sname line).trans
      (List.filterMap_some)
  have hnothing :
      (if pids = [] then [text "(no processes)"] else []).filterMap readTreeLine = [] := by
    split
    · rw [List.filterMap_cons_none readTreeLine_nothing, List.filterMap_nil]
    · rfl
  rw [hplain, List.filterMap_append, hnothing, List.nil_append,
    renderTree_eq_tour hchildren _ hlevels, List.filterMap_map]
  have hhanded : ∀ v ∈ tour pids (parentOf F pids) handDown [], Handed v.above :=
    forall_above Handed (fun _ last h => h.down last) ⟨[], rfl⟩
  rw [← List.filterMap_eq_map]
  exact List.filterMap_congr fun v hv => readTreeLine_treeLine (hhanded v hv) v.last v.node

section Services

variable {names : List Text} {color : Bool} {other : Text}

/-- No line of another service has the label. -/
theorem filterMap_of_ne (hspace : ∀ n ∈ names, 0x20 ∉ n) (hin : sname ∈ names)
    (hother : other ∈ names) (hne : sname ≠ other)
    (h : psService F usage levels (.make names color) other pids = .ok lines) :
    lines.filterMap (behindLabel (.make names color) sname) = [] := by
  obtain ⟨children, -, hformat⟩ := bind_eq_ok.mp h
  obtain rfl := Except.ok.inj hformat
  rw [List.filterMap_map, List.filterMap_eq_nil_iff]
  exact fun line _ => behindLabel_format_of_ne hspace hin hother hne line

private theorem filterMap_of_not_mem (hspace : ∀ n ∈ names, 0x20 ∉ n) (hin : sname ∈ names)
    (hnames : services.map Prod.fst ⊆ names) (hnot : sname ∉ services.map Prod.fst) :
    (psServices F usage levels (.make names color) services).1.filterMap
      (behindLabel (.make names color) sname) = [] := by
  induction services with
  | nil => rfl
  | cons service services ih =>
      obtain ⟨other, others⟩ := service
      obtain ⟨hfirst, hnames⟩ := List.cons_subset.mp hnames
      obtain ⟨hne, hnot⟩ := not_or.mp fun h => hnot (List.mem_cons.mpr h)
      unfold psServices
      cases hlines : psService F usage levels (.make names color) other others with
      | error e => rfl
      | ok lines =>
          dsimp only
          rw [List.filterMap_append, ih hnames hnot, filterMap_of_ne hspace hin hfirst hne hlines,
            List.append_nil]

/-- Of what is printed, the lines with a service's label are those of the service. -/
theorem filterMap_psServices (hspace : ∀ n ∈ names, 0x20 ∉ n)
    (hnodup : (services.map Prod.fst).Nodup) (hnames : services.map Prod.fst ⊆ names)
    (h : psServices F usage levels (.make names color) services = (printed, .ok ()))
    (hmem : (sname, pids) ∈ services) :
    ∃ lines, psService F usage levels (.make names color) sname pids = .ok lines ∧
      printed.filterMap (behindLabel (.make names color) sname) =
        lines.filterMap (behindLabel (.make names color) sname) := by
  induction services generalizing printed with
  | nil => exact absurd hmem List.not_mem_nil
  | cons service services ih =>
      obtain ⟨other, others⟩ := service
      obtain ⟨hfresh, hnodup⟩ := List.nodup_cons.mp hnodup
      obtain ⟨hfirst, hothers⟩ := List.cons_subset.mp hnames
      unfold psServices at h
      cases hlines : psService F usage levels (.make names color) other others with
      | error e =>
          rw [hlines] at h
          cases (Prod.mk.inj h).2
      | ok lines =>
          rw [hlines] at h
          obtain ⟨hprinted, hending⟩ := Prod.mk.inj h
          subst hprinted
          rcases List.mem_cons.mp hmem with heq | hmem
          · obtain ⟨rfl, rfl⟩ := Prod.mk.inj heq
            refine ⟨lines, hlines, ?_⟩
            rw [List.filterMap_append, filterMap_of_not_mem hspace hfirst hothers hfresh,
              List.append_nil]
          · have hin : sname ∈ services.map Prod.fst := List.mem_map_of_mem hmem
            have hne : sname ≠ other := fun heq => hfresh (heq ▸ hin)
            obtain ⟨lines', hlines', heq⟩ := ih hnodup hothers (Prod.ext rfl hending) hmem
            refine ⟨lines', hlines', ?_⟩
            rw [List.filterMap_append, heq,
              filterMap_of_ne hspace (hothers hin) hfirst hne hlines, List.nil_append]

end Services

/-- The output tells the process tree, where neither a service's name nor what is said of a process
holds a newline. A service's lines name each of its processes at most once, with the parent that the
process has among them, and name just those that go back to one without a parent among them; where a
process starts later than its parent, these are all. -/
theorem ps_tells_parents {color : Bool} {output : Text} (hnodup : (services.map Prod.fst).Nodup)
    (hspace : ∀ name ∈ services.map Prod.fst, 0x20 ∉ name)
    (hnewline : ∀ service ∈ services, Text.newline ∉ service.1)
    (husage : ∀ service ∈ services, ∀ pid ∈ service.2, (usage pid).Unbroken)
    (hlevels : ∀ service ∈ services, service.2.length < levels)
    (h : psOutput F usage levels color services = (output, .ok ()))
    (hmem : (sname, pids) ∈ services) :
    ((readTree (.make (services.map Prod.fst) color) sname output).map Prod.fst).Nodup ∧
      (∀ row, row ∈ readTree (.make (services.map Prod.fst) color) sname output ↔
        row.1 ∈ pids ∧ Rooted (parentOf F pids) row.1 ∧ row.2 = parentOf F pids row.1) ∧
      ((∃ started : ℕ → ℕ, ∀ a b, parentOf F pids a = some b → started b < started a) →
        ((readTree (.make (services.map Prod.fst) color) sname output).map Prod.fst).Perm
          pids.dedup) := by
  have hsorted : (services.map fun (sname, pids) => (sname, sortedSet pids)).map Prod.fst =
      services.map Prod.fst := by
    rw [List.map_map]
    rfl
  obtain ⟨houtput, hending⟩ := Prod.mk.inj h
  have hcalls : psLines F usage levels color services =
      ((psLines F usage levels color services).1, .ok ()) := Prod.ext rfl hending
  obtain ⟨lines, hlines, hown⟩ := filterMap_psServices hspace (hsorted ▸ hnodup)
    (hsorted ▸ List.Subset.refl _) hcalls (List.mem_map_of_mem hmem)
  have hshort {pids : List ℕ} (h : pids.length < levels) : (sortedSet pids).length < levels := by
    rw [sortedSet, List.length_insertionSort]
    exact (List.dedup_sublist pids).length_le.trans_lt h
  have hprinted : linesOf output = (psLines F usage levels color services).1 := by
    rw [← houtput]
    refine linesOf_printed
        (newline_not_mem_psServices (hsorted ▸ List.Subset.refl _) ?_ ?_ ?_ hcalls)
    · exact List.forall_mem_map.mpr hnewline
    · exact List.forall_mem_map.mpr fun service hservice => hshort (hlevels service hservice)
    · exact List.forall_mem_map.mpr fun service hservice pid hpid =>
        husage service hservice pid (mem_sortedSet.mp hpid)
  have hup : ∀ a b, parentOf F (sortedSet pids) a = some b → b ∈ sortedSet pids := fun _ _ =>
    mem_of_parentOf
  obtain ⟨hvisited, hreached, hparents⟩ := tour_spec (nodup_sortedSet pids) hup depthOf
    depthOf_handDown (rfl : depthOf [] = 0)
  have hbehind := filterMap_psService (hshort (hlevels _ hmem)) hlines
  rw [parentOf_sortedSet] at hvisited hreached hparents hbehind
  have hread : readTree (.make (services.map Prod.fst) color) sname output =
      (tour (sortedSet pids) (parentOf F pids) handDown []).map fun v =>
        (v.node, parentOf F pids v.node) := by
    rw [readTree, hprinted, hown, hbehind, hparents]
  have hfst : (readTree (.make (services.map Prod.fst) color) sname output).map Prod.fst =
      (tour (sortedSet pids) (parentOf F pids) handDown []).map Visit.node := by
    rw [hread, List.map_map]
    rfl
  rw [hfst]
  refine ⟨hvisited, fun row => ?_, ?_⟩
  · rw [hread, List.mem_map]
    constructor
    · rintro ⟨v, hv, rfl⟩
      obtain ⟨hpid, hrooted⟩ := (hreached v.node).mp (List.mem_map_of_mem hv)
      exact ⟨mem_sortedSet.mp hpid, hrooted, rfl⟩
    · rintro ⟨hpid, hrooted, hparent⟩
      obtain ⟨v, hv, hnode⟩ := List.mem_map.mp
        ((hreached row.1).mpr ⟨mem_sortedSet.mpr hpid, hrooted⟩)
      exact ⟨v, hv, Prod.ext hnode (by rw [hnode, hparent])⟩
  · rintro ⟨started, hstarted⟩
    refine (List.perm_ext_iff_of_nodup hvisited (List.nodup_dedup pids)).mpr fun pid => ?_
    rw [hreached, mem_sortedSet, List.mem_dedup]
    exact and_iff_left (rooted_of_rank started hstarted pid)

/-- A process, its child and a stranger. -/
def family : Procfs.Files where
  names := []
  stat := fun pid => if pid = 12 then some ("12 (sh) S 10 12 10".toList.map Char.toNat) else none

/-- The parents are read back though one pid is listed twice. -/
theorem ps_tells_parents_family :
    ((readTree (.make [text "api", text "db"] true) (text "api")
      (psOutput family (fun _ => ⟨[], [], text "sh -c true"⟩) 4 true
        [(text "api", [12, 10, 12]), (text "db", [11])]).1).map Prod.fst).Perm
      [12, 10, 12].dedup := by
  have hending : (psOutput family (fun _ => ⟨[], [], text "sh -c true"⟩) 4 true
      [(text "api", [12, 10, 12]), (text "db", [11])]).2 = .ok () := by decide +kernel
  have husage : Usage.Unbroken ⟨[], [], text "sh -c true"⟩ := ⟨by decide, by decide, by decide⟩
  refine (ps_tells_parents (by decide) (by decide) (by decide) (fun _ _ _ _ => husage) (by decide)
    (Prod.ext rfl hending) List.mem_cons_self).2.2 ⟨id, fun a b h => ?_⟩
  by_cases ha : a = 12
  · subst ha
    have hparent : parentOf family [12, 10, 12] 12 = some 10 := by decide +kernel
    obtain rfl := Option.some.inj (hparent.symm.trans h)
    decide
  · have hnone : ppid family a = .ok none := by
      rw [ppid, numberAt, statFields, family]
      simp only [ha, if_false]
      rfl
    rw [parentOf, hnone] at h
    cases (parentAmong_eq_some.mp h).1

end Printed

end Jetty.Orchestrator.Console
