import Mathlib.Data.List.Basic

/-!
# Paths

A path is read part by part between its slashes. A place in a directory tree is the list of the
names that lead to it, the innermost first; its text is the normal form of its paths.
-/

namespace Files

/-- A name in a directory. -/
structure Name where
  chars : List Char
  ne_nil : chars ≠ []
  no_slash : '/' ∉ chars
  not_here : chars ≠ ['.']
  not_up : chars ≠ ['.', '.']
deriving DecidableEq

/-- What may stand between two slashes. -/
inductive Part
  | here
  | up
  | name (n : Name)
deriving DecidableEq

/-- The part that a text between two slashes is. -/
def Part.ofChars (cs : List Char) : Part :=
  if hup : cs = ['.', '.'] then .up
  else if hhere : cs = [] ∨ cs = ['.'] ∨ '/' ∈ cs then .here
  else .name ⟨cs, fun h => hhere (.inl h), fun h => hhere (.inr (.inr h)),
    fun h => hhere (.inr (.inl h)), hup⟩

@[simp] theorem Part.ofChars_name (n : Name) : Part.ofChars n.chars = .name n := by
  unfold ofChars
  rw [dif_neg n.not_up, dif_neg]
  rintro (h | h | h)
  · exact n.ne_nil h
  · exact n.not_here h
  · exact n.no_slash h

@[simp] theorem Part.ofChars_nil : Part.ofChars [] = .here := by decide

/-- The parts of a path. -/
def parts (path : List Char) : List Part := (path.splitOn '/').map Part.ofChars

def isAbsolute (path : List Char) : Bool := path.head? == some '/'

/-- A place in a tree. -/
abbrev Place := List Name

/-- Names with a slash in front of each. -/
def slashed (names : List Name) : List Char := names.flatMap fun n => '/' :: n.chars

/-- The normal path of a place. -/
def text (p : Place) : List Char := if p = [] then ['/'] else slashed p.reverse

@[simp] theorem text_nil : text [] = ['/'] := rfl

/-- The text of a path ends with its last name. -/
theorem text_cons (n : Name) (p : Place) : text (n :: p) = slashed (p.reverse ++ [n]) := by
  rw [text, if_neg (List.cons_ne_nil n p), List.reverse_cons]

@[simp] theorem slashed_cons (n : Name) (names : List Name) :
    slashed (n :: names) = '/' :: (n.chars ++ slashed names) := by
  simp [slashed]

/-- A slash stands in front of each name. -/
theorem slashed_eq_intercalate (names : List Name) :
    slashed names = ['/'].intercalate ([] :: names.map Name.chars) := by
  induction names with
  | nil => rfl
  | cons n names ih =>
      rw [slashed_cons, ih]
      cases names <;> simp [List.intercalate]

/-- Reading the slashed names gives them back. -/
theorem parts_slashed (names : List Name) : parts (slashed names) = .here :: names.map .name := by
  have hslash : ∀ l ∈ [] :: names.map Name.chars, '/' ∉ l := by
    rw [List.forall_mem_cons, List.forall_mem_map]
    exact ⟨List.not_mem_nil, fun n _ => n.no_slash⟩
  rw [parts, slashed_eq_intercalate, List.splitOn_intercalate _ hslash (List.cons_ne_nil _ _),
    List.map_cons, List.map_map, Part.ofChars_nil]
  simp [Function.comp_def]

/-- The parts of a normal path name the place, apart from parts that mean nothing. -/
theorem parts_text (p : Place) : ∃ heres : List Part, (∀ part ∈ heres, part = .here) ∧
    parts (text p) = heres ++ p.reverse.map .name := by
  cases p with
  | nil => exact ⟨[.here, .here], by simp, by decide⟩
  | cons n p =>
      refine ⟨[.here], by simp, ?_⟩
      rw [text_cons, parts_slashed, List.reverse_cons]
      rfl

/-- The text of a place is absolute. -/
theorem isAbsolute_text (p : Place) : isAbsolute (text p) = true := by
  cases p with
  | nil => rfl
  | cons n p =>
      rw [text_cons]
      cases p.reverse <;> simp [isAbsolute]

section Prefixes

/-- Texts that end in front of the same mark agree up to it. -/
private theorem eq_of_cut {c : Char} {x y u v : List Char} (hx : c ∉ x) (hy : c ∉ y)
    (hv : v = [] ∨ ∃ w, v = c :: w) (h : x ++ c :: u <+: y ++ v) : x = y ∧ c :: u <+: v := by
  induction x generalizing y with
  | nil =>
      cases y with
      | nil => exact ⟨rfl, h⟩
      | cons d y =>
          obtain ⟨rest, hrest⟩ := h
          have hcd : c = d := by simpa using congrArg List.head? hrest
          exact absurd (hcd ▸ List.mem_cons_self) hy
  | cons d x ih =>
      cases y with
      | nil =>
          rcases hv with rfl | ⟨w, rfl⟩
          · exact absurd h (by simp)
          · obtain ⟨rest, hrest⟩ := h
            have hdc : d = c := by simpa using congrArg List.head? hrest
            exact absurd (hdc ▸ List.mem_cons_self) hx
      | cons e y =>
          rw [List.cons_append, List.cons_append, List.cons_prefix_cons] at h
          obtain ⟨rfl, h⟩ := h
          obtain ⟨rfl, hu⟩ := ih (fun hmem => hx (List.mem_cons_of_mem d hmem))
            (fun hmem => hy (List.mem_cons_of_mem d hmem)) h
          exact ⟨rfl, hu⟩

private theorem slashed_shape (names : List Name) :
    slashed names = [] ∨ ∃ w, slashed names = '/' :: w := by
  cases names with
  | nil => exact .inl rfl
  | cons n names => exact .inr ⟨_, slashed_cons n names⟩

/-- A text with a slash at its end starts another one exactly if the names properly do. -/
theorem slashed_prefix {names names' : List Name} :
    slashed names ++ ['/'] <+: slashed names' ↔ ∃ n rest, names' = names ++ n :: rest := by
  induction names generalizing names' with
  | nil =>
      cases names' with
      | nil => simp [slashed]
      | cons n names' => simp [slashed]
  | cons m names ih =>
      have hnext : ∃ u, slashed names ++ ['/'] = '/' :: u := by
        rcases slashed_shape names with h | ⟨w, h⟩
        · exact ⟨[], by rw [h]; rfl⟩
        · exact ⟨w ++ ['/'], by rw [h]; rfl⟩
      obtain ⟨u, hu⟩ := hnext
      cases names' with
      | nil => simp [slashed]
      | cons m' names' =>
          rw [slashed_cons, slashed_cons, List.cons_append, List.cons_prefix_cons,
            List.append_assoc]
          constructor
          · rintro ⟨-, h⟩
            rw [hu] at h
            obtain ⟨hchars, hrest⟩ := eq_of_cut m.no_slash m'.no_slash (slashed_shape names') h
            rw [← hu] at hrest
            obtain ⟨n, rest, rfl⟩ := ih.mp hrest
            obtain rfl : m = m' := by
              cases m
              cases m'
              cases hchars
              rfl
            exact ⟨n, rest, rfl⟩
          · rintro ⟨n, rest, h⟩
            obtain ⟨rfl, rfl⟩ := List.cons.inj h
            exact ⟨rfl, (List.prefix_append_right_inj _).mpr (ih.mpr ⟨n, rest, rfl⟩)⟩

private theorem slashed_injective : Function.Injective slashed := by
  intro names names' h
  have hparts := congrArg parts h
  rw [parts_slashed, parts_slashed] at hparts
  exact List.map_injective_iff.mpr (fun _ _ => Part.name.inj) (List.cons.inj hparts).2

private theorem not_slashes_prefix (names : List Name) : ¬ ['/', '/'] <+: slashed names := by
  rintro ⟨rest, hrest⟩
  cases names with
  | nil => cases hrest
  | cons n names =>
      rw [slashed_cons] at hrest
      obtain ⟨c, cs, hn⟩ := List.exists_cons_of_ne_nil n.ne_nil
      rw [hn] at hrest
      obtain rfl := (List.cons.inj (List.cons.inj hrest).2).1
      exact n.no_slash (hn ▸ List.mem_cons_self)

private theorem slashed_ne (names : List Name) : slashed names ≠ ['/'] := by
  cases names with
  | nil => simp [slashed]
  | cons n names => simp [n.ne_nil]

private theorem text_injective : Function.Injective text := by
  intro p q h
  cases p with
  | nil =>
      cases q with
      | nil => rfl
      | cons n q =>
          rw [text_cons] at h
          exact absurd h.symm (slashed_ne _)
  | cons m p =>
      rw [text_cons] at h
      cases q with
      | nil => exact absurd h (slashed_ne _)
      | cons n q =>
          rw [text_cons, ← List.reverse_cons, ← List.reverse_cons] at h
          exact List.reverse_injective (slashed_injective h)

/-- The test for what lies under a directory: the directory itself, or a path that goes on after
it. Nothing goes on after the slash of the topmost directory. -/
theorem text_below {p q : Place} :
    text q = text p ∨ text p ++ ['/'] <+: text q ↔ q = p ∨ p ≠ [] ∧ p <:+ q := by
  rw [text_injective.eq_iff]
  cases p with
  | nil =>
      refine or_congr_right (iff_of_false (fun h => ?_) fun h => h.1 rfl)
      cases q with
      | nil => exact absurd h (by decide)
      | cons n q =>
          rw [text_cons] at h
          exact not_slashes_prefix _ h
  | cons m p =>
      rw [text_cons]
      constructor
      · rintro (rfl | h)
        · exact .inl rfl
        · cases q with
          | nil =>
              have hlength := h.length_le
              simp only [slashed, List.length_append, List.length_flatMap, text_nil] at hlength
              simp at hlength
          | cons n q =>
              rw [text_cons, slashed_prefix] at h
              obtain ⟨k, rest, hrest⟩ := h
              refine .inr ⟨List.cons_ne_nil m p, ?_⟩
              rw [← List.reverse_prefix, List.reverse_cons, List.reverse_cons, hrest]
              exact List.prefix_append _ _
      · rintro (rfl | ⟨-, hsuffix⟩)
        · exact .inl rfl
        · rcases eq_or_ne q (m :: p) with rfl | hne
          · exact .inl rfl
          · right
            cases q with
            | nil => exact absurd (List.suffix_nil.mp hsuffix) (List.cons_ne_nil m p)
            | cons n q =>
                rw [text_cons, slashed_prefix]
                obtain ⟨front, hfront⟩ := hsuffix
                rcases List.eq_nil_or_concat front with rfl | ⟨front, k, rfl⟩
                · exact absurd hfront.symm hne
                · refine ⟨k, front.reverse, ?_⟩
                  rw [← List.reverse_cons, ← hfront]
                  simp

end Prefixes

end Files
