import Jetty.Core.Files.Walks
import Jetty.Orchestrator.Config.Extends

/-!
# Confinement of relative paths

A relative path of a configuration may only lead into the directory of its file. Two functions
restate the rule; both look for the directory with a slash behind it at the start of the resolved
path, which nothing starts with where the directory is the topmost one.
-/

namespace Jetty.Orchestrator

open Files

variable {δ : Type} {host : Host} {t : Files.Tree δ} {cwd : Place} {configDir value what : String}

/-- The host resolves paths in the tree, relative ones from the working directory. -/
def Resolves (host : Host) (t : Files.Tree δ) (cwd : Place) : Prop :=
  ∀ path, (host.realpath path).toList = text (t.realpath (start cwd path.toList) path.toList)

/-- A value after the expansion of `~`; an unknown `~user` stays as it was. -/
def expanded (host : Host) (value : String) : String :=
  if value.toList.head? = some '~' then
    if isAbs (host.expanduser value) then host.expanduser value else value
  else value

/-- What a relative value resolves to. -/
def resolution (host : Host) (configDir value : String) : String :=
  host.realpath (joinPath (host.realpath configDir) value)

/-- The place of a path. -/
def placeOf (t : Files.Tree δ) (cwd : Place) (path : String) : Place :=
  t.realpath (start cwd path.toList) path.toList

/-- The place of the directory of the configuration. -/
def basePlace (t : Files.Tree δ) (cwd : Place) (configDir : String) : Place :=
  placeOf t cwd configDir

/-- The place that a relative value resolves to. -/
def valuePlace (host : Host) (t : Files.Tree δ) (cwd : Place) (configDir value : String) : Place :=
  placeOf t cwd (joinPath (host.realpath configDir) value)

/-- The rule that both functions state; `e`: what they raise. -/
def confine {ε : Type} (host : Host) (configDir value : String) (e : ε) : Except ε String :=
  if isAbs (expanded host value) then .ok (expanded host value)
  else
    if resolution host configDir (expanded host value) ≠ host.realpath configDir ∧
        ¬ (host.realpath configDir ++ "/").toList <+:
          (resolution host configDir (expanded host value)).toList then .error e
    else .ok (resolution host configDir (expanded host value))

private theorem resolveConfigPath_eq_confine (host : Host) (configDir what value : String) :
    ∃ e, resolveConfigPath host configDir what value = confine host configDir value e := ⟨_, rfl⟩

private theorem resolveExtends_eq_confine (host : Host) (configDir value : String) :
    ∃ e, resolveExtends host value configDir = confine host configDir value e := ⟨_, rfl⟩

private theorem confine_of_isAbs {ε : Type} {e : ε} (h : isAbs (expanded host value) = true) :
    confine host configDir value e = .ok (expanded host value) := if_pos h

private theorem confine_eq_ok {ε : Type} {e : ε} (h : isAbs (expanded host value) = false)
    {path : String} : confine host configDir value e = .ok path ↔
      path = resolution host configDir (expanded host value) ∧
        (resolution host configDir (expanded host value) = host.realpath configDir ∨
          (host.realpath configDir ++ "/").toList <+:
            (resolution host configDir (expanded host value)).toList) := by
  rw [confine, if_neg (by rw [h]; exact Bool.false_ne_true)]
  split
  · rename_i hout
    exact ⟨nofun, fun h => absurd h.2 (not_or.mpr hout)⟩
  · rename_i hin
    rw [not_and_or, not_not, not_not] at hin
    rw [Except.ok.injEq, eq_comm, and_iff_left hin]

/-- The errors apart, the rule is one. -/
theorem confine_congr {ε ε' : Type} (e : ε) (e' : ε') (path : String) :
    confine host configDir value e = .ok path ↔ confine host configDir value e' = .ok path := by
  cases habs : isAbs (expanded host value) with
  | true => rw [confine_of_isAbs habs, confine_of_isAbs habs, Except.ok.injEq, Except.ok.injEq]
  | false => rw [confine_eq_ok habs, confine_eq_ok habs]

/-- The test by prefix, on places: nothing but the topmost directory itself passes there. -/
theorem below_iff (h : Resolves host t cwd) :
    (resolution host configDir value = host.realpath configDir ∨
      (host.realpath configDir ++ "/").toList <+: (resolution host configDir value).toList) ↔
    valuePlace host t cwd configDir value = basePlace t cwd configDir ∨
      basePlace t cwd configDir ≠ [] ∧
        basePlace t cwd configDir <:+ valuePlace host t cwd configDir value := by
  have hbase := h configDir
  have hvalue := h (joinPath (host.realpath configDir) value)
  rw [String.toList_append, ← String.toList_inj, resolution, hbase, hvalue]
  exact text_below

/-- What the documentation says of both functions: absolute and `~`-expanded values are returned as
they are, a relative value exactly if it resolves to the directory of the file or below it. -/
structure Confines {ε : Type} (host : Host) (t : Files.Tree δ) (cwd : Place)
    (configDir value : String) (result : Except ε String) : Prop where
  absolute : isAbs (expanded host value) = true → result = .ok (expanded host value)
  relative : isAbs (expanded host value) = false → ∀ path, result = .ok path ↔
    path = resolution host configDir (expanded host value) ∧
      basePlace t cwd configDir <:+ valuePlace host t cwd configDir (expanded host value)

/-- Both functions confine relative values, and they agree. -/
structure Confined (host : Host) (t : Files.Tree δ) (cwd : Place) (configDir what value : String) :
    Prop where
  rendered : Confines host t cwd configDir value (resolveConfigPath host configDir what value)
  inherited : Confines host t cwd configDir value (resolveExtends host value configDir)
  agree : ∀ path, resolveConfigPath host configDir what value = .ok path ↔
    resolveExtends host value configDir = .ok path

/-- The value does not have to stay below the topmost directory. -/
def Below (host : Host) (t : Files.Tree δ) (cwd : Place) (configDir value : String) : Prop :=
  isAbs (expanded host value) = true ∨ basePlace t cwd configDir ≠ [] ∨
    valuePlace host t cwd configDir (expanded host value) = []

private theorem confines_iff {ε : Type} {e : ε} (h : Resolves host t cwd) :
    Confines host t cwd configDir value (confine host configDir value e) ↔
      Below host t cwd configDir value := by
  cases habs : isAbs (expanded host value) with
  | true =>
      refine iff_of_true ⟨confine_of_isAbs, fun hrelative => ?_⟩ (.inl habs)
      rw [habs] at hrelative
      cases hrelative
  | false =>
      have hok : ∀ path, confine host configDir value e = .ok path ↔
          path = resolution host configDir (expanded host value) ∧
            (valuePlace host t cwd configDir (expanded host value) = basePlace t cwd configDir ∨
              basePlace t cwd configDir ≠ [] ∧ basePlace t cwd configDir <:+
                valuePlace host t cwd configDir (expanded host value)) := fun path => by
        rw [confine_eq_ok habs, below_iff h]
      constructor
      · intro hconfines
        by_cases htop : basePlace t cwd configDir = []
        · have hbelow : basePlace t cwd configDir <:+
              valuePlace host t cwd configDir (expanded host value) := by
            rw [htop]
            exact List.nil_suffix
          rcases ((hok _).mp ((hconfines.relative habs _).mpr ⟨rfl, hbelow⟩)).2 with heq | ⟨hne, -⟩
          · exact .inr (.inr (heq.trans htop))
          · exact absurd htop hne
        · exact .inr (.inl htop)
      · intro hbelow
        have hdir : basePlace t cwd configDir ≠ [] ∨
            valuePlace host t cwd configDir (expanded host value) = [] :=
          hbelow.resolve_left (by rw [habs]; exact Bool.false_ne_true)
        refine ⟨confine_of_isAbs, fun _ path => (hok path).trans (and_congr_right fun _ => ?_)⟩
        constructor
        · rintro (heq | ⟨-, hsuffix⟩)
          · exact heq ▸ List.suffix_rfl
          · exact hsuffix
        · intro hsuffix
          rcases hdir with hne | htop
          · exact .inr ⟨hne, hsuffix⟩
          · rw [htop, List.suffix_nil] at hsuffix
            exact .inl (htop.trans hsuffix.symm)

/-- Relative values are confined as documented, unless the file lies in the topmost directory and
the value leads to something in there. -/
theorem confined_iff (h : Resolves host t cwd) :
    Confined host t cwd configDir what value ↔ Below host t cwd configDir value := by
  obtain ⟨e, he⟩ := resolveConfigPath_eq_confine host configDir what value
  obtain ⟨e', he'⟩ := resolveExtends_eq_confine host configDir value
  constructor
  · intro hconfined
    have hrendered := hconfined.rendered
    rw [he] at hrendered
    exact (confines_iff h).mp hrendered
  · intro hbelow
    refine ⟨?_, ?_, fun path => ?_⟩
    · rw [he]
      exact (confines_iff h).mpr hbelow
    · rw [he']
      exact (confines_iff h).mpr hbelow
    · rw [he, he']
      exact confine_congr e e' path

/-! ### A file in the topmost directory -/

/-- A host that resolves paths in a tree. -/
def Host.ofTree (t : Files.Tree δ) (cwd : Place) : Host where
  environ _ := none
  expanduser := id
  realpath path := String.ofList (text (placeOf t cwd path))
  realpath_abs path := by
    rw [String.toList_ofList]
    exact beq_iff_eq.mp (isAbsolute_text _)
  repr := id
  ascii := id
  objectRepr := ""

private theorem resolves_ofTree (t : Files.Tree δ) (cwd : Place) : Resolves
    (Host.ofTree t cwd) t cwd :=
  fun _ => String.toList_ofList

private theorem singleton_ne_nil (c : Char) : [c] ≠ [] := List.cons_ne_nil c []

/-- A name of one character. -/
def shortName (c : Char) (h : c ≠ '/' ∧ c ≠ '.') : Name where
  chars := [c]
  ne_nil := singleton_ne_nil c
  no_slash := by
    rw [List.mem_singleton]
    exact h.1.symm
  not_here heq := h.2 (List.cons.inj heq).1
  not_up := nofun

/-- A script in the topmost directory, and a directory with another one. -/
def scripts : Files.Tree Unit := .ofEntries () [
  ([shortName 'r' (by decide)], .regular),
  ([shortName 'd' (by decide)], .directory ()),
  ([shortName 'r' (by decide), shortName 'd' (by decide)], .regular)] (by decide)

/-- Below another directory the script is found. -/
theorem confined_iff_script : Confined (Host.ofTree scripts []) scripts [] "/d" "cmd" "r" :=
  (confined_iff (resolves_ofTree scripts [])).mpr (.inr (.inl (by decide +kernel)))

/-- In the topmost directory it is refused. -/
theorem not_confined : ¬ ∀ (host : Host) (t : Files.Tree Unit) (cwd : Place)
    (configDir what value : String), Resolves host t cwd →
    Confined host t cwd configDir what value := by
  intro h
  have hinherited := (h _ scripts [] "/" "cmd" "r" (resolves_ofTree scripts [])).inherited
  obtain ⟨e, he⟩ := resolveExtends_eq_confine (Host.ofTree scripts []) "/" "r"
  rw [he] at hinherited
  rcases (confines_iff (resolves_ofTree scripts [])).mp hinherited with habs | htop | hvalue
  · exact absurd habs (by decide)
  · exact htop (by decide +kernel)
  · exact absurd hvalue (by decide +kernel)

end Jetty.Orchestrator
