import Jetty.Core.Files.Path
import Mathlib.Data.List.Nodup

/-!
# Directory trees with symbolic links

How the kernel walks a path, and how a path is resolved without the kernel: as far as it goes,
with the rest appended unresolved where a component is missing or a link leads to itself.
-/

namespace Files

/-- What a name stands for; a directory with its `stat`. -/
inductive Entry (δ : Type)
  | directory (stat : δ)
  | regular
  | special
  | link (target : List Char)
deriving DecidableEq

/-- A tree: what is in directories, and finitely many links. -/
structure Tree (δ : Type) where
  entry : Place → Option (Entry δ)
  top : ∃ stat, entry [] = some (.directory stat)
  parent : ∀ n p, (entry (n :: p)).isSome = true → ∃ stat, entry p = some (.directory stat)
  links : List Place
  mem_links : ∀ p target, entry p = some (.link target) → p ∈ links

/-- A tree given by its entries, each of them in a directory. -/
def Tree.ofEntries {δ : Type} (stat : δ) (entries : List (Place × Entry δ))
    (h : ∀ entry ∈ entries, entry.1.tail = [] ∨
      (match entries.lookup entry.1.tail with | some (.directory _) => true | _ => false) = true) :
    Tree δ where
  entry p := if p = [] then some (.directory stat) else entries.lookup p
  top := ⟨stat, rfl⟩
  parent n p hsome := by
    rw [if_neg (List.cons_ne_nil n p)] at hsome
    obtain ⟨e, he⟩ := Option.isSome_iff_exists.mp hsome
    obtain ⟨before, after, rfl, -⟩ := List.lookup_eq_some_iff.mp he
    by_cases hp : p = []
    · exact ⟨stat, if_pos hp⟩
    · rw [if_neg hp]
      have hparent := (h (n :: p, e) (by simp)).resolve_left hp
      split at hparent
      · rename_i stat' hstat
        exact ⟨stat', hstat⟩
      · cases hparent
  links := entries.map Prod.fst
  mem_links p target hlink := by
    split at hlink
    · cases hlink
    · obtain ⟨before, after, rfl, -⟩ := List.lookup_eq_some_iff.mp hlink
      simp

/-- Where the target of a link in a directory starts. -/
def start (dir : Place) (target : List Char) : Place := if isAbsolute target then [] else dir

namespace Tree

variable {δ : Type} (t : Tree δ)

def isDir (p : Place) : Bool :=
  match t.entry p with
  | some (.directory _) => true
  | _ => false

/-- The kernel's walk through the parts of a path; `follow` goes on from the target of a link. A
last component that is missing is where a file would be created. -/
def walkWith (follow : Place → List Part → Option Place) : Place → List Part → Option Place
  | cur, [] => some cur
  | cur, .here :: rest => if t.isDir cur then walkWith follow cur rest else none
  | cur, .up :: rest => if t.isDir cur then walkWith follow cur.tail rest else none
  | cur, .name n :: rest =>
    match t.entry (n :: cur) with
    | none => if t.isDir cur ∧ rest = [] then some (n :: cur) else none
    | some (.link target) => follow (start cur target) (parts target ++ rest)
    | some _ => walkWith follow (n :: cur) rest

/-- The walk that follows at most so many links. -/
def walk : ℕ → Place → List Part → Option Place
  | 0 => t.walkWith fun _ _ => none
  | limit + 1 => t.walkWith (walk limit)

/-- How far a path is resolved. -/
inductive Outcome
  | resolved (p : Place)
  /-- The name in the directory is missing or a link that leads to itself. -/
  | stuck (dir : Place) (n : Name) (rest : List Part)
deriving DecidableEq

/-- Resolve the parts of a path; `deeper` resolves the target of a link that is not open yet. -/
def resolveWith (deeper : Place → Place → List Part → Option Outcome) :
    Place → List Part → Outcome
  | cur, [] => .resolved cur
  | cur, .here :: rest => resolveWith deeper cur rest
  | cur, .up :: rest => resolveWith deeper cur.tail rest
  | cur, .name n :: rest =>
    match t.entry (n :: cur) with
    | none => .stuck cur n rest
    | some (.link target) =>
      match deeper (n :: cur) (start cur target) (parts target) with
      | some (.resolved p) => resolveWith deeper p rest
      | some (.stuck dir m rest') => .stuck dir m (rest' ++ rest)
      | none => .stuck cur n rest
    | some _ => resolveWith deeper (n :: cur) rest

/-- Resolve a path inside the targets of the open links; `depth` of the links are not open. -/
def resolve : ℕ → List Place → Place → List Part → Outcome
  | 0, _ => t.resolveWith fun _ _ _ => none
  | depth + 1, opened => t.resolveWith fun link p target =>
    if link ∈ opened then none else some (resolve depth (link :: opened) p target)

/-- Lexical normalisation: the directory it climbs back to, and the names that it keeps below,
the innermost first. -/
def lexical : Place → List Name → List Part → Place × List Name
  | base, below, [] => (base, below)
  | base, below, .here :: rest => lexical base below rest
  | base, [], .up :: rest => lexical base.tail [] rest
  | base, _ :: below, .up :: rest => lexical base below rest
  | base, below, .name n :: rest => lexical base (n :: below) rest

/-- The place that a path is resolved to, what is left unresolved being normalised. -/
def realpath (cur : Place) (path : List Char) : Place :=
  match t.resolve t.links.length [] cur (parts path) with
  | .resolved p => p
  | .stuck dir n rest =>
    let (base, below) := lexical (n :: dir) [] rest
    below ++ base

end Tree

end Files
