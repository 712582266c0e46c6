import Jetty.Core.Listing.Ancestors
import Jetty.Core.Python.Text

/-!
# The log of a repository

`GET /hg/v1/changesets` over what `hg log` prints. Mercurial numbers changesets so that parents
come first, and finds a changeset by its node.
-/

namespace Jetty.Hg

open Python

/-- The codes of `ErrorCode` that the module answers. -/
inductive ErrorCode
  | invalidRequest
  | notFound
  | upstreamError
  | upstreamUnavailable
deriving DecidableEq, Repr

/-- `JettyError`. -/
structure JettyError where
  code : ErrorCode
  message : Text
deriving DecidableEq, Repr

/-- A changeset of a repository; its parents by number. -/
structure Commit where
  node : Text
  branch : Text
  p1 : Option ℕ
  p2 : Option ℕ
  user : Text
  /-- Seconds since the epoch, and seconds west of UTC. -/
  date : ℤ × ℤ
  desc : Text
  phase : Text
  extras : List (Text × Text)
  /-- The files it touches. -/
  files : List Text
deriving DecidableEq, Repr

def Commit.parents (c : Commit) : List ℕ := c.p1.toList ++ c.p2.toList

/-- `_NULL_NODE`. -/
def nullNode : Text := List.replicate 40 0x30

/-- The null changeset. -/
def nullCommit : Commit where
  node := nullNode
  branch := text "default"
  p1 := none
  p2 := none
  user := []
  date := (0, 0)
  desc := []
  phase := text "public"
  extras := []
  files := []

def isHexDigit (c : CodePoint) : Bool :=
  (decide (0x30 ≤ c.val) && decide (c.val ≤ 0x39)) ||
    (decide (0x61 ≤ c.val) && decide (c.val ≤ 0x66))

/-- The changesets of a repository, by number. -/
structure Repository where
  commits : List Commit
  older : ∀ (r : ℕ) (c : Commit), commits[r]? = some c → ∀ p ∈ c.parents, p < r
  hexNode : ∀ c ∈ commits, c.node.length = 40 ∧ c.node.all isHexDigit = true
  node_ne_null : ∀ c ∈ commits, c.node ≠ nullNode

/-- The parents of a number; those of no changeset are none. -/
def Repository.parents (repo : Repository) (r : ℕ) : List ℕ :=
  match repo.commits[r]? with
  | some c => c.parents
  | none => []

/-- The history of a repository. -/
def Repository.history (repo : Repository) : Listing.History where
  parents := repo.parents
  older r p hp := by
    unfold Repository.parents at hp
    split at hp
    · rename_i c hc
      exact repo.older r c hc p hp
    · cases hp

inductive Revision
  | null
  | rev (r : ℕ)
deriving DecidableEq, Repr

/-- The `hg` program over one repository. -/
structure Program where
  repo : Repository
  /-- What a revision names, or what `_failure` makes of the complaint. -/
  resolve : Text → Except JettyError Revision
  resolve_lt : ∀ s r, resolve s = .ok (.rev r) → r < repo.commits.length
  resolve_node : ∀ (r : ℕ) (c : Commit), repo.commits[r]? = some c → resolve c.node = .ok (.rev r)
  /-- The filters `-u` and `path:`. -/
  filters : Option Text → Option Text → Commit → Bool

/-- One line of the log. -/
structure Entry where
  node : Text
  rev : ℤ
  branch : Text
  p1node : Text
  p2node : Text
  user : Text
  date : ℤ × ℤ
  desc : Text
  phase : Text
  extras : List (Text × Text)
deriving DecidableEq, Repr

/-- What the API returns of a changeset. -/
structure Changeset where
  node : Text
  rev : ℤ
  branch : Text
  parents : List Text
  user : Text
  date : Text
  desc : Text
  phase : Text
  extras : List (Text × Text)
  label : Option Text
deriving DecidableEq, Repr

structure Page where
  changesets : List Changeset
  next : Option Text
deriving DecidableEq, Repr

section Checks

def isRevChar (c : CodePoint) : Bool :=
  (decide (0x41 ≤ c.val) && decide (c.val ≤ 0x5A)) ||
    (decide (0x61 ≤ c.val) && decide (c.val ≤ 0x7A)) ||
    (decide (0x30 ≤ c.val) && decide (c.val ≤ 0x39)) ||
    decide (c.val ∈ [0x2E, 0x5F, 0x2F, 0x2D])

/-- The pattern `_REV_OK` without its anchors, from the first character to the last. -/
def isRev (s : Text) : Bool := !s.isEmpty && decide (s.length ≤ 120) && s.all isRevChar

/-- `_REV_OK.match`: the pattern ends in `$`, which stands before a final newline too. -/
def matchesRev (s : Text) : Bool := isRev s || (s.getLast? == some 0xA && isRev s.dropLast)

variable (repr : Text → Text)

/-- `_check_rev`. -/
def checkRev (rev : Text) : Except JettyError Unit :=
  if matchesRev rev then .ok ()
  else .error ⟨.invalidRequest, text "invalid revision " ++ repr rev⟩

def slash : CodePoint := 0x2F
def backslash : CodePoint := 0x5C

/-- The path is relative, and none of its segments is empty or a dot name. -/
def isRepoPath (path : Text) : Bool :=
  !(path.isEmpty || path.head? == some slash || path.contains backslash ||
    (path.splitOn slash).any fun seg => decide (seg ∈ [[], text ".", text ".."]))

/-- `_check_path`. -/
def checkPath (path : Text) : Except JettyError Unit :=
  if isRepoPath path then .ok ()
  else .error ⟨.invalidRequest, text "invalid repository path " ++ repr path⟩

end Checks

section Log

variable (hg : Program)

/-- The node of a parent in a line of the log. -/
def Repository.parentNode (repo : Repository) (parent : Option ℕ) : Text :=
  match parent.bind (repo.commits[·]?) with
  | some c => c.node
  | none => nullNode

/-- The line of a changeset. -/
def Repository.entry (repo : Repository) (rev : ℤ) (c : Commit) : Entry where
  node := c.node
  rev := rev
  branch := c.branch
  p1node := repo.parentNode c.p1
  p2node := repo.parentNode c.p2
  user := c.user
  date := c.date
  desc := c.desc
  phase := c.phase
  extras := c.extras

/-- The changeset passes the filters. -/
def Program.shows (user path : Option Text) (r : ℕ) : Bool :=
  match hg.repo.commits[r]? with
  | some c => hg.filters user path c
  | none => false

/-- The lines of some numbers. -/
def Repository.entries (repo : Repository) (rs : List ℕ) : List Entry :=
  rs.filterMap fun r : ℕ => (repo.commits[r]?).map (repo.entry r)

/-- `hg log -r "reverse(ancestors('start'))" -l n` with the filters. -/
def Program.log (start : Text) (user path : Option Text) (n : ℕ) :
    Except JettyError (List Entry) :=
  match hg.resolve start with
  | .error e => .error e
  | .ok .null =>
    .ok ((([nullCommit].filter (hg.filters user path)).take n).map (hg.repo.entry (-1)))
  | .ok (.rev r) =>
    .ok (hg.repo.entries (((hg.repo.history.cursors (hg.shows user path)).list r).take n))

/-- `_log_json`: the null changeset is not for clients. -/
def Program.logJson (start : Text) (user path : Option Text) (n : ℕ) :
    Except JettyError (List Entry) :=
  (hg.log start user path n).map (List.filter fun e => e.node ≠ nullNode)

variable (iso : ℤ × ℤ → Text)

/-- `_changeset`, with `_iso` for dates. -/
def changeset (e : Entry) : Changeset where
  node := e.node
  rev := e.rev
  branch := e.branch
  parents := [e.p1node, e.p2node].filter (· ≠ nullNode)
  user := e.user
  date := iso e.date
  desc := e.desc
  phase := e.phase
  extras := e.extras
  label := none

variable (repr : Text → Text)

/-- The route of `GET /changesets` for one repository. -/
def changesets (start : Text) (path user : Option Text) (limit : ℕ) : Except JettyError Page := do
  checkRev repr start
  if let some p := path then checkPath repr p
  let entries ← hg.logJson start user path (limit + 1)
  return { changesets := (entries.take limit).map (changeset iso)
           next := (entries[limit]?).map Entry.node }

end Log

end Jetty.Hg
