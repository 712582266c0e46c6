import Jetty.Core.Store.Connection
import Mathlib.Data.List.Sort

/-!
# The SQLite driver

`SqliteDriver.query`, `execute` and `migrate` over one connection. SQLite itself is an engine
that says what a statement does to the contents; a migration's statement may do anything to the
connection.
-/

namespace Jetty.Sql

open Store

/-- `Value`; of a float its text. -/
inductive Value
  | null
  | bool (b : Bool)
  | int (n : ℤ)
  | real (text : String)
  | str (s : String)
deriving DecidableEq, Repr

structure Statement where
  sql : String
  params : List (String × Value)
deriving DecidableEq, Repr

structure Migration where
  name : String
  statements : List String
deriving DecidableEq, Repr

/-- The subclasses of `sqlite3.Error`, and the class itself. -/
inductive ErrorClass
  | error
  | integrity
  | programming
  | operational
  | database
  | data
  | internal
  | notSupported
  | interface
deriving DecidableEq, Repr

structure SqliteError where
  cls : ErrorClass
  /-- `sqlite_errorname`. -/
  errorname : String
  message : String
deriving DecidableEq, Repr

/-- What `execute` of the sqlite3 module raises. -/
inductive Exc
  | sqlite (e : SqliteError)
  /-- No `sqlite3.Error`: `OverflowError`, `sqlite3.Warning`, an encoding error. -/
  | other (cls message : String)
deriving DecidableEq, Repr

/-- It is caught by `except sqlite3.Error`. -/
def Exc.isSqlite : Exc → Bool
  | .sqlite _ => true
  | .other _ _ => false

/-- What the driver raises. -/
inductive Failure
  | constraintViolation (message : String)
  | statementRejected (message : String)
  | migrationConflict (message : String)
  | raised (e : Exc)
deriving DecidableEq, Repr

/-- `_REJECTION_CODES`. -/
def rejectionCodes : List String := ["SQLITE_ERROR", "SQLITE_RANGE", "SQLITE_MISMATCH"]

/-- `_translate`. -/
def translate (e : SqliteError) : Option Failure :=
  if e.cls = .integrity then some (.constraintViolation e.message)
  else if e.cls = .programming then some (.statementRejected e.message)
  else if e.errorname ∈ rejectionCodes then some (.statementRejected e.message)
  else none

/-- `_translate(exc) or exc`; what is no `sqlite3.Error` stays as it is. -/
def Exc.translated : Exc → Failure
  | .sqlite e => (translate e).getD (.raised (.sqlite e))
  | .other cls message => .raised (.other cls message)

def operational (message : String) : Exc := .sqlite ⟨.operational, "SQLITE_ERROR", message⟩

/-- `BEGIN` inside of a transaction. -/
def nestedError : Exc := operational "cannot start a transaction within a transaction"

/-- `COMMIT` without a transaction. -/
def commitError : Exc := operational "cannot commit - no transaction is active"

/-- `ROLLBACK` without a transaction. -/
def rollbackError : Exc := operational "cannot rollback - no transaction is active"

/-- A write while `query_only` is on. -/
def readonlyError : Exc :=
  .sqlite ⟨.operational, "SQLITE_READONLY", "attempt to write a readonly database"⟩

/-- A value of a result. -/
inductive Cell
  | value (v : Value)
  | blob
deriving DecidableEq, Repr

/-- What a statement returns. -/
structure Output where
  columns : List String
  rows : List (List Cell)
  rowcount : ℤ
deriving DecidableEq, Repr

structure ResultSet where
  columns : List String
  rows : List (List Value)
deriving DecidableEq, Repr

structure MigrateResult where
  applied : List String
  alreadyApplied : List String
deriving DecidableEq, Repr

/-- The contents of the database: the rows of `_jetty_sql_migrations`, if there is such a table,
and everything else. -/
structure Contents (δ : Type) where
  ledger : Option (List (ℤ × String))
  rest : δ

/-- SQLite: the database at one point in time, and who else uses it. -/
structure Engine (δ : Type) where
  /-- A query or a write, with `query_only`. -/
  work : Statement → Bool → Contents δ → Reply (Contents δ) Exc Output
  /-- A statement of a migration. -/
  script : String → Conn (Contents δ) → Conn (Contents δ) × Except Exc Unit
  /-- Why the table of the ledger cannot be looked for, or created. -/
  create : Contents δ → Option Exc
  /-- Why the names in the ledger cannot be read. -/
  select : Contents δ → Option Exc
  /-- Why the write lock is refused. -/
  begin : Contents δ → Option Exc
  /-- Why the row of a migration is refused, other than by the table's constraints, and whether
  that ends the transaction. -/
  record : Contents δ → Option (Exc × Bool)
  /-- Why the transaction cannot be committed, and whether that ends it. -/
  commit : Contents δ → Option (Exc × Bool)

abbrev Connection (δ : Type) := Conn (Contents δ)

variable {δ : Type}

/-- `_wire_value`. -/
def wireValue : Cell → Except Failure Value
  | .value v => .ok v
  | .blob => .error (.statementRejected ("result contains a bytes value, which is outside " ++
      "sql-v1's value set (§4)"))

section Query

variable (engine : Engine δ)

/-- `query`. -/
def query (stmt : Statement) (c : Connection δ) : Connection δ × Except Failure ResultSet :=
  let c := { c with queryOnly := true }
  match c.exec (engine.work stmt true c.contents) with
  | (c, .ok out) =>
    ({ c with queryOnly := false },
      (out.rows.mapM (List.mapM wireValue)).map fun rows => ⟨out.columns, rows⟩)
  | (c, .error e) => ({ c with queryOnly := false }, .error e.translated)

end Query

section Execute

variable (engine : Engine δ)

/-- The loop over the statements of a batch. -/
def executeAll : List Statement → Connection δ → Connection δ × Except Exc (List ℤ)
  | [], c => (c, .ok [])
  | stmt :: stmts, c =>
    match c.exec (engine.work stmt c.queryOnly c.contents) with
    | (c, .error e) => (c, .error e)
    | (c, .ok out) =>
      match executeAll stmts c with
      | (c, .error e) => (c, .error e)
      | (c, .ok counts) => (c, .ok (out.rowcount :: counts))

/-- `COMMIT`. -/
def commitTx (c : Connection δ) : Connection δ × Except Exc Unit :=
  c.commit commitError (engine.commit c.contents)

/-- The `try` of `execute`. -/
def executeBody (stmts : List Statement) (c : Connection δ) :
    Connection δ × Except Exc (List ℤ) :=
  match executeAll engine stmts c with
  | (c, .error e) => (c, .error e)
  | (c, .ok counts) =>
    match commitTx engine c with
    | (c, .error e) => (c, .error e)
    | (c, .ok _) => (c, .ok counts)

/-- The shape of `execute` and of one round of `migrate`: a transaction, a `try`, and a handler
for `sqlite3.Error` that rolls back. -/
def transaction {α : Type} (body : Connection δ → Connection δ × Except Exc α)
    (caught : SqliteError → Failure) (c : Connection δ) : Connection δ × Except Failure α :=
  match c.begin nestedError (engine.begin c.contents) with
  | (c, .error e) => (c, .error (.raised e))
  | (c, .ok _) =>
    match body c with
    | (c, .ok a) => (c, .ok a)
    | (c, .error (.other cls message)) => (c, .error (.raised (.other cls message)))
    | (c, .error (.sqlite e)) =>
      match c.rollback rollbackError with
      | (c, .error e') => (c, .error (.raised e'))
      | (c, .ok _) => (c, .error (caught e))

/-- `execute`. -/
def execute (stmts : List Statement) : Connection δ → Connection δ × Except Failure (List ℤ) :=
  transaction engine (executeBody engine stmts) fun e => Exc.translated (.sqlite e)

end Execute

section Migrate

variable (engine : Engine δ) (repr : String → String)

/-- `CREATE TABLE IF NOT EXISTS` of the ledger. -/
def createLedger (c : Connection δ) : Connection δ × Except Exc Unit :=
  c.exec <|
    match engine.create c.contents, c.contents.ledger, c.queryOnly with
    | some e, _, _ => .failed e c.contents
    | none, some _, _ => .done c.contents ()
    | none, none, true => .failed readonlyError c.contents
    | none, none, false => .done { c.contents with ledger := some [] } ()

/-- The names in the ledger, by their positions. -/
def ledgerNames (contents : Contents δ) : List String :=
  ((contents.ledger.getD []).mergeSort fun row row' => row.1 ≤ row'.1).map Prod.snd

/-- `SELECT name … ORDER BY pos`. -/
def readLedger (c : Connection δ) : Connection δ × Except Exc (List String) :=
  c.exec <|
    match engine.select c.contents with
    | some e => .failed e c.contents
    | none => .done c.contents (ledgerNames c.contents)

/-- `INSERT` of a migration into the ledger. -/
def insertLedger (pos : ℕ) (name : String) (c : Connection δ) : Connection δ × Except Exc Unit :=
  c.exec <|
    if c.queryOnly then .failed readonlyError c.contents
    else
      match c.contents.ledger with
      | none => .failed (operational "no such table: _jetty_sql_migrations") c.contents
      | some rows =>
        if (pos : ℤ) ∈ rows.map Prod.fst then
          .failed (.sqlite ⟨.integrity, "SQLITE_CONSTRAINT_PRIMARYKEY",
            "UNIQUE constraint failed: _jetty_sql_migrations.pos"⟩) c.contents
        else if name ∈ rows.map Prod.snd then
          .failed (.sqlite ⟨.integrity, "SQLITE_CONSTRAINT_UNIQUE",
            "UNIQUE constraint failed: _jetty_sql_migrations.name"⟩) c.contents
        else
          match engine.record c.contents with
          | some (e, true) => .rolledBack e
          | some (e, false) => .failed e c.contents
          | none => .done { c.contents with ledger := some (rows ++ [((pos : ℤ), name)]) } ()

/-- The first position at which the lists differ. -/
def mismatch : ℕ → List String → List String → Option (ℕ × String × String)
  | pos, have_ :: applied, want :: names =>
    if have_ ≠ want then some (pos, have_, want) else mismatch (pos + 1) applied names
  | _, _, _ => none

/-- `_check_history`. -/
def checkHistory (applied names : List String) : Except Failure Unit :=
  match names.find? fun n => 1 < names.count n with
  | some dupe => .error (.migrationConflict s!"migration name {repr dupe} appears twice")
  | none =>
    if names.length < applied.length then
      .error (.migrationConflict (s!"{applied.length} migrations are applied but only " ++
        s!"{names.length} were submitted; migrations cannot be removed"))
    else
      match mismatch 0 applied names with
      | some (pos, have_, want) =>
        .error (.migrationConflict (s!"position {pos} is applied as {repr have_} but submitted " ++
          s!"as {repr want}; applied history cannot be rewritten"))
      | none => .ok ()

/-- The statements of one migration. -/
def runScript : List String → Connection δ → Connection δ × Except Exc Unit
  | [], c => (c, .ok ())
  | statement :: statements, c =>
    match engine.script statement c with
    | (c, .error e) => (c, .error e)
    | (c, .ok _) => runScript statements c

/-- The `try` of `migrate`. -/
def migrationBody (pos : ℕ) (m : Migration) (c : Connection δ) :
    Connection δ × Except Exc Unit :=
  match runScript engine m.statements c with
  | (c, .error e) => (c, .error e)
  | (c, .ok _) =>
    match insertLedger engine pos m.name c with
    | (c, .error e) => (c, .error e)
    | (c, .ok _) => commitTx engine c

/-- The text of a typed error. -/
def Failure.message : Failure → String
  | .constraintViolation message => message
  | .statementRejected message => message
  | .migrationConflict message => message
  | .raised (.sqlite e) => e.message
  | .raised (.other _ message) => message

/-- One round of the loop of `migrate`. -/
def applyMigration (pos : ℕ) (m : Migration) :
    Connection δ → Connection δ × Except Failure Unit :=
  transaction engine (migrationBody engine pos m) fun e =>
    match translate e with
    | some translated =>
      .statementRejected s!"migration {repr m.name}: {translated.message}"
    | none => .raised (.sqlite e)

/-- The loop of `migrate` over what is not applied yet. -/
def applyAll : ℕ → List Migration → Connection δ → Connection δ × Except Failure (List String)
  | _, [], c => (c, .ok [])
  | pos, m :: ms, c =>
    match applyMigration engine repr pos m c with
    | (c, .error e) => (c, .error e)
    | (c, .ok _) =>
      match applyAll (pos + 1) ms c with
      | (c, .error e) => (c, .error e)
      | (c, .ok newly) => (c, .ok (m.name :: newly))

/-- `migrate`. -/
def migrate (migrations : List Migration) (c : Connection δ) :
    Connection δ × Except Failure MigrateResult :=
  match createLedger engine c with
  | (c, .error e) => (c, .error (.raised e))
  | (c, .ok _) =>
    match readLedger engine c with
    | (c, .error e) => (c, .error (.raised e))
    | (c, .ok applied) =>
      match checkHistory repr applied (migrations.map Migration.name) with
      | .error e => (c, .error e)
      | .ok _ =>
        match applyAll engine repr applied.length (migrations.drop applied.length) c with
        | (c, .error e) => (c, .error e)
        | (c, .ok newly) => (c, .ok ⟨newly, applied⟩)

end Migrate

section Transactions

variable {engine : Engine δ} {α : Type} {body : Connection δ → Connection δ × Except Exc α}
  {caught : SqliteError → Failure} {c : Connection δ}

/-- What a transaction does: it does not begin, or its `try` ends well, with an exception that
is not caught, or with one that is followed by `ROLLBACK`. -/
theorem transaction_cases (engine : Engine δ)
    (body : Connection δ → Connection δ × Except Exc α) (caught : SqliteError → Failure)
    (c : Connection δ) :
    (∃ e, (c.begin nestedError (engine.begin c.contents)).2 = .error e ∧
      transaction engine body caught c = (c, .error (.raised e))) ∨
    c.tx = none ∧ engine.begin c.contents = none ∧
      c.begin nestedError (engine.begin c.contents) = ({ c with tx := some c.db }, .ok ()) ∧
      ((∃ c' a, body { c with tx := some c.db } = (c', .ok a) ∧
          transaction engine body caught c = (c', .ok a)) ∨
        (∃ c' cls message, body { c with tx := some c.db } = (c', .error (.other cls message)) ∧
          transaction engine body caught c = (c', .error (.raised (.other cls message)))) ∨
        ∃ c' e, body { c with tx := some c.db } = (c', .error (.sqlite e)) ∧
          transaction engine body caught c = ({ c' with tx := none },
            .error (if c'.tx = none then .raised rollbackError else caught e))) := by
  unfold transaction
  rcases hbegin : c.begin nestedError (engine.begin c.contents) with ⟨c₀, e | u⟩
  · have hc := Conn.begin_of_error (congrArg Prod.snd hbegin)
    rw [hbegin] at hc
    obtain rfl : c₀ = c := hc
    exact .inl ⟨e, rfl, rfl⟩
  · obtain ⟨htx, hfree, hc⟩ := Conn.begin_of_ok (congrArg Prod.snd hbegin)
    rw [hbegin] at hc
    obtain rfl : c₀ = { c with tx := some c.db } := hc
    refine .inr ⟨htx, hfree, rfl, ?_⟩
    rcases hbody : body { c with tx := some c.db } with ⟨c', (e | ⟨cls, message⟩) | a⟩
    · refine .inr (.inr ⟨c', e, rfl, ?_⟩)
      obtain ⟨db, tx, queryOnly⟩ := c'
      cases tx with
      | none => simp only [hbody, Conn.rollback, if_true]
      | some contents => simp only [hbody, Conn.rollback, reduceCtorEq, if_false]
    · exact .inr (.inl ⟨c', cls, message, rfl, by simp only [hbody]⟩)
    · exact .inl ⟨c', a, rfl, by simp only [hbody]⟩

end Transactions

/-- The codes of the surface. -/
inductive Code
  | constraintViolation
  | migrationConflict
  | sqlError
  | upstreamUnavailable
deriving DecidableEq, Repr

/-- `_drive`. -/
def Failure.code : Failure → Code
  | .constraintViolation _ => .constraintViolation
  | .migrationConflict _ => .migrationConflict
  | .statementRejected _ => .sqlError
  | .raised _ => .upstreamUnavailable

/-- The HTTP status of a code. -/
def Code.status : Code → ℕ
  | .constraintViolation => 409
  | .migrationConflict => 409
  | .sqlError => 400
  | .upstreamUnavailable => 503

end Jetty.Sql
