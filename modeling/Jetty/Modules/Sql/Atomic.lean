import Jetty.Modules.Sql.Idle

/-!
# A write batch

`execute` against what its statements do one after the other: all of it, or nothing and the
error that the statement itself raised. The handler of `execute` undoes what is still open, and
`ROLLBACK` has an error of its own where nothing is.
-/

namespace Jetty.Sql

open Store

variable {δ : Type}

/-- The statements one after the other, up to the first that raises. -/
def batch (engine : Engine δ) (readonly : Bool) :
    List Statement → Contents δ → Reply (Contents δ) Exc (List ℤ)
  | [], w => .done w []
  | stmt :: stmts, w =>
    match engine.work stmt readonly w with
    | .failed e w => .failed e w
    | .rolledBack e => .rolledBack e
    | .done w out =>
      match batch engine readonly stmts w with
      | .failed e w => .failed e w
      | .rolledBack e => .rolledBack e
      | .done w counts => .done w (out.rowcount :: counts)

/-- The error that a batch runs into, of `BEGIN`, of a statement or of `COMMIT`, and whether it
ends the transaction. -/
def ownError (engine : Engine δ) (stmts : List Statement) (c : Connection δ) :
    Option (Exc × Bool) :=
  match batch engine c.queryOnly stmts c.db with
  | .failed e _ => some (e, false)
  | .rolledBack e => some (e, true)
  | .done w _ => engine.commit w

/-- `execute` commits all statements and returns their row counts, or leaves everything as before
and raises the translation of the error that stopped it. -/
def Atomic (engine : Engine δ) (stmts : List Statement) (c : Connection δ) : Prop :=
  match (c.begin nestedError (engine.begin c.contents)).2 with
  | .error e => execute engine stmts c = (c, .error e.translated)
  | .ok _ =>
    match ownError engine stmts c with
    | some (e, _) => execute engine stmts c = (c, .error e.translated)
    | none => ∃ w counts, batch engine c.queryOnly stmts c.db = .done w counts ∧
        execute engine stmts c = ({ c with db := w }, .ok counts)

/-- `BEGIN` is not refused with an error that has a translation, and the error that stops the
batch is caught by the handler exactly if there is something to roll back. -/
def Undoable (engine : Engine δ) (stmts : List Statement) (c : Connection δ) : Prop :=
  match (c.begin nestedError (engine.begin c.contents)).2 with
  | .error e => e.translated = .raised e
  | .ok _ => ∀ e ended, ownError engine stmts c = some (e, ended) → e.isSqlite = !ended

private theorem executeAll_eq (engine : Engine δ) (stmts : List Statement) {c : Connection δ}
    {w : Contents δ} (h : c.tx = some w) :
    executeAll engine stmts c = c.exec (batch engine c.queryOnly stmts w) := by
  induction stmts generalizing c w with
  | nil =>
      obtain ⟨db, tx, queryOnly⟩ := c
      obtain rfl : tx = some w := h
      rfl
  | cons stmt stmts ih =>
      obtain ⟨db, tx, queryOnly⟩ := c
      obtain rfl : tx = some w := h
      unfold executeAll batch
      have hcontents : Conn.contents ⟨db, some w, queryOnly⟩ = w := rfl
      rw [hcontents]
      cases engine.work stmt queryOnly w with
      | failed e w' => rfl
      | rolledBack e => rfl
      | done w' out =>
          have hrest := ih (c := ⟨db, some w', queryOnly⟩) rfl
          simp only [Conn.exec, Conn.write] at hrest ⊢
          rw [hrest]
          cases batch engine queryOnly stmts w' <;> rfl

/-- The `try` of `execute`: it commits, or it is stopped and the transaction stands unless the
error ended it. -/
theorem executeBody_cases (engine : Engine δ) (stmts : List Statement) (c : Connection δ) :
    (∃ w counts, ownError engine stmts c = none ∧
      batch engine c.queryOnly stmts c.db = .done w counts ∧
      executeBody engine stmts { c with tx := some c.db } =
        ({ c with db := w, tx := none }, .ok counts)) ∨
    ∃ e ended tx, ownError engine stmts c = some (e, ended) ∧
      executeBody engine stmts { c with tx := some c.db } = ({ c with tx := tx }, .error e) ∧
      (tx = none ↔ ended = true) := by
  unfold executeBody ownError
  rw [executeAll_eq engine stmts (c := { c with tx := some c.db }) rfl]
  cases batch engine c.queryOnly stmts c.db with
  | failed e w => exact .inr ⟨e, false, some w, rfl, rfl, by simp⟩
  | rolledBack e => exact .inr ⟨e, true, none, rfl, rfl, by simp⟩
  | done w counts =>
      have hcommit : commitTx engine { c with tx := some w } =
          Conn.commit { c with tx := some w } commitError (engine.commit w) := rfl
      simp only [Conn.exec, Conn.write, hcommit]
      rcases engine.commit w with - | ⟨e, - | -⟩
      · exact .inl ⟨w, counts, rfl, rfl, rfl⟩
      · exact .inr ⟨e, false, some w, rfl, rfl, by simp⟩
      · exact .inr ⟨e, true, none, rfl, rfl, by simp⟩

/-- No error translates to the one that `ROLLBACK` raises when nothing is open. -/
theorem rollbackError_ne_translated (e : Exc) : Failure.raised rollbackError ≠ e.translated := by
  cases e with
  | other cls message => nofun
  | sqlite e =>
      intro h
      have h : Failure.raised rollbackError = (translate e).getD (.raised (.sqlite e)) := h
      cases htranslate : translate e with
      | none =>
          rw [htranslate, Option.getD_none] at h
          obtain rfl : SqliteError.mk .operational "SQLITE_ERROR"
              "cannot rollback - no transaction is active" = e :=
            Exc.sqlite.inj (Failure.raised.inj h)
          exact absurd htranslate (by decide)
      | some f =>
          rw [htranslate, Option.getD_some] at h
          subst h
          unfold translate at htranslate
          split_ifs at htranslate <;> cases htranslate

/-- `execute` is atomic exactly if what stops the batch is undoable. -/
theorem atomic_iff (engine : Engine δ) (stmts : List Statement) (c : Connection δ) :
    Atomic engine stmts c ↔ Undoable engine stmts c := by
  unfold Atomic Undoable
  rcases transaction_cases engine (executeBody engine stmts) (fun e => Exc.translated (.sqlite e)) c
    with ⟨e, hbegin, heq⟩ | ⟨htx, -, hbegin, hcases⟩
  · have hexec : execute engine stmts c = (c, .error (.raised e)) := heq
    rw [hbegin]
    simp only [hexec, Prod.mk.injEq, true_and, Except.error.injEq]
    exact eq_comm
  · obtain ⟨db, tx, queryOnly⟩ := c
    obtain rfl : tx = none := htx
    rw [hbegin]
    rcases executeBody_cases engine stmts ⟨db, none, queryOnly⟩ with
      ⟨w, counts, hown, hbatch, hbody⟩ | ⟨e, ended, tx, hown, hbody, hended⟩
    · rcases hcases with ⟨c', a, hrun, heq⟩ | ⟨c', cls, message, hrun, heq⟩ | ⟨c', e, hrun, heq⟩
      · rw [hbody] at hrun
        cases hrun
        simp only [hown]
        exact iff_of_true ⟨w, counts, hbatch, heq⟩ (by simp)
      · rw [hbody] at hrun
        cases hrun
      · rw [hbody] at hrun
        cases hrun
    · have hcond : (∀ e' ended', ownError engine stmts ⟨db, none, queryOnly⟩ = some (e', ended') →
          e'.isSqlite = !ended') ↔ e.isSqlite = !ended := by
        rw [hown]
        exact ⟨fun h => h e ended rfl, by rintro h _ _ ⟨⟩; exact h⟩
      simp only [hcond]
      simp only [hown]
      rcases hcases with ⟨c', a, hrun, heq⟩ | ⟨c', cls, message, hrun, heq⟩ | ⟨c', e', hrun, heq⟩
      · rw [hbody] at hrun
        cases hrun
      · rw [hbody] at hrun
        cases hrun
        have hexec : execute engine stmts ⟨db, none, queryOnly⟩ =
            (⟨db, tx, queryOnly⟩, .error (.raised (.other cls message))) := heq
        rw [hexec]
        simp only [Exc.translated, Exc.isSqlite, Prod.mk.injEq, and_true, Conn.mk.injEq, true_and,
          hended]
        cases ended <;> simp
      · rw [hbody] at hrun
        cases hrun
        have hexec : execute engine stmts ⟨db, none, queryOnly⟩ = (⟨db, none, queryOnly⟩, .error
            (if tx = none then .raised rollbackError else Exc.translated (.sqlite e'))) := heq
        rw [hexec]
        simp only [Exc.isSqlite, Prod.mk.injEq, true_and, Except.error.injEq, hended]
        cases ended with
        | false => simp
        | true => simpa using rollbackError_ne_translated (.sqlite e')

/-- A table with one unique column, declared `ON CONFLICT ROLLBACK`. -/
def uniqueEngine : Engine (List Value) where
  work stmt _ w :=
    if stmt.params.any fun param => param.2 ∈ w.rest then
      .rolledBack (.sqlite
        ⟨.integrity, "SQLITE_CONSTRAINT_UNIQUE", "UNIQUE constraint failed: t.n"⟩)
    else .done { w with rest := w.rest ++ stmt.params.map Prod.snd } ⟨[], [], stmt.params.length⟩
  script _ c := (c, .ok ())
  create _ := none
  select _ := none
  begin _ := none
  record _ := none
  commit _ := none

/-- The second row with the same value rolls back by itself, and the error of `ROLLBACK` takes
the place of the violated constraint's: 503 instead of 409. -/
theorem not_atomic_insertInt : (¬ ∀ (δ : Type) (engine : Engine δ) (stmts : List Statement)
      (c : Connection δ), c.Idle → Atomic engine stmts c) ∧
    (execute uniqueEngine [insertInt 1, insertInt 1] emptyConnection).2 =
      .error (.raised rollbackError) ∧ (Failure.raised rollbackError).code.status = 503 := by
  refine ⟨fun h => ?_, by decide, rfl⟩
  have hatomic : execute uniqueEngine [insertInt 1, insertInt 1] emptyConnection =
      (emptyConnection, .error (.constraintViolation "UNIQUE constraint failed: t.n")) :=
    h _ uniqueEngine [insertInt 1, insertInt 1] emptyConnection ⟨rfl, rfl⟩
  exact absurd (congrArg Prod.snd hatomic) (by decide)

end Jetty.Sql
