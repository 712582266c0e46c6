import Mathlib.Data.List.Basic

/-!
# A connection to a transactional store

Statements work on the contents of the open transaction, or on what is committed if none is
open. An error may leave the transaction standing or end it; beginning inside of a transaction
and ending one that is not open are errors of their own. Nothing here depends on a particular
program.
-/

namespace Store

variable {δ ε ρ : Type}

/-- What a statement answers, and what it does to the contents it works on. -/
inductive Reply (δ ε ρ : Type)
  | done (contents : δ) (result : ρ)
  /-- The transaction stands, with these contents. -/
  | failed (e : ε) (contents : δ)
  /-- The error ended the transaction. -/
  | rolledBack (e : ε)

structure Conn (δ : Type) where
  /-- What is committed. -/
  db : δ
  /-- What the open transaction sees. -/
  tx : Option δ
  queryOnly : Bool

namespace Conn

/-- The contents that statements see. -/
def contents (c : Conn δ) : δ := c.tx.getD c.db

def write (c : Conn δ) (contents : δ) : Conn δ :=
  match c.tx with
  | none => { c with db := contents }
  | some _ => { c with tx := some contents }

/-- A statement that is no transaction control. -/
def exec (c : Conn δ) : Reply δ ε ρ → Conn δ × Except ε ρ
  | .done contents result => (c.write contents, .ok result)
  | .failed e contents => (c.write contents, .error e)
  | .rolledBack e => ({ c with tx := none }, .error e)

/-- `BEGIN IMMEDIATE`, which the store may refuse. -/
def begin (c : Conn δ) (nested : ε) (refused : Option ε) : Conn δ × Except ε Unit :=
  match c.tx, refused with
  | some _, _ => (c, .error nested)
  | none, some e => (c, .error e)
  | none, none => ({ c with tx := some c.db }, .ok ())

/-- `COMMIT`, which may fail and then end the transaction or not. -/
def commit (c : Conn δ) (idle : ε) (failure : Option (ε × Bool)) : Conn δ × Except ε Unit :=
  match c.tx, failure with
  | none, _ => (c, .error idle)
  | some _, some (e, true) => ({ c with tx := none }, .error e)
  | some _, some (e, false) => (c, .error e)
  | some contents, none => ({ c with db := contents, tx := none }, .ok ())

/-- `ROLLBACK`. -/
def rollback (c : Conn δ) (idle : ε) : Conn δ × Except ε Unit :=
  match c.tx with
  | none => (c, .error idle)
  | some _ => ({ c with tx := none }, .ok ())

/-- No transaction is open, and writes are allowed. -/
def Idle (c : Conn δ) : Prop := c.tx = none ∧ c.queryOnly = false

section Lemmas

variable {c : Conn δ}

@[simp] theorem queryOnly_write (contents : δ) : (c.write contents).queryOnly = c.queryOnly := by
  unfold write
  split <;> rfl

@[simp] theorem queryOnly_exec (reply : Reply δ ε ρ) :
    (c.exec reply).1.queryOnly = c.queryOnly := by
  cases reply with
  | done contents result => exact queryOnly_write contents
  | failed e contents => exact queryOnly_write contents
  | rolledBack e => rfl

@[simp] theorem queryOnly_begin (nested : ε) (refused : Option ε) :
    (c.begin nested refused).1.queryOnly = c.queryOnly := by
  unfold begin
  split <;> rfl

@[simp] theorem queryOnly_commit (idle : ε) (failure : Option (ε × Bool)) :
    (c.commit idle failure).1.queryOnly = c.queryOnly := by
  unfold commit
  split <;> rfl

/-- Outside a transaction a statement opens none. -/
theorem tx_exec_of_none (h : c.tx = none) (reply : Reply δ ε ρ) : (c.exec reply).1.tx = none := by
  cases reply <;> simp [exec, write, h]

/-- A `BEGIN` that raises changes nothing. -/
theorem begin_of_error {nested e : ε} {refused : Option ε}
    (h : (c.begin nested refused).2 = .error e) : (c.begin nested refused).1 = c := by
  obtain ⟨db, tx, queryOnly⟩ := c
  cases tx with
  | some contents => rfl
  | none =>
      cases refused with
      | some e' => rfl
      | none => cases h

/-- A `BEGIN` that succeeds opens the transaction. -/
theorem begin_of_ok {nested : ε} {refused : Option ε} (h : (c.begin nested refused).2 = .ok ()) :
    c.tx = none ∧ refused = none ∧ (c.begin nested refused).1 = { c with tx := some c.db } := by
  obtain ⟨db, tx, queryOnly⟩ := c
  cases tx with
  | some contents => cases h
  | none =>
      cases refused with
      | some e => cases h
      | none => exact ⟨rfl, rfl, rfl⟩

/-- A `COMMIT` that succeeds ends the transaction. -/
theorem tx_commit_of_ok {idle : ε} {failure : Option (ε × Bool)}
    (h : (c.commit idle failure).2 = .ok ()) : (c.commit idle failure).1.tx = none := by
  obtain ⟨db, tx, queryOnly⟩ := c
  cases tx with
  | none => rfl
  | some contents =>
      rcases failure with - | ⟨e, ended⟩
      · rfl
      · cases ended <;> cases h

end Lemmas

end Conn

end Store
