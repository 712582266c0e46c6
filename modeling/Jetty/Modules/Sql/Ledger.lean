import Jetty.Modules.Sql.Idle
import Mathlib.Data.List.Nodup

/-!
# The migration ledger

Runs of `migrate` against an append-only history of names. As long as the statements of the
migrations leave the ledger's table alone, its rows are the names of the history at their
positions, and every call that reaches the ledger extends the history by the migrations that it
applies in full.
-/

namespace Jetty.Sql

open Store

variable {δ : Type}

/-- The statement is no transaction control, and raises nothing but errors of the store. -/
def Single (engine : Engine δ) (statement : String) : Prop :=
  ∀ db w queryOnly, (engine.script statement ⟨db, some w, queryOnly⟩).1.db = db ∧
    match (engine.script statement ⟨db, some w, queryOnly⟩).2 with
    | .error e => e.isSqlite = true
    | .ok _ => ∃ w', (engine.script statement ⟨db, some w, queryOnly⟩).1.tx = some w'

/-- The statement does not change the rows of the ledger. -/
def Foreign (engine : Engine δ) (statement : String) : Prop :=
  ∀ db w queryOnly c' w', engine.script statement ⟨db, some w, queryOnly⟩ = (c', .ok ()) →
    c'.tx = some w' → w'.ledger = w.ledger

/-- The row of a migration and its commit fail with errors of the store only. -/
structure Engine.Regular (engine : Engine δ) : Prop where
  record : ∀ w e ended, engine.record w = some (e, ended) → e.isSqlite = true
  commit : ∀ w e ended, engine.commit w = some (e, ended) → e.isSqlite = true

/-- The statements of the migrations are single and leave the ledger alone. -/
structure PlainCall (engine : Engine δ) (ms : List Migration) : Prop where
  regular : engine.Regular
  single : ∀ m ∈ ms, ∀ statement ∈ m.statements, Single engine statement
  foreign : ∀ m ∈ ms, ∀ statement ∈ m.statements, Foreign engine statement

private theorem PlainCall.mono {engine : Engine δ} {ms ms' : List Migration}
    (h : PlainCall engine ms) (hsub : ∀ m ∈ ms', m ∈ ms) : PlainCall engine ms' :=
  ⟨h.regular, fun m hm => h.single m (hsub m hm), fun m hm => h.foreign m (hsub m hm)⟩

/-- Names at the positions from 0 on. -/
def rowsOf (names : List String) : List (ℤ × String) :=
  names.zipIdx.map fun row => ((row.2 : ℤ), row.1)

private theorem rowsOf_append (names : List String) (name : String) :
    rowsOf (names ++ [name]) = rowsOf names ++ [((names.length : ℤ), name)] := by
  simp [rowsOf, List.zipIdx_append]

private theorem map_snd_rowsOf (names : List String) : (rowsOf names).map Prod.snd = names := by
  simp [rowsOf, Function.comp_def]

/-- An append-only history: the names of the applied migrations, and what they made of the
database. -/
structure History (δ : Type) where
  names : List String
  rest : δ
  readonly : Bool

/-- The contents that a history stands for. -/
def History.contents (h : History δ) : Contents δ := ⟨some (rowsOf h.names), h.rest⟩

/-- The connection that a history stands for. -/
def History.conn (h : History δ) : Connection δ := ⟨h.contents, none, h.readonly⟩

/-- All statements of a migration run, and its name is added. -/
def History.Performs (engine : Engine δ) (h : History δ) (m : Migration) (h' : History δ) : Prop :=
  ∃ w, runScript engine m.statements ⟨h.contents, some h.contents, h.readonly⟩ =
      (⟨h.contents, some w, h'.readonly⟩, .ok ()) ∧
    h'.names = h.names ++ [m.name] ∧ h'.rest = w.rest

/-- Migrations are performed one after the other. -/
inductive History.Extends (engine : Engine δ) : History δ → List Migration → History δ → Prop
  | nil {h : History δ} : Extends engine h [] h
  | cons {h h' h'' : History δ} {m : Migration} {ms : List Migration} :
      h.Performs engine m h' → Extends engine h' ms h'' → Extends engine h (m :: ms) h''

private theorem History.Extends.names {engine : Engine δ} {h h' : History δ} {ms : List Migration}
    (hext : h.Extends engine ms h') : h'.names = h.names ++ ms.map Migration.name := by
  induction hext with
  | nil => simp
  | cons hperforms _ ih =>
      obtain ⟨w, -, hnames, -⟩ := hperforms
      rw [ih, hnames]
      simp

section Names

private theorem ledgerNames_contents (h : History δ) : ledgerNames h.contents = h.names := by
  have hsorted : (rowsOf h.names).Pairwise fun row row' => decide (row.1 ≤ row'.1) = true := by
    rw [rowsOf, List.pairwise_map]
    refine List.pairwise_iff_getElem.mpr fun i j hi hj hij => ?_
    simp only [List.getElem_zipIdx, Nat.zero_add, decide_eq_true_eq]
    omega
  rw [ledgerNames, History.contents, Option.getD_some, List.mergeSort_of_pairwise hsorted,
    map_snd_rowsOf]

private theorem mismatch_eq_none {applied names : List String} (pos : ℕ)
    (hlength : applied.length ≤ names.length) :
    mismatch pos applied names = none ↔ applied <+: names := by
  induction applied generalizing pos names with
  | nil => simp [mismatch]
  | cons name applied ih =>
      cases names with
      | nil => simp at hlength
      | cons name' names =>
          rw [List.cons_prefix_cons, mismatch]
          split
          · rename_i hne
            simp [hne]
          · rename_i heq
            rw [ih (pos + 1) (by simpa using hlength)]
            simp [not_not.mp heq]

/-- The history is checked for duplicates and for a prefix. -/
theorem checkHistory_cases (repr : String → String) (applied names : List String) :
    (names.Nodup ∧ applied <+: names ∧ checkHistory repr applied names = .ok ()) ∨
      ¬ (names.Nodup ∧ applied <+: names) ∧
        ∃ message, checkHistory repr applied names = .error (.migrationConflict message) := by
  unfold checkHistory
  cases hfind : names.find? fun n => 1 < names.count n with
  | some dupe =>
      refine .inr ⟨fun h => ?_, _, rfl⟩
      have hcount := List.nodup_iff_count_le_one.mp h.1 dupe
      have hdupe := List.find?_some hfind
      rw [decide_eq_true_eq] at hdupe
      omega
  | none =>
      have hnodup : names.Nodup := by
        refine List.nodup_iff_count_le_one.mpr fun n => ?_
        by_cases hn : n ∈ names
        · simpa using List.find?_eq_none.mp hfind n hn
        · rw [List.count_eq_zero_of_not_mem hn]
          omega
      by_cases hlength : names.length < applied.length
      · refine .inr ⟨fun h => ?_, _, by simp only [if_pos hlength]; rfl⟩
        have hle := h.2.length_le
        omega
      · have hnone := mismatch_eq_none 0 (not_lt.mp hlength)
        cases hmismatch : mismatch 0 applied names with
        | none =>
            exact .inl ⟨hnodup, hnone.mp hmismatch, by simp only [if_neg hlength]⟩
        | some m =>
            refine .inr ⟨fun h => ?_, _, by simp only [if_neg hlength]; rfl⟩
            rw [hnone.mpr h.2] at hmismatch
            cases hmismatch

end Names

section Rounds

variable {engine : Engine δ} {repr : String → String}

/-- A plain script works inside of its transaction, until an error of the store. -/
theorem runScript_cases {statements : List String}
    (hsingle : ∀ statement ∈ statements, Single engine statement)
    (hforeign : ∀ statement ∈ statements, Foreign engine statement) {c : Connection δ}
    {w : Contents δ} (htx : c.tx = some w) :
    (∃ c' w', runScript engine statements c = (c', .ok ()) ∧ c'.db = c.db ∧ c'.tx = some w' ∧
      w'.ledger = w.ledger) ∨
    ∃ c' e, runScript engine statements c = (c', .error (.sqlite e)) ∧ c'.db = c.db := by
  induction statements generalizing c w with
  | nil => exact .inl ⟨c, w, rfl, rfl, htx, rfl⟩
  | cons statement statements ih =>
      obtain ⟨db, tx, queryOnly⟩ := c
      obtain rfl : tx = some w := htx
      obtain ⟨hdb, hresult⟩ := hsingle statement (List.mem_cons_self ..) db w queryOnly
      rw [runScript]
      rcases hscript : engine.script statement ⟨db, some w, queryOnly⟩ with ⟨c', e | u⟩
      · rw [hscript] at hdb hresult
        cases e with
        | sqlite e => exact .inr ⟨c', e, rfl, hdb⟩
        | other cls message => cases hresult
      · rw [hscript] at hdb hresult
        obtain ⟨w', htx'⟩ := hresult
        have hledger := hforeign statement (List.mem_cons_self ..) db w queryOnly c' w' hscript htx'
        rcases ih (fun s hs => hsingle s (List.mem_cons_of_mem _ hs))
            (fun s hs => hforeign s (List.mem_cons_of_mem _ hs)) htx' with
          ⟨c'', w'', hok, hdb', htx'', hledger'⟩ | ⟨c'', e, herror, hdb'⟩
        · exact .inl ⟨c'', w'', hok, hdb'.trans hdb, htx'', hledger'.trans hledger⟩
        · exact .inr ⟨c'', e, herror, hdb'.trans hdb⟩

/-- The row of a migration is added, or there is an error of the store. -/
theorem insertLedger_cases (hregular : engine.Regular)
    (pos : ℕ) (name : String) (db : Contents δ) {w : Contents δ} (queryOnly : Bool)
    {rows : List (ℤ × String)} (hledger : w.ledger = some rows) :
    (insertLedger engine pos name ⟨db, some w, queryOnly⟩ =
      (⟨db, some { w with ledger := some (rows ++ [((pos : ℤ), name)]) }, queryOnly⟩, .ok ())) ∨
    ∃ c' e, insertLedger engine pos name ⟨db, some w, queryOnly⟩ = (c', .error (.sqlite e)) ∧
      c'.db = db := by
  obtain ⟨ledger, rest⟩ := w
  obtain rfl : ledger = some rows := hledger
  simp only [insertLedger, Conn.contents, Option.getD_some]
  split
  · exact .inr ⟨_, _, rfl, rfl⟩
  · split
    · exact .inr ⟨_, _, rfl, rfl⟩
    · split
      · exact .inr ⟨_, _, rfl, rfl⟩
      · split
        · rename_i e hrefused
          cases e with
          | sqlite e => exact .inr ⟨_, e, rfl, rfl⟩
          | other cls message => cases hregular.record _ _ _ hrefused
        · rename_i e hrefused
          cases e with
          | sqlite e => exact .inr ⟨_, e, rfl, rfl⟩
          | other cls message => cases hregular.record _ _ _ hrefused
        · exact .inl rfl

private theorem commitTx_cases (hregular : engine.Regular)
    (db w : Contents δ) (queryOnly : Bool) :
    commitTx engine ⟨db, some w, queryOnly⟩ = (⟨w, none, queryOnly⟩, .ok ()) ∨
    ∃ c' e, commitTx engine ⟨db, some w, queryOnly⟩ = (c', .error (.sqlite e)) ∧ c'.db = db := by
  simp only [commitTx, Conn.contents, Option.getD_some]
  rcases hfailure : engine.commit w with - | ⟨e, ended⟩
  · exact .inl rfl
  · cases e with
    | sqlite e => cases ended <;> exact .inr ⟨_, e, rfl, rfl⟩
    | other cls message => cases hregular.commit _ _ _ hfailure

/-- The `try` of a round performs the migration, or there is an error of the store and nothing
is committed. -/
theorem migrationBody_cases {m : Migration} (hplain : PlainCall engine [m]) (h : History δ) :
    (∃ h', h.Performs engine m h' ∧ migrationBody engine h.names.length m
        ⟨h.contents, some h.contents, h.readonly⟩ = (h'.conn, .ok ())) ∨
    ∃ c' e, migrationBody engine h.names.length m
        ⟨h.contents, some h.contents, h.readonly⟩ = (c', .error (.sqlite e)) ∧
      c'.db = h.contents := by
  have hm : m ∈ [m] := List.mem_cons_self ..
  have hscript := runScript_cases (hplain.single m hm) (hplain.foreign m hm)
    (c := ⟨h.contents, some h.contents, h.readonly⟩) rfl
  rcases hscript with
    ⟨⟨db, tx, queryOnly⟩, w, hrun, hdb, htx, hledger⟩ | ⟨c', e, hrun, hdb⟩
  · obtain rfl : tx = some w := htx
    obtain rfl : db = h.contents := hdb
    rcases insertLedger_cases hplain.regular h.names.length m.name h.contents queryOnly hledger with
      hinsert | ⟨c', e, hinsert, hdb⟩
    · have hcommits := commitTx_cases hplain.regular h.contents
        { w with ledger := some (rowsOf h.names ++ [((h.names.length : ℤ), m.name)]) } queryOnly
      rcases hcommits with
        hcommit | ⟨c', e, hcommit, hdb⟩
      · refine .inl ⟨⟨h.names ++ [m.name], w.rest, queryOnly⟩, ⟨w, hrun, rfl, rfl⟩, ?_⟩
        simp only [migrationBody, hrun, hinsert, hcommit]
        simp only [History.conn, History.contents, rowsOf_append]
      · exact .inr ⟨c', e, by simp only [migrationBody, hrun, hinsert, hcommit], hdb⟩
    · exact .inr ⟨c', e, by simp only [migrationBody, hrun, hinsert], hdb⟩
  · exact .inr ⟨c', e, by simp only [migrationBody, hrun], hdb⟩

/-- The failure is not the refusal of a history. -/
def Failure.Unforeseen (failure : Failure) : Prop := ∀ message, failure ≠ .migrationConflict message

/-- The failure of a migration is no refusal of the history. -/
theorem Failure.unforeseen_migration (name : String) (e : SqliteError) :
    Failure.Unforeseen
      (match translate e with
      | some translated => .statementRejected s!"migration {name}: {translated.message}"
      | none => .raised (.sqlite e)) := by
  intro message
  split <;> exact Failure.noConfusion

/-- A round performs its migration, or fails and leaves the ledger and the rest alone. -/
theorem applyMigration_cases (repr : String → String) {m : Migration}
    (hplain : PlainCall engine [m]) (h : History δ) :
    (∃ h', h.Performs engine m h' ∧
      applyMigration engine repr h.names.length m h.conn = (h'.conn, .ok ())) ∨
    ∃ readonly failure, failure.Unforeseen ∧
      applyMigration engine repr h.names.length m h.conn =
        (History.conn { h with readonly := readonly }, .error failure) := by
  rcases transaction_cases engine (migrationBody engine h.names.length m) (fun e =>
      match translate e with
      | some translated => .statementRejected s!"migration {repr m.name}: {translated.message}"
      | none => .raised (.sqlite e)) h.conn with ⟨e, -, heq⟩ | ⟨-, -, -, hcases⟩
  · exact .inr ⟨h.readonly, _, fun _ => Failure.noConfusion, heq⟩
  · rcases migrationBody_cases hplain h with ⟨h', hperforms, hbody⟩ | ⟨c', e, hbody, hdb⟩
    · rcases hcases with ⟨c', a, hrun, heq⟩ | ⟨c', cls, message, hrun, -⟩ | ⟨c', e, hrun, -⟩
      · obtain ⟨rfl, -⟩ := Prod.mk.inj (hrun.symm.trans hbody)
        exact .inl ⟨h', hperforms, heq⟩
      · cases hbody.symm.trans hrun
      · cases hbody.symm.trans hrun
    · rcases hcases with ⟨c'', a, hrun, -⟩ | ⟨c'', cls, message, hrun, -⟩ | ⟨c'', e', hrun, heq⟩
      · cases hbody.symm.trans hrun
      · cases hbody.symm.trans hrun
      · obtain ⟨rfl, he⟩ := Prod.mk.inj (hbody.symm.trans hrun)
        obtain ⟨db, tx, queryOnly⟩ := c'
        obtain rfl : db = h.contents := hdb
        refine .inr ⟨queryOnly, _, fun message => ?_, heq⟩
        split
        · exact Failure.noConfusion
        · exact Failure.unforeseen_migration (repr m.name) e' message

/-- The loop performs its migrations in order, up to the first one that fails. -/
theorem applyAll_cases (repr : String → String) {ms : List Migration}
    (hplain : PlainCall engine ms) (h : History δ) :
    (∃ h', h.Extends engine ms h' ∧ applyAll engine repr h.names.length ms h.conn =
      (h'.conn, .ok (ms.map Migration.name))) ∨
    ∃ done m todo h' readonly failure, ms = done ++ m :: todo ∧ h.Extends engine done h' ∧
      failure.Unforeseen ∧
      applyMigration engine repr h'.names.length m h'.conn =
        (History.conn { h' with readonly := readonly }, .error failure) ∧
      applyAll engine repr h.names.length ms h.conn =
        (History.conn { h' with readonly := readonly }, .error failure) := by
  induction ms generalizing h with
  | nil => exact .inl ⟨h, .nil, rfl⟩
  | cons m ms ih =>
      have hfirst : PlainCall engine [m] :=
        hplain.mono fun m' hm' => List.mem_cons.mpr (.inl (List.mem_singleton.mp hm'))
      have hothers : PlainCall engine ms :=
        hplain.mono fun m' hm' => List.mem_cons_of_mem _ hm'
      rcases applyMigration_cases repr hfirst h with
        ⟨h', hperforms, happly⟩ | ⟨readonly, failure, hfailure, happly⟩
      · obtain ⟨w, -, hnames, -⟩ := id hperforms
        have hpos : h.names.length + 1 = h'.names.length := by
          rw [hnames, List.length_append, List.length_singleton]
        rcases ih hothers h' with ⟨h'', hext, hall⟩ |
          ⟨done, m', todo, h'', readonly, failure, rfl, hext, hfailure, hround, hall⟩
        · refine .inl ⟨h'', .cons hperforms hext, ?_⟩
          simp only [applyAll, happly, hpos, hall, List.map_cons]
        · refine .inr ⟨m :: done, m', todo, h'', readonly, failure, rfl, .cons hperforms hext,
            hfailure, hround, ?_⟩
          simp only [applyAll, happly, hpos, hall]
      · refine .inr ⟨[], m, ms, h, readonly, failure, rfl, .nil, hfailure, happly, ?_⟩
        simp only [applyAll, happly]

end Rounds

/-- A call of `migrate`, with the store that it meets and the answer. -/
structure Attempt (δ : Type) where
  engine : Engine δ
  migrations : List Migration
  answer : Except Failure MigrateResult

/-- The names that the call submits. -/
def Attempt.names (a : Attempt δ) : List String := a.migrations.map Migration.name

def Attempt.Single (a : Attempt δ) : Prop :=
  a.engine.Regular ∧ ∀ m ∈ a.migrations, ∀ statement ∈ m.statements, Sql.Single a.engine statement

def Attempt.Plain (a : Attempt δ) : Prop := PlainCall a.engine a.migrations

def Attempt.Succeeds (a : Attempt δ) : Prop := ∃ result, a.answer = .ok result

/-- The names are distinct and begin with the history. -/
def Attempt.Continues (a : Attempt δ) (h : History δ) : Prop :=
  a.names.Nodup ∧ h.names <+: a.names

/-- The migrations that the history does not have yet. -/
def Attempt.pending (a : Attempt δ) (h : History δ) : List Migration :=
  a.migrations.drop h.names.length

/-- The calls of `migrate`, one after the other. -/
def Attempts (repr : String → String) : Transition.Rel (Connection δ) (Attempt δ) :=
  fun c a c' => migrate a.engine repr a.migrations c = (c', a.answer)

/-- The connection stands for a history; a new database may lack the table. -/
inductive Holds : Connection δ → History δ → Prop
  | fresh {rest : δ} : Holds ⟨⟨none, rest⟩, none, false⟩ ⟨[], rest, false⟩
  | conn {h : History δ} : Holds h.conn h

private theorem Holds.ledger {c : Connection δ} {h : History δ} (hc : Holds c h) :
    c.db.ledger = none ∨ c.db.ledger = some (rowsOf h.names) := by
  cases hc with
  | fresh => exact .inl rfl
  | conn => exact .inr rfl

/-- What a call makes of the history, and what it answers. -/
inductive Answers (repr : String → String) (h : History δ) (a : Attempt δ) : History δ → Prop
  /-- The submitted list is refused, and the history stays as it is. -/
  | refused {message : String} : ¬ a.Continues h →
      a.answer = .error (.migrationConflict message) → Answers repr h a h
  /-- All that is pending is applied. -/
  | applied {h' : History δ} : a.Continues h → h.Extends a.engine (a.pending h) h' →
      a.answer = .ok ⟨(a.pending h).map Migration.name, h.names⟩ → Answers repr h a h'
  /-- The first failing migration ends the call and adds nothing. -/
  | stopped {done todo : List Migration} {m : Migration} {h' : History δ} {readonly : Bool}
      {failure : Failure} : a.Continues h → a.pending h = done ++ m :: todo →
      h.Extends a.engine done h' → failure.Unforeseen →
      applyMigration a.engine repr h'.names.length m h'.conn =
        (History.conn { h' with readonly := readonly }, .error failure) →
      a.answer = .error failure → Answers repr h a { h' with readonly := readonly }

/-- The call could not create the ledger, or not read it: it has the store's error for an answer,
and no row is changed. -/
def Attempt.Unreached (a : Attempt δ) (c : Connection δ) (h : History δ) (c' : Connection δ) :
    Prop :=
  ∃ e, a.answer = .error (.raised e) ∧
    (a.engine.create c.contents = some e ∧ c' = c ∨
      a.engine.create c.contents = none ∧ a.engine.select h.contents = some e ∧ c' = h.conn)

/-- The ledger of the history is found, and can be read. -/
def Engine.Reaches (engine : Engine δ) (h : History δ) : Prop :=
  engine.create h.contents = none ∧ engine.select h.contents = none

section Reaching

variable {engine : Engine δ}

/-- The ledger is there after its `CREATE TABLE`, or the store refuses. -/
theorem createLedger_cases (engine : Engine δ) {c : Connection δ} {h : History δ} (hc : Holds c h) :
    (∃ e, engine.create c.contents = some e ∧ createLedger engine c = (c, .error e)) ∨
      engine.create c.contents = none ∧ createLedger engine c = (h.conn, .ok ()) := by
  cases hcreate : engine.create c.contents with
  | some e =>
      refine .inl ⟨e, rfl, ?_⟩
      cases hc with
      | fresh =>
          simp only [createLedger, hcreate]
          rfl
      | conn =>
          simp only [createLedger, hcreate]
          rfl
  | none =>
      refine .inr ⟨rfl, ?_⟩
      cases hc with
      | fresh =>
          simp only [createLedger, hcreate]
          rfl
      | conn =>
          simp only [createLedger, hcreate]
          rfl

/-- The names are those of the history, or the store refuses. -/
theorem readLedger_cases (engine : Engine δ) (h : History δ) :
    (∃ e, engine.select h.contents = some e ∧ readLedger engine h.conn = (h.conn, .error e)) ∨
      engine.select h.contents = none ∧ readLedger engine h.conn = (h.conn, .ok h.names) := by
  have hcontents : h.conn.contents = h.contents := rfl
  cases hselect : engine.select h.contents with
  | some e =>
      refine .inl ⟨e, rfl, ?_⟩
      simp only [readLedger, hcontents, hselect]
      rfl
  | none =>
      refine .inr ⟨rfl, ?_⟩
      simp only [readLedger, hcontents, hselect, ledgerNames_contents]
      rfl

end Reaching

/-- A plain call does to the history, and answers, what `Answers` says, if it reaches the
ledger. -/
theorem answers_of_attempt {repr : String → String} {c c' : Connection δ} {h : History δ}
    {a : Attempt δ} (hc : Holds c h) (hplain : a.Plain) (hattempt : Attempts repr c a c') :
    (∃ h', c' = h'.conn ∧ Answers repr h a h') ∨ a.Unreached c h c' := by
  obtain ⟨engine, ms, answer⟩ := a
  have hmigrate : migrate engine repr ms c = (c', answer) := hattempt
  rcases createLedger_cases engine hc with ⟨e, hrefused, hcreate⟩ | ⟨hfree, hcreate⟩
  · simp only [migrate, hcreate] at hmigrate
    obtain ⟨rfl, rfl⟩ := Prod.mk.inj hmigrate
    exact .inr ⟨e, rfl, .inl ⟨hrefused, rfl⟩⟩
  rcases readLedger_cases engine h with ⟨e, hrefused, hread⟩ | ⟨-, hread⟩
  · simp only [migrate, hcreate, hread] at hmigrate
    obtain ⟨rfl, rfl⟩ := Prod.mk.inj hmigrate
    exact .inr ⟨e, rfl, .inr ⟨hfree, hrefused, rfl⟩⟩
  simp only [migrate, hcreate, hread] at hmigrate
  refine .inl ?_
  rcases checkHistory_cases repr h.names (ms.map Migration.name) with
    ⟨hnodup, hbegins, hcheck⟩ | ⟨hnot, message, hcheck⟩
  · have hpending : PlainCall engine (ms.drop h.names.length) :=
      hplain.mono fun m hm => List.mem_of_mem_drop hm
    rcases applyAll_cases repr hpending h with ⟨h', hext, hall⟩ |
      ⟨done, m, todo, h', readonly, failure, hms, hext, hfailure, hround, hall⟩
    · simp only [hcheck, hall] at hmigrate
      obtain ⟨rfl, rfl⟩ := Prod.mk.inj hmigrate
      exact ⟨h', rfl, .applied ⟨hnodup, hbegins⟩ hext rfl⟩
    · simp only [hcheck, hall] at hmigrate
      obtain ⟨rfl, rfl⟩ := Prod.mk.inj hmigrate
      exact ⟨_, rfl, .stopped ⟨hnodup, hbegins⟩ hms hext hfailure hround rfl⟩
  · simp only [hcheck] at hmigrate
    obtain ⟨rfl, rfl⟩ := Prod.mk.inj hmigrate
    exact ⟨h, rfl, .refused hnot rfl⟩

section Runs

variable {repr : String → String}

/-- The names of a history that a prefix of the pending migrations extends. -/
theorem names_prefix_of_extends {h h' : History δ} {a : Attempt δ} {done todo : List Migration}
    (hcontinues : a.Continues h) (hpending : a.pending h = done ++ todo)
    (hext : h.Extends a.engine done h') : h'.names <+: a.names := by
  obtain ⟨later, hlater⟩ := hcontinues.2
  have hdrop : a.names.drop h.names.length = later := by
    rw [← hlater, List.drop_left]
  rw [Attempt.names, ← List.map_drop, ← Attempt.pending, hpending, List.map_append] at hdrop
  rw [hext.names, ← hlater, ← hdrop]
  exact ⟨todo.map Migration.name, by simp⟩

/-- A call keeps the names distinct and only adds to them. -/
theorem Answers.names {h h' : History δ} {a : Attempt δ} (hanswers : Answers repr h a h')
    (hnodup : h.names.Nodup) :
    h'.names.Nodup ∧ h.names <+: h'.names ∧ (a.Succeeds → h'.names = a.names) := by
  cases hanswers with
  | refused hnot hanswer =>
      refine ⟨hnodup, List.prefix_rfl, fun ⟨result, hresult⟩ => ?_⟩
      rw [hanswer] at hresult
      cases hresult
  | applied hcontinues hext hanswer =>
      have hbegins := names_prefix_of_extends hcontinues (List.append_nil _).symm hext
      have hnames : h'.names = a.names := by
        obtain ⟨later, hlater⟩ := hcontinues.2
        rw [hext.names, Attempt.pending, List.map_drop]
        rw [show a.migrations.map Migration.name = a.names from rfl, ← hlater, List.drop_left]
      refine ⟨hcontinues.1.sublist hbegins.sublist, ?_, fun _ => hnames⟩
      rw [hext.names]
      exact List.prefix_append _ _
  | @stopped done todo m h' readonly failure hcontinues hpending hext _ _ hanswer =>
      have hbegins := names_prefix_of_extends hcontinues hpending hext
      refine ⟨hcontinues.1.sublist hbegins.sublist, ?_, fun ⟨result, hresult⟩ => ?_⟩
      · show h.names <+: h'.names
        rw [hext.names]
        exact List.prefix_append _ _
      · rw [hanswer] at hresult
        cases hresult

/-- What holds of the ledger after some calls: it is an append-only history. -/
structure AppendOnly (repr : String → String) (as : List (Attempt δ)) (c : Connection δ)
    (h : History δ) : Prop where
  /-- The rows are the names of the history at the positions 0 to n-1. -/
  holds : Holds c h
  nodup : h.names.Nodup
  /-- The next call is refused, applies what is pending, or stops at a failing migration, unless
  the store keeps it from the ledger. -/
  next : ∀ a c', a.Plain → Attempts repr c a c' →
    (∃ h', c' = h'.conn ∧ Answers repr h a h') ∨ a.Unreached c h c'
  /-- To repeat a successful call applies nothing. -/
  repeated : ∀ a ∈ as, a.Succeeds → ∀ engine : Engine δ, engine.Reaches h →
    h.names = a.names ∧ migrate engine repr a.migrations c = (c, .ok ⟨[], h.names⟩) ∨
    a.names.length < h.names.length ∧
      ∃ message, migrate engine repr a.migrations c = (c, .error (.migrationConflict message))
  comparable : ∀ a ∈ as, ∀ b ∈ as, a.Succeeds → b.Succeeds →
    a.names <+: b.names ∨ b.names <+: a.names

/-- The calls so far that succeeded submitted a prefix of the history. -/
def Recorded (as : List (Attempt δ)) (c : Connection δ) : Prop :=
  ∃ h, Holds c h ∧ h.names.Nodup ∧
    ∀ a ∈ as, a.Succeeds → c = h.conn ∧ a.names.Nodup ∧ a.names <+: h.names

private theorem recorded_step {as : List (Attempt δ)} {c c' : Connection δ} {a : Attempt δ}
    (h : Recorded as c) (hplain : a.Plain) (hattempt : Attempts repr c a c') :
    Recorded (as ++ [a]) c' := by
  obtain ⟨h, hc, hnodup, has⟩ := h
  rcases answers_of_attempt hc hplain hattempt with ⟨h', rfl, hanswers⟩ | ⟨e, hanswer, hc'⟩
  · obtain ⟨hnodup', hbegins, hsucceeds⟩ := hanswers.names hnodup
    refine ⟨h', .conn, hnodup', fun b hb hsuccess => ⟨rfl, ?_⟩⟩
    rcases List.mem_append.mp hb with hb | hb
    · obtain ⟨-, hdistinct, hnames⟩ := has b hb hsuccess
      exact ⟨hdistinct, hnames.trans hbegins⟩
    · obtain rfl := List.mem_singleton.mp hb
      have hnames := hsucceeds hsuccess
      rw [← hnames]
      exact ⟨hnodup', List.prefix_rfl⟩
  · -- The history stays as it is; the call is no successful one.
    have hearlier : ∀ b ∈ as ++ [a], b.Succeeds → b ∈ as := by
      rintro b hb ⟨result, hresult⟩
      rcases List.mem_append.mp hb with hb | hb
      · exact hb
      · obtain rfl := List.mem_singleton.mp hb
        cases hanswer.symm.trans hresult
    rcases hc' with ⟨-, rfl⟩ | ⟨-, -, rfl⟩
    · exact ⟨h, hc, hnodup, fun b hb hsuccess => has b (hearlier b hb hsuccess) hsuccess⟩
    · exact ⟨h, .conn, hnodup, fun b hb hsuccess =>
        ⟨rfl, (has b (hearlier b hb hsuccess) hsuccess).2⟩⟩

/-- A list that was submitted before applies nothing. -/
theorem migrate_repeated {h : History δ} {a : Attempt δ} (hnodup : a.names.Nodup)
    (hbegins : a.names <+: h.names) {engine : Engine δ} (hreaches : engine.Reaches h) :
    h.names = a.names ∧ migrate engine repr a.migrations h.conn = (h.conn, .ok ⟨[], h.names⟩) ∨
    a.names.length < h.names.length ∧
      ∃ message, migrate engine repr a.migrations h.conn =
        (h.conn, .error (.migrationConflict message)) := by
  have hcreate : createLedger engine h.conn = (h.conn, .ok ()) := by
    rcases createLedger_cases engine (.conn : Holds h.conn h) with ⟨e, hrefused, -⟩ | ⟨-, hcreate⟩
    · cases hreaches.1.symm.trans hrefused
    · exact hcreate
  have hread : readLedger engine h.conn = (h.conn, .ok h.names) := by
    rcases readLedger_cases engine h with ⟨e, hrefused, -⟩ | ⟨-, hread⟩
    · cases hreaches.2.symm.trans hrefused
    · exact hread
  simp only [migrate, hcreate, hread]
  rcases checkHistory_cases repr h.names (a.migrations.map Migration.name) with
    ⟨-, hbegins', hcheck⟩ | ⟨hnot, message, hcheck⟩
  · have hnames : h.names = a.names := hbegins'.eq_of_length_le hbegins.length_le
    have hlength : a.migrations.length = h.names.length := by
      rw [hnames, Attempt.names, List.length_map]
    refine .inl ⟨hnames, ?_⟩
    simp only [hcheck, List.drop_of_length_le hlength.le, applyAll]
  · refine .inr ⟨?_, message, by simp only [hcheck]⟩
    by_contra hlength
    have hnames : a.names = h.names := hbegins.eq_of_length_le (not_lt.mp hlength)
    exact hnot ⟨hnodup, hnames ▸ List.prefix_rfl⟩

end Runs

/-- A store of texts, in which one statement is the removal of the first migration. -/
def textEngine : Engine (List String) where
  work _ _ w := .done w ⟨[], [], 0⟩
  script statement c :=
    if statement = "DELETE FROM _jetty_sql_migrations WHERE pos = 0" then
      c.exec (.done { c.contents with
        ledger := c.contents.ledger.map (List.filter fun row => row.1 ≠ 0) } ())
    else if statement = "SELECT" then
      c.exec (.failed (operational "incomplete input") c.contents)
    else c.exec (.done { c.contents with rest := c.contents.rest ++ [statement] } ())
  create _ := none
  select _ := none
  begin _ := none
  record _ := none
  commit _ := none

private theorem textEngine_single (statement : String) : Single textEngine statement := by
  intro db w queryOnly
  simp only [textEngine]
  split
  · exact ⟨rfl, _, rfl⟩
  · split
    · exact ⟨rfl, rfl⟩
    · exact ⟨rfl, _, rfl⟩

private theorem textEngine_foreign {statement : String}
    (hne : statement ≠ "DELETE FROM _jetty_sql_migrations WHERE pos = 0") :
    Foreign textEngine statement := by
  intro db w queryOnly c' w' hrun htx
  simp only [textEngine, if_neg hne] at hrun
  split at hrun
  · cases hrun
  · cases hrun
    obtain rfl := Option.some.inj htx
    rfl

private theorem textEngine_regular : textEngine.Regular :=
  ⟨(fun _ _ _ hrefused => nomatch hrefused), fun _ _ _ hrefused => nomatch hrefused⟩

/-- A connection to a new database. -/
def newConnection : Connection (List String) := ⟨⟨none, []⟩, none, false⟩

/-- The first call on a new database. -/
def firstAttempt (migrations : List Migration) : Attempt (List String) :=
  ⟨textEngine, migrations, (migrate textEngine id migrations newConnection).2⟩

private theorem attempts_first (migrations : List Migration) :
    Attempts id newConnection (firstAttempt migrations)
      (migrate textEngine id migrations newConnection).1 := rfl

/-- One migration that succeeds, and one that fails. -/
def halfGood : List Migration := [⟨"0001", ["CREATE"]⟩, ⟨"0002", ["SELECT"]⟩]

/-- A migration that edits the ledger. -/
def rewriting : List Migration :=
  [⟨"0001", []⟩, ⟨"0002", ["DELETE FROM _jetty_sql_migrations WHERE pos = 0"]⟩]

end Jetty.Sql
