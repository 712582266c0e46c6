import Jetty.Core.Transition
import Jetty.Modules.Sql.Driver
import Mathlib.Algebra.Group.Int.Defs

/-!
# What a call leaves behind

Between calls no transaction should be open and `query_only` should be off. The handlers around
`execute` and `migrate` catch the errors of the store only, and nothing looks at what the
statements of a migration do to the connection.
-/

namespace Jetty.Sql

open Store

variable {δ : Type}

/-- A request to the driver, with the store that it meets. -/
inductive Call (δ : Type)
  | query (engine : Engine δ) (stmt : Statement)
  | execute (engine : Engine δ) (stmts : List Statement)
  | migrate (engine : Engine δ) (migrations : List Migration)

/-- The connection after a call. -/
def Call.serve (repr : String → String) (c : Connection δ) : Call δ → Connection δ
  | .query engine stmt => (Sql.query engine stmt c).1
  | .execute engine stmts => (Sql.execute engine stmts c).1
  | .migrate engine migrations => (Sql.migrate engine repr migrations c).1

/-- The calls of one driver, one after the other under its lock. -/
def Serves (repr : String → String) : Transition.Rel (Connection δ) (Call δ) :=
  fun c call c' => call.serve repr c = c'

section Tame

variable (engine : Engine δ)

/-- The first statement of the batch that raises, or else the commit, raises an error of the
store. -/
def TameBatch : List Statement → Connection δ → Prop
  | [], c => ∀ e, (commitTx engine c).2 = .error e → e.isSqlite = true
  | stmt :: stmts, c =>
    match c.exec (engine.work stmt c.queryOnly c.contents) with
    | (_, .error e) => e.isSqlite = true
    | (c, .ok _) => TameBatch stmts c

/-- The same for the statements of a migration, its row and its commit, and `query_only` is off
in the end. -/
def TameScript (pos : ℕ) (name : String) : List String → Connection δ → Prop
  | [], c => c.queryOnly = false ∧
    match insertLedger engine pos name c with
    | (_, .error e) => e.isSqlite = true
    | (c, .ok _) => ∀ e, (commitTx engine c).2 = .error e → e.isSqlite = true
  | statement :: statements, c =>
    match engine.script statement c with
    | (c, .error e) => e.isSqlite = true ∧ c.queryOnly = false
    | (c, .ok _) => TameScript pos name statements c

/-- The same for every migration that is reached. -/
def TameAll (repr : String → String) : ℕ → List Migration → Connection δ → Prop
  | _, [], _ => True
  | pos, m :: ms, c =>
    (∀ c', c.begin nestedError (engine.begin c.contents) = (c', .ok ()) →
      TameScript engine pos m.name m.statements c') ∧
    ∀ c', applyMigration engine repr pos m c = (c', .ok ()) → TameAll repr (pos + 1) ms c'

end Tame

/-- Nothing but errors of the store is raised inside of a transaction, and no migration leaves
`query_only` on. -/
def Call.Tame (repr : String → String) (c : Connection δ) : Call δ → Prop
  | .query _ _ => True
  | .execute engine stmts => ∀ c', c.begin nestedError (engine.begin c.contents) = (c', .ok ()) →
      TameBatch engine stmts c'
  | .migrate engine migrations => ∀ c' c'' applied, createLedger engine c = (c', .ok ()) →
      readLedger engine c' = (c'', .ok applied) →
        TameAll engine repr applied.length (migrations.drop applied.length) c''

private theorem idle_query (engine : Engine δ) (stmt : Statement) {c : Connection δ} (h : c.Idle) :
    (query engine stmt c).1.Idle := by
  have htx : ({ c with queryOnly := true } : Connection δ).tx = none := h.1
  have hexec := Conn.tx_exec_of_none htx (engine.work stmt true c.contents)
  have hquery : (query engine stmt c).1 = { (({ c with queryOnly := true } : Connection δ).exec
      (engine.work stmt true c.contents)).1 with queryOnly := false } := by
    simp only [query]
    split <;> rename_i heq <;> simp only [Conn.contents] at heq ⊢ <;> rw [heq]
  rw [hquery]
  exact ⟨hexec, rfl⟩

/-- The outcome of a `try` that leaves an idle connection behind. -/
def Settles {α : Type} (outcome : Connection δ × Except Exc α) : Prop :=
  outcome.1.queryOnly = false ∧
    match outcome.2 with
    | .ok _ => outcome.1.tx = none
    | .error e => e.isSqlite = true

private theorem idle_transaction {α : Type} {engine : Engine δ}
    {body : Connection δ → Connection δ × Except Exc α} {caught : SqliteError → Failure}
    {c : Connection δ} (h : c.Idle)
    (hbody : ∀ c', c.begin nestedError (engine.begin c.contents) = (c', .ok ()) →
      Settles (body c')) : (transaction engine body caught c).1.Idle := by
  rcases transaction_cases engine body caught c with ⟨e, -, heq⟩ | ⟨-, -, hbegin, hcases⟩
  · rw [heq]
    exact h
  · have hsettles := hbody _ hbegin
    rcases hcases with ⟨c', a, hrun, heq⟩ | ⟨c', cls, message, hrun, heq⟩ | ⟨c', e, hrun, heq⟩
    · rw [hrun] at hsettles
      rw [heq]
      exact ⟨hsettles.2, hsettles.1⟩
    · rw [hrun] at hsettles
      cases hsettles.2
    · rw [hrun] at hsettles
      rw [heq]
      exact ⟨rfl, hsettles.1⟩

/-- A commit that raises nothing but errors of the store settles a `try`. -/
theorem settles_commitTx {engine : Engine δ} {c : Connection δ} (h : c.queryOnly = false)
    (hcommit : ∀ e, (commitTx engine c).2 = .error e → e.isSqlite = true) :
    Settles (commitTx engine c) := by
  refine ⟨(Conn.queryOnly_commit _ _).trans h, ?_⟩
  cases hresult : (commitTx engine c).2 with
  | ok u => exact Conn.tx_commit_of_ok hresult
  | error e => exact hcommit e hresult

private theorem settles_executeAll {engine : Engine δ} {stmts : List Statement} {c : Connection δ}
    (h : c.queryOnly = false) (htame : TameBatch engine stmts c) :
    (executeAll engine stmts c).1.queryOnly = false ∧
      match (executeAll engine stmts c).2 with
      | .ok _ => ∀ e, (commitTx engine (executeAll engine stmts c).1).2 = .error e →
          e.isSqlite = true
      | .error e => e.isSqlite = true := by
  induction stmts generalizing c with
  | nil => exact ⟨h, htame⟩
  | cons stmt stmts ih =>
      unfold TameBatch at htame
      unfold executeAll
      have hquery := Conn.queryOnly_exec (c := c) (engine.work stmt c.queryOnly c.contents)
      rcases hexec : c.exec (engine.work stmt c.queryOnly c.contents) with ⟨c', e | out⟩
      · rw [hexec] at htame hquery
        exact ⟨hquery.trans h, htame⟩
      · rw [hexec] at htame hquery
        have hrest := ih (hquery.trans h) htame
        rcases hall : executeAll engine stmts c' with ⟨c'', e | counts⟩
        · simp only [hall] at hrest ⊢
          exact hrest
        · simp only [hall] at hrest ⊢
          exact hrest

private theorem settles_executeBody {engine : Engine δ} {stmts : List Statement} {c : Connection δ}
    (h : c.queryOnly = false) (htame : TameBatch engine stmts c) :
    Settles (executeBody engine stmts c) := by
  have hall := settles_executeAll h htame
  unfold executeBody
  rcases hrun : executeAll engine stmts c with ⟨c', e | counts⟩
  · rw [hrun] at hall
    exact hall
  · rw [hrun] at hall
    have hcommit := settles_commitTx hall.1 hall.2
    simp only
    rcases hresult : commitTx engine c' with ⟨c'', e | u⟩
    · rw [hresult] at hcommit
      exact hcommit
    · rw [hresult] at hcommit
      exact hcommit

private theorem settles_migrationBody {engine : Engine δ} {pos : ℕ} {m : Migration}
    {c : Connection δ} (htame : TameScript engine pos m.name m.statements c) :
    Settles (migrationBody engine pos m c) := by
  unfold migrationBody
  generalize m.statements = statements at htame ⊢
  induction statements generalizing c with
  | nil =>
      obtain ⟨hquery, hrow⟩ := htame
      have hinsert : (insertLedger engine pos m.name c).1.queryOnly = c.queryOnly :=
        Conn.queryOnly_exec _
      simp only [runScript]
      rcases hresult : insertLedger engine pos m.name c with ⟨c', e | u⟩
      · rw [hresult] at hrow hinsert
        exact ⟨hinsert.trans hquery, hrow⟩
      · rw [hresult] at hrow hinsert
        exact settles_commitTx (hinsert.trans hquery) hrow
  | cons statement statements ih =>
      unfold TameScript at htame
      unfold runScript
      rcases hresult : engine.script statement c with ⟨c', e | u⟩
      · rw [hresult] at htame
        exact ⟨htame.2, htame.1⟩
      · rw [hresult] at htame
        exact ih htame

private theorem idle_applyAll {engine : Engine δ} {repr : String → String} {ms : List Migration}
    {pos : ℕ} {c : Connection δ} (h : c.Idle) (htame : TameAll engine repr pos ms c) :
    (applyAll engine repr pos ms c).1.Idle := by
  induction ms generalizing pos c with
  | nil => exact h
  | cons m ms ih =>
      obtain ⟨hfirst, hrest⟩ := htame
      have hidle : (applyMigration engine repr pos m c).1.Idle :=
        idle_transaction h fun c' hc' => settles_migrationBody (hfirst c' hc')
      unfold applyAll
      rcases happly : applyMigration engine repr pos m c with ⟨c', e | u⟩
      · rw [happly] at hidle
        exact hidle
      · rw [happly] at hidle
        have hall := ih hidle (hrest c' happly)
        simp only
        rcases hresult : applyAll engine repr (pos + 1) ms c' with ⟨c'', e | newly⟩
        · rw [hresult] at hall
          exact hall
        · rw [hresult] at hall
          exact hall

private theorem idle_migrate {engine : Engine δ} {repr : String → String} {ms : List Migration}
    {c : Connection δ} (h : c.Idle)
    (htame : ∀ c' c'' applied, createLedger engine c = (c', .ok ()) →
      readLedger engine c' = (c'', .ok applied) →
        TameAll engine repr applied.length (ms.drop applied.length) c'') :
    (migrate engine repr ms c).1.Idle := by
  have hexec {ρ : Type} {c : Connection δ} (h : c.Idle) (reply : Reply (Contents δ) Exc ρ) :
      (c.exec reply).1.Idle :=
    ⟨Conn.tx_exec_of_none h.1 _, (Conn.queryOnly_exec _).trans h.2⟩
  have hcreate : (createLedger engine c).1.Idle := hexec h _
  unfold migrate
  rcases hcreated : createLedger engine c with ⟨c', e | u⟩
  · rw [hcreated] at hcreate
    exact hcreate
  · rw [hcreated] at hcreate
    have hread : (readLedger engine c').1.Idle := hexec hcreate _
    simp only
    rcases hnames : readLedger engine c' with ⟨c'', e | applied⟩
    · rw [hnames] at hread
      exact hread
    · rw [hnames] at hread
      simp only
      split
      · exact hread
      · have hall := idle_applyAll hread (htame c' c'' applied hcreated hnames)
        rcases happly : applyAll engine repr applied.length (ms.drop applied.length) c'' with
          ⟨d, e | newly⟩
        · rw [happly] at hall
          exact hall
        · rw [happly] at hall
          exact hall

/-- A tame call leaves an idle connection idle. -/
theorem idle_serve {repr : String → String} {c : Connection δ} (h : c.Idle) (call : Call δ)
    (htame : call.Tame repr c) : (call.serve repr c).Idle := by
  cases call with
  | query engine stmt => exact idle_query engine stmt h
  | execute engine stmts =>
      refine idle_transaction h fun c' hc' => settles_executeBody ?_ (htame c' hc')
      have hquery := Conn.queryOnly_begin (c := c) nestedError (engine.begin c.contents)
      rw [hc'] at hquery
      exact hquery.trans h.2
  | migrate engine ms => exact idle_migrate h htame

/-- After any run of tame calls no transaction is open and `query_only` is off. -/
theorem idle_of_run {repr : String → String} {c c' : Connection δ} {calls : List (Call δ)}
    (hrun : Transition.Run ((Serves repr).within (fun c call => call.Tame repr c)) c calls c')
    (h : c.Idle) : c'.Idle := by
  refine hrun.invariant Conn.Idle h ?_
  rintro c call _ hidle ⟨htame, rfl⟩
  exact idle_serve hidle call htame

/-- The parameter fits into a column. -/
def Value.bindable : Value → Bool
  | .int n => decide (-2 ^ 63 ≤ n ∧ n < 2 ^ 63)
  | _ => true

/-- A table that every write adds its parameters to. -/
def tableEngine : Engine (List Value) where
  work stmt _ w :=
    if "INSRET".toList.isPrefixOf stmt.sql.toList then
      .failed (operational "near \"INSRET\": syntax error") w
    else if stmt.params.all fun param => param.2.bindable then
      .done { w with rest := w.rest ++ stmt.params.map Prod.snd } ⟨[], [], stmt.params.length⟩
    else .failed (.other "OverflowError" "Python int too large to convert to SQLite INTEGER") w
  script _ c := (c, .ok ())
  create _ := none
  select _ := none
  begin _ := none
  record _ := none
  commit _ := none

/-- A write of one integer. -/
def insertInt (n : ℤ) : Statement := ⟨"INSERT INTO t (n) VALUES (@n)", [("n", .int n)]⟩

/-- A connection to an empty database. -/
def emptyConnection : Connection (List Value) := ⟨⟨none, []⟩, none, false⟩

/-- A statement that the store does not know. -/
def misspelled : Statement := ⟨"INSRET INTO t (n) VALUES (1)", []⟩

/-- A batch whose second statement is refused and rolled back, another one that is committed, and a
query. -/
def threeCalls : List (Call (List Value)) :=
  [.execute tableEngine [insertInt 1, misspelled], .execute tableEngine [insertInt 2],
    .query tableEngine ⟨"SELECT n FROM t", []⟩]

/-- Only what the second call has written is there, and the connection is idle. -/
theorem idle_insertInt : ∃ c', Transition.Run
    ((Serves id).within (fun c call => Call.Tame id c call)) emptyConnection threeCalls c' ∧
      c'.db.rest = [.int 2] ∧ c'.Idle := by
  have hrefused : Call.Tame id emptyConnection
      (.execute tableEngine [insertInt 1, misspelled]) := by
    intro c' hc'
    cases hc'
    exact rfl
  have hwritten : Call.Tame id emptyConnection (.execute tableEngine [insertInt 2]) := by
    intro c' hc'
    cases hc'
    intro e he
    cases he
  have hrun : Transition.Run ((Serves id).within fun c call => Call.Tame id c call)
      emptyConnection threeCalls ⟨⟨none, [.int 2]⟩, none, false⟩ :=
    .cons ⟨hrefused, rfl⟩ (.cons ⟨hwritten, rfl⟩ (.single ⟨trivial, rfl⟩))
  exact ⟨_, hrun, rfl, idle_of_run hrun ⟨rfl, rfl⟩⟩

/-- An integer of 64 bits or more leaves the transaction open. -/
theorem not_idle_insertInt : ¬ ∀ (δ : Type) (repr : String → String) (c c' : Connection δ)
    (calls : List (Call δ)), Transition.Run (Serves repr) c calls c' → c.Idle → c'.Idle := by
  intro h
  have hrun := Transition.Run.single (R := Serves id) (s := emptyConnection)
    (e := .execute tableEngine [insertInt (2 ^ 63)]) rfl
  have hidle := h _ _ _ _ _ hrun ⟨rfl, rfl⟩
  have htx : ((Call.execute tableEngine [insertInt (2 ^ 63)]).serve id emptyConnection).tx.isSome =
      true := by decide
  rw [hidle.1] at htx
  cases htx

end Jetty.Sql
