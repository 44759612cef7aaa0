import Orangutan.Core.Json
import Orangutan.Lib.Runs

/-!
# Migrations

A caller brings a list of migrations and works through it, one transaction for each. Any
number of callers may do so on one database at once: a step below is one transaction of one
of them, or one of the two statements that come before the first transaction. The script of
a migration acts on the tables other than `schema_versions`; it may do anything to them and
may fail, and so may every statement.
-/

namespace Orangutan.Storage.Migrations

set_option autoImplicit false

open Orangutan.Core Orangutan.Core.Str

structure Migration where
  version : Int
  name : Bytes
  sql : Bytes
  deriving DecidableEq

structure MigrationReport where
  previousVersion : Int
  currentVersion : Int
  appliedVersions : List Int
  deriving DecidableEq

/-- A row of `schema_versions`; the time of the insertion is left out. -/
structure SchemaVersion where
  version : Int
  name : Bytes
  deriving DecidableEq

/-- The table of versions, when it has been created, and the other tables. -/
structure Database (D : Type) where
  schemaVersions : Option (List SchemaVersion)
  data : D

/-- The statements that may fail by themselves. -/
inductive SqlStep
  | createTable
  | readVersions
  | begin
  | recordedName
  | script
  | record
  | commit

abbrev Faults := SqlStep → Option Error

def execute (fault : Faults) (step : SqlStep) : Result Unit :=
  match fault step with
  | some e => .error e
  | none => .ok ()

def attachMigrationContext (error : Error) (migration : Migration) : Error :=
  (error.note "migration_version" (signedDecimal migration.version)).note "migration_name"
    migration.name

def attach {α : Type} (migration : Migration) : Result α → Result α :=
  Except.mapError (attachMigrationContext · migration)

/-- The list from an expected version on. -/
def validateMigrationsFrom (expectedVersion : Int) : List Migration → Result Unit
  | [] => .ok ()
  | migration :: rest =>
    if migration.version ≤ 0 then
      .error ((Error.invalidArgument "migration version must be positive").note "migration_version"
        (signedDecimal migration.version))
    else if migration.version ≠ expectedVersion then
      .error
        (((Error.invalidArgument "migration versions must be contiguous from 1").note
        "expected_version"
        (signedDecimal expectedVersion)).note "actual_version" (signedDecimal migration.version))
    else if migration.name = [] then
      .error ((Error.invalidArgument "migration name must not be empty").note "migration_version"
        (signedDecimal migration.version))
    else if migration.sql = [] then
      .error (((Error.invalidArgument "migration sql must not be empty").note "migration_version"
        (signedDecimal migration.version)).note "migration_name" migration.name)
    else validateMigrationsFrom (expectedVersion + 1) rest

def validateMigrationList (migrations : List Migration) : Result Unit :=
    validateMigrationsFrom 1 migrations

section Statements

variable {D : Type}

/-- `CREATE TABLE IF NOT EXISTS`. -/
def createSchemaVersions (fault : Faults) (db : Database D) : Result (Database D) := do
  execute fault .createTable
  .ok { db with schemaVersions := some (db.schemaVersions.getD []) }

def missingTable : Error := .storage "sqlite prepare failed"

/-- The versions of the table, in their order. -/
def readAppliedVersions (fault : Faults) (db : Database D) : Result (List Int) := do
  execute fault .readVersions
  match db.schemaVersions with
  | none => .error missingTable
  | some rows => .ok ((rows.map (·.version)).mergeSort (· ≤ ·))

/-- The comparison of stored versions with those expected from a number on. -/
def checkContiguous (expectedVersion : Int) : List Int → Result Unit
  | [] => .ok ()
  | version :: rest =>
    if version ≠ expectedVersion then
      .error (((Error.of .conflict "schema_versions is not contiguous").note "expected_version"
        (signedDecimal expectedVersion)).note "actual_version" (signedDecimal version))
    else checkContiguous (expectedVersion + 1) rest

def newerError (currentVersion : Int) (migrationCount : Nat) : Error :=
  ((Error.of .conflict "database schema is newer than migration set").note "current_version"
    (signedDecimal currentVersion)).note "migration_count" (decimal migrationCount)

def validateAppliedVersions (versions : List Int) (migrationCount : Nat) : Result Int := do
  checkContiguous 1 versions
  let currentVersion := versions.getLastD 0
  if currentVersion > migrationCount then .error (newerError currentVersion migrationCount)
  else .ok currentVersion

def recordedMigrationName (fault : Faults) (db : Database D) (version : Int) :
    Result (Option Bytes) := do
  execute fault .recordedName
  match db.schemaVersions with
  | none => .error missingTable
  | some rows => .ok ((rows.find? (·.version = version)).map (·.name))

/-- The version is the primary key. -/
def recordMigration (fault : Faults) (db : Database D) (migration : Migration) :
    Result (Database D) := do
  execute fault .record
  match db.schemaVersions with
  | none => .error missingTable
  | some rows =>
    if rows.any (·.version = migration.version)
      then .error (.storage "sqlite statement step failed")
    else .ok { db with schemaVersions := some (rows ++ [⟨migration.version, migration.name⟩]) }

/-- The effect of a migration's SQL. -/
abbrev Script (D : Type) := Bytes → D → Result D

def runScript (script : Script D) (fault : Faults) (db : Database D) (sql : Bytes) :
    Result (Database D) := do
  execute fault .script
  let data ← script sql db.data
  .ok { db with data }

/-- The transaction, on its own copy of the tables. It says whether it applied the migration. -/
def applyMigration (script : Script D) (fault : Faults) (migration : Migration)
    (migrationCount : Nat) (db : Database D) : Result (Bool × Database D) := do
  attach migration (execute fault .begin)
  let appliedVersions ← attach migration (readAppliedVersions fault db)
  let _ ← attach migration (validateAppliedVersions appliedVersions migrationCount)
  let recordedName ← attach migration (recordedMigrationName fault db migration.version)
  match recordedName with
  | some name =>
    if name ≠ migration.name then
      attach migration (.error
        ((Error.of .conflict "migration version was applied with a different name").note
        "recorded_name" name))
    else do
      attach migration (execute fault .commit)
      .ok (false, db)
  | none => do
    let db ← attach migration (runScript script fault db migration.sql)
    let db ← attach migration (recordMigration fault db migration)
    attach migration (execute fault .commit)
    .ok (true, db)

end Statements

/-- Where a call of `run_migrations` stands. -/
inductive Phase
  | waiting
  | created
  | running (rest : List Migration) (report : MigrationReport)
  | done (outcome : Result MigrationReport)

structure Runner where
  migrations : List Migration
  phase : Phase := .waiting

section Runs

variable {D : Type}

/-- What a step of one call leaves, with the migration it applied. -/
structure Move (D : Type) where
  phase : Phase
  db : Database D
  applied : Option Migration := none

/-- The next part of `run_migrations`, up to the end of a statement or a transaction. -/
def runMigrations (script : Script D) (fault : Faults) (migrations : List Migration)
    (db : Database D) :
    Phase → Move D
  | .waiting =>
    match (do validateMigrationList migrations; createSchemaVersions fault db :
      Result (Database D)) with
    | .error e => ⟨.done (.error e), db, none⟩
    | .ok db => ⟨.created, db, none⟩
  | .created =>
    match (do validateAppliedVersions (← readAppliedVersions fault db) migrations.length :
      Result Int) with
    | .error e => ⟨.done (.error e), db, none⟩
    | .ok currentVersion =>
      ⟨.running migrations
        { previousVersion := currentVersion, currentVersion, appliedVersions := [] }, db, none⟩
  | .running [] report => ⟨.done (.ok report), db, none⟩
  | .running (migration :: rest) report =>
    if migration.version ≤ report.currentVersion then ⟨.running rest report, db, none⟩
    else
      match applyMigration script fault migration migrations.length db with
      | .error e => ⟨.done (.error e), db, none⟩
      | .ok (false, db) => ⟨.running rest { report with currentVersion := migration.version }, db,
          none⟩
      | .ok (true, db) =>
        ⟨.running rest { report with
          currentVersion := migration.version
          appliedVersions := report.appliedVersions ++ [migration.version] }, db, some migration⟩
  | .done outcome => ⟨.done outcome, db, none⟩

/-- One database with its callers, and who applied what since the start. -/
structure System (D : Type) where
  db : Database D
  runners : List Runner
  log : List (Nat × Migration) := []

namespace System

/-- A database without migrations. -/
def start (lists : List (List Migration)) (data : D) : System D where
  db := { schemaVersions := none, data }
  runners := lists.map fun migrations => { migrations }

def step (script : Script D) (s : System D) (i : Nat) (fault : Faults) : System D :=
  match s.runners[i]? with
  | none => s
  | some runner =>
    let move := runMigrations script fault runner.migrations s.db runner.phase
    { db := move.db
      runners := s.runners.set i { runner with phase := move.phase }
      log := s.log ++ (move.applied.map (i, ·)).toList }

/-- A schedule says whose turn it is and which statements fail in it. -/
def run (script : Script D) (s : System D) (schedule : List (Nat × Faults)) : System D :=
  schedule.foldl (fun s turn => s.step script turn.1 turn.2) s

/-- The rows of `schema_versions`. -/
def rows (s : System D) : List SchemaVersion := s.db.schemaVersions.getD []

/-- The versions that one caller applied. -/
def appliedBy (s : System D) (i : Nat) : List Int := (s.log.filter (·.1 = i)).map (·.2.version)

end System

end Runs

/-- The versions from 1 to a number. -/
def versionsTo (k : Nat) : List Int := (List.range' 1 k).map fun (v : Nat) => (v : Int)

theorem versionsTo_succ (k : Nat) : versionsTo (k + 1) = versionsTo k ++ [(k : Int) + 1] := by
  rw [versionsTo, List.range'_concat, List.map_append]
  simp [versionsTo]
  omega

theorem mem_versionsTo {k : Nat} {v : Int} : v ∈ versionsTo k ↔ 1 ≤ v ∧ v ≤ k := by
  rw [versionsTo, List.mem_map]
  constructor
  · rintro ⟨n, hn, rfl⟩
    have h := List.mem_range'_1.mp hn
    omega
  · rintro ⟨h1, hk⟩
    refine ⟨v.toNat, List.mem_range'_1.mpr ?_, ?_⟩ <;> omega

theorem versionsTo_nodup (k : Nat) : (versionsTo k).Nodup :=
  List.Nodup.map (fun a b h => by simpa using h) List.nodup_range'

theorem versionsTo_sorted (k : Nat) :
    (versionsTo k).Pairwise (fun a b => decide (a ≤ b) = true) := by
  rw [versionsTo, List.pairwise_map]
  refine List.Pairwise.imp ?_ (List.pairwise_lt_range' (s := 1) (n := k))
  intro a b hab
  rw [decide_eq_true_eq]
  omega

theorem versionsTo_last (k : Nat) : (versionsTo k).getLastD 0 = k := by
  cases k with
  | zero => rfl
  | succ k => rw [versionsTo_succ, List.getLastD_concat]; omega

theorem checkContiguous_range' (first count : Nat) :
    checkContiguous first ((List.range' first count).map fun (v : Nat) => (v : Int)) = .ok () := by
  induction count generalizing first with
  | zero => rfl
  | succ count ih =>
    rw [List.range'_succ, List.map_cons, checkContiguous, if_neg (by simp)]
    exact_mod_cast ih (first + 1)

theorem validateAppliedVersions_versionsTo (k n : Nat) :
    validateAppliedVersions (versionsTo k) n = if n < k then .error (newerError k n)
      else .ok (k : Int) := by
  have hcheck : checkContiguous 1 (versionsTo k) = .ok () := by
    exact_mod_cast checkContiguous_range' 1 k
  rw [validateAppliedVersions, hcheck]
  show (if (versionsTo k).getLastD 0 > (n : Int) then _ else _) = _
  rw [versionsTo_last]
  by_cases h : n < k
  · rw [if_pos h, if_pos (by omega)]
  · rw [if_neg h, if_neg (by omega)]

theorem validateMigrationsFrom_version {expected : Int} {before after : List Migration}
    {m : Migration} (h : validateMigrationsFrom expected (before ++ m :: after) = .ok ()) :
    m.version = expected + before.length := by
  induction before generalizing expected with
  | nil =>
    rw [List.nil_append, validateMigrationsFrom] at h
    split at h
    · cases h
    · split at h
      · cases h
      · next hne => simpa using hne
  | cons first before ih =>
    rw [List.cons_append, validateMigrationsFrom] at h
    iterate 4
      split at h
      · cases h
    have hm := ih h
    rw [hm, List.length_cons]
    push_cast
    omega

theorem validateMigrationList_version {migrations before after : List Migration} {m : Migration}
    (h : validateMigrationList migrations = .ok ()) (hm : migrations = before ++ m :: after) :
    m.version = before.length + 1 := by
  rw [hm] at h
  have := validateMigrationsFrom_version h
  omega

section Transaction

variable {D : Type}

theorem attach_ok {α : Type} (m : Migration) (a : α) : attach m (.ok a) = .ok a := rfl

theorem attach_error {α : Type} (m : Migration) (e : Error) :
    attach m (.error e : Result α) = .error (attachMigrationContext e m) := rfl

/-- The table holds the versions from 1 to a number. -/
structure Holds (db : Database D) (rows : List SchemaVersion) : Prop where
  table : db.schemaVersions = some rows
  versions : rows.map (·.version) = versionsTo rows.length

/-- What may stop a call outside the scripts: a statement that fails, or more versions in the
database. -/
def Refused (fault : Faults) (count : Nat) (rows : List SchemaVersion) (e : Error) : Prop :=
  (∃ step, fault step = some e) ∨ (count < rows.length ∧ e = newerError rows.length count)

theorem execute_cases (fault : Faults) (step : SqlStep) :
    execute fault step = .ok () ∨ ∃ e, fault step = some e ∧ execute fault step = .error e := by
  rw [execute]
  cases h : fault step with
  | none => exact .inl rfl
  | some e => exact .inr ⟨e, rfl, rfl⟩

theorem readAppliedVersions_cases (fault : Faults) {db : Database D} {rows : List SchemaVersion}
    (h : Holds db rows) :
    readAppliedVersions fault db = .ok (versionsTo rows.length) ∨
      ∃ e, fault .readVersions = some e ∧ readAppliedVersions fault db = .error e := by
  rw [readAppliedVersions]
  rcases execute_cases fault .readVersions with hx | ⟨e, he, hx⟩
  · left
    rw [hx, ok_bind, h.table]
    show Except.ok ((rows.map (·.version)).mergeSort _) = _
    rw [h.versions, List.mergeSort_of_pairwise (versionsTo_sorted rows.length)]
  · rw [hx, error_bind]
    exact .inr ⟨e, he, rfl⟩

theorem recordedMigrationName_cases (fault : Faults) {db : Database D} {rows : List SchemaVersion}
    {m : Migration} (h : Holds db rows) (hnames : ∀ row ∈ rows, row.version = m.version →
    row.name = m.name) (hpositive : 1 ≤ m.version) :
    (m.version ≤ rows.length ∧ recordedMigrationName fault db m.version = .ok (some m.name)) ∨
      ((rows.length : Int) < m.version ∧ recordedMigrationName fault db m.version = .ok none) ∨
      ∃ e, fault .recordedName = some e ∧ recordedMigrationName fault db m.version = .error e := by
  rw [recordedMigrationName]
  rcases execute_cases fault .recordedName with hx | ⟨e, he, hx⟩
  · rw [hx, ok_bind, h.table]
    have hmem : m.version ∈ rows.map (·.version) ↔ 1 ≤ m.version ∧ m.version ≤ rows.length := by
      rw [h.versions, mem_versionsTo]
    cases hfind : rows.find? (·.version = m.version) with
    | some row =>
      have hversion : row.version = m.version := by simpa using List.find?_some hfind
      have hrow := List.mem_of_find?_eq_some hfind
      have hle := (hmem.mp (hversion ▸ List.mem_map_of_mem hrow)).2
      refine .inl ⟨hle, ?_⟩
      show Except.ok ((rows.find? (·.version = m.version)).map (·.name)) = _
      rw [hfind, Option.map_some, hnames row hrow hversion]
    | none =>
      refine .inr (.inl ⟨?_, ?_⟩)
      · by_contra hle
        obtain ⟨row, hrow, hversion⟩ := List.mem_map.mp (hmem.mpr ⟨hpositive, by omega⟩)
        simpa [hversion] using List.find?_eq_none.mp hfind row hrow
      · show Except.ok ((rows.find? (·.version = m.version)).map (·.name)) = _
        rw [hfind]
        rfl
  · rw [hx, error_bind]
    exact .inr (.inr ⟨e, he, rfl⟩)

/-- A call of a migration's transaction, when the versions before it are there. -/
theorem applyMigration_cases (script : Script D) (fault : Faults) {db : Database D}
    {rows : List SchemaVersion} {m : Migration} (count : Nat) (h : Holds db rows)
    (hnames : ∀ row ∈ rows, row.version = m.version → row.name = m.name) (hpositive : 1 ≤ m.version)
    (hnext : m.version ≤ rows.length + 1) :
    (m.version ≤ rows.length ∧ applyMigration script fault m count db = .ok (false, db)) ∨
      (m.version = rows.length + 1 ∧ ∃ data, script m.sql db.data = .ok data ∧
        applyMigration script fault m count db =
          .ok (true, ⟨some (rows ++ [⟨m.version, m.name⟩]), data⟩)) ∨
      ∃ e, (Refused fault count rows e ∨ script m.sql db.data = .error e) ∧
        applyMigration script fault m count db = .error (attachMigrationContext e m) := by
  have stops : ∀ {step : SqlStep} {e : Error}, fault step = some e →
      Refused fault count rows e ∨ script m.sql db.data = .error e := fun he => .inl (.inl ⟨_, he⟩)
  rw [applyMigration]
  rcases execute_cases fault .begin with hx | ⟨e, he, hx⟩
  swap
  · rw [hx]
    exact .inr (.inr ⟨e, stops he, rfl⟩)
  rw [hx, attach_ok, ok_bind]
  rcases readAppliedVersions_cases fault h with hx | ⟨e, he, hx⟩
  swap
  · rw [hx]
    exact .inr (.inr ⟨e, stops he, rfl⟩)
  rw [hx, attach_ok, ok_bind, validateAppliedVersions_versionsTo]
  by_cases hnewer : count < rows.length
  · rw [if_pos hnewer]
    exact .inr (.inr ⟨_, .inl (.inr ⟨hnewer, rfl⟩), rfl⟩)
  rw [if_neg hnewer, attach_ok, ok_bind]
  rcases recordedMigrationName_cases fault h hnames hpositive with ⟨hle, hx⟩ | ⟨hlt,
    hx⟩ | ⟨e, he, hx⟩
  · -- another caller was first
    rw [hx, attach_ok, ok_bind]
    dsimp only
    rw [if_neg (fun hne => hne rfl)]
    rcases execute_cases fault .commit with hx | ⟨e, he, hx⟩
    · rw [hx]
      exact .inl ⟨hle, rfl⟩
    · rw [hx]
      exact .inr (.inr ⟨e, stops he, rfl⟩)
  · rw [hx, attach_ok, ok_bind]
    dsimp only
    rw [runScript]
    rcases execute_cases fault .script with hx | ⟨e, he, hx⟩
    swap
    · rw [hx]
      exact .inr (.inr ⟨e, stops he, rfl⟩)
    rw [hx, ok_bind]
    cases hscript : script m.sql db.data with
    | error e => exact .inr (.inr ⟨e, .inr rfl, rfl⟩)
    | ok data =>
      rw [ok_bind, attach_ok, ok_bind, recordMigration]
      rcases execute_cases fault .record with hx | ⟨e, he, hx⟩
      swap
      · rw [hx]
        exact .inr (.inr ⟨e, .inl (.inl ⟨_, he⟩), rfl⟩)
      have hfresh : ¬ rows.any (·.version = m.version) = true := by
        intro hany
        obtain ⟨row, hrow, hversion⟩ := List.any_eq_true.mp hany
        have hmem : row.version ∈ rows.map (·.version) := List.mem_map_of_mem hrow
        rw [h.versions, mem_versionsTo] at hmem
        have hversion : row.version = m.version := by simpa using hversion
        omega
      rw [hx, ok_bind]
      dsimp only
      rw [h.table]
      dsimp only
      rw [if_neg hfresh, attach_ok, ok_bind]
      rcases execute_cases fault .commit with hx | ⟨e, he, hx⟩
      · rw [hx]
        exact .inr (.inl ⟨by omega, data, rfl, rfl⟩)
      · rw [hx]
        exact .inr (.inr ⟨e, .inl (.inl ⟨_, he⟩), rfl⟩)
  · rw [hx]
    exact .inr (.inr ⟨e, stops he, rfl⟩)

end Transaction

/-- Lists that agree on every version they share. -/
def Compatible (lists : List (List Migration)) : Prop :=
  ∀ l ∈ lists, ∀ l' ∈ lists, ∀ m ∈ l, ∀ m' ∈ l', m.version = m'.version → m.name = m'.name ∧
    m.sql = m'.sql

def Migration.row (m : Migration) : SchemaVersion := ⟨m.version, m.name⟩

/-- Where a call can stand when so many versions are there and it applied those of a list itself. -/
def Standing (table : Bool) (count : Nat) (own : List Int) (r : Runner) : Prop :=
  match r.phase with
  | .waiting => own = []
  | .created => validateMigrationList r.migrations = .ok () ∧ table = true ∧ own = []
  | .running rest report =>
    validateMigrationList r.migrations = .ok () ∧ table = true ∧ report.appliedVersions = own ∧
      report.currentVersion ≤ count ∧ report.currentVersion ≤ r.migrations.length ∧
      ∃ before, r.migrations = before ++ rest ∧ (before.length : Int) ≤ report.currentVersion
  | .done (.ok report) =>
    report.appliedVersions = own ∧ report.currentVersion = r.migrations.length ∧
      r.migrations.length ≤ count
  | .done (.error _) => True

theorem Standing.mono {table table' : Bool} {count count' : Nat} {own : List Int} {r : Runner}
    (h : Standing table count own r) (htable : table = true →
      table' = true) (hcount : count ≤ count') :
    Standing table' count' own r := by
  unfold Standing at h ⊢
  split at h
  · exact h
  · exact ⟨h.1, htable h.2.1, h.2.2⟩
  · obtain ⟨hvalid, ht, hown, hcurrent, hlist⟩ := h
    exact ⟨hvalid, htable ht, hown, by omega, hlist⟩
  · exact ⟨h.1, h.2.1, h.2.2.trans hcount⟩
  · trivial

section Moves

variable {D : Type}

/-- Why a call may end with an error. -/
inductive Failure (script : Script D) (fault : Faults) (migrations : List Migration)
    (rows : List SchemaVersion) (data : D) : Error → Prop
  | invalid {e : Error} (h : validateMigrationList migrations = .error e) :
      Failure script fault migrations rows data e
  | outside {e : Error} (h : Refused fault migrations.length rows e) :
      Failure script fault migrations rows data e
  | inside {m : Migration} {e : Error} (hm : m ∈ migrations)
      (h : Refused fault migrations.length rows e ∨ script m.sql data = .error e) :
      Failure script fault migrations rows data (attachMigrationContext e m)

/-- What a step of a call may leave: nothing but the table changes, it fails, or it applies
the next version. -/
inductive Moved (script : Script D) (fault : Faults) (r : Runner) (rows : List SchemaVersion)
    (own : List Int) (db : Database D) : Move D → Prop
  | kept {phase : Phase} {db' : Database D} (hrows : db'.schemaVersions.getD [] = rows)
      (hdata : db'.data = db.data)
      (htable : db.schemaVersions.isSome = true → db'.schemaVersions.isSome = true)
      (hphase : ∀ e, phase = .done (.error e) → r.phase = phase)
      (h : Standing db'.schemaVersions.isSome rows.length own { r with phase }) :
      Moved script fault r rows own db ⟨phase, db', none⟩
  | failed {e : Error} (h : Failure script fault r.migrations rows db.data e) :
      Moved script fault r rows own db ⟨.done (.error e), db, none⟩
  | applied {m : Migration} {data : D} {phase : Phase} (hm : m ∈ r.migrations)
      (hversion : m.version = rows.length + 1)
      (hlist : rows.length + 1 ≤ r.migrations.length) (hscript : script m.sql db.data = .ok data)
      (hphase : ∀ e, phase ≠ .done (.error e))
      (h : Standing true (rows.length + 1) (own ++ [m.version]) { r with phase }) :
      Moved script fault r rows own db ⟨phase, ⟨some (rows ++ [m.row]), data⟩, some m⟩

theorem runMigrations_moved (script : Script D) (fault : Faults) {r : Runner}
    {rows : List SchemaVersion} {own : List Int} {db : Database D}
    (hrows : db.schemaVersions.getD [] = rows)
    (hversions : rows.map (·.version) = versionsTo rows.length)
    (hnames : ∀ m ∈ r.migrations, ∀ row ∈ rows, row.version = m.version → row.name = m.name)
    (hr : Standing db.schemaVersions.isSome rows.length own r) :
    Moved script fault r rows own db (runMigrations script fault r.migrations db r.phase) := by
  have holds : db.schemaVersions.isSome = true → Holds db rows := by
    intro hsome
    obtain ⟨stored, hstored⟩ := Option.isSome_iff_exists.mp hsome
    rw [hstored, Option.getD_some] at hrows
    exact ⟨hrows ▸ hstored, hversions⟩
  unfold Standing at hr
  split at hr
  · next hphase =>
    rw [hphase, runMigrations]
    cases hvalid : validateMigrationList r.migrations with
    | error e =>
      rw [error_bind]
      exact .failed (.invalid hvalid)
    | ok u =>
      rw [ok_bind, createSchemaVersions]
      rcases execute_cases fault .createTable with hx | ⟨e, he, hx⟩
      · rw [hx, ok_bind]
        exact .kept hrows rfl (fun _ => rfl) (fun e he => by cases he) ⟨hvalid, rfl, hr⟩
      · rw [hx, error_bind]
        exact .failed (.outside (.inl ⟨_, he⟩))
  · next hphase =>
    obtain ⟨hvalid, hsome, hown⟩ := hr
    rw [hphase, runMigrations]
    rcases readAppliedVersions_cases fault (holds hsome) with hx | ⟨e, he, hx⟩
    swap
    · rw [hx, error_bind]
      exact .failed (.outside (.inl ⟨_, he⟩))
    rw [hx, ok_bind, validateAppliedVersions_versionsTo]
    by_cases hnewer : r.migrations.length < rows.length
    · rw [if_pos hnewer]
      exact .failed (.outside (.inr ⟨hnewer, rfl⟩))
    · rw [if_neg hnewer]
      refine .kept hrows rfl id (fun e he => by cases he) ⟨hvalid, hsome, hown.symm, le_refl _, ?_,
        [], rfl, ?_⟩
      · show (rows.length : Int) ≤ r.migrations.length
        omega
      · show (0 : Int) ≤ rows.length
        omega
  · next rest report hphase =>
    obtain ⟨hvalid, hsome, hown, hcurrent, hlist, before, hsplit, hbefore⟩ := hr
    rw [hphase]
    cases rest with
    | nil =>
      rw [List.append_nil] at hsplit
      rw [runMigrations]
      refine .kept hrows rfl id (fun e he => by cases he) ⟨hown, ?_, ?_⟩
      · rw [hsplit] at hlist ⊢
        omega
      · rw [hsplit] at hlist ⊢
        omega
    | cons m rest =>
      have hm : m ∈ r.migrations := hsplit ▸ List.mem_append_right _ List.mem_cons_self
      have hversion := validateMigrationList_version hvalid hsplit
      have hlength : before.length + 1 ≤ r.migrations.length := by
        rw [hsplit, List.length_append, List.length_cons]
        omega
      have hnextSplit : r.migrations = (before ++ [m]) ++ rest := by
        rw [hsplit, List.append_assoc]; rfl
      have hnextLength : ((before ++ [m]).length : Int) = m.version := by
        rw [List.length_append, List.length_singleton, hversion]
        push_cast
        rfl
      have hinside : m.version ≤ (r.migrations.length : Int) := by omega
      rw [runMigrations]
      by_cases hskip : m.version ≤ report.currentVersion
      · rw [if_pos hskip]
        exact .kept hrows rfl id (fun e he => by cases he)
          ⟨hvalid, hsome, hown, hcurrent, hlist, before ++ [m], hnextSplit,
            hnextLength.le.trans hskip⟩
      rw [if_neg hskip]
      rcases applyMigration_cases script fault r.migrations.length (holds hsome) (hnames m hm)
        (by omega) (by omega) with ⟨hle, hx⟩ | ⟨heq, data, hscript, hx⟩ | ⟨e, he, hx⟩
      · rw [hx]
        exact .kept hrows rfl id (fun e he => by cases he)
          ⟨hvalid, hsome, hown, hle, hinside, before ++ [m], hnextSplit, hnextLength.le⟩
      · rw [hx]
        refine .applied hm heq (by omega) hscript (fun e he => by cases he)
          ⟨hvalid, rfl, by rw [hown], ?_, hinside, before ++ [m], hnextSplit, hnextLength.le⟩
        show m.version ≤ ((rows.length + 1 : Nat) : Int)
        omega
      · rw [hx]
        exact .failed (.inside hm he)
  · next report hphase =>
    rw [hphase, runMigrations]
    exact .kept hrows rfl id (fun e he => by cases he) hr
  · next e hphase =>
    rw [hphase, runMigrations]
    exact .kept hrows rfl id (fun e he => hphase.trans rfl) trivial

end Moves

end Orangutan.Storage.Migrations
