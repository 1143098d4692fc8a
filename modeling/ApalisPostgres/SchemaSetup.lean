/-
Installing the schema.  `setup` runs the embedded migrations that the private
journal does not record, after adopting the history of a schema it recognizes;
`verify_schema` compares journal and catalog with what the crate expects.  What
the catalog queries and the migration bodies compute is a parameter: the
protocol around them does not look into it.
-/
import ApalisPostgres.Errors
import ApalisPostgres.SerialRuns

namespace ApalisPostgres

open RowStore

/-- An embedded migration, as far as `setup` reads it. -/
structure EmbeddedMigration where
  version : String
  runInTransaction : Bool
deriving Repr, DecidableEq

/-- `MIGRATIONS`, by version.  None of them has a `metadata.toml`, so all run in
a transaction. -/
def embeddedMigrations : List EmbeddedMigration :=
  ["00000000000000", "20260520000000", "20260521000000", "20260521000001",
    "20260521000002", "20260521000003", "20260521000004", "20260521000005",
    "20260521000006", "20260910000000", "20260910000001", "20260912000000",
    "20260912000001", "20260914000000"].map fun version => ⟨version, true⟩

def embeddedVersions : List String :=
  embeddedMigrations.map EmbeddedMigration.version

def baselineVersions : List String :=
  ["00000000000000", "20260521000000", "20260521000001", "20260521000002",
    "20260521000003", "20260521000004", "20260521000005", "20260521000006"]

def currentFinalAdoptVersions : List String :=
  ["00000000000000", "20260520000000", "20260521000000", "20260521000001",
    "20260521000002", "20260521000003", "20260521000004", "20260521000005",
    "20260521000006", "20260910000000", "20260910000001"]

/-- The catalog generations `setup` recognizes. -/
inductive SchemaGeneration where
  | legacy
  | releasedBaseline
  | adoptable
  | current
deriving Repr, DecidableEq

def SchemaGeneration.requiredConstraints : SchemaGeneration → Int
  | .legacy | .releasedBaseline => 0
  | .adoptable => 11
  | .current => 14

/-- What the SQL files compute over the `apalis` schema. -/
structure CatalogModel (Catalog : Type) where
  /-- some relation of the schema exists -/
  occupied : Catalog → Bool
  /-- `schema_contract.sql` with its two parameters -/
  contract : Bool → Int → Catalog → List String
  /-- the second query of `recognized_legacy` -/
  legacyShape : Catalog → Bool
  /-- the `up.sql` of a version -/
  up : String → Timestamp → Catalog → Except DieselError Catalog

/-- The private schema and its migration journal. -/
inductive OwnedSchema where
  | absent
  | unjournaled
  | journaled (versions : List String)
deriving Repr, DecidableEq

structure Installation (Catalog : Type) where
  owned : OwnedSchema
  catalog : Catalog

variable {Catalog : Type}

/-- The versions the journal records. -/
def Installation.applied (db : Installation Catalog) : List String :=
  match db.owned with
  | .journaled versions => versions
  | _ => []

inductive SetupEffect (Catalog : Type) where
  | schemaCreated
  | journalCreated
  | recorded (version : String)
  | rewritten (catalog : Catalog)

def Installation.applyEffect (db : Installation Catalog) :
    SetupEffect Catalog → Installation Catalog
  | .schemaCreated => { db with owned := .unjournaled }
  | .journalCreated => { db with owned := .journaled [] }
  | .recorded version =>
      { db with owned := .journaled (db.applied ++ [version]) }
  | .rewritten catalog => { db with catalog := catalog }

/-- The statements of `setup` and `verify_schema`.  The last three are those of
the migration harness. -/
inductive SetupStmt where
  | acquireMigrationLock
  | ownedSchemaExists
  | createOwnedSchema
  | ownedSearchPath
  | apalisOccupied
  | schemaProblems (generation : SchemaGeneration)
  | legacyShape
  | insertVersion (version : String)
  | journalExists
  | journalVersions
  | appliedMigrations
  | runMigration (version : String)

@[reducible] def SetupStmt.Result : SetupStmt → Type
  | .ownedSchemaExists | .apalisOccupied | .legacyShape | .journalExists => Bool
  | .schemaProblems _ | .journalVersions | .appliedMigrations => List String
  | .acquireMigrationLock | .createOwnedSchema | .ownedSearchPath
  | .insertVersion _ | .runMigration _ => Unit

def journalMissing : DieselError :=
  .databaseError .unknown
    "relation \"__diesel_schema_migrations\" does not exist"

def versionRecorded : DieselError :=
  .databaseError .uniqueViolation "__diesel_schema_migrations_pkey"

variable (C : CatalogModel Catalog)

/-- `schema_problems`: the contract of a generation. -/
def CatalogModel.problems (generation : SchemaGeneration) (catalog : Catalog) :
    List String :=
  C.contract (generation = .legacy) generation.requiredConstraints catalog

def SetupStmt.exec (now : Timestamp) (db : Installation Catalog) :
    (stmt : SetupStmt) →
      Except DieselError (stmt.Result × List (SetupEffect Catalog))
  | .acquireMigrationLock => .ok ((), [])
  | .ownedSchemaExists => .ok (db.owned ≠ .absent, [])
  | .createOwnedSchema =>
      if db.owned = .absent then .ok ((), [.schemaCreated])
      else .error (.databaseError .unknown
        "schema \"apalis_diesel_postgres\" already exists")
  | .ownedSearchPath => .ok ((), [])
  | .apalisOccupied => .ok (C.occupied db.catalog, [])
  | .schemaProblems generation => .ok (C.problems generation db.catalog, [])
  | .legacyShape => .ok (C.legacyShape db.catalog, [])
  | .insertVersion version =>
      match db.owned with
      | .journaled versions =>
          if version ∈ versions then .error versionRecorded
          else .ok ((), [.recorded version])
      | _ => .error journalMissing
  | .journalExists => .ok (db.owned matches .journaled _, [])
  | .journalVersions =>
      match db.owned with
      | .journaled versions => .ok (versions, [])
      | _ => .error journalMissing
  | .appliedMigrations =>
      match db.owned with
      | .absent => .error (.databaseError .unknown
          "no schema has been selected to create in")
      | .unjournaled => .ok ([], [.journalCreated])
      | .journaled versions => .ok (versions, [])
  | .runMigration version =>
      match db.owned with
      | .journaled versions => do
          let catalog ← C.up version now db.catalog
          if version ∈ versions then .error versionRecorded
          else .ok ((), [.rewritten catalog, .recorded version])
      | _ => .error journalMissing

/-- `crate::Error`, as far as installing the schema reports it. -/
inductive SetupError where
  | database (operation : String) (source : DieselError)
  | migrationFault (source : DieselError)
  | migration (message : String)
deriving Repr, DecidableEq

def acquiringLock : String := "acquiring the migration advisory lock"

/-- Only the failure of the lock is reported as a database error. -/
def SetupError.report (operation : String) (fault : DieselError) : SetupError :=
  if operation = acquiringLock then .database operation fault
  else .migrationFault fault

/-- `From<diesel::result::Error>`: a failure of the transaction itself. -/
def SetupError.ofTransaction (fault : DieselError) : SetupError :=
  .database "diesel transaction begin/commit/rollback (unlabeled — use map_err inside the closure)" fault

/-- The statements without failures of their own. -/
def installSql : StatementModel SetupStmt SetupStmt.Result
    (Installation Catalog) Timestamp (SetupEffect Catalog) DieselError
    SetupError where
  exec stmt now db := stmt.exec C now db
  apply db effects := effects.foldl Installation.applyEffect db
  report := SetupError.report
  apply_nil _ := rfl
  apply_append _ _ _ := List.foldl_append

/-- The statements of a connection on which any of them may fail. -/
abbrev setupSql : StatementModel SetupStmt SetupStmt.Result
    (Installation Catalog) (Timestamp × Option DieselError)
    (SetupEffect Catalog) DieselError SetupError :=
  (installSql C).withFaults

abbrev SetupTx := Program SetupStmt SetupStmt.Result SetupError

/-- `MigrationHarness::pending_migrations` for the embedded source: what is not
applied, in ascending order of the versions. -/
structure Harness where
  pending : List String → List String
  mem_pending : ∀ applied version, version ∈ pending applied ↔
    version ∈ embeddedVersions ∧ version ∉ applied
  pending_ascends : ∀ applied, (pending applied).Pairwise (· < ·)

/-- A statement whose failure is a migration error. -/
def migrationQuery (stmt : SetupStmt) : SetupTx stmt.Result :=
  Program.call "" stmt

def contractBroken (problems : List String) : SetupError :=
  .migration ("schema does not satisfy the runtime contract: " ++
    ", ".intercalate problems)

def verifyStructure : SetupTx Unit := do
  let problems ← migrationQuery (.schemaProblems .current)
  if problems.isEmpty then pure ()
  else .rollback (contractBroken problems)

def recognizedLegacy : SetupTx Bool := do
  let problems ← migrationQuery (.schemaProblems .legacy)
  if !problems.isEmpty then pure false
  else migrationQuery .legacyShape

/-- `for version in versions { INSERT .. }`. -/
def insertVersions : List String → SetupTx Unit
  | [] => pure ()
  | version :: rest => do
      migrationQuery (.insertVersion version)
      insertVersions rest

def schemaUnsupported (problems : List String) : SetupError :=
  .migration ("unsupported existing apalis schema; " ++
    "no migration history was adopted: " ++ ", ".intercalate problems ++
    "; restore a supported baseline or migrate explicitly (docs/upgrading.md)")

def adoptOrCheckExisting : SetupTx Unit := do
  let applied ← migrationQuery .appliedMigrations
  if !applied.isEmpty then pure ()
  else
    let occupied ← migrationQuery .apalisOccupied
    if !occupied then pure ()
    else
      let finalProblems ← migrationQuery (.schemaProblems .adoptable)
      let finalMatches := finalProblems.isEmpty
      let baselineProblems ←
        if finalMatches then pure []
        else migrationQuery (.schemaProblems .releasedBaseline)
      if finalMatches || baselineProblems.isEmpty then
        insertVersions
          (if finalMatches then currentFinalAdoptVersions else baselineVersions)
      else
        let legacy ← recognizedLegacy
        if legacy then pure ()
        else .rollback (schemaUnsupported baselineProblems)

def runMigrations : List String → SetupTx Unit
  | [] => pure ()
  | version :: rest => do
      migrationQuery (.runMigration version)
      runMigrations rest

def runPendingMigrations (harness : Harness) : SetupTx Unit := do
  let applied ← migrationQuery .appliedMigrations
  runMigrations (harness.pending applied)

def createSchemaIfAbsent : SetupTx Unit := do
  let present ← migrationQuery .ownedSchemaExists
  if !present then migrationQuery .createOwnedSchema
  else pure ()

def setup (harness : Harness) : SetupTx Unit :=
  if embeddedMigrations.any fun migration => !migration.runInTransaction then
    .rollback (.migration "setup requires transactional migrations")
  else do
    Program.call acquiringLock SetupStmt.acquireMigrationLock
    createSchemaIfAbsent
    migrationQuery .ownedSearchPath
    adoptOrCheckExisting
    runPendingMigrations harness
    verifyStructure

/-- How the server answers the statements that open and close a transaction. -/
inductive TransactionEnd where
  | served
  | beginFailed (fault : DieselError)
  /-- a COMMIT may have been carried out all the same -/
  | endFailed (fault : DieselError) (carriedOut : Bool)
deriving Repr, DecidableEq

/-- `conn.transaction` around the body of `setup`: what the caller is told and
what the installation is then. -/
def setupCall (harness : Harness) (db : Installation Catalog)
    (env : Nat → Timestamp × Option DieselError) (ended : TransactionEnd) :
    Except SetupError Unit × Installation Catalog :=
  let stop := (setup harness).execute (setupSql C) env db
  match ended, stop.outcome with
  | .beginFailed fault, _ => (.error (.ofTransaction fault), db)
  | .served, .ok () => (.ok (), stop.view)
  | .served, .error error => (.error error, db)
  | .endFailed fault carriedOut, .ok () =>
      (.error (.ofTransaction fault), if carriedOut then stop.view else db)
  | .endFailed fault _, .error _ => (.error (.ofTransaction fault), db)

def ownedJournalMissing : SetupError :=
  .migration ("owned migration journal is missing; " ++
    "call setup to migrate or adopt the schema")

def verifySchema : SetupTx Unit := do
  migrationQuery .ownedSearchPath
  let present ← migrationQuery .journalExists
  if !present then
    .rollback ownedJournalMissing
  else
    let applied ← migrationQuery .journalVersions
    if embeddedMigrations.any fun migration =>
        !applied.any fun version => version = migration.version then
      .rollback (.migration
        "embedded migrations have not been applied; call setup first")
    else verifyStructure

/-- The two operations on an installation. -/
inductive SetupOp where
  | setup
  | verifySchema
deriving Repr, DecidableEq

def setupProgram (harness : Harness) : SetupOp → SetupTx Unit
  | .setup => setup harness
  | .verifySchema => verifySchema

/-- `pg_advisory_xact_lock`, the only lock the protocol relies on. -/
def setupLocks : LockModel (setupSql C) Unit Unit where
  acquires item :=
    match item.stmt with
    | .acquireMigrationLock => [((), ())]
    | _ => []
  conflicts _ _ := true
  conflicts_comm _ _ := rfl

/-- Any number of processes install and verify one schema. -/
def setupServer (harness : Harness) (initial : Installation Catalog) :
    Machine (Server (setupSql C) SetupOp Unit)
      (ServerEvent SetupOp (Timestamp × Option DieselError) SetupError) :=
  Server.machine (setupLocks C) (setupProgram harness) initial

end ApalisPostgres
