/-
The `apalis` schema: the rows of `apalis.jobs` and `apalis.workers`, the
database made of them, and the constraints every statement is checked
against before its effect is visible to anyone.
-/
import ApalisPostgres.Binary64
import ApalisPostgres.KeyedTable
import Mathlib.Data.Int.Notation
import Mathlib.Algebra.Order.Group.Int

namespace ApalisPostgres

open RowStore

/-- Microseconds since the Unix epoch, the resolution of `timestamptz`. -/
abbrev Timestamp := Int

/-- A Rust `Duration`, in nanoseconds. -/
abbrev Duration := Nat

def microsPerSecond : Int := 1000000

/-- `date_trunc('second', t)`. -/
def truncSecond (t : Timestamp) : Timestamp :=
  t / microsPerSecond * microsPerSecond

/-- `to_timestamp(seconds)` for a whole number of seconds. -/
def toTimestamp (seconds : Int) : Timestamp :=
  seconds * microsPerSecond

/-- A chrono timestamp read back in Unix seconds. -/
def unixSeconds (t : Timestamp) : Int :=
  t / microsPerSecond

theorem unixSeconds_toTimestamp (seconds : Int) :
    unixSeconds (toTimestamp seconds) = seconds := by
  unfold unixSeconds toTimestamp microsPerSecond
  omega

/-- `Duration::as_secs_f64`: the seconds and the nanoseconds are converted
apart and then added. -/
@[irreducible] def asSecsF64 (window : Duration) : Nat :=
  Binary64.round
    (Binary64.round (window / 1000000000 * Binary64.one) 1 +
      Binary64.round (window % 1000000000 * Binary64.one) 1000000000) 1

/-- `EXTRACT(EPOCH FROM ...)` of some microseconds, as a double. -/
@[irreducible] def epochF64 (micros : Nat) : Nat :=
  Binary64.round (micros * Binary64.one) 1000000

/-- `EXTRACT(EPOCH FROM (now - last_seen)) >= window`.  The window is bound as
a double, so the elapsed time is compared as one; a window of whole seconds is
thereby compared exactly. -/
def elapsedAtLeast (window : Duration) (now lastSeen : Timestamp) : Bool :=
  decide (lastSeen ≤ now) &&
    decide (asSecsF64 window ≤ epochF64 (now - lastSeen).toNat)

/-- A `jsonb` value. -/
inductive Json where
  | null
  | bool (value : Bool)
  | num (value : Int)
  | str (text : String)
  | arr (items : List Json)
  | obj (fields : List (String × Json))

/-- serde's externally tagged `Err` of a `Result<O, String>`. -/
def errResult (message : String) : Json := .obj [("Err", .str message)]

/-- serde's externally tagged `Ok` of a `Result<O, String>`. -/
def okResult (value : Json) : Json := .obj [("Ok", value)]

/-- `jobs_status_check`: the six statuses. -/
inductive Status where
  | pending
  | queued
  | running
  | done
  | failed
  | killed
deriving Repr, DecidableEq

/-- A row of `apalis.jobs`. -/
structure JobRow where
  job : List UInt8
  id : String
  jobType : String
  status : Status
  attempts : Int
  maxAttempts : Int
  runAt : Timestamp
  lastResult : Option Json
  lockAt : Option Timestamp
  lockBy : Option String
  doneAt : Option Timestamp
  priority : Int
  metadata : Option Json
  idempotencyKey : Option String

/-- A row of `apalis.workers`. -/
structure WorkerRow where
  id : String
  workerType : String
  storageName : String
  layers : String
  lastSeen : Timestamp
  startedAt : Option Timestamp
  leaseToken : Option String
deriving DecidableEq

/-- The primary key `(id, worker_type)`. -/
def WorkerRow.key (row : WorkerRow) : String × String :=
  (row.id, row.workerType)

/-- Claimed and not finished: `status IN ('Queued', 'Running')`. -/
def JobRow.active (row : JobRow) : Bool :=
  row.status = .queued || row.status = .running

theorem JobRow.active_iff (row : JobRow) :
    row.active = true ↔ row.status = .queued ∨ row.status = .running := by
  simp [JobRow.active]

/-- Why a worker's active claims are handed back to the queue. -/
inductive Recovery where
  | staleSweep
  | takeover
  | release
deriving Repr, DecidableEq

/-- The statement kinds that write a row of `apalis.jobs`. -/
inductive JobEdge where
  | enqueue
  | pollClaim
  | notifyClaim
  | compatibilityClaim
  | start
  | lock
  | acknowledge
  | undecodable
  | quarantine
  | recovery (reason : Recovery)
  | purge
deriving Repr, DecidableEq

/-- The statement kinds that write a row of `apalis.workers`. -/
inductive WorkerEdge where
  | register
  | heartbeat
  | release
  | admin
  | prune
deriving Repr, DecidableEq

abbrev JobChange := RowChange String JobRow JobEdge

abbrev WorkerChange := RowChange (String × String) WorkerRow WorkerEdge

abbrev JobTable := Table String JobRow JobRow.id

abbrev WorkerTable := Table (String × String) WorkerRow WorkerRow.key

structure Db where
  jobs : JobTable
  workers : WorkerTable

/-- A freshly migrated schema. -/
def Db.empty : Db := ⟨∅, ∅⟩

/-- One written row. -/
inductive Effect where
  | job (change : JobChange)
  | worker (change : WorkerChange)

def Db.applyEffect (db : Db) : Effect → Db
  | .job change => { db with jobs := db.jobs.applyChange change }
  | .worker change => { db with workers := db.workers.applyChange change }

def Db.apply (db : Db) (effects : List Effect) : Db :=
  effects.foldl Db.applyEffect db

def Effect.jobChange? : Effect → Option JobChange
  | .job change => some change
  | .worker _ => none

def Effect.workerChange? : Effect → Option WorkerChange
  | .job _ => none
  | .worker change => some change

/-- The job rows among the effects of a transaction. -/
def jobChanges (effects : List Effect) : List JobChange :=
  effects.filterMap Effect.jobChange?

/-- The registrations among the effects of a transaction. -/
def workerChanges (effects : List Effect) : List WorkerChange :=
  effects.filterMap Effect.workerChange?

theorem Db.apply_jobs (db : Db) (effects : List Effect) :
    (db.apply effects).jobs = db.jobs.applyChanges (jobChanges effects) := by
  induction effects generalizing db with
  | nil => rfl
  | cons effect effects ih =>
      cases effect with
      | job change => exact ih _
      | worker change => exact ih _

theorem Db.apply_workers (db : Db) (effects : List Effect) :
    (db.apply effects).workers =
      db.workers.applyChanges (workerChanges effects) := by
  induction effects generalizing db with
  | nil => rfl
  | cons effect effects ih =>
      cases effect with
      | job change => exact ih _
      | worker change => exact ih _

@[simp] theorem jobChanges_map_job (changes : List JobChange) :
    jobChanges (changes.map Effect.job) = changes := by
  simp [jobChanges, List.filterMap_map, Function.comp_def, Effect.jobChange?]

@[simp] theorem jobChanges_map_worker (changes : List WorkerChange) :
    jobChanges (changes.map Effect.worker) = [] := by
  simp [jobChanges, List.filterMap_map, Function.comp_def, Effect.jobChange?]

@[simp] theorem workerChanges_map_worker (changes : List WorkerChange) :
    workerChanges (changes.map Effect.worker) = changes := by
  simp [workerChanges, List.filterMap_map, Function.comp_def,
    Effect.workerChange?]

@[simp] theorem workerChanges_map_job (changes : List JobChange) :
    workerChanges (changes.map Effect.job) = [] := by
  simp [workerChanges, List.filterMap_map, Function.comp_def,
    Effect.workerChange?]

@[simp] theorem jobChanges_nil : jobChanges [] = [] := rfl

@[simp] theorem workerChanges_nil : workerChanges [] = [] := rfl

@[simp] theorem jobChanges_append (first second : List Effect) :
    jobChanges (first ++ second) = jobChanges first ++ jobChanges second := by
  simp [jobChanges]

@[simp] theorem workerChanges_append (first second : List Effect) :
    workerChanges (first ++ second) =
      workerChanges first ++ workerChanges second := by
  simp [workerChanges]

/-- The schema's named constraints, and the range of an `INTEGER` column. -/
inductive Constraint where
  | jobsPkey
  | jobsAttemptsCheck
  | jobsMaxAttemptsCheck
  | jobsAttemptsLteMaxAttemptsCheck
  | jobsPriorityCheck
  | jobsActiveOwnerCheck
  | jobsStateShapeCheck
  | jobsLockByWorkerTypeFkey
  | integerRange
deriving Repr, DecidableEq

def i32Max : Int := 2147483647

/-- The checks one job row can violate on its own. -/
def rowViolation (row : JobRow) : Option Constraint :=
  if ¬ (row.attempts ≤ i32Max ∧ row.maxAttempts ≤ i32Max ∧
      row.priority ≤ i32Max) then some .integerRange
  else if ¬ 0 ≤ row.attempts then some .jobsAttemptsCheck
  else if ¬ 0 < row.maxAttempts then some .jobsMaxAttemptsCheck
  else if ¬ row.attempts ≤ row.maxAttempts then
    some .jobsAttemptsLteMaxAttemptsCheck
  else if ¬ 0 ≤ row.priority then some .jobsPriorityCheck
  else if row.active && row.lockBy.isNone then some .jobsActiveOwnerCheck
  else if (row.status = .pending && (row.lockBy.isSome || row.lockAt.isSome)) ||
      (row.active && (row.lockBy.isNone || row.lockAt.isNone)) then
    some .jobsStateShapeCheck
  else none

/-- A non-null `lock_by` must name a registration of the row's queue. -/
def ownerRegistered (db : Db) (row : JobRow) : Bool :=
  match row.lockBy with
  | none => true
  | some worker => (db.workers.get? (worker, row.jobType)).isSome

/-- Some job names the registration as its owner. -/
def referenced (db : Db) (key : String × String) : Bool :=
  db.jobs.rows.any fun row => row.lockBy = some key.1 && row.jobType = key.2

/-- What a written row violates in the view the statement leaves. -/
def effectViolation (after : Db) : Effect → Option Constraint
  | .job change =>
      match change.after with
      | none => none
      | some row =>
          match rowViolation row with
          | some violated => some violated
          | none =>
              if ownerRegistered after row then none
              else some .jobsLockByWorkerTypeFkey
  | .worker change =>
      match change.after with
      | some _ => none
      | none =>
          if referenced after change.key then some .jobsLockByWorkerTypeFkey
          else none

end ApalisPostgres
