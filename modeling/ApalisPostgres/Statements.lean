/-
The SQL statements of the crate.  Each statement is planned against the view
of its transaction: which rows its `WHERE` clause selects, what it returns
and how it rewrites them.  The schema then checks the written rows before
the statement succeeds.
-/
import ApalisPostgres.Errors
import ApalisPostgres.TransactionProgram
import Mathlib.Data.List.Sort
import Mathlib.Data.String.Basic

namespace ApalisPostgres

open RowStore

/-- What a statement observes besides its view: the server clock and what
other sessions hold.  `statement_timestamp()` and `clock_timestamp()` of one
statement read `now`. -/
structure Env where
  now : Timestamp
  /-- job rows `SKIP LOCKED` passes over -/
  jobLocked : String → Bool
  /-- registrations `SKIP LOCKED` passes over -/
  workerLocked : String × String → Bool
  /-- whether the snapshot of a locking statement, taken before the locks, has
  the references to a registration -/
  referenceSeen : String × String → Bool
  /-- the outcome of `pg_try_advisory_xact_lock` -/
  advisoryFree : Bool

/-- What the worker row says about a name for a queue, judged against the
caller's lease token. -/
inductive Registration where
  | absent
  | replaced
  | current
deriving Repr, DecidableEq

structure RegistrationDecision where
  allowed : Bool
  lost : Bool
deriving Repr, DecidableEq

/-- The column values of one task of an enqueue batch. -/
structure NewJob where
  id : String
  job : List UInt8
  maxAttempts : Int
  runAt : Timestamp
  priority : Int
  metadata : Json
  idempotencyKey : Option String

structure StartClaim where
  taskId : String
  queue : String
  workerId : String
  lockAt : Int
  attempts : Option Int
  restart : Bool
  leaseToken : Option String

structure AckTaskUpdate where
  taskId : String
  attempts : Int
  startedAttempts : Int
  result : Option Json
  status : Status
  workerId : String
  queue : String
  lockAt : Int
  leaseToken : Option String

/-- Whether a claim that no handler started is charged too. -/
def Recovery.chargesUnstarted : Recovery → Bool
  | .release => false
  | .staleSweep | .takeover => true

def Recovery.result : Recovery → Json
  | .staleSweep | .takeover =>
      errResult "Re-enqueued due to worker heartbeat timeout."
  | .release =>
      errResult "Re-enqueued because the worker released its registration."

def reenqueueOrphanedBatchLimit : Nat := 1000

def storageName : String := "PostgresStorage"

/-- Epoch microseconds of the earliest timestamp PostgreSQL represents. -/
def timestampFloor : Timestamp := toTimestamp (-210866803200)

/-- `CLAIMABLE_PREDICATE`. -/
def claimable (row : JobRow) : Bool :=
  (row.status = .pending || row.status = .failed) &&
    decide (row.attempts < row.maxAttempts)

/-- `TERMINAL_PREDICATE`. -/
def terminal (row : JobRow) : Bool :=
  (row.status = .done || row.status = .killed) ||
    (row.status = .failed && decide (row.maxAttempts ≤ row.attempts))

/-- `ORDER BY priority DESC, run_at ASC`. -/
def claimOrder (left right : JobRow) : Prop :=
  right.priority < left.priority ∨
    (right.priority = left.priority ∧ left.runAt ≤ right.runAt)

instance : DecidableRel claimOrder := fun _ _ =>
  inferInstanceAs (Decidable (_ ∨ _))

/-- `ORDER BY id` over job rows. -/
def idOrder (left right : JobRow) : Prop := left.id ≤ right.id

instance : DecidableRel idOrder := fun left right =>
  inferInstanceAs (Decidable (left.id ≤ right.id))

/-- `ORDER BY id` over registrations of one queue. -/
def workerIdOrder (left right : WorkerRow) : Prop := left.id ≤ right.id

instance : DecidableRel workerIdOrder := fun left right =>
  inferInstanceAs (Decidable (left.id ≤ right.id))

def NewJob.row (task : NewJob) (queue : String) : JobRow where
  job := task.job
  id := task.id
  jobType := queue
  status := .pending
  attempts := 0
  maxAttempts := task.maxAttempts
  runAt := task.runAt
  lastResult := none
  lockAt := none
  lockBy := none
  doneAt := none
  priority := task.priority
  metadata := some task.metadata
  idempotencyKey := task.idempotencyKey

/-- The row a claim leaves. -/
def claimRow (worker : String) (now : Timestamp) (row : JobRow) : JobRow :=
  { row with
    status := .queued
    lockBy := some worker
    lockAt := some (truncSecond now)
    doneAt := none }

/-- The row a lock leaves: an owned row keeps its claim timestamp. -/
def lockRow (worker : String) (now : Timestamp) (row : JobRow) : JobRow :=
  { row with
    status := .running
    lockAt :=
      if row.active && row.lockBy = some worker && row.lockAt.isSome then
        row.lockAt
      else some (truncSecond now)
    lockBy := some worker
    doneAt := none }

/-- The guard of the lock statement. -/
def lockable (worker : String) (now : Timestamp) (row : JobRow) : Bool :=
  decide (row.runAt ≤ now) &&
    ((row.status = .pending && decide (row.attempts < row.maxAttempts)) ||
      (row.status = .queued && row.lockBy = some worker) ||
      (row.status = .running && row.lockBy = some worker) ||
      (row.status = .failed && decide (row.attempts < row.maxAttempts)))

/-- `LEAST(attempts::bigint + 1, max_attempts)`. -/
def boundedIncrement (row : JobRow) : Int :=
  min (row.attempts + 1) row.maxAttempts

def quarantineRow (now : Timestamp) (result : Json) (row : JobRow) : JobRow :=
  { row with
    status := .killed
    attempts := boundedIncrement row
    doneAt := some now
    lastResult := some result
    lockBy := none
    lockAt := none }

def undecodableRow (now : Timestamp) (result : Json) (row : JobRow) : JobRow :=
  { row with
    status := if row.maxAttempts ≤ row.attempts + 1 then .killed else .failed
    attempts := boundedIncrement row
    doneAt := some now
    lastResult := some result }

def startRow (row : JobRow) : JobRow :=
  { row with status := .running }

def ackRow (now : Timestamp) (update : AckTaskUpdate) (row : JobRow) : JobRow :=
  { row with
    status := update.status
    attempts := update.attempts
    lastResult := update.result
    doneAt := some now }

/-- `candidates.charged`. -/
def charged (recovery : Recovery) (row : JobRow) : Bool :=
  row.status = .running || recovery.chargesUnstarted

/-- `candidates.next_attempts`. -/
def nextAttempts (recovery : Recovery) (row : JobRow) : Int :=
  if charged recovery row then boundedIncrement row else row.attempts

def recoverRow (now : Timestamp) (recovery : Recovery) (row : JobRow) :
    JobRow :=
  let next := nextAttempts recovery row
  let exhausted := decide (row.maxAttempts ≤ next)
  { row with
    status := if exhausted then .killed else .pending
    doneAt := if exhausted then some now else none
    lockBy := none
    lockAt := none
    attempts := next
    lastResult :=
      if exhausted || (charged recovery row && row.lastResult.isNone) then
        some recovery.result
      else row.lastResult }

/-- `$7::text IS NULL OR lease_token IS NOT DISTINCT FROM $7`. -/
def tokenAccepted (token : Option String) (row : WorkerRow) : Bool :=
  token.isNone || row.leaseToken = token

/-- Job rows a claim statement may take: claimable, due and of the queue. -/
def dueForClaim (queue : String) (now : Timestamp) (row : JobRow) : Bool :=
  claimable row && decide (row.runAt ≤ now) && row.jobType = queue

/-- The claimed epoch of an active row, as acknowledgements pin it. -/
def epochMatches (id worker : String) (lockAt attempts : Int) (row : JobRow) :
    Bool :=
  row.id = id && row.active && row.lockBy = some worker &&
    row.lockAt = some (toTimestamp lockAt) && decide (row.attempts = attempts)

def startable (claim : StartClaim) (row : JobRow) : Bool :=
  row.id = claim.taskId && row.jobType = claim.queue &&
    row.lockBy = some claim.workerId &&
    row.lockAt = some (toTimestamp claim.lockAt) &&
    (claim.attempts.isNone || claim.attempts = some row.attempts) &&
    (row.status = .queued || (claim.restart && row.status = .running))

def acknowledgeable (update : AckTaskUpdate) (row : JobRow) : Bool :=
  row.jobType = update.queue &&
    epochMatches update.taskId update.workerId update.lockAt
      update.startedAttempts row

/-- `done_at <= cutoff OR (done_at IS NULL AND run_at <= cutoff)`. -/
def completedBefore (cutoff : Timestamp) (row : JobRow) : Bool :=
  match row.doneAt with
  | some doneAt => decide (doneAt ≤ max cutoff timestampFloor)
  | none => decide (row.runAt ≤ max cutoff timestampFloor)

/-- The statements, one constructor for each SQL text. -/
inductive Stmt where
  | insertJobs (queue : String) (batch : List NewJob)
  | workerRegistration (worker queue : String) (token : Option String)
  | fetchNext (worker queue : String) (limit : Nat)
  | queueById (worker queue : String) (ids : List String)
  | getJobs (worker queue : String) (count : Option Nat)
  | quarantine (id : String) (result : Json)
  | taskQueue (id : String) (scope : Option String)
  | lockTask (worker id : String) (queue : Option String)
  | failUndecodableTask (id worker : String) (result : Json)
      (lockAt attempts : Int)
  | startTask (claim : StartClaim)
  | ackTask (update : AckTaskUpdate)
  | lockForRelease (worker queue token : String)
  | recoverOwned (queue : String) (workers : List String)
      (recovery : Recovery)
  | markReleased (worker queue : String)
  | lockOrphanedWorkers (queue : String) (staleAfter : Duration)
      (limit : Nat)
  | tryAdvisoryLock (worker queue : String)
  | checkRegistration (worker queue token : String) (staleAfter : Duration)
  | upsertRegistration (worker queue storage layers token : String)
  | keepAlive (worker queue token : String)
  | registerWorkerAdmin (worker queue : String)
  | lockPrunable (queue : String) (staleFor : Duration) (limit : Nat)
  | deleteUnreferenced (queue : String) (ids : List String)
  | purgeTerminal (queue : String) (cutoff : Timestamp) (limit : Nat)

/-- What each statement returns. -/
@[reducible] def Stmt.Result : Stmt → Type
  | .insertJobs .. => List (Option String)
  | .workerRegistration .. => Registration
  | .fetchNext .. | .queueById .. | .getJobs .. | .lockTask .. => List JobRow
  | .taskQueue .. => Option String
  | .lockForRelease .. | .tryAdvisoryLock .. => Bool
  | .lockOrphanedWorkers .. | .lockPrunable .. => List String
  | .checkRegistration .. => Option RegistrationDecision
  | .quarantine .. | .failUndecodableTask .. | .startTask .. | .ackTask ..
  | .recoverOwned .. | .markReleased .. | .upsertRegistration ..
  | .keepAlive .. | .registerWorkerAdmin .. | .deleteUnreferenced ..
  | .purgeTerminal .. => Nat

/-- The rows of a batch INSERT that land: the checks of a column see every
proposed row, a stored or repeated idempotency key is then skipped, a repeated
id fails the statement. -/
def insertedRows (queue : String) (jobs : JobTable) :
    List NewJob → Except DieselError (List JobRow)
  | [] => .ok []
  | task :: rest =>
      match rowViolation (task.row queue) with
      | some violated => .error violated.fault
      | none =>
          if task.idempotencyKey.isSome && jobs.rows.any (fun row =>
              row.jobType = queue && row.idempotencyKey = task.idempotencyKey)
          then insertedRows queue jobs rest
          else if (jobs.get? task.id).isSome then
            .error Constraint.jobsPkey.fault
          else do
            let inserted ← insertedRows queue (jobs.put (task.row queue)) rest
            return task.row queue :: inserted

/-- `UPDATE apalis.jobs SET .. WHERE ..` over an already chosen selection. -/
def updateJobs (edge : JobEdge) (rewrite : JobRow → JobRow)
    (selected : List JobRow) : List Effect :=
  (updateChanges JobRow.id edge rewrite selected).map Effect.job

def deleteJobs (selected : List JobRow) : List Effect :=
  selected.map fun row => .job ⟨row.id, .purge, some row, none⟩

/-- The rows a claim selects: due, not held elsewhere, in priority order. -/
def claimSelection (env : Env) (db : Db) (queue : String)
    (among : JobRow → Bool) : List JobRow :=
  (db.jobs.rows.filter fun row =>
    dueForClaim queue env.now row && among row &&
      !env.jobLocked row.id).insertionSort claimOrder

/-- The outer `SELECT * FROM updated ORDER BY priority DESC, run_at ASC`. -/
def claimedRows (worker : String) (now : Timestamp) (selected : List JobRow) :
    List JobRow :=
  (selected.map (claimRow worker now)).insertionSort claimOrder

def recoverySelection (env : Env) (db : Db) (queue : String)
    (workers : List String) (recovery : Recovery) : List JobRow :=
  let owned := db.jobs.rows.filter fun row =>
    row.jobType = queue && row.active &&
      (row.lockBy.any fun owner => workers.contains owner)
  match recovery with
  | .staleSweep =>
      ((owned.filter fun row => !env.jobLocked row.id).insertionSort
        idOrder).take reenqueueOrphanedBatchLimit
  | .takeover | .release => owned.insertionSort idOrder

def orphanSelection (env : Env) (db : Db) (queue : String)
    (staleAfter : Duration) (limit : Nat) : List WorkerRow :=
  ((db.workers.rows.filter fun row =>
    row.workerType = queue && elapsedAtLeast staleAfter env.now row.lastSeen &&
      (db.jobs.rows.any fun job =>
        job.jobType = row.workerType && job.lockBy = some row.id &&
          job.active) &&
      !env.workerLocked row.key).insertionSort workerIdOrder).take limit

def prunableSelection (env : Env) (db : Db) (queue : String)
    (staleFor : Duration) (limit : Nat) : List WorkerRow :=
  ((db.workers.rows.filter fun row =>
    row.workerType = queue && elapsedAtLeast staleFor env.now row.lastSeen &&
      !(env.referenceSeen row.key && referenced db row.key) &&
      !env.workerLocked row.key).insertionSort workerIdOrder).take limit

def unreferencedSelection (db : Db) (queue : String) (ids : List String) :
    List WorkerRow :=
  db.workers.rows.filter fun row =>
    row.workerType = queue && ids.contains row.id && !referenced db row.key

def purgeSelection (env : Env) (db : Db) (queue : String) (cutoff : Timestamp)
    (limit : Nat) : List JobRow :=
  (db.jobs.rows.filter fun row =>
    row.jobType = queue && terminal row && completedBefore cutoff row &&
      !env.jobLocked row.id).take limit

/-- The registration a worker stream writes, `ON CONFLICT` included. -/
def registeredRow (now : Timestamp)
    (worker queue storage layers token : String) :
    Option WorkerRow → WorkerRow
  | none => ⟨worker, queue, storage, layers, now, some now, some token⟩
  | some old =>
      { old with
        storageName := storage
        layers := layers
        lastSeen := now
        leaseToken := some token }

/-- The registration the admin path writes: a row that carries a token is
left as it is. -/
def adminRow (now : Timestamp) (worker queue : String) :
    Option WorkerRow → WorkerRow
  | none => ⟨worker, queue, storageName, "", now, some now, none⟩
  | some old =>
      { old with
        storageName :=
          if old.leaseToken.isNone then storageName else old.storageName
        layers := if old.leaseToken.isNone then "" else old.layers
        lastSeen := if old.leaseToken.isNone then now else old.lastSeen }

/-- Rewrite one registration, whether or not it exists yet. -/
def putWorker (edge : WorkerEdge) (old : Option WorkerRow) (row : WorkerRow) :
    List Effect :=
  [.worker ⟨row.key, edge, old, some row⟩]

def renewedRow (now : Timestamp) (row : WorkerRow) : WorkerRow :=
  { row with lastSeen := now }

def releasedRow (row : WorkerRow) : WorkerRow :=
  { row with leaseToken := none, lastSeen := toTimestamp 0 }

/-- Plan a statement against a view: its result and the rows it writes. -/
def Stmt.plan (env : Env) (db : Db) :
    (stmt : Stmt) → Except DieselError (stmt.Result × List Effect)
  | .insertJobs queue batch => do
      let inserted ← insertedRows queue db.jobs batch
      return (inserted.map JobRow.idempotencyKey,
        inserted.map fun row => .job ⟨row.id, .enqueue, none, some row⟩)
  | .workerRegistration worker queue token =>
      .ok (match db.workers.get? (worker, queue) with
        | none => .absent
        | some row => if tokenAccepted token row then .current else .replaced, [])
  | .fetchNext worker queue limit =>
      let selected := (claimSelection env db queue fun _ => true).take limit
      .ok (claimedRows worker env.now selected,
        updateJobs .pollClaim (claimRow worker env.now) selected)
  | .queueById worker queue ids =>
      let selected := claimSelection env db queue fun row => ids.contains row.id
      .ok (claimedRows worker env.now selected,
        updateJobs .notifyClaim (claimRow worker env.now) selected)
  | .getJobs worker queue count =>
      let due := claimSelection env db queue fun _ => true
      let selected := due.take (count.getD due.length)
      .ok (selected.map (claimRow worker env.now),
        updateJobs .compatibilityClaim (claimRow worker env.now) selected)
  | .quarantine id result =>
      let selected := db.jobs.rows.filter fun row => row.id = id
      .ok (selected.length,
        updateJobs .quarantine (quarantineRow env.now result) selected)
  | .taskQueue id scope =>
      .ok (((db.jobs.get? id).filter fun row =>
        scope.isNone || scope = some row.jobType).map JobRow.jobType, [])
  | .lockTask worker id queue =>
      let selected := db.jobs.rows.filter fun row =>
        row.id = id && (queue.isNone || queue = some row.jobType) &&
          lockable worker env.now row
      .ok (selected.map (lockRow worker env.now),
        updateJobs .lock (lockRow worker env.now) selected)
  | .failUndecodableTask id worker result lockAt attempts =>
      let selected := db.jobs.rows.filter
        (epochMatches id worker lockAt attempts)
      .ok (selected.length,
        updateJobs .undecodable (undecodableRow env.now result) selected)
  | .startTask claim =>
      let owned := (db.workers.get? (claim.workerId, claim.queue)).any
        (tokenAccepted claim.leaseToken)
      let selected := db.jobs.rows.filter fun row =>
        owned && startable claim row
      .ok (selected.length, updateJobs .start startRow selected)
  | .ackTask update =>
      let selected := db.jobs.rows.filter (acknowledgeable update)
      .ok (selected.length,
        updateJobs .acknowledge (ackRow env.now update) selected)
  | .lockForRelease worker queue token =>
      .ok ((db.workers.get? (worker, queue)).any fun row =>
        row.leaseToken = some token, [])
  | .recoverOwned queue workers recovery =>
      let selected := recoverySelection env db queue workers recovery
      .ok (selected.length,
        updateJobs (.recovery recovery) (recoverRow env.now recovery) selected)
  | .markReleased worker queue =>
      match db.workers.get? (worker, queue) with
      | none => .ok (0, [])
      | some row => .ok (1, putWorker .release (some row) (releasedRow row))
  | .lockOrphanedWorkers queue staleAfter limit =>
      .ok ((orphanSelection env db queue staleAfter limit).map WorkerRow.id, [])
  | .tryAdvisoryLock _ _ => .ok (env.advisoryFree, [])
  | .checkRegistration worker queue token staleAfter =>
      .ok ((db.workers.get? (worker, queue)).map fun row =>
        let stale := elapsedAtLeast staleAfter env.now row.lastSeen
        { allowed := row.leaseToken = some token || stale
          lost := row.leaseToken ≠ some token || stale }, [])
  | .upsertRegistration worker queue storage layers token =>
      let old := db.workers.get? (worker, queue)
      .ok (1, putWorker .register old
        (registeredRow env.now worker queue storage layers token old))
  | .keepAlive worker queue token =>
      match db.workers.get? (worker, queue) with
      | none => .ok (0, [])
      | some row =>
          if row.leaseToken = some token then
            .ok (1, putWorker .heartbeat (some row) (renewedRow env.now row))
          else .ok (0, [])
  | .registerWorkerAdmin worker queue =>
      let old := db.workers.get? (worker, queue)
      .ok (1, putWorker .admin old (adminRow env.now worker queue old))
  | .lockPrunable queue staleFor limit =>
      .ok ((prunableSelection env db queue staleFor limit).map WorkerRow.id, [])
  | .deleteUnreferenced queue ids =>
      let selected := unreferencedSelection db queue ids
      .ok (selected.length,
        selected.map fun row => .worker ⟨row.key, .prune, some row, none⟩)
  | .purgeTerminal queue cutoff limit =>
      let selected := purgeSelection env db queue cutoff limit
      .ok (selected.length, deleteJobs selected)

/-- A planned statement succeeds only if no written row violates the schema. -/
def Stmt.exec (stmt : Stmt) (env : Env) (db : Db) :
    Except DieselError (stmt.Result × List Effect) := do
  let planned ← stmt.plan env db
  match planned.2.findSome? (effectViolation (db.apply planned.2)) with
  | some violated => throw violated.fault
  | none => return planned

/-- The statements of the crate as a statement model, over a server that takes
every text and document; `jsonbSql` adds what a `jsonb` column refuses. -/
def sql : StatementModel Stmt Stmt.Result Db Env Effect DieselError Error where
  exec := Stmt.exec
  apply := Db.apply
  report := Error.database
  apply_nil _ := rfl
  apply_append _ _ _ := List.foldl_append

/-- A transaction body of the crate. -/
abbrev Tx := Program Stmt Stmt.Result Error

end ApalisPostgres
