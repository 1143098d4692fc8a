/-
The transactions of the crate: each body issues its statements in the order
of the source, under the source's operation labels, and refuses with the
source's errors.
-/
import ApalisPostgres.Acknowledgement

namespace ApalisPostgres

open RowStore

variable (rows : RowReader)

/-- `value.try_into().unwrap_or(i32::MAX)` for an unsigned value. -/
def clampI32 (value : Nat) : Nat := min value 2147483647

/-- Issue one statement under its operation label. -/
def query (operation : String) (stmt : Stmt) : Tx stmt.Result :=
  Program.call operation stmt

@[simp] theorem query_bind {α : Type} (operation : String) (stmt : Stmt)
    (next : stmt.Result → Tx α) :
    (query operation stmt >>= next) = .statement operation stmt next := rfl

/-- Whether the caller's token currently owns the registration. -/
def lockCurrentWorker (worker queue : String) (token : Option String) :
    Tx Bool := do
  let registration ← query "checking worker registration"
    (.workerRegistration worker queue token)
  return registration = .current

/-- `None` is the trusted low-level surface: it takes the lock and claims
whatever it finds. -/
def requireWorker (worker queue : String) (token : Option String) :
    Tx Unit := do
  let registration ← query "checking worker registration"
    (.workerRegistration worker queue token)
  match token, registration with
  | none, _ => return ()
  | some _, .current => return ()
  | some _, .absent =>
      .rollback (.workerNotRegistered "claiming task" worker queue
        "the worker is not registered for this queue; register it before claiming")
  | some _, .replaced =>
      .rollback (.workerNotRegistered "claiming task" worker queue
        "the worker registration was replaced; create a fresh storage")

/-- `Error::Row` displayed. -/
def rowErrorText (message : String) : String :=
  "failed to convert database row into an Apalis task: " ++ message

/-- Convert the claimed rows in order; a row that cannot be converted is
quarantined in the same transaction. -/
def claimedTasks : List JobRow → Tx (List Task)
  | [] => return []
  | row :: rest =>
      match rows.tryIntoTaskCompact row with
      | .ok task => do
          let tasks ← claimedTasks rest
          return { task with parts := recordClaim task.parts } :: tasks
      | .error message => do
          let _ ← query "quarantining malformed task"
            (.quarantine row.id
              (errResult (truncateErrorPayload (rowErrorText message))))
          claimedTasks rest

def fetchNext (worker queue : String) (bufferSize : Nat)
    (leaseToken : Option String) : Tx (List Task) := do
  requireWorker worker queue leaseToken
  let claimed ← query "fetching queued jobs"
    (.fetchNext worker queue (clampI32 (max bufferSize 1)))
  claimedTasks rows claimed

def queueById (queue : String) (ids : List String) (worker : String)
    (leaseToken : Option String) : Tx (List Task) := do
  requireWorker worker queue leaseToken
  let claimed ← query "claiming notified jobs"
    (.queueById worker queue ids)
  claimedTasks rows claimed

/-- The SQL function `apalis.get_jobs`, called outside the crate. -/
def getJobs (worker queue : String) (count : Option Nat) :
    Tx (List JobRow) :=
  query "calling apalis.get_jobs" (.getJobs worker queue count)

/-- Release a claimed row whose payload failed to decode. -/
def failUndecodableTask (taskId worker : String) (lockAt attempts : Int)
    (error : String) (leaseToken : Option String) : Tx Nat :=
  let release : Tx Nat := query "failing undecodable task"
    (.failUndecodableTask taskId worker
      (errResult (truncateErrorPayload error)) lockAt attempts)
  match leaseToken with
  | none => release
  | some token => do
      let located ← query "locating undecodable task"
        (.taskQueue taskId none)
      match located with
      | none => return 0
      | some queue => do
          let current ← lockCurrentWorker worker queue (some token)
          if current then release else return 0

/-- One statement; the caller must not run the handler unless it matched. -/
def startTask (claim : StartClaim) : Tx Bool := do
  let count ← query "starting task" (.startTask claim)
  return count = 1

def lockTaskHint (queue : Option String) : String :=
  if queue.isSome then
    "the task may be delayed, have exhausted its retry budget, be locked by another worker, be completed, or belong to another queue"
  else
    "the task may be delayed, have exhausted its retry budget, be locked by another worker, or be completed"

/-- A task that is not found needs no registration: the lock then matches
nothing. -/
def requireLocatedWorker (worker : String) (leaseToken : Option String) :
    Option String → Tx Unit
  | none => return ()
  | some queue => requireWorker worker queue leaseToken

/-- The task of the locked row, or why there is none. -/
def lockedTask (taskId : String) (queue : Option String) :
    List JobRow → Tx Task
  | [] =>
      .rollback
        (Error.ofTaskNotFound "locking task" taskId queue (lockTaskHint queue))
  | row :: _ =>
      match claimedTaskRow rows row with
      | .ok task => return task
      | .error error => .rollback error

def lockTaskWithToken (taskId worker : String) (queue leaseToken : Option String) :
    Tx Task := do
  let located ← query "locating task to lock" (.taskQueue taskId queue)
  requireLocatedWorker worker leaseToken located
  let locked ← query "locking task" (.lockTask worker taskId queue)
  lockedTask rows taskId queue locked

def ackTask (update : AckTaskUpdate) : Tx Unit :=
  let stale : Error :=
    .staleAcknowledgement update.taskId update.queue update.workerId
  let write : Tx Unit := do
    let count ← query "acknowledging task" (.ackTask update)
    if count = 0 then .rollback stale else return ()
  if update.leaseToken.isSome then do
    let current ← lockCurrentWorker update.workerId update.queue
      update.leaseToken
    if current then write else .rollback stale
  else write

/-- `PgAck::ack` from the check of its record on: the parts are refused before
any statement, or their update is issued. -/
def acknowledge (leaseToken : Option String) (res : HandlerResult)
    (parts : Parts) : Tx Unit :=
  match ackUpdate leaseToken res parts with
  | .ok update => ackTask update
  | .error error => .rollback error

def recoverOwned (queue : String) (workers : List String)
    (recovery : Recovery) : Tx Nat :=
  if workers.isEmpty then return 0
  else query "re-enqueueing orphaned jobs"
    (.recoverOwned queue workers recovery)

/-- Hand a registration back: recover every claim the token still owns and
mark the row released. -/
def releaseWorker (queue worker leaseToken : String) : Tx Nat := do
  let owned ← query "locking the worker registration for release"
    (.lockForRelease worker queue leaseToken)
  if owned then do
    let recovered ← recoverOwned queue [worker] .release
    let _ ← query "releasing worker registration"
      (.markReleased worker queue)
    return recovered
  else
    .rollback (.workerNotRegistered "releasing worker registration" worker queue
      "the registration is absent, has no lease token, or is owned by another storage; nothing was released")

def reenqueueOrphaned (queue : String) (reenqueueOrphanedAfter : Duration) :
    Tx Nat := do
  let workers ← query "locking orphaned workers"
    (.lockOrphanedWorkers queue reenqueueOrphanedAfter
      reenqueueOrphanedBatchLimit)
  recoverOwned queue workers .staleSweep

/-- The last statement of a registration. -/
def registerRow (worker queue storage layers leaseToken : String) :
    Tx Unit := do
  let _ ← query "registering worker"
    (.upsertRegistration worker queue storage layers leaseToken)
  return ()

/-- What a registration does with the incumbent it found: refuse, recover
every claim the incumbent lost, or refresh its own row. -/
def registerOver (worker queue storage layers leaseToken : String) :
    Option RegistrationDecision → Tx Unit
  | none => registerRow worker queue storage layers leaseToken
  | some decision =>
      if decision.allowed then
        if decision.lost then do
          let _ ← recoverOwned queue [worker] .takeover
          registerRow worker queue storage layers leaseToken
        else registerRow worker queue storage layers leaseToken
      else .rollback (.alreadyRegistered worker queue)

def registerWorker (worker queue storage layers leaseToken : String)
    (staleAfter : Duration) : Tx Unit := do
  let acquired ← query "locking worker registration"
    (.tryAdvisoryLock worker queue)
  if acquired then do
    let existing ← query "checking worker registration"
      (.checkRegistration worker queue leaseToken staleAfter)
    registerOver worker queue storage layers leaseToken existing
  else .rollback (.alreadyRegistered worker queue)

def keepAlive (worker queue leaseToken : String) : Tx Unit := do
  let count ← query "updating worker heartbeat"
    (.keepAlive worker queue leaseToken)
  if count = 0 then
    .rollback (.workerNotRegistered "updating worker heartbeat" worker queue
      "the worker may not be registered for this queue, or another process has re-registered with a different lease token; recreate the worker stream")
  else return ()

def registerWorkerAdmin (worker queue : String) : Tx Unit := do
  let _ ← query "registering worker" (.registerWorkerAdmin worker queue)
  return ()

/-- How many registrations one prune batch locked and how many it deleted. -/
structure PruneBatch where
  locked : Nat
  deleted : Nat
deriving Repr, DecidableEq

def pruneWorkersBatch (queue : String) (staleFor : Duration) (limit : Nat) :
    Tx PruneBatch := do
  let candidates ← query "locking stale workers to prune"
    (.lockPrunable queue staleFor limit)
  if candidates.length = 0 then return ⟨0, 0⟩
  else do
    let deleted ← query "pruning stale workers"
      (.deleteUnreferenced queue candidates)
    return ⟨candidates.length, deleted⟩

def purgeTerminalBatch (queue : String) (cutoff : Timestamp) (limit : Nat) :
    Tx Nat :=
  query "purging terminal tasks" (.purgeTerminal queue cutoff limit)

/-- Consume one inserted row per submitted key; the submissions left without
one are the collisions, each key named once. -/
def conflictingKeys : List String → List (Option String) → List String →
    List String
  | [], _, _ => []
  | key :: rest, inserted, seen =>
      if some key ∈ inserted then
        conflictingKeys rest (inserted.erase (some key)) seen
      else if key ∈ seen then conflictingKeys rest inserted seen
      else key :: conflictingKeys rest inserted (key :: seen)

/-- `push_tasks_on_conn` over a prepared batch: any conflict rolls the whole
batch back. -/
def pushTasksOnConn (queue : String) (batch : List NewJob) : Tx Unit :=
  if batch.isEmpty then return ()
  else do
    let inserted ← query "inserting jobs" (.insertJobs queue batch)
    if batch.any (fun task => task.idempotencyKey.isSome) &&
        decide (inserted.length < batch.length) then
      .rollback (.idempotencyConflict queue
        (conflictingKeys (batch.filterMap NewJob.idempotencyKey) inserted [])
        batch.length)
    else return ()

end ApalisPostgres
