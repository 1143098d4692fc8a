/-
The dispatch of a claimed task through the storage-bound middleware.  A
dispatch is a future: between two awaits it runs without interruption, at an
await it may be dropped, and the statement it waits for runs to its end even
if nobody waits for it any more.
-/
import ApalisPostgres.Lease

namespace ApalisPostgres

/-- A task row that is active under the worker, claimed with the token of the
storage. -/
structure OwnedRow where
  lockAt : Int
  attempts : Nat
  running : Bool
deriving Repr, DecidableEq

def OwnedRow.epoch (taskId : String) (row : OwnedRow) : Epoch :=
  ⟨taskId, row.lockAt, row.attempts⟩

/-- The guard of the start statement on an owned row. -/
def OwnedRow.starts (claim : StartClaim) (row : OwnedRow) : Bool :=
  row.lockAt = claim.lockAt &&
    (claim.attempts.isNone || claim.attempts = some (row.attempts : Int)) &&
    (!row.running || claim.restart)

/-- The guard of the acknowledgement on an owned row. -/
def OwnedRow.acknowledgedBy (update : AckTaskUpdate) (row : OwnedRow) : Bool :=
  row.lockAt = update.lockAt &&
    decide ((row.attempts : Int) = update.startedAttempts)

inductive StartReply where
  | matched
  | unmatched
  | failed
deriving Repr, DecidableEq

/-- The answer of the lock; `unknown` is `ClaimOutcomeUnknown`. -/
inductive LockReply where
  | locked (ctx : PgContext) (attempt : Nat)
  | unknown
  | refused
deriving Repr, DecidableEq

inductive AckReply where
  | acknowledged
  | failed
deriving Repr, DecidableEq

/-- A statement that was issued and that nobody waits for any more. -/
inductive Detached where
  | start (claim : StartClaim)
  | lock (taskId : String)
  | ack (update : AckTaskUpdate)

/-- Where a dispatch stands.  A reply is `none` until its statement ran. -/
inductive Stage where
  | created
  | starting (claim : StartClaim) (reply : Option StartReply)
  | locking (taskId : String) (reply : Option LockReply)
  | handling
  | serializing (ackGuard : ClaimObligation) (res : HandlerResult)
  | acknowledging (ackGuard : ClaimObligation) (update : AckTaskUpdate)
      (reply : Option AckReply)
  | ended (detached : Option Detached)

/-- One dispatch: its request, the record the request carries, the claim it
holds, the obligation of the dispatch and its stage. -/
structure Dispatch where
  parts : Parts
  record : Option Nat
  held : Option Epoch
  guard : ClaimObligation
  stage : Stage

def isPreclaimed (lockBy workerId : Option String) (hasLockAt : Bool) : Bool :=
  (match lockBy, workerId with
    | some stored, some current => decide (stored = current)
    | _, _ => false) && hasLockAt

namespace Dispatch

variable (worker token : String)

def preclaimed (dispatch : Dispatch) : Bool :=
  isPreclaimed dispatch.parts.ctx.lockBy (some worker)
    dispatch.parts.ctx.lockAt.isSome

def isAcknowledged (dispatch : Dispatch) (shared : Shared) : Bool :=
  dispatch.record.any shared.isAcknowledged

/-- `LockTaskService::call`: a preclaimed task carries its obligation from
here on, unless its acknowledgement already committed. -/
def call (shared : Shared) (held : Option Epoch) (parts : Parts)
    (record : Option Nat) : Dispatch :=
  let preclaimed := isPreclaimed parts.ctx.lockBy (some worker)
    parts.ctx.lockAt.isSome
  let acknowledgedAtCall := preclaimed && record.any shared.isAcknowledged
  ⟨parts, record, held, ⟨preclaimed && !acknowledgedAtCall, record⟩, .created⟩

/-- The future completes: what it owns is dropped. -/
def finish (dispatch : Dispatch) (shared : Shared)
    (guard : ClaimObligation) : Shared × Dispatch :=
  (guard.drop shared, { dispatch with
    guard := guard.disarm
    stage := .ended none })

/-- `start_claim` up to its statement. -/
def beginStart (dispatch : Dispatch) (shared : Shared) : Shared × Dispatch :=
  if dispatch.isAcknowledged shared then
    dispatch.finish shared dispatch.guard.disarm
  else
    let started := dispatch.record.any shared.hasStarted
    let attempted := shared.markStartAttempted dispatch.record
    if attempted.retired then dispatch.finish attempted dispatch.guard.disarm
    else
      match startClaim (some token) worker started dispatch.parts with
      | .error _ => dispatch.finish attempted dispatch.guard
      | .ok claim => (attempted, { dispatch with
          stage := .starting claim none })

/-- The first poll, up to the first await. -/
def admission (dispatch : Dispatch) (shared : Shared) : Shared × Dispatch :=
  match dispatch.parts.taskId with
  | none => dispatch.finish shared dispatch.guard
  | some taskId =>
      if dispatch.preclaimed worker && dispatch.isAcknowledged shared then
        dispatch.finish shared dispatch.guard.disarm
      else if dispatch.preclaimed worker then
        dispatch.beginStart worker token shared
      else if shared.retired then dispatch.finish shared dispatch.guard
      else
        -- the obligation still speaks for the record the request came with
        (shared, { dispatch with
          guard := { dispatch.guard with armed := true }
          stage := .locking taskId none })

/-- The answer of the start. -/
def startReplied (dispatch : Dispatch) (shared : Shared) :
    StartReply → Shared × Dispatch
  | .failed => dispatch.finish shared dispatch.guard
  | .unmatched => dispatch.finish shared dispatch.guard.disarm
  | .matched =>
      (shared.markStarted dispatch.record, { dispatch with stage := .handling })

/-- The answer of the lock; `fresh` is the identity of the record it makes. -/
def lockReplied (dispatch : Dispatch) (shared : Shared) (fresh : Nat) :
    LockReply → Shared × Dispatch
  | .refused => dispatch.finish shared dispatch.guard.disarm
  | .unknown => dispatch.finish shared dispatch.guard
  | .locked ctx attempt =>
      let parts := recordClaim { dispatch.parts with
        ctx := ctx
        attempt := attempt }
      let epoch : Epoch :=
        ⟨parts.taskId.getD "", parts.ctx.lockAt.getD 0, attempt⟩
      -- the lock claims and starts in one statement
      (shared.insert fresh
          { ClaimMarkers.fresh worker epoch with started := true },
        { dispatch with
          parts := parts
          record := some fresh
          guard := { dispatch.guard with claim := some fresh }
          stage := .handling })

/-- The acknowledgement future ended and with it the dispatch. -/
def finishAck (dispatch : Dispatch) (shared : Shared)
    (ackGuard : ClaimObligation) : Shared × Dispatch :=
  dispatch.finish (ackGuard.drop shared) dispatch.guard.disarm

/-- The handler returned: `PgAck::ack` is called with its result. -/
def handled (dispatch : Dispatch) (shared : Shared) (res : HandlerResult) :
    Shared × Dispatch :=
  let ackGuard : ClaimObligation :=
    ⟨decide (dispatch.parts.ctx.lockBy = some worker), dispatch.record⟩
  if dispatch.record.any shared.startRefused then
    dispatch.finishAck shared ackGuard.disarm
  else (shared, { dispatch with stage := .serializing ackGuard res })

/-- The acknowledgement holds the lock of its record. -/
def serialized (dispatch : Dispatch) (shared : Shared)
    (ackGuard : ClaimObligation) (res : HandlerResult) : Shared × Dispatch :=
  if dispatch.isAcknowledged shared then
    dispatch.finishAck shared ackGuard.disarm
  else
    match ackUpdate (some token) res dispatch.parts with
    | .error _ => dispatch.finishAck shared ackGuard
    | .ok update => (shared, { dispatch with
        stage := .acknowledging ackGuard update none })

/-- The answer of the acknowledgement. -/
def ackReplied (dispatch : Dispatch) (shared : Shared)
    (ackGuard : ClaimObligation) : AckReply → Shared × Dispatch
  | .acknowledged =>
      dispatch.finishAck (shared.markAcknowledged dispatch.record)
        ackGuard.disarm
  | .failed => dispatch.finishAck shared ackGuard

/-- The statement the dispatch leaves behind when it is dropped. -/
def detached (dispatch : Dispatch) : Option Detached :=
  match dispatch.stage with
  | .starting claim none => some (.start claim)
  | .locking taskId none => some (.lock taskId)
  | .acknowledging _ update none => some (.ack update)
  | _ => none

/-- The obligation of the acknowledgement, while there is one. -/
def ackGuard (dispatch : Dispatch) : ClaimObligation :=
  match dispatch.stage with
  | .serializing ackGuard _ => ackGuard
  | .acknowledging ackGuard _ _ => ackGuard
  | _ => ⟨false, none⟩

/-- The future is dropped, or unwound by a panic, where it stands. -/
def cancel (dispatch : Dispatch) (shared : Shared) : Shared × Dispatch :=
  (dispatch.guard.drop (dispatch.ackGuard.drop shared), { dispatch with
    guard := dispatch.guard.disarm
    stage := .ended dispatch.detached })

def isOver (dispatch : Dispatch) : Bool :=
  match dispatch.stage with
  | .ended _ => true
  | _ => false

end Dispatch

/-- The claims of one worker name in one storage: what its dispatches share,
the rows that are active under the name, every epoch a row had so far, and
the dispatches by identity. -/
structure DispatchSystem where
  shared : Shared
  rows : String → Option OwnedRow
  used : List Epoch
  dispatches : Nat → Option Dispatch

def DispatchSystem.initial : DispatchSystem :=
  ⟨⟨false, fun _ => none⟩, fun _ => none, [], fun _ => none⟩

/-- How a start or an acknowledgement ended: with its answer, or with an error
that leaves open whether the statement was applied. -/
inductive StatementEnd where
  | answered
  | failed (applied : Bool)
deriving Repr, DecidableEq

/-- How a lock transaction ended: with its task, with an unknown commit, or
with a rejection that applied nothing. -/
inductive LockEnd where
  | committed
  | unknown (applied : Bool)
  | refused
deriving Repr, DecidableEq

inductive DispatchEvent where
  /-- a stream claims a task of the worker -/
  | claimed (taskId : String) (row : OwnedRow) (record : Nat)
  /-- a row leaves the worker: recovered, released or finished elsewhere -/
  | lost (taskId : String)
  /-- the name is retired by something other than a dispatch -/
  | retired
  /-- a claim record of another worker name reaches the process, or is marked
  by the dispatches of that name -/
  | foreign (record : Nat) (markers : ClaimMarkers)
  | call (n : Nat) (parts : Parts) (record : Option Nat)
  | polled (n : Nat)
  | startRan (n : Nat) (stop : StatementEnd)
  | startReplied (n : Nat)
  | lockRan (n : Nat) (stop : LockEnd) (row : OwnedRow) (maxAttempts : Int)
  | lockReplied (n : Nat) (fresh : Nat)
  | handled (n : Nat) (res : HandlerResult)
  | serialized (n : Nat)
  | ackRan (n : Nat) (stop : StatementEnd)
  | ackReplied (n : Nat)
  | cancel (n : Nat)

namespace DispatchSystem

-- the worker, the token of its storage and the queue of each task
variable (worker token : String) (queueOf : String → String)

def setRow (system : DispatchSystem) (taskId : String)
    (row : Option OwnedRow) : DispatchSystem :=
  { system with
    rows := fun other => if other = taskId then row else system.rows other
    used := match row with
      | none => system.used
      | some owned => owned.epoch taskId :: system.used }

def setDispatch (system : DispatchSystem) (n : Nat) (dispatch : Dispatch) :
    DispatchSystem :=
  { system with dispatches := fun other =>
      if other = n then some dispatch else system.dispatches other }

/-- A segment of a dispatch between two awaits. -/
def resume (system : DispatchSystem) (n : Nat) (stop : Shared × Dispatch) :
    DispatchSystem :=
  { system with shared := stop.1 }.setDispatch n stop.2

/-- An epoch returns only after a release, which retires the name first: every
other end of a claim charges an attempt. -/
def freshEpoch (system : DispatchSystem) (epoch : Epoch) : Bool :=
  system.shared.retired || decide (epoch ∉ system.used)

/-- What the dispatches of another name do to a record of their own claims:
it comes into being, and its markers are only added to. -/
def foreignMarks (system : DispatchSystem) (record : Nat)
    (markers : ClaimMarkers) : Bool :=
  markers.owner ≠ worker &&
    (system.shared.records record).all fun old =>
      old.owner = markers.owner && old.epoch = markers.epoch &&
        (!old.done || markers.done) && (!old.started || markers.started)

/-- The claim a request holds: its record's, or the one it names by owner and
timestamp. -/
def heldBy (system : DispatchSystem) (parts : Parts) (record : Option Nat) :
    Option Epoch :=
  if isPreclaimed parts.ctx.lockBy (some worker) parts.ctx.lockAt.isSome then
    match record with
    | some id => (system.shared.records id).map ClaimMarkers.epoch
    | none => do
        let taskId ← parts.taskId
        let row ← system.rows taskId
        if parts.ctx.lockAt = some row.lockAt then some (row.epoch taskId)
        else none
  else none

/-- A request that was claimed before belongs to its claim: the queue is the
task's, and the record, if there is one, is the record of a claim of the task
by the worker. -/
def ownParts (system : DispatchSystem) (parts : Parts) (record : Option Nat) :
    Bool :=
  !isPreclaimed parts.ctx.lockBy (some worker) parts.ctx.lockAt.isSome ||
  ((parts.taskId.all fun taskId =>
      parts.ctx.queue.all fun queue => queue = queueOf taskId) &&
    match record with
    | none => parts.claim.isNone
    | some id => (system.shared.records id).any fun markers =>
        markers.owner = worker && parts.taskId = some markers.epoch.taskId &&
          parts.claim = some ⟨some markers.epoch.taskId,
            some markers.epoch.lockAt, markers.epoch.attempts⟩)

/-- The rows after a start ran to its end. -/
def runStart (system : DispatchSystem) (claim : StartClaim)
    (stop : StatementEnd) : DispatchSystem × StartReply × Option Epoch :=
  match system.rows claim.taskId with
  | none => (system,
      if stop = .answered then .unmatched else .failed, none)
  | some row =>
      let matched := row.starts claim && claim.queue = queueOf claim.taskId
      let applied := matched && decide (stop ≠ .failed false)
      (if applied then
          system.setRow claim.taskId (some { row with running := true })
        else system,
        if stop ≠ .answered then .failed
        else if matched then .matched else .unmatched,
        if applied then some (row.epoch claim.taskId) else none)

/-- The row a lock leaves: an owned row keeps its epoch. -/
def lockedRow (system : DispatchSystem) (taskId : String) (row : OwnedRow) :
    OwnedRow :=
  { (system.rows taskId).getD row with running := true }

/-- The rows after an acknowledgement ran to its end. -/
def runAck (system : DispatchSystem) (update : AckTaskUpdate)
    (stop : StatementEnd) : DispatchSystem × AckReply :=
  match system.rows update.taskId with
  | none => (system, .failed)
  | some row =>
      let matched := row.acknowledgedBy update &&
        update.queue = queueOf update.taskId
      (if matched && decide (stop ≠ .failed false) then
          system.setRow update.taskId none
        else system,
        if matched && decide (stop = .answered) then .acknowledged
        else .failed)

/-- One event; `none` where it cannot happen. -/
def step (system : DispatchSystem) : DispatchEvent → Option DispatchSystem
  | .claimed taskId row record =>
      if (system.rows taskId).isNone && system.freshEpoch (row.epoch taskId) &&
          (system.shared.records record).isNone then
        some { system.setRow taskId (some { row with running := false }) with
          shared := system.shared.insert record
            (.fresh worker (row.epoch taskId)) }
      else none
  | .lost taskId => some (system.setRow taskId none)
  | .retired => some { system with shared := system.shared.retire }
  | .foreign record markers =>
      if system.foreignMarks worker record markers then
        some { system with shared := system.shared.insert record markers }
      else none
  | .call n parts record =>
      if (system.dispatches n).isNone &&
          system.ownParts worker queueOf parts record then
        some (system.setDispatch n (Dispatch.call worker system.shared
          (system.heldBy worker parts record) parts record))
      else none
  | .polled n => do
      let dispatch ← system.dispatches n
      match dispatch.stage with
      | .created =>
          some (system.resume n (dispatch.admission worker token system.shared))
      | _ => none
  | .startRan n stop => do
      let dispatch ← system.dispatches n
      match dispatch.stage with
      | .starting claim none =>
          let (after, reply, epoch) := system.runStart queueOf claim stop
          some (after.setDispatch n { dispatch with
            held := epoch.or dispatch.held
            stage := .starting claim (some reply) })
      | .ended (some (.start claim)) =>
          let (after, _, _) := system.runStart queueOf claim stop
          some (after.setDispatch n { dispatch with stage := .ended none })
      | _ => none
  | .startReplied n => do
      let dispatch ← system.dispatches n
      match dispatch.stage with
      | .starting _ (some reply) =>
          some (system.resume n (dispatch.startReplied system.shared reply))
      | _ => none
  | .lockRan n stop row maxAttempts => do
      let dispatch ← system.dispatches n
      let applied := stop ≠ .refused ∧ stop ≠ .unknown false
      let owned (taskId : String) := system.lockedRow taskId row
      let acquire (taskId : String) (after : Dispatch) :=
        if applied then
          if (system.rows taskId).isSome ||
              system.freshEpoch (row.epoch taskId) then
            some ((system.setRow taskId (some (owned taskId))).setDispatch n
              { after with held := some ((owned taskId).epoch taskId) })
          else none
        else some (system.setDispatch n after)
      match dispatch.stage with
      | .locking taskId none =>
          let reply : LockReply := match stop with
            | .committed => .locked ⟨maxAttempts, some (owned taskId).lockAt,
                some worker, some (queueOf taskId)⟩ (owned taskId).attempts
            | .unknown _ => .unknown
            | .refused => .refused
          acquire taskId { dispatch with stage := .locking taskId (some reply) }
      | .ended (some (.lock taskId)) =>
          acquire taskId { dispatch with stage := .ended none }
      | _ => none
  | .lockReplied n fresh => do
      let dispatch ← system.dispatches n
      match dispatch.stage with
      | .locking _ (some reply) =>
          if (system.shared.records fresh).isNone then
            some (system.resume n
              (dispatch.lockReplied worker system.shared fresh reply))
          else none
      | _ => none
  | .handled n res => do
      let dispatch ← system.dispatches n
      match dispatch.stage with
      | .handling =>
          some (system.resume n (dispatch.handled worker system.shared res))
      | _ => none
  | .serialized n => do
      let dispatch ← system.dispatches n
      match dispatch.stage with
      | .serializing ackGuard res =>
          some (system.resume n
            (dispatch.serialized token system.shared ackGuard res))
      | _ => none
  | .ackRan n stop => do
      let dispatch ← system.dispatches n
      match dispatch.stage with
      | .acknowledging ackGuard update none =>
          let (after, reply) := system.runAck queueOf update stop
          some (after.setDispatch n { dispatch with
            stage := .acknowledging ackGuard update (some reply) })
      | .ended (some (.ack update)) =>
          let (after, _) := system.runAck queueOf update stop
          some (after.setDispatch n { dispatch with stage := .ended none })
      | _ => none
  | .ackReplied n => do
      let dispatch ← system.dispatches n
      match dispatch.stage with
      | .acknowledging ackGuard _ (some reply) =>
          some (system.resume n
            (dispatch.ackReplied system.shared ackGuard reply))
      | _ => none
  | .cancel n => do
      let dispatch ← system.dispatches n
      if dispatch.isOver then none
      else some (system.resume n (dispatch.cancel system.shared))

end DispatchSystem

end ApalisPostgres
