/-
The lock middleware and the acknowledgers of one process over one database.
A call is a future of several steps, and one step touches what the calls
share at most once: the local leases, the markers of the claim records, the
locks that serialize acknowledgements, the attempt counters, the database.
Between two steps of a call any other call may move.
-/
import ApalisPostgres.Dispatch
import ApalisPostgres.EventMachine
import ApalisPostgres.Operations

namespace ApalisPostgres

open RowStore

/-- `ClaimAttempt` with the markers every clone of it shares. -/
structure ClaimRecord where
  claim : ClaimAttempt
  done : Bool
  started : Bool
  startAttempted : Bool
deriving Repr, DecidableEq

/-- `record_claim`. -/
def ClaimRecord.fresh (claim : ClaimAttempt) : ClaimRecord :=
  ⟨claim, false, false, false⟩

/-- A start of this claim was attempted and none succeeded. -/
def ClaimRecord.startRefused (record : ClaimRecord) : Bool :=
  record.startAttempted && !record.started

/-- The identity of a shared attempt counter: the one a task came with, or
the one of the task a lock returned, named by the record made for it. -/
inductive Counter where
  | given (id : Nat)
  | locked (record : Nat)
deriving Repr, DecidableEq

/-- A task object as the services see it: the name of its worker context, its
parts, the identity of the record in its parts and of its counter. -/
structure Request where
  worker : Option String
  parts : Parts
  record : Option Nat
  counter : Counter
deriving Repr, DecidableEq

/-- What the calls of a process share.  `serial` is the call that holds the
lock of a record; `counted` and `handled` are the increments of the attempt
counters and the calls of the inner service, oldest first, each with the
dispatch that made it. -/
structure Memory where
  retired : String → Bool
  records : Nat → Option ClaimRecord
  serial : Nat → Option Nat
  counted : List (Nat × Counter)
  handled : List (Nat × Request)

def Memory.initial : Memory :=
  ⟨fun _ => false, fun _ => none, fun _ => none, [], []⟩

namespace Memory

def isAcknowledged (memory : Memory) (record : Option Nat) : Bool :=
  (record.bind memory.records).any ClaimRecord.done

def hasStarted (memory : Memory) (record : Option Nat) : Bool :=
  (record.bind memory.records).any ClaimRecord.started

def startAttempted (memory : Memory) (record : Option Nat) : Bool :=
  (record.bind memory.records).any ClaimRecord.startAttempted

def startRefused (memory : Memory) (record : Option Nat) : Bool :=
  (record.bind memory.records).any ClaimRecord.startRefused

/-- Change the markers of a record, if there is one. -/
def mark (change : ClaimRecord → ClaimRecord) (memory : Memory)
    (record : Option Nat) : Memory :=
  { memory with records := fun other =>
      if record = some other then (memory.records other).map change
      else memory.records other }

def markAcknowledged : Memory → Option Nat → Memory :=
  mark fun record => { record with done := true }

def markStarted : Memory → Option Nat → Memory :=
  mark fun record => { record with started := true }

def markStartAttempted : Memory → Option Nat → Memory :=
  mark fun record => { record with startAttempted := true }

/-- Store a new record under a free identity. -/
def insert (memory : Memory) (id : Nat) (record : ClaimRecord) : Memory :=
  { memory with records := fun other =>
      if other = id then some record else memory.records other }

/-- `WorkerLease::retire`. -/
def retire (memory : Memory) (name : String) : Memory :=
  { memory with retired := fun other =>
      other = name || memory.retired other }

/-- Take or give back the lock of a record. -/
def setSerial (memory : Memory) (record : Nat) (holder : Option Nat) :
    Memory :=
  { memory with serial := fun other =>
      if other = record then holder else memory.serial other }

/-- The record of the parts is the one under the given identity: a
`ClaimAttempt` is made by a claim only, and its clones share one record. -/
def carries (memory : Memory) (parts : Parts) : Option Nat → Bool
  | none => parts.claim.isNone
  | some id => (memory.records id).any fun record =>
      parts.claim = some record.claim

end Memory

/-- `ClaimObligation` in a process of many names: the name an armed guard
retires, and the record that is consulted when the obligation is dropped. -/
structure LeaseObligation where
  armed : Option String
  claim : Option Nat
deriving Repr, DecidableEq

def LeaseObligation.disarm (guard : LeaseObligation) : LeaseObligation :=
  { guard with armed := none }

/-- `Drop for ClaimObligation`, before its guard is dropped. -/
def LeaseObligation.settle (guard : LeaseObligation) (memory : Memory) :
    LeaseObligation :=
  if memory.isAcknowledged guard.claim then guard.disarm else guard

/-- What `LockTaskService` and `PgAck` carry of their storage: whether they
have its lease registry, and its token. -/
structure Binding where
  leases : Bool
  leaseToken : Option String
deriving Repr, DecidableEq

/-- `leases.for_worker`, where there is a registry and a name. -/
def Binding.forWorker (binding : Binding) (worker : Option String) :
    Option String :=
  if binding.leases then worker else none

/-- How a call ended.  A dispatch returns its refusals as `AbortError`. -/
inductive CallResult where
  | refused (error : Error)
  | started
  | returned (res : HandlerResult)
  | dropped

/-- Where a call stands; each constructor names what it does next.  A reply is
`none` until the statement ran. -/
inductive CallStage where
  | created
  | entering
  | checking (restart : Bool)
  | attempting (restart : Bool)
  | activating (restart : Bool)
  | starting (claim : StartClaim) (reply : Option (Except Error Bool))
  | locking (taskId worker : String) (reply : Option (Except Error Task))
  | admitted (passed : Request)
  | handling
  | refusing (error : Error)
  | settling (result : CallResult)
  | retiring (result : CallResult)
  | finished (result : CallResult)

/-- `LockTaskService::call` or `PgAck::start`. -/
inductive CallKind where
  | dispatch
  | start
deriving Repr, DecidableEq

/-- One call: `committed` is the database its own statement left when it
committed, `detached` the statement nobody waits for any more. -/
structure ServiceCall where
  kind : CallKind
  binding : Binding
  request : Request
  guard : LeaseObligation
  stage : CallStage
  committed : Option Db
  detached : Option Op

def Request.preclaimed (request : Request) : Bool :=
  isPreclaimed request.parts.ctx.lockBy request.worker
    request.parts.ctx.lockAt.isSome

namespace ServiceCall

def lease (call : ServiceCall) : Option String :=
  call.binding.forWorker call.request.worker

/-- `LockTaskService::call`: a preclaimed task carries its obligation from
here on, unless its acknowledgement already committed. -/
def call (memory : Memory) (binding : Binding) (request : Request) :
    ServiceCall :=
  let acknowledgedAtCall :=
    request.preclaimed && memory.isAcknowledged request.record
  let armed := if request.preclaimed && !acknowledgedAtCall
    then binding.forWorker request.worker else none
  ⟨.dispatch, binding, request, ⟨armed, request.record⟩, .created, none, none⟩

/-- `PgAck::start`: the owner of the claim is its worker, `start_claim` is
called at once, and the obligation is a plain guard. -/
def start (memory : Memory) (binding : Binding) (parts : Parts)
    (record : Option Nat) (counter : Counter) : ServiceCall :=
  let request : Request := ⟨parts.ctx.lockBy, parts, record, counter⟩
  match parts.ctx.lockBy with
  | none => ⟨.start, binding, request, ⟨none, none⟩,
      .finished (.refused (.missingField "lock_by")), none, none⟩
  | some worker => ⟨.start, binding, request,
      ⟨binding.forWorker (some worker), none⟩,
      .checking (memory.hasStarted record), none, none⟩

/-- A refusal before the handler; a dispatch counts it first. -/
def refuse (call : ServiceCall) (error : Error) : ServiceCall :=
  { call with stage := match call.kind with
    | .dispatch => .refusing error
    | .start => .settling (.refused error) }

/-- A refusal that owes nothing: the obligation is disarmed. -/
def refuseUnowed (call : ServiceCall) (error : Error) : ServiceCall :=
  { call with guard := call.guard.disarm }.refuse error

/-- `Error::already_acknowledged` of a start. -/
def alreadyAcknowledged (call : ServiceCall) : Error :=
  .alreadyAcknowledged (call.request.parts.taskId.getD "")
    (call.request.parts.ctx.queue.getD "") (call.request.worker.getD "")

/-- The first poll of a dispatch: the fields it needs, and the marker of a
preclaimed task or the lease of one that has to be locked. -/
def enter (call : ServiceCall) (memory : Memory) : ServiceCall :=
  match call.request.worker, call.request.parts.taskId with
  | none, _ => call.refuse (.missingField "worker_context")
  | some _, none => call.refuse (.missingField "task_id")
  | some worker, some taskId =>
      if call.request.preclaimed then
        if memory.isAcknowledged call.request.record then
          call.refuseUnowed call.alreadyAcknowledged
        else { call with stage := .entering }
      else if call.lease.any memory.retired then
        call.refuse (.workerRetired worker)
      else
        { call with
          guard := { call.guard with armed := call.lease }
          stage := .locking taskId worker none }

/-- `start_claim` once the name is known to be active: the fields of the
statement, and the statement. -/
def activate (call : ServiceCall) (memory : Memory) (restart : Bool) :
    ServiceCall :=
  let worker := call.request.worker.getD ""
  if call.lease.any memory.retired then
    call.refuseUnowed (.workerRetired worker)
  else
    match startClaim call.binding.leaseToken worker restart
        call.request.parts with
    | .error error => call.refuse error
    | .ok claim => { call with stage := .starting claim none }

/-- The answer of the start. -/
def started (call : ServiceCall) (memory : Memory) (claim : StartClaim) :
    Except Error Bool → Memory × ServiceCall
  | .error error => (memory, call.refuse error)
  | .ok false => (memory, call.refuseUnowed
      (.claimLost claim.taskId claim.queue claim.workerId))
  | .ok true => (memory.markStarted call.request.record,
      match call.kind with
      | .dispatch => { call with stage := .admitted call.request }
      | .start => { call with
          guard := call.guard.disarm
          stage := .settling .started })

/-- The request the lock path passes on: the context, the counter and the
record are those of the claim it made. -/
def relocked (call : ServiceCall) (fresh : Nat) (task : Task) : Request :=
  { call.request with
    parts := recordClaim { call.request.parts with
      ctx := task.parts.ctx
      attempt := task.parts.attempt }
    record := some fresh
    counter := .locked fresh }

/-- The answer of the lock; `fresh` is the identity of the record it makes.
The lock claims and starts in one statement. -/
def locked (call : ServiceCall) (memory : Memory) (fresh : Nat) :
    Except Error Task → Memory × ServiceCall
  | .error (.claimOutcomeUnknown operation source) =>
      (memory, call.refuse (.claimOutcomeUnknown operation source))
  | .error error => (memory, call.refuseUnowed error)
  | .ok task =>
      let passed := call.relocked fresh task
      (memory.insert fresh { ClaimRecord.fresh ⟨passed.parts.taskId,
          passed.parts.ctx.lockAt, passed.parts.attempt⟩ with started := true },
        { call with
          guard := { call.guard with claim := some fresh }
          stage := .admitted passed })

/-- One step of a call that waits for nobody. -/
def advance (n fresh : Nat) (memory : Memory) (call : ServiceCall) :
    Option (Memory × ServiceCall) :=
  match call.stage with
  | .created => some (memory, call.enter memory)
  | .entering => some (memory, { call with
      stage := .checking (memory.hasStarted call.request.record) })
  | .checking restart =>
      if memory.isAcknowledged call.request.record then
        some (memory, call.refuseUnowed call.alreadyAcknowledged)
      else some (memory, { call with stage := .attempting restart })
  | .attempting restart =>
      some (memory.markStartAttempted call.request.record,
        { call with stage := .activating restart })
  | .activating restart => some (memory, call.activate memory restart)
  | .starting claim (some reply) => some (call.started memory claim reply)
  | .starting _ none => none
  | .locking _ _ (some reply) =>
      if (memory.records fresh).isNone then
        some (call.locked memory fresh reply)
      else none
  | .locking _ _ none => none
  | .admitted passed =>
      some ({ memory with handled := memory.handled ++ [(n, passed)] },
        { call with stage := .handling })
  | .handling => none
  | .refusing error =>
      some ({ memory with
          counted := memory.counted ++ [(n, call.request.counter)] },
        { call with stage := .settling (.refused error) })
  | .settling result =>
      let guard := call.guard.settle memory
      some (memory, { call with
        guard := guard
        stage := if guard.armed.isSome then .retiring result
          else .finished result })
  | .retiring result =>
      some (call.guard.armed.elim memory memory.retire, { call with
        guard := call.guard.disarm
        stage := .finished result })
  | .finished _ => none

/-- The statement that is to run for the call. -/
def pending (call : ServiceCall) : Option Op :=
  match call.stage with
  | .starting claim none => some (.startTask claim)
  | .locking taskId worker none => some (.lockTaskWithToken taskId worker
      call.request.parts.ctx.queue call.binding.leaseToken)
  | _ => call.detached

/-- The statement of the call ended; `after` is the database it left. -/
def replied (call : ServiceCall) (after : Db)
    (outcome : Except Error Outcome) : Option ServiceCall :=
  let committed := match outcome with
    | .ok _ => some after
    | .error _ => none
  match call.stage with
  | .starting claim none =>
      match outcome with
      | .ok (.started matched) => some { call with
          stage := .starting claim (some (.ok matched))
          committed := committed }
      | .error error => some { call with
          stage := .starting claim (some (.error error)) }
      | .ok _ => none
  | .locking taskId worker none =>
      match outcome with
      | .ok (.tasks [task]) => some { call with
          stage := .locking taskId worker (some (.ok task))
          committed := committed }
      | .error error => some { call with
          stage := .locking taskId worker (some (.error error)) }
      | .ok _ => none
  | _ => some { call with detached := none }

/-- The future is dropped at an await; a statement that was issued runs on. -/
def cancel (call : ServiceCall) : Option ServiceCall :=
  match call.stage with
  | .created | .handling => some { call with stage := .settling .dropped }
  | .checking _ =>
      -- only `PgAck::start` stands here without having been polled
      match call.kind with
      | .start => some { call with stage := .settling .dropped }
      | .dispatch => none
  | .starting _ _ | .locking _ _ _ => some { call with
      stage := .settling .dropped
      detached := call.pending }
  | _ => none

end ServiceCall

/-- How an acknowledgement ended. -/
inductive AckResult where
  | returned (reply : Except Error Unit)
  | dropped

inductive AckStage where
  | created
  | waiting
  | locked
  | issuing (reply : Option (Except Error Unit))
  | releasing (result : AckResult)
  | settling (result : AckResult)
  | retiring (result : AckResult)
  | finished (result : AckResult)

/-- One call of `PgAck::ack`: `outcomeOf` is the dispatch whose outcome it
acknowledges, if it stands outside the middleware; `issued` that it reached
`ack_task`. -/
structure AckCall where
  binding : Binding
  res : HandlerResult
  parts : Parts
  record : Option Nat
  outcomeOf : Option Nat
  guard : LeaseObligation
  stage : AckStage
  issued : Bool
  detached : Bool

namespace AckCall

/-- `PgAck::ack` before its future is polled. -/
def call (binding : Binding) (res : HandlerResult) (parts : Parts)
    (record outcomeOf : Option Nat) : AckCall :=
  ⟨binding, res, parts, record, outcomeOf,
    ⟨binding.forWorker parts.ctx.lockBy, record⟩, .created, false, false⟩

/-- The refusal of a repeated acknowledgement. -/
def repeated (ack : AckCall) : Error :=
  match ack.parts.taskId, ack.parts.ctx.queue, ack.parts.ctx.lockBy with
  | none, _, _ => .missingField "task_id"
  | some _, none, _ => .missingField "queue"
  | some _, some _, none => .missingField "lock_by"
  | some taskId, some queue, some worker =>
      .alreadyAcknowledged taskId queue worker

/-- The acknowledgement holds the lock of its record. -/
def checkMarker (ack : AckCall) (memory : Memory) : AckCall :=
  if memory.isAcknowledged ack.record then
    { ack with
      guard := ack.guard.disarm
      stage := .releasing (.returned (.error ack.repeated)) }
  else
    match ackUpdate ack.binding.leaseToken ack.res ack.parts with
    | .error error => { ack with
        stage := .releasing (.returned (.error error)) }
    | .ok _ => { ack with
        stage := .issuing none
        issued := true }

/-- One step of an acknowledgement that waits for nobody. -/
def advance (k : Nat) (memory : Memory) (ack : AckCall) :
    Option (Memory × AckCall) :=
  match ack.stage with
  | .created =>
      if memory.startRefused ack.record then
        some (memory, { ack with
          guard := ack.guard.disarm
          stage := .settling (.returned (.ok ())) })
      else some (memory, { ack with stage := .waiting })
  | .waiting =>
      match ack.record with
      | none => some (memory, { ack with stage := .locked })
      | some record =>
          if (memory.serial record).isNone then
            some (memory.setSerial record (some k), { ack with
              stage := .locked })
          else none
  | .locked => some (memory, ack.checkMarker memory)
  | .issuing none => none
  | .issuing (some (.ok ())) =>
      some (memory.markAcknowledged ack.record, { ack with
        guard := ack.guard.disarm
        stage := .releasing (.returned (.ok ())) })
  | .issuing (some (.error error)) =>
      some (memory, { ack with
        stage := .releasing (.returned (.error error)) })
  | .releasing result =>
      let released := match ack.record with
        | none => memory
        | some record =>
            if memory.serial record = some k then memory.setSerial record none
            else memory
      some (released, { ack with stage := .settling result })
  | .settling result =>
      let guard := ack.guard.settle memory
      some (memory, { ack with
        guard := guard
        stage := if guard.armed.isSome then .retiring result
          else .finished result })
  | .retiring result =>
      some (ack.guard.armed.elim memory memory.retire, { ack with
        guard := ack.guard.disarm
        stage := .finished result })
  | .finished _ => none

/-- The transaction of the acknowledgement. -/
def op (ack : AckCall) : Op :=
  .acknowledge ack.binding.leaseToken ack.res ack.parts

/-- The transaction is to run. -/
def pending (ack : AckCall) : Bool :=
  match ack.stage with
  | .issuing none => true
  | _ => ack.detached

/-- The transaction ended. -/
def replied (ack : AckCall) (outcome : Except Error Outcome) : AckCall :=
  match ack.stage with
  | .issuing none => { ack with
      stage := .issuing (some (outcome.map fun _ => ())) }
  | _ => { ack with detached := false }

/-- The future is dropped at an await; an issued transaction runs on. -/
def cancel (ack : AckCall) : Option AckCall :=
  match ack.stage with
  | .created | .waiting | .issuing _ => some { ack with
      stage := .releasing .dropped
      detached := ack.pending }
  | _ => none

end AckCall

/-- How a transaction was answered: by its own outcome, or by an error of the
connection or the executor, which leaves open whether it was applied. -/
inductive Answer where
  | answered
  | failed (applied : Bool) (error : Error)

/-- A lock that was applied is never reported as rejected. -/
def Answer.possible : Op → Answer → Bool
  | .lockTaskWithToken .., .failed true (.claimOutcomeUnknown ..) => true
  | .lockTaskWithToken .., .failed true _ => false
  | _, _ => true

/-- A transaction under its answer: the system it left, the outcome its caller
sees and the effects it committed. -/
structure Answered where
  system : System
  outcome : Except Error Outcome
  effects : List Effect

variable (rows : TaskConversion)

def System.transact (system : System) (invocation : Invocation) :
    Answer → Answered
  | .answered => ⟨system.step rows invocation,
      (system.execute rows invocation).outcome,
      (system.execute rows invocation).effects⟩
  | .failed true error => ⟨system.step rows invocation, .error error,
      (system.execute rows invocation).effects⟩
  | .failed false error => ⟨system, .error error, []⟩

/-- What the transaction of an acknowledgement wrote. -/
structure AckWrite where
  call : Nat
  record : Option Nat
  effects : List Effect

/-- The process: the database with everybody's transactions, the memory, and
the calls by identity. -/
structure Process where
  system : System
  memory : Memory
  calls : Nat → Option ServiceCall
  acks : Nat → Option AckCall
  writes : List AckWrite

def Process.initial : Process :=
  ⟨.initial, .initial, fun _ => none, fun _ => none, []⟩

inductive ProcessEvent where
  /-- a transaction of anybody else -/
  | database (invocation : Invocation)
  /-- a claim returned a task and recorded it -/
  | claimed (record : Nat) (claim : ClaimAttempt)
  /-- a name is retired by something other than these calls -/
  | retired (name : String)
  | dispatch (n : Nat) (binding : Binding) (request : Request)
  | start (n : Nat) (binding : Binding) (parts : Parts) (record : Option Nat)
      (counter : Counter)
  | advance (n fresh : Nat)
  | statement (n : Nat) (env : Nat → Env) (answer : Answer)
  | returned (n : Nat) (res : HandlerResult)
  | cancel (n : Nat)
  | ack (k : Nat) (binding : Binding) (res : HandlerResult) (parts : Parts)
      (record : Option Nat)
  /-- an acknowledger outside the middleware acknowledges an outcome; a
  refusal is displayed as the given text -/
  | ackOutcome (k n : Nat) (binding : Binding) (attempt : Nat)
      (message : String)
  | advanceAck (k : Nat)
  | ackStatement (k : Nat) (env : Nat → Env) (answer : Answer)
  | cancelAck (k : Nat)

namespace Process

def setCall (process : Process) (n : Nat) (call : ServiceCall) : Process :=
  { process with calls := fun other =>
      if other = n then some call else process.calls other }

def setAck (process : Process) (k : Nat) (ack : AckCall) : Process :=
  { process with acks := fun other =>
      if other = k then some ack else process.acks other }

/-- The outcome of a dispatch as an acknowledger outside sees it. -/
def outcomeOf (call : ServiceCall) (message : String) :
    Option HandlerResult :=
  match call.kind, call.stage with
  | .dispatch, .finished (.refused _) => some (.err message)
  | .dispatch, .finished (.returned res) => some res
  | _, _ => none

/-- One event; `none` where it cannot happen. -/
def step (process : Process) : ProcessEvent → Option Process
  | .database invocation =>
      some { process with system := process.system.step rows invocation }
  | .claimed record claim =>
      if (process.memory.records record).isNone then
        some { process with
          memory := process.memory.insert record (.fresh claim) }
      else none
  | .retired name =>
      some { process with memory := process.memory.retire name }
  | .dispatch n binding request =>
      if (process.calls n).isNone &&
          process.memory.carries request.parts request.record then
        some (process.setCall n
          (ServiceCall.call process.memory binding request))
      else none
  | .start n binding parts record counter =>
      if (process.calls n).isNone &&
          process.memory.carries parts record then
        some (process.setCall n
          (ServiceCall.start process.memory binding parts record counter))
      else none
  | .advance n fresh => do
      let call ← process.calls n
      let (memory, next) ← call.advance n fresh process.memory
      some ({ process with memory := memory }.setCall n next)
  | .statement n env answer => do
      let call ← process.calls n
      let op ← call.pending
      if answer.possible op then do
        let ended := process.system.transact rows ⟨op, env⟩ answer
        let next ← call.replied ended.system.db ended.outcome
        some ({ process with system := ended.system }.setCall n next)
      else none
  | .returned n res => do
      let call ← process.calls n
      match call.stage with
      | .handling => some (process.setCall n { call with
          guard := call.guard.disarm
          stage := .settling (.returned res) })
      | _ => none
  | .cancel n => do
      let call ← process.calls n
      let next ← call.cancel
      some (process.setCall n next)
  | .ack k binding res parts record =>
      if (process.acks k).isNone &&
          process.memory.carries parts record then
        some (process.setAck k (AckCall.call binding res parts record none))
      else none
  | .ackOutcome k n binding attempt message => do
      let call ← process.calls n
      let res ← outcomeOf call message
      if (process.acks k).isNone then
        some (process.setAck k (AckCall.call binding res
          { call.request.parts with attempt := attempt } call.request.record
          (some n)))
      else none
  | .advanceAck k => do
      let ack ← process.acks k
      let (memory, next) ← ack.advance k process.memory
      some ({ process with memory := memory }.setAck k next)
  | .ackStatement k env answer => do
      let ack ← process.acks k
      if ack.pending then
        let ended := process.system.transact rows ⟨ack.op, env⟩ answer
        let after : Process := { process with
          system := ended.system
          writes := process.writes ++ [⟨k, ack.record, ended.effects⟩] }
        some (after.setAck k (ack.replied ended.outcome))
      else none
  | .cancelAck k => do
      let ack ← process.acks k
      let next ← ack.cancel
      some (process.setAck k next)

/-- The process as a machine. -/
def machine : Machine Process ProcessEvent where
  Initial process := process = .initial
  step := step rows

end Process

end ApalisPostgres
