/-
The streams of a worker over the database.  A task stream registers its name
before it drains its fetcher, a heartbeat stream waits for the registration and
then renews it and sweeps, and both run their SQL in blocking calls that go on
when the stream that issued them is dropped.
-/
import ApalisPostgres.LeaseRuns
import ApalisPostgres.Ownership
import ApalisPostgres.PruneWorkers

namespace ApalisPostgres

open RowStore

namespace Fetcher

/-- What a storage and a worker name fix for the streams of the name. -/
structure WorkerConfig where
  worker : String
  queue : String
  storageName : String
  layers : String
  leaseToken : String
  keepAlive : Duration
  reenqueueOrphanedAfter : Duration
deriving Repr, DecidableEq

/-- A renewal period that is not shorter than the stale deadline is refused. -/
def validateLiveness (config : WorkerConfig) : Except Error Unit :=
  if config.keepAlive = 0 then
    .error (.invalidArgument
      "keep_alive must be greater than zero: a zero interval renews the heartbeat in a busy loop")
  else if config.reenqueueOrphanedAfter ≤ config.keepAlive then
    .error (.invalidArgument
      ("keep_alive (" ++ debugDuration config.keepAlive ++
        ") must be shorter than reenqueue_orphaned_after (" ++
        debugDuration config.reenqueueOrphanedAfter ++
        "): a worker would count as stale before its next heartbeat and its own running tasks would be recovered as orphans"))
  else .ok ()

/-- A claim the fetcher of a task stream asks for. -/
inductive ClaimRequest where
  | poll (bufferSize : Nat)
  | ids (ids : List String)
deriving Repr, DecidableEq

/-- The closure of a blocking call.  The closure of `initial_heartbeat` runs
two transactions, the sweep and then the registration. -/
inductive Work where
  | startup (swept : Bool)
  | claim (request : ClaimRequest)
  | renewal
  | sweep
  | release
deriving Repr, DecidableEq

/-- The transaction the closure runs next. -/
def Work.op (config : WorkerConfig) : Work → Op
  | .startup false | .sweep =>
      .reenqueueOrphaned config.queue config.reenqueueOrphanedAfter
  | .startup true =>
      .registerWorker config.worker config.queue config.storageName
        config.layers config.leaseToken config.reenqueueOrphanedAfter
  | .claim (.poll bufferSize) =>
      .fetchNext config.worker config.queue bufferSize (some config.leaseToken)
  | .claim (.ids ids) =>
      .queueById config.queue ids config.worker (some config.leaseToken)
  | .renewal => .keepAlive config.worker config.queue config.leaseToken
  | .release => .releaseWorker config.queue config.worker config.leaseToken

/-- Who issued a call. -/
inductive Issuer where
  | task (n : Nat)
  | beat (n : Nat)
  | releaser
deriving Repr, DecidableEq

/-- A call on the blocking pool, whether anyone still waits for it or not. -/
structure Call where
  issuer : Issuer
  work : Work
  result : Option (Except Error Unit)

def Call.isResolved (call : Call) : Bool := call.result.isSome

/-- A blocking call starts without a result. -/
def Call.issue (issuer : Issuer) (work : Work) : Call := ⟨issuer, work, none⟩

/-- The call after the transaction it ran ended: a sweep of the startup that
succeeded is followed by the registration. -/
def Call.advance (call : Call) (outcome : Except Error Outcome) : Call :=
  match call.work, outcome with
  | .startup false, .ok _ => { call with work := .startup true }
  | _, _ => { call with result := some (outcome.map fun _ => ()) }

/-- What a call reports when its statements do not decide: no connection, a
lost one, or a blocking task that did not complete. -/
inductive Disruption where
  | pool (message : String)
  | database (operation : String) (source : DieselError)
  | blocking (message : String)

def Disruption.error : Disruption → Error
  | .pool message => .pool message
  | .database operation source => .database operation source
  | .blocking message => .blocking message

def Call.fail (call : Call) (disruption : Disruption) : Call :=
  { call with result := some (.error disruption.error) }

/-- The answer of a stream, its next state and the calls it issued. -/
structure Polled (σ T : Type) where
  state : σ
  issued : List Call
  answer : ItemPoll T

/-- The result of a call, once it is there. -/
def resultOf (calls : List Call) (n : Nat) : Option (Except Error Unit) :=
  calls[n]?.bind Call.result

/-- `register_then_stream`: the registration, then the body it gates. -/
inductive Gate where
  | unpolled
  | registering (call : Nat)
  | opened
  | refused
  | ended
deriving Repr, DecidableEq

/-- What the body does when it is polled. -/
structure BodyPoll where
  claims : List ClaimRequest
  answer : ItemPoll (Option Task)

def ItemPoll.isEnded {T : Type} : ItemPoll T → Bool
  | .ended => true
  | _ => false

/-- Poll the gated stream of the task stream `n`. -/
def Gate.poll (config : WorkerConfig) (calls : List Call) (n : Nat)
    (body : BodyPoll) : Gate → Polled Gate (Option Task)
  | .unpolled =>
      match validateLiveness config with
      | .error error => ⟨.refused, [], .item (.error error)⟩
      | .ok () =>
          ⟨.registering calls.length, [.issue (.task n) (.startup false)],
            .pending⟩
  | .registering call =>
      match resultOf calls call with
      | none => ⟨.registering call, [], .pending⟩
      | some (.ok ()) => ⟨.opened, [], .item (.ok none)⟩
      | some (.error error) => ⟨.refused, [], .item (.error error)⟩
  | .opened =>
      ⟨if body.answer.isEnded then .ended else .opened,
        body.claims.map fun request => .issue (.task n) (.claim request),
        body.answer⟩
  | .refused | .ended => ⟨.ended, [], .ended⟩

/-- One of the two periodic streams of a heartbeat. -/
inductive Arm where
  | sleeping
  | calling (call : Nat)
deriving Repr, DecidableEq

/-- Poll a periodic stream: `elapsed` says whether its timer has fired. -/
def Arm.poll (calls : List Call) (n : Nat) (work : Work) (elapsed : Bool) :
    Arm → Polled Arm Unit
  | .sleeping =>
      if elapsed then
        ⟨.calling calls.length, [.issue (.beat n) work], .pending⟩
      else ⟨.sleeping, [], .pending⟩
  | .calling call =>
      match resultOf calls call with
      | none => ⟨.calling call, [], .pending⟩
      | some result => ⟨.sleeping, [], .item result⟩

/-- The stream behind the lease of a heartbeat. -/
inductive Beats where
  | waiting (settledBefore : Nat)
  | beating (renewal sweep : Arm)
deriving Repr, DecidableEq

/-- What the timers and `select` do in one poll of a heartbeat. -/
structure BeatPoll where
  sweepFirst : Bool
  renewalElapsed : Bool
  sweepElapsed : Bool

/-- `select` answers with the arm it polls first, or else with the other. -/
def pollArms (calls : List Call) (n : Nat) (poll : BeatPoll)
    (renewal sweep : Arm) : Polled Beats Unit :=
  if poll.sweepFirst then
    let first := sweep.poll calls n .sweep poll.sweepElapsed
    match first.answer with
    | .pending =>
        let second := renewal.poll (calls ++ first.issued) n .renewal
          poll.renewalElapsed
        ⟨.beating second.state first.state, first.issued ++ second.issued,
          second.answer⟩
    | answer => ⟨.beating renewal first.state, first.issued, answer⟩
  else
    let first := renewal.poll calls n .renewal poll.renewalElapsed
    match first.answer with
    | .pending =>
        let second := sweep.poll (calls ++ first.issued) n .sweep
          poll.sweepElapsed
        ⟨.beating first.state second.state, first.issued ++ second.issued,
          second.answer⟩
    | answer => ⟨.beating first.state sweep, first.issued, answer⟩

/-- `Registration::is_settled`. -/
def Lease.isSettled (lease : Lease) (settledBefore : Nat) : Bool :=
  lease.registered || lease.retired ||
    (decide (settledBefore < lease.settledRegistrations) &&
      decide (lease.pendingRegistrations = 0))

/-- Poll the beats of the heartbeat stream `n`. -/
def Beats.poll (calls : List Call) (n : Nat) (lease : Lease)
    (poll : BeatPoll) : Beats → Polled Beats Unit
  | .waiting settledBefore =>
      if lease.isSettled settledBefore then
        pollArms calls n poll .sleeping .sleeping
      else ⟨.waiting settledBefore, [], .pending⟩
  | .beating renewal sweep => pollArms calls n poll renewal sweep

/-- `Backend::poll_compact`. -/
structure TaskStream where
  outer : LeaseStream (Option Task)
  inner : Gate

/-- `heartbeat_stream`.  A configuration that is refused leaves a stream of one
error, without a lease. -/
inductive BeatStream where
  | refused (error : Error) (answers : List (ItemPoll Unit)) (dropped : Bool)
  | leased (outer : LeaseStream Unit) (inner : Beats)

def BeatStream.new (config : WorkerConfig) (lease : Lease) : BeatStream :=
  match validateLiveness config with
  | .error error => .refused error [] false
  | .ok () => .leased (.new false) (.waiting lease.settledRegistrations)

def BeatStream.dropped : BeatStream → Bool
  | .refused _ _ dropped => dropped
  | .leased outer _ => outer.dropped

/-- One transaction that ended, and the call it ran in, if it was ours. -/
structure Transacted where
  call : Option Nat
  op : Op
  outcome : Except Error Outcome

/-- The database, the local lease of a name, and the streams and calls made
under it. -/
structure WorkerSystem where
  db : Db
  lease : Lease
  tasks : List TaskStream
  beats : List BeatStream
  calls : List Call
  ledger : List Transacted

inductive WorkerEvent where
  | openTask
  | openBeat
  | pollTask (n : Nat) (body : BodyPoll) (meanwhile : Bool)
  | pollBeat (n : Nat) (poll : BeatPoll) (meanwhile : Bool)
  | dropTask (n : Nat)
  | dropBeat (n : Nat)
  | retire
  | release
  | transact (n : Nat) (env : Nat → Env)
  | disrupt (n : Nat) (disruption : Disruption)
  | lose (n : Nat) (env : Nat → Env) (disruption : Disruption)
  | other (invocation : Invocation)

/-- The operations that only the streams and the releaser of the name issue:
nobody else holds its token. -/
def WorkerConfig.owns (config : WorkerConfig) : Op → Bool
  | .registerWorker worker queue _ _ token _ | .keepAlive worker queue token
  | .releaseWorker queue worker token =>
      worker = config.worker && queue = config.queue &&
        token = config.leaseToken
  | .fetchNext worker queue _ token | .queueById queue _ worker token =>
      worker = config.worker && queue = config.queue &&
        token = some config.leaseToken
  | _ => false

namespace WorkerSystem

/-- Poll a task stream.  The stream inside is polled only while the lease is
active. -/
def pollTask (config : WorkerConfig) (system : WorkerSystem) (n : Nat)
    (stream : TaskStream) (body : BodyPoll) (meanwhile : Bool) :
    WorkerSystem :=
  if stream.outer.ended || system.lease.retired then
    let after := stream.outer.pollNext system.lease .pending meanwhile
    { system with
      lease := after.1
      tasks := system.tasks.set n { stream with outer := after.2 } }
  else
    let polled := stream.inner.poll config system.calls n body
    let after := stream.outer.pollNext system.lease polled.answer meanwhile
    { system with
      lease := after.1
      tasks := system.tasks.set n ⟨after.2, polled.state⟩
      calls := system.calls ++ polled.issued }

/-- Poll a heartbeat stream.  A retirement during the poll is one its wait for
the registration sees. -/
def pollBeat (system : WorkerSystem) (n : Nat) (stream : BeatStream)
    (poll : BeatPoll) (meanwhile : Bool) : WorkerSystem :=
  match stream with
  | .refused error answers dropped =>
      let answer := if answers.isEmpty then .item (.error error) else .ended
      { system with
        beats := system.beats.set n
          (.refused error (answers ++ [answer]) dropped) }
  | .leased outer inner =>
      if outer.ended || system.lease.retired then
        let after := outer.pollNext system.lease .pending meanwhile
        { system with
          lease := after.1
          beats := system.beats.set n (.leased after.2 inner) }
      else
        let during := if meanwhile then system.lease.retire else system.lease
        let polled := inner.poll system.calls n during poll
        let after := outer.pollNext system.lease polled.answer meanwhile
        { system with
          lease := after.1
          beats := system.beats.set n (.leased after.2 polled.state)
          calls := system.calls ++ polled.issued }

/-- Dropping a stream leaves the calls it issued running. -/
def dropTask (system : WorkerSystem) (n : Nat) (stream : TaskStream) :
    WorkerSystem :=
  let after := stream.outer.drop system.lease
  { system with
    lease := after.1
    tasks := system.tasks.set n { stream with outer := after.2 } }

def dropBeat (system : WorkerSystem) (n : Nat) (stream : BeatStream) :
    WorkerSystem :=
  match stream with
  | .refused error answers _ =>
      { system with
        beats := system.beats.set n (.refused error answers true) }
  | .leased outer inner =>
      let after := outer.drop system.lease
      { system with
        lease := after.1
        beats := system.beats.set n (.leased after.2 inner) }

variable (rows : TaskConversion)

/-- Run one transaction on the database. -/
def execute (system : WorkerSystem) (op : Op) (env : Nat → Env) :
    BodyEnd Db Effect Error Outcome :=
  (program rows op).execute sql env system.db

/-- One transaction of a call, or of somebody else, ended. -/
def commit (system : WorkerSystem) (caller : Option Nat) (op : Op)
    (env : Nat → Env) : WorkerSystem :=
  let stop := system.execute rows op env
  { system with
    db := stop.view
    ledger := system.ledger ++ [⟨caller, op, stop.outcome⟩] }

/-- `PgReleaser::release_worker`: the name is retired before the release is
sent. -/
def release (system : WorkerSystem) : WorkerSystem :=
  { system with
    lease := system.lease.retire
    calls := system.calls ++ [.issue .releaser .release] }

/-- Change what an entry stands for, unless the entry is over. -/
def onLive {σ : Type} (entries : List σ) (n : Nat) (isOver : σ → Bool)
    (change : σ → WorkerSystem) : Option WorkerSystem :=
  match entries[n]? with
  | some entry => if isOver entry then none else some (change entry)
  | none => none

def setCall (system : WorkerSystem) (n : Nat) (call : Call) : WorkerSystem :=
  { system with calls := system.calls.set n call }

def step (config : WorkerConfig) (system : WorkerSystem) :
    WorkerEvent → Option WorkerSystem
  | .openTask =>
      some { system with tasks := system.tasks ++ [⟨.new true, .unpolled⟩] }
  | .openBeat =>
      some { system with
        beats := system.beats ++ [.new config system.lease] }
  | .pollTask n body meanwhile =>
      onLive system.tasks n (fun stream => stream.outer.dropped)
        fun stream => system.pollTask config n stream body meanwhile
  | .pollBeat n poll meanwhile =>
      onLive system.beats n BeatStream.dropped
        fun stream => system.pollBeat n stream poll meanwhile
  | .dropTask n =>
      onLive system.tasks n (fun stream => stream.outer.dropped)
        fun stream => system.dropTask n stream
  | .dropBeat n =>
      onLive system.beats n BeatStream.dropped
        fun stream => system.dropBeat n stream
  | .retire => some { system with lease := system.lease.retire }
  | .release => some system.release
  | .transact n env =>
      onLive system.calls n Call.isResolved fun call =>
        let op := call.work.op config
        (system.commit rows (some n) op env).setCall n
          (call.advance (system.execute rows op env).outcome)
  | .disrupt n disruption =>
      onLive system.calls n Call.isResolved fun call =>
        system.setCall n (call.fail disruption)
  | .lose n env disruption =>
      onLive system.calls n Call.isResolved fun call =>
        (system.commit rows (some n) (call.work.op config) env).setCall n
          (call.fail disruption)
  | .other invocation =>
      if config.owns invocation.op then none
      else some (system.commit rows none invocation.op invocation.env)

/-- The streams of a name, over any database. -/
def machine (config : WorkerConfig) :
    Machine WorkerSystem WorkerEvent where
  Initial system := ∃ db, system = ⟨db, .new config.worker, [], [], [], []⟩
  step := step rows config

end WorkerSystem

end Fetcher

end ApalisPostgres
