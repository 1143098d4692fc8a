/-
The operations of the crate as one alphabet, and the system in which each of
them runs as one transaction.  The system keeps what every transaction
committed, so that a property of a whole run is a property of its record.
-/
import ApalisPostgres.Queries

namespace ApalisPostgres

open RowStore

/-- The operations that write `apalis.jobs` or `apalis.workers`. -/
inductive Op where
  | pushTasksOnConn (queue : String) (batch : List NewJob)
  | fetchNext (worker queue : String) (bufferSize : Nat)
      (leaseToken : Option String)
  | queueById (queue : String) (ids : List String) (worker : String)
      (leaseToken : Option String)
  | getJobs (worker queue : String) (count : Option Nat)
  | startTask (claim : StartClaim)
  | lockTaskWithToken (taskId worker : String)
      (queue leaseToken : Option String)
  | acknowledge (leaseToken : Option String) (res : HandlerResult)
      (parts : Parts)
  | failUndecodableTask (taskId worker : String) (lockAt attempts : Int)
      (error : String) (leaseToken : Option String)
  | releaseWorker (queue worker leaseToken : String)
  | reenqueueOrphaned (queue : String) (reenqueueOrphanedAfter : Duration)
  | registerWorker (worker queue storage layers leaseToken : String)
      (staleAfter : Duration)
  | keepAlive (worker queue leaseToken : String)
  | registerWorkerAdmin (worker queue : String)
  | pruneWorkersBatch (queue : String) (staleFor : Duration) (limit : Nat)
  | purgeTerminalBatch (queue : String) (cutoff : Timestamp) (limit : Nat)

/-- Claims that present a token check their registration. -/
def TokenBound : Op → Prop
  | .fetchNext _ _ _ token => token.isSome = true
  | .queueById _ _ _ token => token.isSome = true
  | .lockTaskWithToken _ _ _ token => token.isSome = true
  | .getJobs _ _ _ => False
  | _ => True

/-- What an operation hands back to its caller. -/
inductive Outcome where
  | done
  | count (affected : Nat)
  | started (matched : Bool)
  | tasks (claimed : List Task)
  | rows (claimed : List JobRow)

/-- The transaction body of an operation. -/
def program (rows : RowReader) : Op → Tx Outcome
  | .pushTasksOnConn queue batch => do
      pushTasksOnConn queue batch
      return .done
  | .fetchNext worker queue bufferSize leaseToken => do
      return .tasks (← fetchNext rows worker queue bufferSize leaseToken)
  | .queueById queue ids worker leaseToken => do
      return .tasks (← queueById rows queue ids worker leaseToken)
  | .getJobs worker queue count => do
      return .rows (← getJobs worker queue count)
  | .startTask claim => do
      return .started (← startTask claim)
  | .lockTaskWithToken taskId worker queue leaseToken => do
      return .tasks [← lockTaskWithToken rows taskId worker queue leaseToken]
  | .acknowledge leaseToken res parts => do
      acknowledge leaseToken res parts
      return .done
  | .failUndecodableTask taskId worker lockAt attempts error leaseToken => do
      return .count (← failUndecodableTask taskId worker lockAt attempts error
        leaseToken)
  | .releaseWorker queue worker leaseToken => do
      return .count (← releaseWorker queue worker leaseToken)
  | .reenqueueOrphaned queue reenqueueOrphanedAfter => do
      return .count (← reenqueueOrphaned queue reenqueueOrphanedAfter)
  | .registerWorker worker queue storage layers leaseToken staleAfter => do
      registerWorker worker queue storage layers leaseToken staleAfter
      return .done
  | .keepAlive worker queue leaseToken => do
      keepAlive worker queue leaseToken
      return .done
  | .registerWorkerAdmin worker queue => do
      registerWorkerAdmin worker queue
      return .done
  | .pruneWorkersBatch queue staleFor limit => do
      return .count (← pruneWorkersBatch queue staleFor limit).deleted
  | .purgeTerminalBatch queue cutoff limit => do
      return .count (← purgeTerminalBatch queue cutoff limit)

/-- One call: the operation, and what its statements observe. -/
structure Invocation where
  op : Op
  env : Nat → Env

/-- One finished transaction; a refused one committed no effect. -/
structure Commit where
  op : Op
  effects : List Effect
  outcome : Except Error Outcome

/-- The database and the transactions that led to it, oldest first. -/
structure System where
  db : Db
  commits : List Commit

def System.initial : System := ⟨.empty, []⟩

variable (rows : TaskConversion)

/-- Execute one operation as one transaction. -/
def System.execute (system : System) (invocation : Invocation) :
    BodyEnd Db Effect Error Outcome :=
  (program rows invocation.op).execute sql invocation.env system.db

/-- Run one operation and record what it committed. -/
def System.step (system : System) (invocation : Invocation) : System :=
  let stop := system.execute rows invocation
  ⟨stop.view,
    system.commits ++ [⟨invocation.op, stop.effects, stop.outcome⟩]⟩

/-- Nobody else is active, and every statement reads the same instant. -/
def quietEnv : Nat → Env := fun _ =>
  ⟨1500000, fun _ => false, fun _ => false, fun _ => true, true⟩

/-- The text of a ULID. -/
def sampleId : String := "01ARZ3NDEKTSV4RRFFQ69G5FAV"

/-- A task with a budget of two attempts, due since the epoch. -/
def sampleTask : NewJob :=
  ⟨sampleId, [], 2, 0, 0, .obj [], none⟩

/-- The states of every run whose operations are admitted where they occur. -/
inductive Reachable (admits : System → Op → Prop) : System → Prop where
  | initial : Reachable admits .initial
  | step {system : System} (hsystem : Reachable admits system)
      (invocation : Invocation) (hadmits : admits system invocation.op) :
      Reachable admits (system.step rows invocation)

/-- Every effect of the run, in commit order. -/
def System.history (system : System) : List Effect :=
  system.commits.flatMap Commit.effects

@[simp] theorem System.initial_db : System.initial.db = .empty := rfl

@[simp] theorem System.initial_commits : System.initial.commits = [] := rfl

@[simp] theorem System.initial_history : System.initial.history = [] := rfl

@[simp] theorem System.step_db (system : System) (invocation : Invocation) :
    (system.step rows invocation).db =
      (system.execute rows invocation).view := rfl

@[simp] theorem System.step_commits (system : System)
    (invocation : Invocation) :
    (system.step rows invocation).commits = system.commits ++
      [⟨invocation.op, (system.execute rows invocation).effects,
        (system.execute rows invocation).outcome⟩] := rfl

@[simp] theorem System.step_history (system : System)
    (invocation : Invocation) :
    (system.step rows invocation).history =
      system.history ++ (system.execute rows invocation).effects := by
  simp [System.history]

end ApalisPostgres
