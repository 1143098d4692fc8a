/-
The error values of the crate, and the bounded text under which a failure is
persisted in `last_result`.
-/
import ApalisPostgres.Schema

namespace ApalisPostgres

/-- `diesel::result::DatabaseErrorKind`. -/
inductive DatabaseErrorKind where
  | uniqueViolation
  | foreignKeyViolation
  | unableToSendCommand
  | serializationFailure
  | readOnlyTransaction
  | restrictViolation
  | notNullViolation
  | checkViolation
  | exclusionViolation
  | closedConnection
  | unknown
deriving Repr, DecidableEq

/-- `diesel::result::Error`, as far as the crate tells its variants apart. -/
inductive DieselError where
  | databaseError (kind : DatabaseErrorKind) (message : String)
  | rollbackErrorOnCommit (rollbackError commitError : DieselError)
  | brokenTransactionManager
  | other (message : String)
deriving Repr, DecidableEq

/-- `crate::Error`.  Causes that only carry a foreign error value keep its
text. -/
inductive Error where
  | sinkFailed
  | database (operation : String) (source : DieselError)
  | pool (message : String)
  | blocking (message : String)
  | claimOutcomeUnknown (operation : String) (source : Error)
  | row (message : String)
  | invalidArgument (message : String)
  | idempotencyConflict (jobType : String) (conflictingKeys : List String)
      (total : Nat)
  | decode (message : String)
  | json (message : String)
  | missingField (field : String)
  | alreadyRegistered (workerId queue : String)
  | taskNotFound (operation taskId queue hint : String)
  | staleAcknowledgement (taskId queue workerId : String)
  | claimLost (taskId queue workerId : String)
  | alreadyAcknowledged (taskId queue workerId : String)
  | workerNotRegistered (operation workerId queue hint : String)
  | sinkBufferFull (capacity : Nat)
  | workerRetired (workerId : String)
  | pollStrategyExhausted (queue : String)
  | notifyListener (message : String)
deriving Repr, DecidableEq

/-- `Error::task_not_found`: an unconstrained queue prints a placeholder. -/
def Error.ofTaskNotFound (operation taskId : String) (queue : Option String)
    (hint : String) : Error :=
  .taskNotFound operation taskId (queue.getD "<not constrained>") hint

def Constraint.kind : Constraint → DatabaseErrorKind
  | .jobsPkey => .uniqueViolation
  | .jobsLockByWorkerTypeFkey => .foreignKeyViolation
  | .integerRange => .unknown
  | _ => .checkViolation

def Constraint.name : Constraint → String
  | .jobsPkey => "jobs_pkey"
  | .jobsAttemptsCheck => "jobs_attempts_check"
  | .jobsMaxAttemptsCheck => "jobs_max_attempts_check"
  | .jobsAttemptsLteMaxAttemptsCheck => "jobs_attempts_lte_max_attempts_check"
  | .jobsPriorityCheck => "jobs_priority_check"
  | .jobsActiveOwnerCheck => "jobs_active_owner_check"
  | .jobsStateShapeCheck => "jobs_state_shape_check"
  | .jobsLockByWorkerTypeFkey => "jobs_lock_by_worker_type_fkey"
  | .integerRange => "integer out of range"

/-- The driver error a violated constraint raises. -/
def Constraint.fault (violated : Constraint) : DieselError :=
  .databaseError violated.kind violated.name

def maxErrorPayloadLen : Nat := 8 * 1024

def truncationMarker : String := "…[truncated]"

/-- `str::is_char_boundary` over the characters of the text. -/
def isCharBoundary : List Char → Nat → Bool
  | _, 0 => true
  | [], _ + 1 => false
  | c :: rest, n + 1 =>
      if c.utf8Size ≤ n + 1 then isCharBoundary rest (n + 1 - c.utf8Size)
      else false

/-- `String::truncate` at a character boundary: the characters that end at or
before the byte index. -/
def truncateBytes : List Char → Nat → List Char
  | _, 0 => []
  | [], _ + 1 => []
  | c :: rest, n + 1 =>
      if c.utf8Size ≤ n + 1 then
        c :: truncateBytes rest (n + 1 - c.utf8Size)
      else []

/-- The loop `while cut > 0 && !text.is_char_boundary(cut) { cut -= 1 }`. -/
def walkBackToBoundary (text : List Char) : Nat → Nat
  | 0 => 0
  | cut + 1 =>
      if isCharBoundary text (cut + 1) then cut + 1
      else walkBackToBoundary text cut

def truncateErrorPayload (text : String) : String :=
  if text.utf8ByteSize > maxErrorPayloadLen then
    let cut := walkBackToBoundary text.toList maxErrorPayloadLen
    String.ofList (truncateBytes text.toList cut) ++ truncationMarker
  else text

end ApalisPostgres
