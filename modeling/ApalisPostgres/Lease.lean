/-
The local lease of a worker name and the obligations that guard it.  A claim
that is dispatched or acknowledged is covered by a guard; a guard that is
dropped while armed retires the name, unless the acknowledgement of the claim
it speaks for has committed in the meantime.
-/
import ApalisPostgres.Acknowledgement

namespace ApalisPostgres

/-- The epoch of one claim of a worker: the claim timestamp and the
completed executions it returned for the task. -/
structure Epoch where
  taskId : String
  lockAt : Int
  attempts : Nat
deriving Repr, DecidableEq

/-- `ClaimAcknowledgement`: the markers every clone of a claim record shares.
`owner` and `epoch` name the claim the record was made for. -/
structure ClaimMarkers where
  owner : String
  epoch : Epoch
  done : Bool
  started : Bool
  startAttempted : Bool
deriving Repr, DecidableEq

/-- `record_claim`: a record nobody acted on yet. -/
def ClaimMarkers.fresh (owner : String) (epoch : Epoch) : ClaimMarkers :=
  ⟨owner, epoch, false, false, false⟩

/-- A start of this claim was attempted and none succeeded. -/
def ClaimMarkers.startRefused (markers : ClaimMarkers) : Bool :=
  markers.startAttempted && !markers.started

/-- What the dispatches of one worker share in memory: whether the name is
retired, and the claim records by identity. -/
structure Shared where
  retired : Bool
  records : Nat → Option ClaimMarkers

namespace Shared

def isAcknowledged (shared : Shared) (record : Nat) : Bool :=
  (shared.records record).any ClaimMarkers.done

def hasStarted (shared : Shared) (record : Nat) : Bool :=
  (shared.records record).any ClaimMarkers.started

def startRefused (shared : Shared) (record : Nat) : Bool :=
  (shared.records record).any ClaimMarkers.startRefused

def retire (shared : Shared) : Shared := { shared with retired := true }

/-- Change the markers of a record, if there is one. -/
def mark (change : ClaimMarkers → ClaimMarkers) (shared : Shared)
    (record : Option Nat) : Shared :=
  { shared with records := fun other =>
      if record = some other then (shared.records other).map change
      else shared.records other }

def markAcknowledged : Shared → Option Nat → Shared :=
  mark fun markers => { markers with done := true }

def markStarted : Shared → Option Nat → Shared :=
  mark fun markers => { markers with started := true }

def markStartAttempted : Shared → Option Nat → Shared :=
  mark fun markers => { markers with startAttempted := true }

/-- Store a new record under a free identity. -/
def insert (shared : Shared) (record : Nat) (markers : ClaimMarkers) :
    Shared :=
  { shared with records := fun other =>
      if other = record then some markers else shared.records other }

end Shared

/-- `ClaimObligation`: whether a guard is held and armed, and the record that
is consulted when it is dropped. -/
structure ClaimObligation where
  armed : Bool
  claim : Option Nat
deriving Repr, DecidableEq

namespace ClaimObligation

def disarm (obligation : ClaimObligation) : ClaimObligation :=
  { obligation with armed := false }

/-- `Drop for ClaimObligation`, and then of its guard. -/
def drop (obligation : ClaimObligation) (shared : Shared) : Shared :=
  let settled := if obligation.claim.any shared.isAcknowledged
    then obligation.disarm else obligation
  if settled.armed then shared.retire else shared

end ClaimObligation

/-- One item of a stream of claims. -/
inductive StreamPoll where
  | pending
  | ended
  | item (result : Except Error (List Task))

/-- A task stream with its worker's lease. -/
structure LeaseStream where
  ended : Bool
  retired : Bool

/-- `LeaseStream::poll_next`, once the registration is settled, over the poll
of the stream inside. -/
def LeaseStream.pollNext (workerId : String) (stream : LeaseStream)
    (inner : StreamPoll) : LeaseStream × StreamPoll :=
  if stream.ended then (stream, .ended)
  else if stream.retired then
    ({ stream with ended := true }, .item (.error (.workerRetired workerId)))
  else
    match inner with
    | .item (.error (.claimOutcomeUnknown operation source)) =>
        -- SQL may have committed a claim that was never delivered
        ({ stream with retired := true },
          .item (.error (.claimOutcomeUnknown operation source)))
    | other => (stream, other)

end ApalisPostgres
