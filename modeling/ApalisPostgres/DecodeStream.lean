/-
The decode stage of a task stream.  A row whose payload does not decode stays
with the stage until its claim is released: the release is retried a bounded
number of times, and a release that lost its row or never succeeded retires
the name, so that the lease stream inside stops the delivery of its siblings.
-/
import ApalisPostgres.LeaseRuns
import ApalisPostgres.ClaimOutcome

namespace ApalisPostgres

open RowStore

/-- `with_conn`: the connection and transaction of a claim, with no claim to
account for. -/
def withConn {α : Type} (work : Tx α) (fault : ClaimFault) (env : FaultyEnv)
    (db : Db) : ClaimCall α :=
  withClaimConn "" (fun _ => false) work fault env db

theorem withConn_ok {α : Type} {work : Tx α} {fault : ClaimFault}
    {env : FaultyEnv} {db : Db} {value : α}
    (h : (withConn work fault env db).result = .ok value) :
    (work.runBody sql.withFaults env 0 db []).outcome = .ok value ∧
      (withConn work fault env db).db =
        (work.runBody sql.withFaults env 0 db []).view := by
  revert h
  unfold withConn withClaimConn
  rcases work.runBody sql.withFaults env 0 db [] with ⟨view, effects, outcome⟩
  intro h
  cases outcome with
  | error error => cases fault <;> simp [claimOutcome] at h
  | ok returned =>
      cases fault with
      | none => exact ⟨by simpa [claimOutcome] using h, rfl⟩
      | rollback source => exact ⟨by simpa [claimOutcome] using h, rfl⟩
      | checkout message => simp [claimOutcome] at h
      | begin source => simp [claimOutcome] at h
      | interrupted message => simp [claimOutcome] at h
      | executor message => simp [claimOutcome] at h
      | commit source applied => cases applied <;> simp [claimOutcome] at h

/-- A release that changed a row changed the one of the exact claim. -/
structure ReleasesClaim (taskId worker : String) (lockAt attempts : Int)
    (before after : Db) (row : JobRow) : Prop where
  stored : before.jobs.get? taskId = some row
  claimed : epochMatches taskId worker lockAt attempts row = true
  released : ∃ now result, after.jobs.get? taskId =
    some (undecodableRow now result row)

theorem releasesClaim_of_exec {taskId worker : String} {lockAt attempts : Int}
    {result : Json} {env : Env} {db : Db} {count : Nat}
    {changes : List Effect}
    (hexec : (Stmt.failUndecodableTask taskId worker result lockAt
      attempts).exec env db = .ok (count, changes)) (hcount : count ≠ 0) :
    ∃ row, ReleasesClaim taskId worker lockAt attempts db (db.apply changes)
      row := by
  have hplan := (exec_ok hexec).1
  simp only [Stmt.plan, Except.ok.injEq, Prod.mk.injEq] at hplan
  obtain ⟨hlength, hchanges⟩ := hplan
  have hsome : db.jobs.rows.filter
      (epochMatches taskId worker lockAt attempts) ≠ [] := by
    intro hnil
    simp [hnil] at hlength
    exact hcount hlength.symm
  obtain ⟨row, hrow⟩ := List.exists_mem_of_ne_nil _ hsome
  obtain ⟨hstored, hclaimed⟩ := List.mem_filter.mp hrow
  obtain rfl := (epochMatches_iff.mp hclaimed).1
  have hget := Table.get?_of_mem hstored
  refine ⟨row, hget, hclaimed, env.now, result, ?_⟩
  rw [get?_updated hexec hchanges.symm, hget]
  simp [hclaimed]

/-- What a `fail_undecodable_task` that counts a row has done to it. -/
theorem failUndecodableTask_ensures (taskId worker : String)
    (lockAt attempts : Int) (error : String) (token : Option String)
    (db : Db) :
    (failUndecodableTask taskId worker lockAt attempts error token).Ensures
      sql.withFaults
      (fun count after _ => count ≠ 0 → ∃ row,
        ReleasesClaim taskId worker lockAt attempts db after row)
      (fun _ => True) db [] := by
  have hrelease : (query "failing undecodable task"
      (.failUndecodableTask taskId worker
        (errResult (truncateErrorPayload error)) lockAt attempts)).Ensures
      sql.withFaults
      (fun count after _ => count ≠ 0 → ∃ row,
        ReleasesClaim taskId worker lockAt attempts db after row)
      (fun _ => True) db [] := by
    apply ensures_query
    intro env count changes hexec hcount
    exact releasesClaim_of_exec hexec hcount
  unfold failUndecodableTask
  cases token with
  | none => exact hrelease
  | some token =>
      apply ensures_read rfl
      intro located
      cases located with
      | none => exact fun hcount => absurd rfl hcount
      | some queue =>
          apply Program.ensures_bind
          apply ensures_read rfl
          intro registration
          show Program.Ensures _ _ _ (if _ then _ else _) _ _
          split
          · exact hrelease
          · exact fun hcount => absurd rfl hcount

theorem releasesClaim_of_withConn {taskId worker error : String}
    {lockAt attempts : Int} {token : Option String} {fault : ClaimFault}
    {env : FaultyEnv} {db : Db} {released : Nat}
    (h : (withConn (failUndecodableTask taskId worker lockAt attempts error
      token) fault env db).result = .ok released) (hreleased : released ≠ 0) :
    ∃ row, ReleasesClaim taskId worker lockAt attempts db
      (withConn (failUndecodableTask taskId worker lockAt attempts error
        token) fault env db).db row := by
  obtain ⟨houtcome, hdb⟩ := withConn_ok h
  have hbody := (failUndecodableTask_ensures taskId worker lockAt attempts
    error token db).runBody env 0
  rw [hdb]
  revert hbody houtcome
  rcases (failUndecodableTask taskId worker lockAt attempts error token).runBody
    sql.withFaults env 0 db [] with ⟨view, effects, outcome⟩
  intro houtcome hbody
  cases houtcome
  exact hbody hreleased

namespace Fetcher

/-- `RELEASE_RETRY_LIMIT`. -/
def releaseRetryLimit : Nat := 5

/-- `RELEASE_RETRY_BASE_DELAY`, 100 milliseconds. -/
def releaseRetryBaseDelay : Duration := 100000000

/-- `RELEASE_RETRY_BUDGET`, 3 seconds. -/
def releaseRetryBudget : Duration := 3000000000

def releaseRetryDelay (failures : Nat) : Duration :=
  releaseRetryBaseDelay * min (2 ^ (failures - 1)) (2 ^ 32 - 1)

def releaseExhausted (failures : Nat) (sinceFirstFailure : Duration) : Bool :=
  releaseRetryLimit < failures || releaseRetryBudget ≤ sinceFirstFailure

/-- What a panic carries. -/
inductive PanicPayload where
  | text (message : String)
  | other
deriving Repr, DecidableEq

/-- What the codec makes of a payload. -/
inductive Decoding (Args : Type) where
  | value (args : Args)
  | error (message : String)
  | panicked (payload : PanicPayload)

/-- `codec_panic`, the text of the decode error. -/
def codecPanic : PanicPayload → String
  | .text message => "the codec panicked: " ++ message
  | .other => "the codec panicked: the panic carried no message"

/-- The value, or the text of the `Error::Decode`. -/
def Decoding.result {Args : Type} : Decoding Args → Except String Args
  | .value args => .ok args
  | .error message => .error message
  | .panicked payload => .error (codecPanic payload)

/-- `Error::Decode`, displayed. -/
def decodeErrorText (message : String) : String :=
  "failed to decode task payload or result with the configured codec: " ++
    message

/-- `PgTask<Args>`. -/
structure DecodedTask (Args : Type) where
  args : Args
  parts : Parts

structure ReleaseObligation where
  taskId : String
  lockAt : Int
  attempts : Int
  decodeError : String
  failures : Nat
  firstFailure : Option Nat
deriving Repr, DecidableEq

namespace ReleaseObligation

/-- How long the stage waits before the next call. -/
def delay (obligation : ReleaseObligation) : Option Duration :=
  if 0 < obligation.failures then
    some (releaseRetryDelay obligation.failures)
  else none

/-- One more failure, noted at `now`. -/
def failed (obligation : ReleaseObligation) (now : Nat) : ReleaseObligation :=
  { obligation with
    failures := obligation.failures + 1
    firstFailure := some (obligation.firstFailure.getD now) }

/-- Whether the retries are exhausted at `now`. -/
def exhausted (obligation : ReleaseObligation) (now : Nat) : Bool :=
  releaseExhausted obligation.failures
    (now - obligation.firstFailure.getD now)

end ReleaseObligation

/-- The identity of a claimed row: its id, `lock_at` and, if it fits an `i32`,
its attempt counter. -/
def claimIdentity (parts : Parts) : Option (String × Int × Int) :=
  match parts.taskId, parts.ctx.lockAt with
  | some taskId, some lockAt =>
      if i32Max < (parts.attempt : Int) then none
      else some (taskId, lockAt, parts.attempt)
  | _, _ => none

/-- One call of `fail_undecodable_task`: the wait before it, the database it
found and left, and what it returned. -/
structure ReleaseCall where
  delay : Option Duration
  taskId : String
  lockAt : Int
  attempts : Int
  before : Db
  after : Db
  outcome : Except Error Nat

/-- An item taken from the stream inside, how its payload decoded and the
release calls made for it so far. -/
structure Round (Args : Type) where
  item : Except Error (Option Task)
  decoding : Decoding Args
  calls : List ReleaseCall

/-- A round that is over: the item it yielded, and whether the name was
retired by then. -/
structure Answered (Args : Type) extends Round Args where
  answer : Except Error (Option (DecodedTask Args))
  retired : Bool

/-- The state of `decode_task_stream`. -/
structure DecodeStream where
  compact : LeaseStream (Option Task)
  release : Option ReleaseObligation
  ended : Bool

/-- The stage with its lease and database.  `delivered` are the items of the
compact stream inside the lease stream; `opened` is the round whose claim is
being released. -/
structure DecodeSystem (Args : Type) where
  lease : Lease
  db : Db
  stream : DecodeStream
  answered : List (Answered Args)
  opened : Option (Round Args)
  delivered : List (Except Error (Option Task))

/-- What happens to it: the stage polls the stream inside, or its release call
returns; the name may be retired and the database changed by others.
`failedAt` and `checkedAt` are the two readings of the clock after a failed
call. -/
inductive DecodeEvent (Args : Type) where
  | compact (inner : ItemPoll (Option Task)) (meanwhile : Bool)
      (decoding : Decoding Args)
  | release (fault : ClaimFault) (env : FaultyEnv) (failedAt checkedAt : Nat)
  | retire
  | others (db : Db)

namespace DecodeSystem

variable {Args : Type} (token : Option String)

/-- Yield the item of a round. -/
def yieldItem (system : DecodeSystem Args) (round : Round Args)
    (answer : Except Error (Option (DecodedTask Args))) : DecodeSystem Args :=
  { system with
    stream := { system.stream with release := none }
    answered := system.answered ++ [⟨round, answer, system.lease.retired⟩]
    opened := none }

/-- The stage takes an item: it yields it, or owes the release of its row. -/
def take (system : DecodeSystem Args) (item : Except Error (Option Task))
    (decoding : Decoding Args) : DecodeSystem Args :=
  let round : Round Args := ⟨item, decoding, []⟩
  match item with
  | .error error => system.yieldItem round (.error error)
  | .ok none => system.yieldItem round (.ok none)
  | .ok (some task) =>
      match decoding.result with
      | .ok args => system.yieldItem round (.ok (some ⟨args, task.parts⟩))
      | .error message =>
          match claimIdentity task.parts with
          | some (taskId, lockAt, attempts) =>
              { system with
                stream := { system.stream with
                  release :=
                    some ⟨taskId, lockAt, attempts, message, 0, none⟩ }
                opened := some round }
          | none => system.yieldItem round (.error (.decode message))

/-- The item that passes the lease stream. -/
def passed (system : DecodeSystem Args) :
    ItemPoll (Option Task) → List (Except Error (Option Task))
  | .item item =>
      if system.stream.compact.ended || system.lease.retired then []
      else [item]
  | _ => []

def pollCompact (system : DecodeSystem Args) (inner : ItemPoll (Option Task))
    (meanwhile : Bool) (decoding : Decoding Args) : DecodeSystem Args :=
  let polled := system.stream.compact.pollNext system.lease inner meanwhile
  let moved := { system with
    lease := polled.1
    stream := { system.stream with compact := polled.2 }
    delivered := system.delivered ++ system.passed inner }
  match system.stream.compact.answer system.lease inner with
  | .pending => moved
  | .ended => { moved with stream := { moved.stream with ended := true } }
  | .item item => moved.take item decoding

/-- What the stage makes of the result of a release call. -/
def settleRelease (system : DecodeSystem Args) (obligation : ReleaseObligation)
    (round : Round Args) (call : ClaimCall Nat) (failedAt checkedAt : Nat) :
    DecodeSystem Args :=
  let called := { round with calls := round.calls ++ [⟨obligation.delay,
    obligation.taskId, obligation.lockAt, obligation.attempts, system.db,
    call.db, call.result⟩] }
  let retired := { system with db := call.db, lease := system.lease.retire }
  match call.result with
  | .ok released =>
      -- A release that matched nothing proves that the claim is lost.
      let settled := if released = 0 then retired
        else { system with db := call.db }
      settled.yieldItem called (.error (.decode obligation.decodeError))
  | .error error =>
      let failed := obligation.failed failedAt
      if failed.exhausted checkedAt then
        retired.yieldItem called (.error error)
      else
        { system with
          db := call.db
          stream := { system.stream with release := some failed }
          opened := some called }

/-- One release call. -/
def releaseRow (system : DecodeSystem Args) (obligation : ReleaseObligation)
    (round : Round Args) (fault : ClaimFault) (env : FaultyEnv)
    (failedAt checkedAt : Nat) : DecodeSystem Args :=
  let call := withConn (failUndecodableTask obligation.taskId
    system.lease.workerId obligation.lockAt obligation.attempts
    (decodeErrorText obligation.decodeError) token) fault env system.db
  system.settleRelease obligation round call failedAt checkedAt

def step (system : DecodeSystem Args) :
    DecodeEvent Args → Option (DecodeSystem Args)
  | .compact inner meanwhile decoding =>
      if system.stream.ended || system.stream.release.isSome then none
      else some (system.pollCompact inner meanwhile decoding)
  | .release fault env failedAt checkedAt =>
      match system.stream.release, system.opened with
      | some obligation, some round =>
          some (system.releaseRow token obligation round fault env failedAt
            checkedAt)
      | _, _ => none
  | .retire => some { system with lease := system.lease.retire }
  | .others db => some { system with db := db }

/-- A stage before its first poll, over any database and any lease. -/
def Fresh (workerId : String) (system : DecodeSystem Args) : Prop :=
  system.lease.workerId = workerId ∧
    system.stream = ⟨.new true, none, false⟩ ∧ system.answered = [] ∧
    system.opened = none ∧ system.delivered = []

def machine (workerId : String) (token : Option String) :
    Machine (DecodeSystem Args) (DecodeEvent Args) where
  Initial := Fresh workerId
  step := step token

end DecodeSystem

end Fetcher

end ApalisPostgres
