/-
The documented lifecycle of a task.  The transition table of the reference is
stated here in its own terms, one constructor for each numbered edge with its
guard, its writes and its change of `attempts`; then every statement of every
operation is shown to leave each row alone or to move it along one edge of
that operation.
-/
import ApalisPostgres.ReturnedParts

namespace ApalisPostgres

open RowStore

/-- The guard and the writes the three claims share. -/
structure ClaimsRow (view : Db) (now : Timestamp) (worker queue : String)
    (token : Option String) (row next : JobRow) : Prop where
  status : row.status = .pending ∨ row.status = .failed
  budget : row.attempts < row.maxAttempts
  due : row.runAt ≤ now
  jobType : row.jobType = queue
  current : Holds view worker queue token
  writes : next = { row with
    status := .queued
    lockBy := some worker
    lockAt := some (truncSecond now)
    doneAt := none }

/-- The epoch of one claim: the owner and the second of the claim, and the
completed executions it returned. -/
structure JobRow.CarriesEpoch (row : JobRow) (worker : String)
    (lockAt attempts : Int) : Prop where
  active : row.status = .queued ∨ row.status = .running
  lockBy : row.lockBy = some worker
  lockAt : row.lockAt = some (toTimestamp lockAt)
  attempts : row.attempts = attempts

/-- Why the owner of a recovered row lost it: it is stale, its stale name is
taken over, or it hands its registration back. -/
inductive Forfeited (clock : Nat → Env) (view : Db) (queue worker : String) :
    Op → Recovery → Prop where
  | stale {staleAfter : Duration} {owner : WorkerRow} {n : Nat}
      (howner : view.workers.get? (worker, queue) = some owner)
      (hstale : elapsedAtLeast staleAfter (clock n).now owner.lastSeen = true) :
      Forfeited clock view queue worker (.reenqueueOrphaned queue staleAfter)
        .staleSweep
  | taken {storage layers token : String} {staleAfter : Duration}
      {owner : WorkerRow} {n : Nat}
      (howner : view.workers.get? (worker, queue) = some owner)
      (hstale : elapsedAtLeast staleAfter (clock n).now owner.lastSeen = true) :
      Forfeited clock view queue worker
        (.registerWorker worker queue storage layers token staleAfter)
        .takeover
  | released {token : String} {owner : WorkerRow}
      (howner : view.workers.get? (worker, queue) = some owner)
      (htoken : owner.leaseToken = some token) :
      Forfeited clock view queue worker (.releaseWorker queue worker token)
        .release

/-- A recovery charges every row but the `Queued` rows of a release. -/
def chargedBy (reason : Recovery) (row : JobRow) : Prop :=
  row.status = .running ∨ reason ≠ .release

instance (reason : Recovery) (row : JobRow) :
    Decidable (chargedBy reason row) :=
  inferInstanceAs (Decidable (_ ∨ _))

/-- The count a recovery leaves. -/
def recoveredAttempts (reason : Recovery) (row : JobRow) : Int :=
  if chargedBy reason row then row.attempts + 1 else row.attempts

/-- The transition table.  A statement of the operation, in the given view and
at the given instant, turns the row on the left into the one on the right;
`origin` is the database the transaction began in, `clock` what its
statements observe. -/
inductive Documented (origin : Db) (clock : Nat → Env) (view : Db)
    (now : Timestamp) : Op → Option JobRow → Option JobRow → Prop where
  /-- edge 1 -/
  | enqueue {queue : String} {batch : List NewJob} {task : NewJob}
      (htask : task ∈ batch) :
      Documented origin clock view now (.pushTasksOnConn queue batch) none
        (some {
          job := task.job
          id := task.id
          jobType := queue
          status := .pending
          attempts := 0
          maxAttempts := task.maxAttempts
          runAt := task.runAt
          lastResult := none
          lockAt := none
          lockBy := none
          doneAt := none
          priority := task.priority
          metadata := some task.metadata
          idempotencyKey := task.idempotencyKey })
  /-- edge 2 -/
  | pollClaim {worker queue : String} {bufferSize : Nat}
      {token : Option String} {row next : JobRow}
      (hclaims : ClaimsRow view now worker queue token row next) :
      Documented origin clock view now
        (.fetchNext worker queue bufferSize token) (some row) (some next)
  /-- edge 3 -/
  | notifyClaim {worker queue : String} {ids : List String}
      {token : Option String} {row next : JobRow}
      (hclaims : ClaimsRow view now worker queue token row next)
      (hid : row.id ∈ ids) :
      Documented origin clock view now (.queueById queue ids worker token)
        (some row) (some next)
  /-- edge 4 -/
  | compatibilityClaim {worker queue : String} {count : Option Nat}
      {row next : JobRow}
      (hclaims : ClaimsRow view now worker queue none row next) :
      Documented origin clock view now (.getJobs worker queue count)
        (some row) (some next)
  /-- edge 5 -/
  | start {claim : StartClaim} {row : JobRow} {owner : WorkerRow}
      (hid : row.id = claim.taskId) (hqueue : row.jobType = claim.queue)
      (hlockBy : row.lockBy = some claim.workerId)
      (hlockAt : row.lockAt = some (toTimestamp claim.lockAt))
      (hattempts : ∀ count, claim.attempts = some count → row.attempts = count)
      (hstatus : row.status = .queued ∨
        (row.status = .running ∧ claim.restart = true))
      (howner : view.workers.get? (claim.workerId, claim.queue) = some owner)
      (htoken : ∀ token, claim.leaseToken = some token →
        owner.leaseToken = some token) :
      Documented origin clock view now (.startTask claim) (some row)
        (some { row with status := .running })
  /-- edge 6 -/
  | lock {worker : String} {queue token : Option String} {row : JobRow}
      (hqueue : ∀ name, queue = some name → row.jobType = name)
      (hdue : row.runAt ≤ now)
      (hfree : ((row.status = .pending ∨ row.status = .failed) ∧
          row.attempts < row.maxAttempts) ∨
        ((row.status = .queued ∨ row.status = .running) ∧
          row.lockBy = some worker))
      (hcurrent : Holds view worker row.jobType token) :
      Documented origin clock view now
        (.lockTaskWithToken row.id worker queue token) (some row)
        (some { row with
          status := .running
          lockBy := some worker
          lockAt := if row.active then row.lockAt else some (truncSecond now)
          doneAt := none })
  /-- edge 7 -/
  | acknowledge {token : Option String} {res : HandlerResult} {parts : Parts}
      {worker : String} {lockAt : Int} {result : Option Json} {row : JobRow}
      (hid : parts.taskId = some row.id)
      (hqueue : parts.ctx.queue = some row.jobType)
      (hworker : parts.ctx.lockBy = some worker)
      (hlockAt : parts.ctx.lockAt = some lockAt)
      (hattempt : acknowledgementAttempt parts = .ok (row.attempts + 1).toNat)
      (hepoch : row.CarriesEpoch worker lockAt row.attempts)
      (hcurrent : Holds view worker row.jobType token)
      (hresult : buildAckResponse res = .ok result) :
      Documented origin clock view now (.acknowledge token res parts)
        (some row)
        (some { row with
          status := if res.isOk then .done
            else if row.attempts + 1 < parts.ctx.maxAttempts then .failed
            else .killed
          attempts := row.attempts + 1
          lastResult := result
          doneAt := some now })
  /-- edge 8 -/
  | undecodable {worker : String} {lockAt attempts : Int} {error : String}
      {token : Option String} {row : JobRow}
      (hepoch : row.CarriesEpoch worker lockAt attempts)
      (hcurrent : Holds view worker row.jobType token) :
      Documented origin clock view now
        (.failUndecodableTask row.id worker lockAt attempts error token)
        (some row)
        (some { row with
          status := if row.attempts + 1 < row.maxAttempts then .failed
            else .killed
          attempts := row.attempts + 1
          lastResult := some (errResult (truncateErrorPayload error))
          doneAt := some now })
  /-- edge 9 -/
  | quarantine {op : Op} {worker queue message : String} {row old : JobRow}
      (hop : ClaimsFor worker queue row.id op)
      (hqueued : row.status = .queued) (hlockBy : row.lockBy = some worker)
      (hqueue : row.jobType = queue)
      -- free when the transaction began, so it was claimed just now
      (hold : old ∈ origin.jobs.rows) (hid : old.id = row.id)
      (hfree : old.status = .pending ∨ old.status = .failed) :
      Documented origin clock view now op (some row)
        (some { row with
          status := .killed
          attempts := row.attempts + 1
          lastResult := some
            (errResult (truncateErrorPayload (rowErrorText message)))
          lockBy := none
          lockAt := none
          doneAt := some now })
  /-- edge 10 -/
  | recovery {op : Op} {worker : String} {reason : Recovery} {row : JobRow}
      (hforfeited : Forfeited clock view row.jobType worker op reason)
      (hactive : row.status = .queued ∨ row.status = .running)
      (hlockBy : row.lockBy = some worker) :
      Documented origin clock view now op (some row)
        (some { row with
          status := if recoveredAttempts reason row < row.maxAttempts
            then .pending else .killed
          attempts := recoveredAttempts reason row
          lastResult :=
            if recoveredAttempts reason row < row.maxAttempts ∧
                (¬ chargedBy reason row ∨ row.lastResult.isSome) then
              row.lastResult
            else some reason.result
          lockBy := none
          lockAt := none
          doneAt := if recoveredAttempts reason row < row.maxAttempts
            then none else some now })
  /-- edge 11 -/
  | purge {queue : String} {cutoff : Timestamp} {limit : Nat} {row : JobRow}
      (hqueue : row.jobType = queue)
      (hterminal : row.status = .done ∨ row.status = .killed ∨
        (row.status = .failed ∧ row.maxAttempts ≤ row.attempts))
      (hold : completedBefore cutoff row = true) :
      Documented origin clock view now (.purgeTerminalBatch queue cutoff limit)
        (some row) none

/-- The rows an operation may touch: of its queue, its owner or its ids. -/
def Op.Scope : Op → JobRow → Prop
  | .pushTasksOnConn queue batch, row =>
      row.jobType = queue ∧ ∃ task ∈ batch, task.id = row.id
  | .fetchNext worker queue _ _, row =>
      row.jobType = queue ∧ (row.active = true → row.lockBy = some worker)
  | .queueById queue ids worker _, row =>
      row.jobType = queue ∧ row.id ∈ ids ∧
        (row.active = true → row.lockBy = some worker)
  | .getJobs _ queue _, row => row.jobType = queue ∧ row.active = false
  | .startTask claim, row =>
      row.id = claim.taskId ∧ row.jobType = claim.queue ∧
        row.lockBy = some claim.workerId
  | .lockTaskWithToken taskId worker queue _, row =>
      row.id = taskId ∧ (∀ name, queue = some name → row.jobType = name) ∧
        (row.active = true → row.lockBy = some worker)
  | .acknowledge _ _ parts, row =>
      parts.taskId = some row.id ∧ parts.ctx.queue = some row.jobType ∧
        parts.ctx.lockBy = row.lockBy
  | .failUndecodableTask taskId worker _ _ _ _, row =>
      row.id = taskId ∧ row.lockBy = some worker
  | .releaseWorker queue worker _, row =>
      row.jobType = queue ∧ row.lockBy = some worker
  | .reenqueueOrphaned queue _, row =>
      row.jobType = queue ∧ row.active = true
  | .registerWorker worker queue _ _ _ _, row =>
      row.jobType = queue ∧ row.lockBy = some worker
  | .keepAlive _ _ _, _ => False
  | .registerWorkerAdmin _ _, _ => False
  | .pruneWorkersBatch _ _ _, _ => False
  | .purgeTerminalBatch queue _ _, row =>
      row.jobType = queue ∧ row.active = false

section

variable {origin view : Db} {clock : Nat → Env} {now : Timestamp} {op : Op}

/-- An edge stays inside the scope of its operation. -/
theorem Documented.scope {before after : Option JobRow}
    (h : Documented origin clock view now op before after) :
    (∀ row, before = some row → op.Scope row) ∧
      ∀ row, before = none → after = some row → op.Scope row := by
  have hfree : ∀ {row : JobRow}, row.status = .pending ∨ row.status = .failed →
      row.active = false := by
    intro row hstatus
    rcases hstatus with hstatus | hstatus <;> simp [JobRow.active, hstatus]
  have hbusy : ∀ {row : JobRow}, row.status = .queued ∨ row.status = .running →
      row.active = true := fun {row} hstatus => row.active_iff.mpr hstatus
  constructor
  · intro row hbefore
    cases h with
    | enqueue _ => cases hbefore
    | pollClaim hclaims =>
        cases hbefore
        refine ⟨hclaims.jobType, ?_⟩
        simp [hfree hclaims.status]
    | notifyClaim hclaims hid =>
        cases hbefore
        refine ⟨hclaims.jobType, hid, ?_⟩
        simp [hfree hclaims.status]
    | compatibilityClaim hclaims =>
        cases hbefore
        exact ⟨hclaims.jobType, hfree hclaims.status⟩
    | start hid hqueue hlockBy _ _ _ _ _ =>
        cases hbefore
        exact ⟨hid, hqueue, hlockBy⟩
    | lock hqueue _ hstate _ =>
        cases hbefore
        refine ⟨rfl, hqueue, ?_⟩
        intro hactive
        rcases hstate with ⟨hstatus, _⟩ | ⟨_, hlockBy⟩
        · simp [hfree hstatus] at hactive
        · exact hlockBy
    | acknowledge hid hqueue hworker _ _ hepoch _ _ =>
        cases hbefore
        exact ⟨hid, hqueue, hworker.trans hepoch.lockBy.symm⟩
    | undecodable hepoch _ =>
        cases hbefore
        exact ⟨rfl, hepoch.lockBy⟩
    | quarantine hop _ hlockBy hqueue _ _ _ =>
        cases hbefore
        cases hop with
        | fetched => exact ⟨hqueue, fun _ => hlockBy⟩
        | notified hid => exact ⟨hqueue, hid, fun _ => hlockBy⟩
    | recovery hforfeited hactive hlockBy =>
        cases hbefore
        generalize hqueue : row.jobType = queue at hforfeited
        cases hforfeited with
        | stale _ _ => exact ⟨hqueue, hbusy hactive⟩
        | taken _ _ => exact ⟨hqueue, hlockBy⟩
        | released _ _ => exact ⟨hqueue, hlockBy⟩
    | purge hqueue hterminal _ =>
        cases hbefore
        refine ⟨hqueue, ?_⟩
        rcases hterminal with hstatus | hstatus | ⟨hstatus, _⟩ <;>
          simp [JobRow.active, hstatus]
  · intro row hbefore hafter
    cases h with
    | enqueue htask =>
        cases hafter
        exact ⟨rfl, _, htask, rfl⟩
    | _ => cases hbefore

/-- No edge but the purge leaves a terminal status. -/
theorem Documented.of_finished {row : JobRow} {after : Option JobRow}
    (h : Documented origin clock view now op (some row) after)
    (hfinished : row.status = .done ∨ row.status = .killed) :
    after = none ∧ ∃ queue cutoff limit,
      op = .purgeTerminalBatch queue cutoff limit := by
  have hnot : row.status ≠ .pending ∧ row.status ≠ .failed ∧
      row.status ≠ .queued ∧ row.status ≠ .running := by
    rcases hfinished with hstatus | hstatus <;> simp [hstatus]
  obtain ⟨hpending, hfailed, hqueued, hrunning⟩ := hnot
  cases h with
  | pollClaim hclaims | notifyClaim hclaims _ | compatibilityClaim hclaims =>
      rcases hclaims.status with hstatus | hstatus
      · exact absurd hstatus hpending
      · exact absurd hstatus hfailed
  | start _ _ _ _ _ hstatus _ _ =>
      rcases hstatus with hstatus | ⟨hstatus, _⟩
      · exact absurd hstatus hqueued
      · exact absurd hstatus hrunning
  | lock _ _ hstate _ =>
      rcases hstate with ⟨hstatus | hstatus, _⟩ | ⟨hstatus | hstatus, _⟩
      · exact absurd hstatus hpending
      · exact absurd hstatus hfailed
      · exact absurd hstatus hqueued
      · exact absurd hstatus hrunning
  | acknowledge _ _ _ _ _ hepoch _ _ | undecodable hepoch _ =>
      rcases hepoch.active with hstatus | hstatus
      · exact absurd hstatus hqueued
      · exact absurd hstatus hrunning
  | quarantine _ hstatus _ _ _ _ _ => exact absurd hstatus hqueued
  | recovery _ hactive _ =>
      rcases hactive with hstatus | hstatus
      · exact absurd hstatus hqueued
      · exact absurd hstatus hrunning
  | purge _ _ _ => exact ⟨rfl, _, _, _, rfl⟩

end

theorem charged_iff (reason : Recovery) (row : JobRow) :
    charged reason row = true ↔ chargedBy reason row := by
  cases reason <;> simp [charged, chargedBy, Recovery.chargesUnstarted]

theorem nextAttempts_eq {reason : Recovery} {row : JobRow}
    (hbudget : row.attempts < row.maxAttempts) :
    nextAttempts reason row = recoveredAttempts reason row := by
  unfold nextAttempts recoveredAttempts boundedIncrement
  by_cases hcharged : chargedBy reason row
  · rw [if_pos ((charged_iff reason row).mpr hcharged), if_pos hcharged]
    omega
  · rw [if_neg (mt (charged_iff reason row).mp hcharged), if_neg hcharged]

/-- The writes of a recovery, for a row that has an attempt left to charge. -/
theorem recoverRow_eq {now : Timestamp} {reason : Recovery} {row : JobRow}
    (hbudget : row.attempts < row.maxAttempts) :
    recoverRow now reason row = { row with
      status := if recoveredAttempts reason row < row.maxAttempts
        then .pending else .killed
      attempts := recoveredAttempts reason row
      lastResult :=
        if recoveredAttempts reason row < row.maxAttempts ∧
            (¬ chargedBy reason row ∨ row.lastResult.isSome) then
          row.lastResult
        else some reason.result
      lockBy := none
      lockAt := none
      doneAt := if recoveredAttempts reason row < row.maxAttempts
        then none else some now } := by
  unfold recoverRow
  rw [nextAttempts_eq hbudget]
  by_cases hleft : recoveredAttempts reason row < row.maxAttempts
  · have hnot : ¬ row.maxAttempts ≤ recoveredAttempts reason row := by omega
    by_cases hcharged : chargedBy reason row
    · have hbool := (charged_iff reason row).mpr hcharged
      cases hlast : row.lastResult <;>
        simp [hleft, hnot, hcharged, hbool]
    · have hbool : charged reason row = false := by
        simpa using mt (charged_iff reason row).mp hcharged
      simp [hleft, hnot, hcharged, hbool]
  · have hexhausted : row.maxAttempts ≤ recoveredAttempts reason row := by omega
    simp [hleft, hexhausted]

theorem boundedIncrement_eq {row : JobRow}
    (hbudget : row.attempts < row.maxAttempts) :
    boundedIncrement row = row.attempts + 1 := by
  unfold boundedIncrement
  omega

/-- What the schema accepted of an active row. -/
theorem lockAt_isSome_of_accepted {row : JobRow}
    (h : rowViolation row = none) (hactive : row.active = true) :
    row.lockAt.isSome = true := by
  unfold rowViolation at h
  cases hlockAt : row.lockAt with
  | some _ => rfl
  | none =>
      simp only [hactive, hlockAt, Option.isNone_none, Bool.or_true,
        Bool.and_true, if_true] at h
      repeat' split at h
      all_goals cases h

/-- The facts a quarantine rests on: the transaction began with the row free,
and the row could not be converted. -/
def QuarantineOf (origin : Db) (stmt : Stmt) : Prop :=
  ∀ id result, stmt = .quarantine id result →
    (∃ old ∈ origin.jobs.rows, old.id = id ∧ claimable old = true) ∧
      ∃ message, result =
        errResult (truncateErrorPayload (rowErrorText message))

/-- The facts a recovery rests on: each owner forfeited its rows. -/
def RecoveryOf (clock : Nat → Env) (view : Db) (op : Op) (stmt : Stmt) : Prop :=
  ∀ queue workers reason, stmt = .recoverOwned queue workers reason →
    ∀ worker ∈ workers, Forfeited clock view queue worker op reason

section

variable {origin view : Db} {clock : Nat → Env} {env : Env} {op : Op}
  {stmt : Stmt} {change : JobChange}

theorem DueRow.claimsRow {worker queue : String} {token : Option String}
    {row : JobRow} (h : DueRow view env queue row)
    (hholds : Holds view worker queue token) :
    ClaimsRow view env.now worker queue token row
      (claimRow worker env.now row) := by
  obtain ⟨hstatus, hbudget⟩ := (claimable_iff row).mp h.claimable
  exact ⟨hstatus, hbudget, h.due, h.jobType, hholds, rfl⟩

theorem lockable_iff {worker : String} {now : Timestamp} {row : JobRow} :
    lockable worker now row = true ↔ row.runAt ≤ now ∧
      (((row.status = .pending ∨ row.status = .failed) ∧
          row.attempts < row.maxAttempts) ∨
        ((row.status = .queued ∨ row.status = .running) ∧
          row.lockBy = some worker)) := by
  simp only [lockable, Bool.and_eq_true, Bool.or_eq_true, decide_eq_true_eq]
  tauto

theorem lockRow_eq {worker : String} {now : Timestamp} {row : JobRow}
    (haccepted : rowViolation row = none)
    (hlockable : lockable worker now row = true) :
    lockRow worker now row = { row with
      status := .running
      lockBy := some worker
      lockAt := if row.active then row.lockAt else some (truncSecond now)
      doneAt := none } := by
  unfold lockRow
  cases hactive : row.active with
  | false => simp
  | true =>
      have hlockAt := lockAt_isSome_of_accepted haccepted hactive
      have hlockBy : row.lockBy = some worker := by
        rcases (lockable_iff.mp hlockable).2 with ⟨hstatus, _⟩ | ⟨_, hlockBy⟩
        · rcases hstatus with hstatus | hstatus <;>
            simp [JobRow.active, hstatus] at hactive
        · exact hlockBy
      simp [hlockAt, hlockBy]

/-- The acknowledgement writes what its parts and the row's count say. -/
theorem ackRow_eq {now : Timestamp} {update : AckTaskUpdate} {row : JobRow}
    {token : Option String} {res : HandlerResult} {parts : Parts}
    (h : update.Acknowledges token res parts) (hnonneg : 0 ≤ row.attempts)
    (hattempts : row.attempts = update.startedAttempts) :
    ackRow now update row = { row with
      status := if res.isOk then .done
        else if row.attempts + 1 < parts.ctx.maxAttempts then .failed
        else .killed
      attempts := row.attempts + 1
      lastResult := update.result
      doneAt := some now } := by
  have hcount : update.attempts = row.attempts + 1 := by
    have hstarted := h.startedAttempts
    omega
  have hstatus : update.status = if res.isOk then .done
      else if row.attempts + 1 < parts.ctx.maxAttempts then .failed
      else .killed := by
    rw [h.status, hcount, calculateStatus]
    have hbudget : (0 ≤ parts.ctx.maxAttempts ∧
        ((row.attempts + 1).toNat : Int) < parts.ctx.maxAttempts) ↔
        row.attempts + 1 < parts.ctx.maxAttempts := by omega
    simp only [hbudget]
  simp [ackRow, hcount, hstatus]

/-- A row an executed statement wrote moved along an edge of the operation. -/
theorem JobStep.documented (h : JobStep env view stmt change)
    (hissued : Issued view op stmt) (hview : view.Budgeted)
    (haccepted : ∀ row ∈ view.jobs.rows, rowViolation row = none)
    (hquarantine : QuarantineOf origin stmt)
    (hrecovery : RecoveryOf clock view op stmt) :
    Documented origin clock view env.now op change.before change.after := by
  have hbudget : ∀ row ∈ view.jobs.rows, row.active = true →
      row.attempts < row.maxAttempts :=
    fun row hrow => (hview.rows row hrow).active
  cases h with
  | enqueue htask _ =>
      cases hissued with
      | read hread => simp [Stmt.readOnly] at hread
      | insertJobs => exact .enqueue htask
  | pollClaim hdue =>
      cases hissued with
      | read hread => simp [Stmt.readOnly] at hread
      | fetchNext hholds => exact .pollClaim (hdue.claimsRow hholds)
  | notifyClaim hdue hid =>
      cases hissued with
      | read hread => simp [Stmt.readOnly] at hread
      | queueById hholds => exact .notifyClaim (hdue.claimsRow hholds) hid
  | compatibilityClaim hdue =>
      cases hissued with
      | read hread => simp [Stmt.readOnly] at hread
      | getJobs => exact .compatibilityClaim (hdue.claimsRow (Holds.none _ _ _))
  | @quarantine result row hrow =>
      obtain ⟨⟨old, hold, hid, hfree⟩, message, rfl⟩ := hquarantine _ _ rfl
      obtain ⟨worker, queue, found, hfresh, hsame, hop⟩ :=
        hissued.quarantine_inv
      have heq := Db.row_unique hfresh.stored hrow hsame
      subst heq
      have hleft := hbudget found hrow (by simp [JobRow.active, hfresh.status])
      simp only [quarantineRow, boundedIncrement_eq hleft]
      exact .quarantine hop hfresh.status hfresh.lockBy hfresh.jobType hold hid
        ((claimable_iff old).mp hfree).1
  | lock hrow hqueue hlockable =>
      cases hissued with
      | read hread => simp [Stmt.readOnly] at hread
      | lockTask hholds =>
          obtain ⟨hdue, hstate⟩ := lockable_iff.mp hlockable
          rw [lockRow_eq (haccepted _ hrow) hlockable]
          refine .lock ?_ hdue hstate (hholds _ hrow rfl hqueue)
          rintro name rfl
          rcases hqueue with hnone | hsame
          · cases hnone
          · exact (Option.some.inj hsame).symm
  | @undecodable id worker result lockAt attempts row hrow hepoch =>
      obtain ⟨hid, hactive, hlockBy, hlockAt, hattempts⟩ :=
        epochMatches_iff.mp hepoch
      subst hid
      cases hissued with
      | read hread => simp [Stmt.readOnly] at hread
      | failUndecodableTask hholds =>
          have hleft := hbudget row hrow hactive
          have hstatus : (if row.maxAttempts ≤ row.attempts + 1 then
              Status.killed else .failed) =
              if row.attempts + 1 < row.maxAttempts then .failed
              else .killed := by
            split <;> split <;> first | rfl | omega
          simp only [undecodableRow, boundedIncrement_eq hleft, hstatus]
          exact .undecodable ⟨row.active_iff.mp hactive, hlockBy, hlockAt,
            hattempts⟩ (hholds row hrow rfl)
  | start hrow hstart howner htoken =>
      cases hissued with
      | read hread => simp [Stmt.readOnly] at hread
      | startTask =>
          have hstartable := startable_iff.mp hstart
          refine .start hstartable.id hstartable.jobType hstartable.lockBy
            hstartable.lockAt ?_ ?_ howner ?_
          · intro count hcount
            rcases hstartable.attempts with hnone | hsome
            · rw [hnone] at hcount
              cases hcount
            · rw [hsome] at hcount
              exact Option.some.inj hcount
          · rcases hstartable.status with hqueued | ⟨hrestart, hrunning⟩
            · exact Or.inl hqueued
            · exact Or.inr ⟨hrunning, hrestart⟩
          · intro token hpresented
            simpa [tokenAccepted, hpresented] using htoken
  | @acknowledge update row hrow hepoch =>
      obtain ⟨hqueue, hid, hactive, hlockBy, hlockAt, hattempts⟩ :=
        acknowledgeable_iff.mp hepoch
      cases hissued with
      | read hread => simp [Stmt.readOnly] at hread
      | ackTask hupdate hholds =>
          have hnonneg := (hview.rows row hrow).attempts_nonneg
          rw [ackRow_eq hupdate hnonneg hattempts]
          refine .acknowledge (hupdate.taskId.trans (by rw [hid]))
            (hupdate.queue.trans (by rw [hqueue])) hupdate.workerId
            hupdate.lockAt ?_ ⟨row.active_iff.mp hactive, hlockBy, hlockAt, rfl⟩
            (hqueue ▸ hholds) hupdate.result
          rw [hupdate.attempt]
          have hstarted := hupdate.startedAttempts
          congr 2
          omega
  | @recovery queue worker workers reason row hrow hqueue hactive howner
      hworker =>
      subst hqueue
      have hforfeited := hrecovery _ _ _ rfl worker hworker
      rw [recoverRow_eq (hbudget row hrow hactive)]
      exact .recovery hforfeited (row.active_iff.mp hactive) howner
  | purge hrow hqueue hterminal hold =>
      cases hissued with
      | read hread => simp [Stmt.readOnly] at hread
      | purgeTerminal =>
          refine .purge hqueue ?_ hold
          simp only [terminal, Bool.and_eq_true, Bool.or_eq_true,
            decide_eq_true_eq] at hterminal
          tauto

end

/-- A check that writes nothing keeps the view of its transaction. -/
theorem requireWorker_keeps {Q : Db → Stmt → Prop} {view : Db}
    (hread : ∀ view stmt, stmt.readOnly = true → Q view stmt)
    (worker queue : String) (token : Option String) :
    (requireWorker worker queue token).Issues sql Q
      (fun _ after => view = after) view := by
  apply issues_query (hread _ _ rfl)
  intro env registration changes hexec
  rw [readOnly_exec rfl hexec]
  cases token with
  | none => exact rfl
  | some presented =>
      cases registration with
      | absent => trivial
      | replaced => trivial
      | current => exact rfl

section

variable {rows : TaskConversion} {origin : Db}

theorem QuarantineOf.of_readOnly {stmt : Stmt} (h : stmt.readOnly = true) :
    QuarantineOf origin stmt := by
  rintro id result rfl
  simp [Stmt.readOnly] at h

theorem claimedTasks_quarantines {claimed : List JobRow} {view : Db}
    (hclaimed : ∀ row ∈ claimed, ∃ old ∈ origin.jobs.rows,
      old.id = row.id ∧ claimable old = true) :
    (claimedTasks rows claimed).Issues sql
      (fun _ stmt => QuarantineOf origin stmt) (fun _ _ => True) view := by
  induction claimed generalizing view with
  | nil => trivial
  | cons row rest ih =>
      have hrest : ∀ other ∈ rest, ∃ old ∈ origin.jobs.rows,
          old.id = other.id ∧ claimable old = true :=
        fun other hother => hclaimed other (List.mem_cons_of_mem _ hother)
      unfold claimedTasks
      cases rows.tryIntoTaskCompact row with
      | ok task => exact Program.issues_bind ((ih hrest).mono
          fun _ _ _ => trivial)
      | error message =>
          refine issues_query ?_ fun env count changes _ => ih hrest
          rintro id result heq
          cases heq
          exact ⟨hclaimed row List.mem_cons_self, message, rfl⟩

/-- The rows a claim returns were free in the view it ran in. -/
theorem claimedRows_free {env : Env} {view : Db} {queue worker : String}
    {among : JobRow → Bool} {selected : List JobRow}
    (hselected : ∀ row ∈ selected,
      row ∈ claimSelection env view queue among) :
    ∀ row ∈ claimedRows worker env.now selected,
      ∃ old ∈ view.jobs.rows, old.id = row.id ∧ claimable old = true := by
  intro row hrow
  obtain ⟨old, hold, rfl⟩ :=
    List.mem_map.mp ((List.mem_insertionSort _).mp hrow)
  have hdue := (mem_claimSelection (hselected old hold)).1
  exact ⟨old, hdue.stored, rfl, hdue.claimable⟩

/-- A claim transaction quarantines only rows it has just claimed. -/
theorem program_quarantines {worker queue id : String} {op : Op}
    (hop : ClaimsFor worker queue id op) :
    (program rows op).Issues sql (fun _ stmt => QuarantineOf origin stmt)
      (fun _ _ => True) origin := by
  cases hop with
  | fetched =>
      apply Program.issues_bind
      apply Program.issues_bind
      apply (requireWorker_keeps (fun _ _ => .of_readOnly) _ _ _).mono
      rintro _ _ rfl
      refine issues_query (by rintro _ _ ⟨⟩) ?_
      intro env claimed changes hexec
      have hplan := (exec_ok hexec).1
      simp only [Stmt.plan, Except.ok.injEq, Prod.mk.injEq] at hplan
      obtain ⟨rfl, rfl⟩ := hplan
      exact (claimedTasks_quarantines (claimedRows_free fun row hrow =>
        List.mem_of_mem_take hrow)).mono fun _ _ _ => trivial
  | notified _ =>
      apply Program.issues_bind
      apply Program.issues_bind
      apply (requireWorker_keeps (fun _ _ => .of_readOnly) _ _ _).mono
      rintro _ _ rfl
      refine issues_query (by rintro _ _ ⟨⟩) ?_
      intro env claimed changes hexec
      have hplan := (exec_ok hexec).1
      simp only [Stmt.plan, Except.ok.injEq, Prod.mk.injEq] at hplan
      obtain ⟨rfl, rfl⟩ := hplan
      exact (claimedTasks_quarantines (claimedRows_free fun row hrow =>
        hrow)).mono fun _ _ _ => trivial

end

section

variable {rows : TaskConversion} {clock : Nat → Env} {n : Nat} {view : Db}
  {item : Performed Stmt Db Env Effect}

theorem RecoveryOf.of_readOnly {op : Op} {stmt : Stmt}
    (h : stmt.readOnly = true) : RecoveryOf clock view op stmt := by
  rintro queue workers reason rfl
  simp [Stmt.readOnly] at h

/-- A statement that writes nothing is the performed one, or the next one runs
in the same view. -/
theorem performed_read {α : Type} {label : String} {stmt : Stmt}
    {next : stmt.Result → Tx α} (hread : stmt.readOnly = true)
    (h : item ∈ (Program.statement label stmt next).performed sql clock n view) :
    (item.stmt = stmt ∧ item.view = view) ∨
      ∃ result, stmt.plan (clock n) view = .ok (result, []) ∧
        item ∈ (next result).performed sql clock (n + 1) view := by
  obtain ⟨result, changes, hexec, heq | hlater⟩ := Program.performed_cases h
  · subst heq
    exact Or.inl ⟨rfl, rfl⟩
  · have hnil : changes = [] := readOnly_exec hread hexec
    subst hnil
    exact Or.inr ⟨result, (exec_ok hexec).1, hlater⟩

/-- The sweep recovers the rows of stale owners. -/
theorem sweep_forfeits {queue : String} {staleAfter : Duration}
    (h : item ∈ (program rows
      (.reenqueueOrphaned queue staleAfter)).performed sql clock n view) :
    RecoveryOf clock item.view (.reenqueueOrphaned queue staleAfter)
      item.stmt := by
  rcases performed_read rfl h with ⟨hstmt, _⟩ | ⟨workers, hplan, hlater⟩
  · rw [hstmt]
    exact .of_readOnly rfl
  · change item ∈ (recoverOwned queue workers .staleSweep >>= _).performed
      sql clock (n + 1) view at hlater
    unfold recoverOwned at hlater
    split at hlater
    · cases hlater
    · obtain ⟨count, changes, _, heq | hnone⟩ := Program.performed_cases hlater
      · subst heq
        intro queue' workers' reason hstmt worker hworker
        cases hstmt
        simp only [Stmt.plan, Except.ok.injEq, Prod.mk.injEq, and_true]
          at hplan
        subst hplan
        obtain ⟨owner, howner, rfl⟩ := List.mem_map.mp hworker
        have hselected :=
          (List.mem_insertionSort _).mp (List.mem_of_mem_take howner)
        simp only [List.mem_filter, Bool.and_eq_true, decide_eq_true_eq]
          at hselected
        obtain ⟨hstored, ⟨⟨hqueue, hstale⟩, _⟩, _⟩ := hselected
        have hget := Table.get?_of_mem hstored
        rw [WorkerRow.key, hqueue] at hget
        exact .stale hget hstale
      · cases hnone

/-- A registration recovers the rows of a stale incumbent. -/
theorem takeover_forfeits {worker queue storage layers token : String}
    {staleAfter : Duration}
    (h : item ∈ (program rows (.registerWorker worker queue storage layers
      token staleAfter)).performed sql clock n view) :
    RecoveryOf clock item.view
      (.registerWorker worker queue storage layers token staleAfter)
      item.stmt := by
  have hregister : ∀ {m : Nat} {after : Db},
      item ∈ ((registerRow worker queue storage layers token >>= fun _ =>
        pure Outcome.done) : Tx Outcome).performed sql clock m after →
      RecoveryOf clock item.view
        (.registerWorker worker queue storage layers token staleAfter)
        item.stmt := by
    intro m after hitem
    obtain ⟨count, changes, _, heq | hnone⟩ := Program.performed_cases hitem
    · subst heq
      rintro _ _ _ ⟨⟩
    · cases hnone
  rcases performed_read rfl h with ⟨hstmt, _⟩ | ⟨acquired, _, hlater⟩
  · rw [hstmt]
    exact .of_readOnly rfl
  cases acquired with
  | false => cases hlater
  | true =>
      rcases performed_read rfl hlater with ⟨hstmt, _⟩ |
        ⟨existing, hplan, hlast⟩
      · rw [hstmt]
        exact .of_readOnly rfl
      change item ∈ (registerOver worker queue storage layers token existing >>=
        fun _ => pure Outcome.done).performed sql clock (n + 1 + 1) view at hlast
      simp only [Stmt.plan, Except.ok.injEq, Prod.mk.injEq, and_true] at hplan
      subst hplan
      cases hget : view.workers.get? (worker, queue) with
      | none =>
          rw [hget] at hlast
          exact hregister hlast
      | some owner =>
          rw [hget] at hlast
          simp only [Option.map_some, registerOver] at hlast
          split at hlast
          · rename_i hallowed
            split at hlast
            · rename_i hlost
              -- allowed and lost: only a stale registration is both
              have hstale : elapsedAtLeast staleAfter (clock (n + 1)).now
                  owner.lastSeen = true := by
                simp only [Bool.or_eq_true, decide_eq_true_eq] at hallowed hlost
                rcases hallowed with hsame | hstale
                · rcases hlost with hne | hstale
                  · exact absurd hsame hne
                  · exact hstale
                · exact hstale
              obtain ⟨count, changes, _, heq | hnext⟩ :=
                Program.performed_cases hlast
              · subst heq
                intro queue' workers' reason hstmt worker' hworker
                cases hstmt
                cases List.mem_singleton.mp hworker
                exact .taken hget hstale
              · exact hregister hnext
            · exact hregister hlast
          · cases hlast

/-- Whoever is recovered had forfeited its rows. -/
theorem program_forfeits {op : Op}
    (h : item ∈ (program rows op).performed sql clock n view)
    (hissued : Issued item.view op item.stmt) :
    RecoveryOf clock item.view op item.stmt := by
  intro queue workers reason hstmt worker hworker
  rw [hstmt] at hissued
  generalize hrecover : Stmt.recoverOwned queue workers reason = stmt at hissued
  cases hissued with
  | read hread =>
      subst hrecover
      simp [Stmt.readOnly] at hread
  | recoverStale =>
      cases hrecover
      exact sweep_forfeits h _ _ _ hstmt worker hworker
  | recoverTaken =>
      cases hrecover
      exact takeover_forfeits h _ _ _ hstmt worker hworker
  | recoverReleased hholds =>
      cases hrecover
      obtain ⟨owner, howner, htoken⟩ := hholds _ rfl
      cases List.mem_singleton.mp hworker
      exact .released howner htoken
  | _ => cases hrecover

end

section

variable (rows : TaskConversion)

/-- The statements one call performs. -/
def System.performed (system : System) (invocation : Invocation) :
    List (Performed Stmt Db Env Effect) :=
  (program rows invocation.op).performed sql invocation.env 0 system.db

end

/-- What the lifecycle says about one statement of a call. -/
structure FollowsLifecycle (system : System) (invocation : Invocation)
    (item : Performed Stmt Db Env Effect) : Prop where
  /-- each row is left alone or moves along one edge of the operation -/
  edge : ∀ id, (item.view.apply item.changes).jobs.get? id =
      item.view.jobs.get? id ∨
    Documented system.db invocation.env item.view item.env.now invocation.op
      (item.view.jobs.get? id) ((item.view.apply item.changes).jobs.get? id)
  /-- rows outside the scope of the operation are untouched -/
  scope : ∀ row ∈ item.view.jobs.rows, ¬ invocation.op.Scope row →
    (item.view.apply item.changes).jobs.get? row.id = some row
  /-- finished rows change only by the purge, which deletes them -/
  finished : ∀ row ∈ item.view.jobs.rows,
    row.status = .done ∨ row.status = .killed →
    (item.view.apply item.changes).jobs.get? row.id = some row ∨
      ((item.view.apply item.changes).jobs.get? row.id = none ∧
        ∃ queue cutoff limit,
          invocation.op = .purgeTerminalBatch queue cutoff limit)
  /-- the budget an acknowledgement reads from returned parts is the row's -/
  budget : ∀ token res parts, invocation.op = .acknowledge token res parts →
    Returned system.commits parts → CarriesBudget item.view parts

/-- What holds of every view inside a transaction. -/
structure LifecycleView (origin : Db) (op : Op) (view : Db) : Prop where
  budgeted : view.Budgeted
  accepted : ∀ row ∈ view.jobs.rows, rowViolation row = none
  lineage : ∀ row ∈ view.jobs.rows,
    (∃ old ∈ origin.jobs.rows, old.id = row.id ∧
      old.maxAttempts = row.maxAttempts) ∨
    ∃ queue batch, op = .pushTasksOnConn queue batch

theorem Executed.accepted_rows {env : Env} {view : Db} {stmt : Stmt}
    {effects : List Effect} (h : Executed env view stmt effects)
    (hview : ∀ row ∈ view.jobs.rows, rowViolation row = none) :
    ∀ row ∈ (view.apply effects).jobs.rows, rowViolation row = none := by
  intro row hrow
  rcases h.row_cases hrow with ⟨change, hmem, hafter⟩ | ⟨hold, _⟩
  · exact (h.row_accepted hmem hafter).1
  · exact hview row hold

theorem LifecycleView.step {origin view : Db} {op : Op} {env : Env}
    {stmt : Stmt} {changes : List Effect} (h : LifecycleView origin op view)
    (hissued : Issued view op stmt) (hexec : Executed env view stmt changes) :
    LifecycleView origin op (view.apply changes) := by
  refine ⟨hexec.budgeted hissued h.budgeted, hexec.accepted_rows h.accepted, ?_⟩
  intro row hrow
  rcases hexec.row_cases hrow with ⟨change, hmem, hafter⟩ | ⟨hold, _⟩
  · have hstep := hexec.jobStep hmem
    cases hbefore : change.before with
    | none =>
        cases hstep with
        | enqueue _ _ =>
            cases hissued with
            | read hread => simp [Stmt.readOnly] at hread
            | insertJobs => exact Or.inr ⟨_, _, rfl⟩
        | _ => cases hbefore
    | some old =>
        obtain ⟨hid, _, hmax, _⟩ := hstep.fixed_columns hbefore hafter
        have hstored : old ∈ view.jobs.rows := Table.mem_of_get?
          (hstep.reads.before_eq.symm.trans hbefore)
        rcases h.lineage old hstored with ⟨first, hfirst, hsame, hbudget⟩ | hop
        · exact Or.inl ⟨first, hfirst, hsame.trans hid.symm,
            hbudget.trans hmax.symm⟩
        · exact Or.inr hop
  · exact h.lineage row hold

section

variable {rows : TaskConversion} {admits : System → Op → Prop}
  {system : System}

theorem Reachable.accepted_rows (h : Reachable rows admits system) :
    ∀ row ∈ system.db.jobs.rows, rowViolation row = none := by
  induction h with
  | initial =>
      intro row hrow
      cases hrow
  | @step system _ invocation _ ih =>
      exact (System.execute_ensures rows system invocation
        (P := fun view _ => ∀ row ∈ view.jobs.rows, rowViolation row = none)
        ih fun _ _ _ _ _ _ hview hexec => hexec.accepted_rows hview).1

/-- What is known of a statement that ran in a reachable state. -/
theorem Reachable.performed_view (h : Reachable rows admits system)
    {invocation : Invocation} {item : Performed Stmt Db Env Effect}
    (hitem : item ∈ system.performed rows invocation) :
    Issued item.view invocation.op item.stmt ∧
      LifecycleView system.db invocation.op item.view ∧
      Executed item.env item.view item.stmt item.changes := by
  have hissues : (program rows invocation.op).Issues sql
      (fun view stmt => Issued view invocation.op stmt)
      (fun value after => value.Claimed after) system.db :=
    program_issues invocation.op
  obtain ⟨hissued, hview, result, hresult⟩ := hissues.performed
    (P := LifecycleView system.db invocation.op)
    ⟨h.budgeted, h.accepted_rows, fun row hrow =>
      Or.inl ⟨row, hrow, rfl, rfl⟩⟩
    (fun _ _ _ _ _ hissued hview hexec =>
      hview.step hissued (exec_executed hexec))
    invocation.env 0 item hitem
  exact ⟨hissued, hview, exec_executed hresult⟩

/-- A statement leaves a row alone or moves it along one edge of its
operation. -/
theorem Reachable.performed_edge (h : Reachable rows admits system)
    {invocation : Invocation} {item : Performed Stmt Db Env Effect}
    (hitem : item ∈ system.performed rows invocation) (id : String) :
    (item.view.apply item.changes).jobs.get? id = item.view.jobs.get? id ∨
      Documented system.db invocation.env item.view item.env.now
        invocation.op (item.view.jobs.get? id)
        ((item.view.apply item.changes).jobs.get? id) := by
  obtain ⟨hissued, hview, hexec⟩ := h.performed_view hitem
  have hquarantine : QuarantineOf system.db item.stmt := by
    intro id result hstmt
    have hquarantined := hissued
    rw [hstmt] at hquarantined
    obtain ⟨worker, queue, row, _, _, hop⟩ := hquarantined.quarantine_inv
    exact ((program_quarantines hop).performed (P := fun _ => True) trivial
      (fun _ _ _ _ _ _ _ _ => trivial) invocation.env 0 item hitem).1
      id result hstmt
  rcases hexec.job_cases id with ⟨change, hmem, rfl, hafter⟩ | ⟨_, hsame⟩
  · right
    have hstep := hexec.jobStep hmem
    rw [hafter, ← hstep.reads.before_eq]
    exact hstep.documented hissued hview.budgeted hview.accepted
      hquarantine (program_forfeits hitem hissued)
  · exact Or.inl hsame

/-- The invariant rule for rows: what every edge leaves in the row it writes
holds of every row of every run. -/
theorem Reachable.row_invariant {P : JobRow → Prop}
    (h : Reachable rows admits system)
    (hedge : ∀ {earlier : System} {origin view : Db} {clock : Nat → Env}
      {now : Timestamp} {op : Op} {before : Option JobRow} {row : JobRow},
      admits earlier op → Documented origin clock view now op before (some row) →
      (∀ old, before = some old → P old) → P row) :
    ∀ row ∈ system.db.jobs.rows, P row := by
  induction h with
  | initial =>
      intro row hrow
      cases hrow
  | @step system hsystem invocation hadmits ih =>
      refine (program rows invocation.op).execute_invariant (M := sql)
        (P := fun view => ∀ row ∈ view.jobs.rows, P row)
        invocation.env system.db ih ?_
      intro item hitem hview row hrow
      have hget : (item.view.apply item.changes).jobs.get? row.id =
        some row := Table.get?_of_mem hrow
      rcases hsystem.performed_edge hitem row.id with hsame | hmoved
      · exact hview row (Table.mem_of_get? (hsame.symm.trans hget))
      · rw [hget] at hmoved
        refine hedge hadmits hmoved ?_
        intro old hold
        exact hview old (Table.mem_of_get? hold)

theorem Reachable.performed_follows (h : Reachable rows admits system)
    {invocation : Invocation} {item : Performed Stmt Db Env Effect}
    (hitem : item ∈ system.performed rows invocation) :
    FollowsLifecycle system invocation item := by
  have hedge := h.performed_edge hitem
  obtain ⟨_, hview, _⟩ := h.performed_view hitem
  refine ⟨hedge, ?_, ?_, ?_⟩
  · intro row hrow hscope
    have hget := Table.get?_of_mem hrow
    rcases hedge row.id with hsame | hmoved
    · exact hsame.trans hget
    · rw [hget] at hmoved
      exact absurd (hmoved.scope.1 row rfl) hscope
  · intro row hrow hfinished
    have hget := Table.get?_of_mem hrow
    rcases hedge row.id with hsame | hmoved
    · exact Or.inl (hsame.trans hget)
    · rw [hget] at hmoved
      exact Or.inr (hmoved.of_finished hfinished)
  · intro token res parts hop hreturned row hrow hid
    rcases hview.lineage row hrow with ⟨old, hold, hsame, hmax⟩ |
      ⟨queue, batch, hpush⟩
    · rw [← hmax]
      exact h.returned_budget parts hreturned old hold (by rw [hid, hsame])
    · rw [hop] at hpush
      cases hpush

/-- In every reachable state, every statement of every operation follows the
lifecycle; a committed call leaves exactly what its statements wrote, and a
refused one leaves nothing. -/
theorem statements_follow_lifecycle (h : Reachable rows admits system)
    (invocation : Invocation) :
    (∀ item ∈ system.performed rows invocation,
      FollowsLifecycle system invocation item) ∧
    match (system.execute rows invocation).outcome with
    | .ok _ => (system.step rows invocation).db = system.db.apply
        ((system.performed rows invocation).flatMap Performed.changes)
    | .error _ => (system.step rows invocation).db = system.db := by
  refine ⟨fun item hitem => h.performed_follows hitem, ?_⟩
  · have hview := (program rows invocation.op).execute_view (M := sql)
      invocation.env system.db
    unfold System.step System.performed System.execute
    cases houtcome : ((program rows invocation.op).execute sql invocation.env
        system.db).outcome with
    | ok value =>
        rw [houtcome] at hview
        exact hview
    | error error =>
        rw [houtcome] at hview
        exact hview

end

/-- A conversion that refuses every row. -/
def TaskConversion.refusing : TaskConversion where
  tryIntoTaskCompact _ := .error "malformed row"
  copies := by
    intro row task h
    cases h

/-- A claim transaction moves a malformed row along the claim and then the
quarantine edge. -/
theorem statements_follow_lifecycle_quarantine :
    let calls : List Invocation := [
      ⟨.registerWorker "worker" "queue" storageName "" "token" 30, quietEnv⟩,
      ⟨.pushTasksOnConn "queue" [sampleTask], quietEnv⟩]
    let claim : Invocation :=
      ⟨.fetchNext "worker" "queue" 10 (some "token"), quietEnv⟩
    let system := calls.foldl (System.step TaskConversion.refusing) .initial
    ((system.performed TaskConversion.refusing claim).map fun item =>
        (jobChanges item.changes).map fun change => (change.key, change.tag)) =
      [[], [(sampleId, .pollClaim)], [(sampleId, .quarantine)]] ∧
    ∀ item ∈ system.performed TaskConversion.refusing claim,
      FollowsLifecycle system claim item := by
  intro calls claim system
  have hsystem : Reachable TaskConversion.refusing (fun _ _ => True) system :=
    .step (.step .initial _ trivial) _ trivial
  exact ⟨by decide +kernel, (statements_follow_lifecycle hsystem claim).1⟩

/-- The status of a failed acknowledgement follows the budget its parts name,
not the row's: manual parts that name a larger one leave an exhausted row
`Failed`. -/
theorem acknowledged_status_not_of_row :
    ¬ ∀ (system : System) (token : Option String) (message : String)
        (parts : Parts) (env : Nat → Env) (id : String) (status : Status)
        (attempts maxAttempts : Int),
      Reachable TaskConversion.copying (fun _ _ => True) system →
      (system.db.jobs.get? id).map (fun row =>
        (row.active, row.attempts, row.maxAttempts)) =
          some (true, attempts, maxAttempts) →
      ((system.step TaskConversion.copying ⟨.acknowledge token (.err message)
        parts, env⟩).db.jobs.get? id).map (fun row =>
          (row.status, row.attempts)) = some (status, attempts + 1) →
      (status = .failed ↔ attempts + 1 < maxAttempts) := by
  intro hclaim
  let calls : List Invocation := [
    ⟨.registerWorker "worker" "queue" storageName "" "token" 30, quietEnv⟩,
    ⟨.pushTasksOnConn "queue" [{ sampleTask with maxAttempts := 1 }], quietEnv⟩,
    ⟨.fetchNext "worker" "queue" 10 (some "token"), quietEnv⟩]
  have hsystem : Reachable TaskConversion.copying (fun _ _ => True)
      (calls.foldl (System.step TaskConversion.copying) .initial) :=
    .step (.step (.step .initial _ trivial) _ trivial) _ trivial
  have hiff := hclaim _ (some "token") "boom"
    ⟨some sampleId, ⟨5, some 1, some "worker", some "queue"⟩, 1, none⟩ quietEnv
    sampleId .failed 0 1 hsystem (by decide +kernel) (by decide +kernel)
  exact absurd (hiff.mp rfl) (by decide)

end ApalisPostgres
