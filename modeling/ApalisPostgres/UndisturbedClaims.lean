/-
Claims nobody disturbs.  The epoch of a claim leaves the database as a count
and a number of seconds and comes back as the predicate of the statements
that start, acknowledge or release it.  As long as no one else touches the
row or the registration, every one of these statements matches that row.
-/
import ApalisPostgres.Lifecycle

namespace ApalisPostgres

open RowStore

/-- The claim timestamp of an active row is a whole second. -/
def JobRow.WholeSecond (row : JobRow) : Prop :=
  row.active = true → ∃ seconds, row.lockAt = some (toTimestamp seconds)

theorem JobRow.WholeSecond.of_inactive {row : JobRow}
    (h : row.active = false) : row.WholeSecond := by
  intro hactive
  rw [h] at hactive
  cases hactive

/-- Every edge into a claim truncates, and no edge inside one changes it. -/
theorem Documented.wholeSecond {origin view : Db} {clock : Nat → Env}
    {now : Timestamp} {op : Op} {before : Option JobRow} {row : JobRow}
    (h : Documented origin clock view now op before (some row))
    (hbefore : ∀ old, before = some old → old.WholeSecond) :
    row.WholeSecond := by
  obtain ⟨seconds, hseconds⟩ := truncSecond_eq now
  cases h with
  | enqueue _ => exact .of_inactive rfl
  | pollClaim hclaims | notifyClaim hclaims _ | compatibilityClaim hclaims =>
      intro _
      rw [hclaims.writes]
      exact ⟨seconds, congrArg some hseconds⟩
  | start _ _ _ hlockAt _ _ _ _ =>
      intro _
      exact ⟨_, hlockAt⟩
  | @lock _ _ _ old _ _ _ _ =>
      intro _
      dsimp only
      split
      · rename_i hactive
        exact hbefore old rfl hactive
      · exact ⟨seconds, congrArg some hseconds⟩
  | acknowledge _ _ _ _ _ _ _ _ =>
      apply JobRow.WholeSecond.of_inactive
      simp only [JobRow.active]
      split
      · rfl
      · split <;> rfl
  | undecodable _ _ =>
      apply JobRow.WholeSecond.of_inactive
      simp only [JobRow.active]
      split <;> rfl
  | quarantine _ _ _ _ _ _ _ => exact .of_inactive rfl
  | recovery _ _ _ =>
      apply JobRow.WholeSecond.of_inactive
      simp only [JobRow.active]
      split <;> rfl

section

variable {rows : TaskConversion} {admits : System → Op → Prop}
  {system : System}

theorem Reachable.wholeSecond (h : Reachable rows admits system) :
    ∀ row ∈ system.db.jobs.rows, row.WholeSecond :=
  h.row_invariant fun _ hedge hbefore => hedge.wholeSecond hbefore

end

/-- A claim that stands: the row its task was made of is stored, owned by the
worker, within its budget, and its epoch is the one the task carries. -/
structure StandingClaim (db : Db) (worker : String) (token : Option String)
    (started : Bool) (task : Task) (row : JobRow) : Prop
    extends ClaimHeld db worker token started task row where
  budgeted : row.Budgeted
  storable : row.Storable
  wholeSecond : ∃ seconds, row.lockAt = some (toTimestamp seconds)
  registered : ∃ owner, db.workers.get? (worker, row.jobType) = some owner

section

variable {db : Db} {worker : String} {token : Option String} {started : Bool}
  {task : Task} {row : JobRow}

theorem ClaimHeld.active (h : ClaimHeld db worker token started task row) :
    row.active = true := by
  apply row.active_iff.mpr
  rw [h.status]
  cases started <;> simp

/-- A returned task stands for its claim in every reachable state. -/
theorem ClaimHeld.standing {rows : TaskConversion}
    {admits : System → Op → Prop} {system : System}
    (h : ClaimHeld system.db worker token started task row)
    (hsystem : Reachable rows admits system) :
    StandingClaim system.db worker token started task row where
  toClaimHeld := h
  budgeted := hsystem.budgeted.rows row h.stored
  storable := hsystem.budgeted.storable row h.stored
  wholeSecond := hsystem.wholeSecond row h.stored h.active
  registered := ownerRegistered_iff.mp
    (hsystem.budgeted.owners row h.stored) worker h.lockBy

/-- Whoever leaves the row and the registration leaves the claim. -/
theorem StandingClaim.undisturbed {after : Db}
    (h : StandingClaim db worker token started task row)
    (hrow : after.jobs.get? row.id = db.jobs.get? row.id)
    (hregistration : after.workers.get? (worker, row.jobType) =
      db.workers.get? (worker, row.jobType)) :
    StandingClaim after worker token started task row where
  stored := Table.mem_of_get? (hrow.trans (Table.get?_of_mem h.stored))
  claimed := h.claimed
  status := h.status
  lockBy := h.lockBy
  current := by
    intro presented htoken
    rw [hregistration]
    exact h.current presented htoken
  budgeted := h.budgeted
  storable := h.storable
  wholeSecond := h.wholeSecond
  registered := by
    rw [hregistration]
    exact h.registered

/-- The epoch of the claim, as it comes back from the task. -/
theorem StandingClaim.epoch
    (h : StandingClaim db worker token started task row) :
    ∃ seconds, row.lockAt = some (toTimestamp seconds) ∧
      task.parts.ctx.lockAt = some seconds ∧
      (task.parts.attempt : Int) = row.attempts ∧
      task.parts.claim =
        some ⟨some row.id, some seconds, task.parts.attempt⟩ := by
  obtain ⟨seconds, hlockAt⟩ := h.wholeSecond
  have hseconds : row.lockAt.map unixSeconds = some seconds := by
    rw [hlockAt, Option.map_some, unixSeconds_toTimestamp]
  have hnonneg := h.budgeted.attempts_nonneg
  refine ⟨seconds, hlockAt, h.claimed.copies.lockAt.trans hseconds, ?_, ?_⟩
  · rw [h.claimed.copies.attempt]
    omega
  · rw [h.claimed.claim, hseconds, h.claimed.copies.attempt]

/-- What a statement wrote: the row of one task and nothing else. -/
def WritesTask (effects : List Effect) (taskId : String) : Prop :=
  (jobChanges effects).map RowChange.key = [taskId] ∧
    workerChanges effects = []

theorem writesTask_updateJobs (edge : JobEdge) (rewrite : JobRow → JobRow)
    (row : JobRow) : WritesTask (updateJobs edge rewrite [row]) row.id :=
  ⟨by rw [jobChanges_updateJobs, updateChanges_keys]; rfl,
    workerChanges_updateJobs _ _ _⟩

/-- An UPDATE whose predicate holds of one row of the claim matches exactly
that row, and the schema accepts what it writes. -/
theorem exec_one {stmt : Stmt} {env : Env} {result : stmt.Result}
    {edge : JobEdge} {rewrite : JobRow → JobRow} {keep : JobRow → Bool}
    (hget : db.jobs.get? row.id = some row) (hkeep : keep row = true)
    (hplan : stmt.plan env db = .ok (result,
      updateJobs edge rewrite (db.jobs.rows.filter keep)))
    (honly : ∀ other ∈ db.jobs.rows, keep other = true → other.id = row.id)
    (haccepted : rowViolation (rewrite row) = none)
    (howner : ∀ owner, (rewrite row).lockBy = some owner →
      ∃ found, db.workers.get? (owner, (rewrite row).jobType) = some found) :
    stmt.exec env db = .ok (result, updateJobs edge rewrite [row]) := by
  have hselected : db.jobs.rows.filter keep = [row] := by
    rw [Table.filter_of_get? hget keep honly, if_pos hkeep]
  rw [hselected] at hplan
  apply exec_update hplan
  · intro other hother
    rw [List.mem_singleton.mp hother]
    exact haccepted
  · intro other hother
    rw [List.mem_singleton.mp hother]
    exact ownerRegistered_iff.mpr howner

theorem length_filter_one {keep : JobRow → Bool}
    (hget : db.jobs.get? row.id = some row) (hkeep : keep row = true)
    (honly : ∀ other ∈ db.jobs.rows, keep other = true → other.id = row.id) :
    (db.jobs.rows.filter keep).length = 1 := by
  rw [Table.filter_of_get? hget keep honly, if_pos hkeep]
  rfl

theorem StandingClaim.get? (h : StandingClaim db worker token started task row) :
    db.jobs.get? row.id = some row :=
  Table.get?_of_mem h.stored

theorem StandingClaim.accepted
    (h : StandingClaim db worker token started task row) :
    (db.workers.get? (worker, row.jobType)).any (tokenAccepted token) =
      true := by
  obtain ⟨owner, howner⟩ := h.registered
  cases token with
  | none => simp [howner, tokenAccepted]
  | some presented =>
      obtain ⟨found, hfound, htoken⟩ := h.current presented rfl
      simp [hfound, tokenAccepted, htoken]

theorem StandingClaim.attempts_lt
    (h : StandingClaim db worker token started task row) :
    row.attempts < row.maxAttempts :=
  h.budgeted.active h.active

/-- The parts of the task, whatever value its shared counter has by now. -/
def Task.partsWith (task : Task) (attempt : Nat) : Parts :=
  { task.parts with attempt := attempt }

/-- The start of a standing claim: the statement is issued, and it matches the
row. -/
theorem StandingClaim.claim_ok
    (h : StandingClaim db worker token started task row) (attempt : Nat) :
    ∃ claim, startClaim token worker started (task.partsWith attempt) =
        .ok claim ∧ Startable claim row ∧ claim.leaseToken = token := by
  obtain ⟨seconds, hlockAt, _, hcount, hclaim⟩ := h.epoch
  have hfits : ¬ i32Max < (task.parts.attempt : Int) := by
    have hle := h.budgeted.attempts_le
    have hmax := h.storable.maxAttempts_le
    omega
  refine ⟨⟨row.id, row.jobType, worker, seconds, some task.parts.attempt,
    started, token⟩, ?_, ?_, rfl⟩
  · simp [startClaim, startLockAt, Task.partsWith, h.claimed.copies.taskId,
      h.claimed.copies.queue, hclaim, hfits, bind, Except.bind, pure,
      Except.pure]
  · refine ⟨rfl, rfl, h.lockBy, hlockAt, Or.inr (congrArg some hcount), ?_⟩
    rw [h.status]
    cases started <;> simp

theorem StandingClaim.exec_startTask {claim : StartClaim} (env : Env)
    (h : StandingClaim db worker token started task row)
    (hmatch : Startable claim row) (htoken : claim.leaseToken = token) :
    (Stmt.startTask claim).exec env db =
      .ok (1, updateJobs .start startRow [row]) := by
  have hworker : claim.workerId = worker :=
    Option.some.inj (hmatch.lockBy.symm.trans h.lockBy)
  have howned : (db.workers.get? (claim.workerId, claim.queue)).any
      (tokenAccepted claim.leaseToken) = true := by
    rw [hworker, ← hmatch.jobType, htoken]
    exact h.accepted
  have honly : ∀ other ∈ db.jobs.rows,
      ((db.workers.get? (claim.workerId, claim.queue)).any
        (tokenAccepted claim.leaseToken) && startable claim other) = true →
      other.id = row.id := by
    intro other _ hkept
    rw [Bool.and_eq_true, startable_iff] at hkept
    exact hkept.2.id.trans hmatch.id.symm
  have hkeep : ((db.workers.get? (claim.workerId, claim.queue)).any
      (tokenAccepted claim.leaseToken) && startable claim row) = true := by
    rw [howned, startable_iff.mpr hmatch]
    rfl
  refine exec_one h.get? hkeep ?_ honly ?_ ?_
  · simp only [Stmt.plan, length_filter_one h.get? hkeep honly]
  · refine rowViolation_eq_none ⟨h.storable.maxAttempts_pos,
      h.storable.maxAttempts_le, h.storable.priority_nonneg,
      h.storable.priority_le⟩ h.budgeted.attempts_nonneg
      h.budgeted.attempts_le ?_ ?_
    · intro _
      obtain ⟨seconds, hlockAt⟩ := h.wholeSecond
      exact ⟨by simp [startRow, h.lockBy], by simp [startRow, hlockAt]⟩
    · intro hpending
      cases hpending
  · intro owner howner
    cases howner.symm.trans h.lockBy
    exact h.registered

/-- A started claim still stands. -/
theorem StandingClaim.after_start {claim : StartClaim} (env : Env)
    (h : StandingClaim db worker token started task row)
    (hmatch : Startable claim row) (htoken : claim.leaseToken = token) :
    StandingClaim (db.apply (updateJobs .start startRow [row])) worker token
      true task (startRow row) := by
  have hexecuted := exec_executed (h.exec_startTask env hmatch htoken)
  have hworkers : (db.apply (updateJobs .start startRow [row])).workers =
      db.workers := by
    rw [Db.apply_workers, workerChanges_updateJobs]
    rfl
  have hstored := hexecuted.get?_updated (List.mem_singleton.mpr rfl)
  have hcopies := h.claimed.copies
  exact {
    stored := Table.mem_of_get? hstored
    claimed := ⟨⟨hcopies.args, hcopies.taskId, hcopies.maxAttempts,
      hcopies.lockAt, hcopies.lockBy, hcopies.queue, hcopies.attempt⟩,
      h.claimed.claim⟩
    status := rfl
    lockBy := h.lockBy
    current := h.current.of_workers_eq hworkers
    budgeted := ⟨h.budgeted.attempts_nonneg, h.budgeted.attempts_le,
      fun _ => h.attempts_lt⟩
    storable := ⟨h.storable.maxAttempts_pos, h.storable.maxAttempts_le,
      h.storable.priority_nonneg, h.storable.priority_le⟩
    wholeSecond := h.wholeSecond
    registered := by
      rw [hworkers]
      exact h.registered }

/-- The acknowledgement of a standing claim: the update is issued, and it
matches the row. -/
theorem StandingClaim.update_ok
    (h : StandingClaim db worker token started task row) (attempt : Nat)
    {res : HandlerResult} {result : Option Json}
    (hresult : buildAckResponse res = .ok result) :
    ∃ update, ackUpdate token res (task.partsWith attempt) = .ok update ∧
      acknowledgeable update row = true ∧ update.workerId = worker ∧
      update.attempts = row.attempts + 1 := by
  obtain ⟨seconds, hlockAt, hparts, hcount, hclaim⟩ := h.epoch
  have hlt := h.attempts_lt
  have hmax := h.storable.maxAttempts_le
  have hrange : task.parts.attempt + 1 ≤ usizeMax := by
    simp only [usizeMax, i32Max] at hmax ⊢
    omega
  have hfits : ¬ i32Max < ((task.parts.attempt + 1 : Nat) : Int) := by
    push_cast
    omega
  have hattempt : acknowledgementAttempt (task.partsWith attempt) =
      .ok (task.parts.attempt + 1) := by
    simp [acknowledgementAttempt, Task.partsWith, hclaim,
      h.claimed.copies.taskId, h.claimed.copies.lockBy, h.lockBy,
      h.claimed.copies.queue, hparts, hrange, bind, Except.bind]
  refine ⟨⟨row.id, (task.parts.attempt + 1 : Nat),
    startedAttempts (task.parts.attempt + 1 : Nat), result,
    calculateStatus task.parts.ctx.maxAttempts (task.parts.attempt + 1) res,
    worker, row.jobType, seconds, token⟩, ?_, ?_, rfl, ?_⟩
  · unfold ackUpdate
    rw [hattempt]
    simp only [bind, Except.bind]
    rw [if_neg hfits]
    simp [Task.partsWith, h.claimed.copies.taskId, hresult,
      h.claimed.copies.lockBy, h.lockBy, h.claimed.copies.queue, hparts, pure,
      Except.pure]
  · refine acknowledgeable_iff.mpr ⟨rfl, rfl, h.active, h.lockBy, hlockAt, ?_⟩
    simp only [startedAttempts, i32Max]
    push_cast
    omega
  · push_cast
    omega

/-- A row that leaves its claim within its budget is accepted. -/
theorem StandingClaim.released_accepted {next : JobRow}
    (h : StandingClaim db worker token started task row)
    (hmax : next.maxAttempts = row.maxAttempts)
    (hpriority : next.priority = row.priority)
    (hattempts : next.attempts = row.attempts + 1)
    (hactive : next.active = false) (hpending : next.status ≠ .pending) :
    rowViolation next = none := by
  have hnonneg := h.budgeted.attempts_nonneg
  have hlt := h.attempts_lt
  refine rowViolation_eq_none ⟨?_, ?_, ?_, ?_⟩ (by omega) (by omega) ?_ ?_
  · rw [hmax]
    exact h.storable.maxAttempts_pos
  · rw [hmax]
    exact h.storable.maxAttempts_le
  · rw [hpriority]
    exact h.storable.priority_nonneg
  · rw [hpriority]
    exact h.storable.priority_le
  · intro hcontra
    rw [hactive] at hcontra
    cases hcontra
  · intro hcontra
    exact absurd hcontra hpending

theorem StandingClaim.exec_ackTask {update : AckTaskUpdate}
    {res : HandlerResult} {parts : Parts} (env : Env)
    (h : StandingClaim db worker token started task row)
    (hupdate : update.Acknowledges token res parts)
    (hmatch : acknowledgeable update row = true)
    (hattempts : update.attempts = row.attempts + 1) :
    (Stmt.ackTask update).exec env db =
      .ok (1, updateJobs .acknowledge (ackRow env.now update) [row]) := by
  have honly : ∀ other ∈ db.jobs.rows, acknowledgeable update other = true →
      other.id = row.id := by
    intro other _ hkept
    exact (acknowledgeable_iff.mp hkept).2.1.trans
      (acknowledgeable_iff.mp hmatch).2.1.symm
  refine exec_one h.get? hmatch ?_ honly ?_ ?_
  · simp only [Stmt.plan, length_filter_one h.get? hmatch honly]
  · refine h.released_accepted rfl rfl hattempts (ackRow_active hupdate) ?_
    simp only [ackRow, hupdate.status, calculateStatus]
    split
    · simp
    · split <;> simp
  · intro owner howner
    cases howner.symm.trans h.lockBy
    exact h.registered

theorem StandingClaim.exec_failUndecodable {seconds : Int} (env : Env)
    (result : Json) (h : StandingClaim db worker token started task row)
    (hlockAt : row.lockAt = some (toTimestamp seconds)) :
    (Stmt.failUndecodableTask row.id worker result seconds row.attempts).exec
        env db =
      .ok (1, updateJobs .undecodable (undecodableRow env.now result)
        [row]) := by
  have hmatch : epochMatches row.id worker seconds row.attempts row = true :=
    epochMatches_iff.mpr ⟨rfl, h.active, h.lockBy, hlockAt, rfl⟩
  have honly : ∀ other ∈ db.jobs.rows,
      epochMatches row.id worker seconds row.attempts other = true →
      other.id = row.id := by
    intro other _ hkept
    exact (epochMatches_iff.mp hkept).1
  have hlt := h.attempts_lt
  refine exec_one h.get? hmatch ?_ honly ?_ ?_
  · simp only [Stmt.plan, length_filter_one h.get? hmatch honly]
  · refine h.released_accepted rfl rfl ?_ (undecodableRow_active _ _ _) ?_
    · simp only [undecodableRow, boundedIncrement]
      omega
    · simp only [undecodableRow]
      split <;> simp
  · intro owner howner
    cases howner.symm.trans h.lockBy
    exact h.registered

/-- The registration check inside the ownership statements passes. -/
theorem StandingClaim.exec_registration (env : Env)
    (h : StandingClaim db worker token started task row) :
    (Stmt.workerRegistration worker row.jobType token).exec env db =
      .ok (.current, []) := by
  obtain ⟨owner, howner⟩ := h.registered
  have haccepted : tokenAccepted token owner = true := by
    have hany := h.accepted
    rw [howner] at hany
    simpa using hany
  simp [Stmt.exec, Stmt.plan, howner, haccepted, bind, Except.bind, pure,
    Except.pure]

end

section

variable {rows : TaskConversion} {system : System} {worker : String}
  {token : Option String} {started : Bool} {task : Task} {row : JobRow}

theorem StandingClaim.start_executes {claim : StartClaim} (env : Nat → Env)
    (h : StandingClaim system.db worker token started task row)
    (hmatch : Startable claim row) (htoken : claim.leaseToken = token) :
    system.execute rows ⟨.startTask claim, env⟩ =
      ⟨system.db.apply (updateJobs .start startRow [row]),
        updateJobs .start startRow [row], .ok (.started true)⟩ := by
  have hexec : sql.exec (.startTask claim) (env 0) system.db = _ :=
    h.exec_startTask (env 0) hmatch htoken
  exact Program.execute_of_runBody (Program.runBody_statement hexec)

theorem StandingClaim.ack_executes {update : AckTaskUpdate}
    {res : HandlerResult} {parts : Parts} (env : Nat → Env)
    (h : StandingClaim system.db worker token started task row)
    (hupdate : ackUpdate token res parts = .ok update)
    (hmatch : acknowledgeable update row = true)
    (hattempts : update.attempts = row.attempts + 1) :
    ∃ now, system.execute rows ⟨.acknowledge token res parts, env⟩ =
      ⟨system.db.apply (updateJobs .acknowledge (ackRow now update) [row]),
        updateJobs .acknowledge (ackRow now update) [row], .ok .done⟩ := by
  have hacknowledges := ackUpdate_ok hupdate
  obtain ⟨hqueue, _, _, hworker, _⟩ := acknowledgeable_iff.mp hmatch
  have howner : update.workerId = worker :=
    Option.some.inj (hworker.symm.trans h.lockBy)
  have hexec : ∀ n, sql.exec (.ackTask update) (env n) system.db = _ :=
    fun n => h.exec_ackTask (env n) hacknowledges hmatch hattempts
  have hregistered : sql.exec (.workerRegistration update.workerId
      update.queue update.leaseToken) (env 0) system.db =
        .ok (.current, []) := by
    rw [howner, ← hqueue, hacknowledges.leaseToken]
    exact h.exec_registration (env 0)
  simp only [System.execute, program, acknowledge, hupdate, ackTask]
  split
  · refine ⟨(env 1).now, Program.execute_of_runBody ?_⟩
    exact (Program.runBody_statement hregistered).trans
      (Program.runBody_statement (hexec 1))
  · exact ⟨(env 0).now,
      Program.execute_of_runBody (Program.runBody_statement (hexec 0))⟩

theorem StandingClaim.release_executes {seconds : Int} (env : Nat → Env)
    (error : String)
    (h : StandingClaim system.db worker token started task row)
    (hlockAt : row.lockAt = some (toTimestamp seconds)) :
    ∃ now, system.execute rows ⟨.failUndecodableTask row.id worker seconds
        row.attempts error token, env⟩ =
      ⟨system.db.apply (updateJobs .undecodable (undecodableRow now
          (errResult (truncateErrorPayload error))) [row]),
        updateJobs .undecodable (undecodableRow now
          (errResult (truncateErrorPayload error))) [row],
        .ok (.count 1)⟩ := by
  have hexec : ∀ n, sql.exec (.failUndecodableTask row.id worker
      (errResult (truncateErrorPayload error)) seconds row.attempts) (env n)
        system.db = _ :=
    fun n => h.exec_failUndecodable (env n) _ hlockAt
  have hlocated : sql.exec (.taskQueue row.id none) (env 0) system.db =
      .ok (some row.jobType, []) := by
    change (Stmt.taskQueue row.id none).exec (env 0) system.db = _
    simp [Stmt.exec, Stmt.plan, h.get?, bind, Except.bind, pure, Except.pure]
  have hregistered : sql.exec (.workerRegistration worker row.jobType token)
      (env 1) system.db = .ok (.current, []) :=
    h.exec_registration (env 1)
  cases token with
  | none =>
      exact ⟨(env 0).now,
        Program.execute_of_runBody (Program.runBody_statement (hexec 0))⟩
  | some presented =>
      refine ⟨(env 2).now, Program.execute_of_runBody ?_⟩
      exact (Program.runBody_statement hlocated).trans
        ((Program.runBody_statement hregistered).trans
          (Program.runBody_statement (hexec 2)))

end

/-- Who claims through an operation, the token presented, and whether the
claim starts its row in the same statement: the middleware then marks the
record at once. -/
def Op.claimant : Op → Option (String × Option String × Bool)
  | .fetchNext worker _ _ token => some (worker, token, false)
  | .queueById _ _ worker token => some (worker, token, false)
  | .lockTaskWithToken _ worker _ token => some (worker, token, true)
  | _ => none

/-- The outcome on which a start marks its record. -/
def startMatched : Except Error Outcome → Bool
  | .ok (.started matched) => matched
  | _ => false

/-- The database while a claim is used, and whether its record was started. -/
structure ClaimUse where
  system : System
  started : Bool

/-- What may happen to a claim nobody disturbs: operations that leave its row
and its registration as they are, and starts of the claim itself, whatever
the shared counter says. -/
inductive ClaimUse.Step (rows : TaskConversion) (worker : String)
    (token : Option String) (task : Task) : ClaimUse → ClaimUse → Prop where
  | other {use : ClaimUse} (invocation : Invocation)
      (hrow : ∀ taskId, task.parts.taskId = some taskId →
        (use.system.step rows invocation).db.jobs.get? taskId =
          use.system.db.jobs.get? taskId)
      (hregistration : ∀ queue, task.parts.ctx.queue = some queue →
        (use.system.step rows invocation).db.workers.get? (worker, queue) =
          use.system.db.workers.get? (worker, queue)) :
      Step rows worker token task use
        ⟨use.system.step rows invocation, use.started⟩
  | start {use : ClaimUse} (attempt : Nat) (env : Nat → Env)
      {claim : StartClaim}
      (hclaim : startClaim token worker use.started (task.partsWith attempt) =
        .ok claim) :
      Step rows worker token task use
        ⟨use.system.step rows ⟨.startTask claim, env⟩, use.started ||
          startMatched (use.system.execute rows
            ⟨.startTask claim, env⟩).outcome⟩

section

variable {rows : TaskConversion} {worker : String} {token : Option String}
  {task : Task}

/-- The claim still stands, for the row it was made of. -/
def ClaimUse.Stands (worker : String) (token : Option String) (task : Task)
    (use : ClaimUse) : Prop :=
  ∃ row, StandingClaim use.system.db worker token use.started task row

theorem ClaimUse.Stands.step {use next : ClaimUse}
    (h : use.Stands worker token task)
    (hstep : ClaimUse.Step rows worker token task use next) :
    next.Stands worker token task := by
  obtain ⟨row, hstands⟩ := h
  cases hstep with
  | other invocation hrow hregistration =>
      exact ⟨row, hstands.undisturbed
        (hrow row.id hstands.claimed.copies.taskId)
        (hregistration row.jobType hstands.claimed.copies.queue)⟩
  | @start attempt env claim hclaim =>
      obtain ⟨issued, hissued, hmatch, htoken⟩ := hstands.claim_ok attempt
      cases hclaim.symm.trans hissued
      have hexecutes : use.system.execute rows ⟨.startTask claim, env⟩ = _ :=
        hstands.start_executes env hmatch htoken
      refine ⟨startRow row, ?_⟩
      rw [System.step, hexecutes]
      have hafter := hstands.after_start (env 0) hmatch htoken
      simpa [startMatched] using hafter

theorem ClaimUse.Stands.steps {use next : ClaimUse}
    (h : use.Stands worker token task)
    (hsteps : Relation.ReflTransGen (ClaimUse.Step rows worker token task)
      use next) : next.Stands worker token task := by
  induction hsteps with
  | refl => exact h
  | tail _ hstep ih => exact ih.step hstep

/-- A claim that committed stands. -/
theorem ClaimUse.stands_of_claim {admits : System → Op → Prop}
    {system : System} {invocation : Invocation} {locked : Bool}
    {tasks : List Task}
    (h : Reachable rows admits (system.step rows invocation))
    (hclaimant : invocation.op.claimant = some (worker, token, locked))
    (houtcome : (system.execute rows invocation).outcome = .ok (.tasks tasks))
    (htask : task ∈ tasks) :
    (⟨system.step rows invocation, locked⟩ : ClaimUse).Stands worker token
      task := by
  have hissues : (program rows invocation.op).Issues sql
      (fun view stmt => Issued view invocation.op stmt)
      (fun value after => ∀ claimed, value = .tasks claimed →
        TasksHeld worker token locked claimed after) system.db := by
    cases hop : invocation.op with
    | fetchNext name queue bufferSize presented =>
        rw [hop] at hclaimant
        cases hclaimant
        refine Program.issues_bind ((fetchNext_issues worker queue bufferSize
          token).mono ?_)
        intro tasks after hheld claimed heq
        cases heq
        exact hheld
    | queueById queue ids name presented =>
        rw [hop] at hclaimant
        cases hclaimant
        refine Program.issues_bind ((queueById_issues queue ids worker
          token).mono ?_)
        intro tasks after hheld claimed heq
        cases heq
        exact hheld
    | lockTaskWithToken taskId name queue presented =>
        rw [hop] at hclaimant
        cases hclaimant
        refine Program.issues_bind ((lockTaskWithToken_issues taskId worker
          queue token).mono ?_)
        intro task after hheld claimed heq
        cases heq
        exact hheld.1
    | _ =>
        rw [hop] at hclaimant
        cases hclaimant
  obtain ⟨row, hheld⟩ := hissues.commits invocation.env houtcome tasks rfl
    task htask
  have hafter : ClaimHeld (system.step rows invocation).db worker token locked
    task row := hheld
  exact ⟨row, hafter.standing h⟩

end

/-- The claim timestamp of every active row is a whole second, and a claim
that nobody disturbs always matches its one row: every start of it, under the
mark its record carries by then, its acknowledgement with the parts of the
returned task, and its release as undecodable, whatever value the shared
counter of the task was given.  The results are documents the server accepts:
one that holds U+0000 would be refused for its own sake. -/
theorem undisturbed_claims_match {rows : TaskConversion} {system : System}
    (h : Reachable rows (fun _ _ => True) system) :
    (∀ row ∈ system.db.jobs.rows, row.WholeSecond) ∧
    ∀ (invocation : Invocation) (worker : String) (token : Option String)
      (locked : Bool) (tasks : List Task),
      invocation.op.claimant = some (worker, token, locked) →
      (system.execute rows invocation).outcome = .ok (.tasks tasks) →
      ∀ task ∈ tasks, ∃ taskId lockAt,
        task.parts.taskId = some taskId ∧
        task.parts.ctx.lockAt = some lockAt ∧
        ∀ use, Relation.ReflTransGen (ClaimUse.Step rows worker token task)
            ⟨system.step rows invocation, locked⟩ use →
          ∀ (attempt : Nat) (env : Nat → Env),
          (∃ row, use.system.db.jobs.get? taskId = some row ∧
            row.lockAt = some (toTimestamp lockAt) ∧
            row.attempts = task.parts.attempt) ∧
          (∃ claim, startClaim token worker use.started
              (task.partsWith attempt) = .ok claim ∧
            (use.system.execute rows ⟨.startTask claim, env⟩).outcome =
              .ok (.started true) ∧
            WritesTask (use.system.execute rows
              ⟨.startTask claim, env⟩).effects taskId) ∧
          (∀ res result, buildAckResponse res = .ok result →
            (use.system.execute rows ⟨.acknowledge token res
              (task.partsWith attempt), env⟩).outcome = .ok .done ∧
            WritesTask (use.system.execute rows ⟨.acknowledge token res
              (task.partsWith attempt), env⟩).effects taskId) ∧
          ∀ error,
            (use.system.execute rows ⟨.failUndecodableTask taskId worker
              lockAt task.parts.attempt error token, env⟩).outcome =
                .ok (.count 1) ∧
            WritesTask (use.system.execute rows ⟨.failUndecodableTask taskId
              worker lockAt task.parts.attempt error token, env⟩).effects
                taskId := by
  refine ⟨h.wholeSecond, ?_⟩
  intro invocation worker token locked tasks hclaimant houtcome task htask
  have hreturned := ClaimUse.stands_of_claim (.step h invocation trivial)
    hclaimant houtcome htask
  obtain ⟨first, hfirst⟩ := hreturned
  obtain ⟨lockAt, _, hparts, _, _⟩ := hfirst.epoch
  have htaskId := hfirst.claimed.copies.taskId
  refine ⟨first.id, lockAt, htaskId, hparts, ?_⟩
  intro use hsteps attempt env
  obtain ⟨row, hstands⟩ := ClaimUse.Stands.steps ⟨first, hfirst⟩ hsteps
  have hid : row.id = first.id := by
    have hsame := hstands.claimed.copies.taskId.symm.trans htaskId
    exact Option.some.inj hsame
  obtain ⟨seconds, hlockAt, hsame, hcount, _⟩ := hstands.epoch
  cases hparts.symm.trans hsame
  rw [← hid]
  refine ⟨⟨row, hstands.get?, hlockAt, hcount.symm⟩, ?_, ?_, ?_⟩
  · obtain ⟨claim, hclaim, hmatch, htoken⟩ := hstands.claim_ok attempt
    refine ⟨claim, hclaim, ?_⟩
    rw [hstands.start_executes env hmatch htoken]
    exact ⟨rfl, writesTask_updateJobs _ _ _⟩
  · intro res result hresult
    obtain ⟨update, hupdate, hmatch, _, hattempts⟩ :=
      hstands.update_ok attempt hresult
    have hexecutes : ∃ now, use.system.execute rows ⟨.acknowledge token res
        (task.partsWith attempt), env⟩ = _ :=
      hstands.ack_executes env hupdate hmatch hattempts
    obtain ⟨now, hexecutes⟩ := hexecutes
    rw [hexecutes]
    exact ⟨rfl, writesTask_updateJobs _ _ _⟩
  · intro error
    have hexecutes : ∃ now, use.system.execute rows ⟨.failUndecodableTask
        row.id worker lockAt row.attempts error token, env⟩ = _ :=
      hstands.release_executes env error hlockAt
    obtain ⟨now, hexecutes⟩ := hexecutes
    rw [hcount, hexecutes]
    exact ⟨rfl, writesTask_updateJobs _ _ _⟩

/-- A fetched task is started, its counter is set to an arbitrary value, and
its failure is acknowledged. -/
theorem undisturbed_claims_match_started :
    let calls : List Invocation := [
      ⟨.registerWorker "worker" "queue" storageName "" "token" 30, quietEnv⟩,
      ⟨.pushTasksOnConn "queue" [sampleTask], quietEnv⟩]
    let fetch : Invocation :=
      ⟨.fetchNext "worker" "queue" 10 (some "token"), quietEnv⟩
    let parts := recordClaim ⟨some sampleId, ⟨2, some 1, some "worker",
      some "queue"⟩, 0, none⟩
    let start : Invocation := ⟨.startTask ⟨sampleId, "queue", "worker", 1,
      some 0, false, some "token"⟩, quietEnv⟩
    let system := calls.foldl (System.step TaskConversion.copying) .initial
    let used := (system.step TaskConversion.copying fetch).step
      TaskConversion.copying start
    (used.execute TaskConversion.copying ⟨.acknowledge (some "token")
      (.err "boom") { parts with attempt := 7 }, quietEnv⟩).outcome =
        .ok .done := by
  intro calls fetch parts start system used
  have hreachable : Reachable TaskConversion.copying (fun _ _ => True)
      system := .step (.step .initial _ trivial) _ trivial
  have hreturned : (system.execute TaskConversion.copying fetch).outcome =
      .ok (.tasks [⟨[], parts⟩]) := rfl
  obtain ⟨taskId, lockAt, _, _, hmatches⟩ :=
    (undisturbed_claims_match hreachable).2 fetch "worker" (some "token") false
      _ rfl hreturned ⟨[], parts⟩ (List.mem_singleton.mpr rfl)
  have hstart : ClaimUse.Step TaskConversion.copying "worker" (some "token")
      ⟨[], parts⟩ ⟨system.step TaskConversion.copying fetch, false⟩ _ :=
    .start 3 quietEnv rfl
  exact ((hmatches _ (.single hstart) 7 quietEnv).2.2.1 (.err "boom") _ rfl).1

end ApalisPostgres
