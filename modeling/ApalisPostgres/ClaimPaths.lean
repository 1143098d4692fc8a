/-
The claim paths compared.  Three statements take a due row as `Queued`, one
of them in a migration; a fourth takes it as `Running` at once.  On every
reachable table they agree on which rows they take and on the row they leave.
-/
import ApalisPostgres.UndisturbedClaims

namespace ApalisPostgres

open RowStore

/-- The ids the crate gives its tasks, ULIDs in their text form.  The
conversion accepts every row under such an id. -/
structure TaskIds (rows : TaskConversion) where
  valid : String → Prop
  converts : ∀ row, valid row.id →
    ∃ task, rows.tryIntoTaskCompact row = .ok task

variable {rows : TaskConversion}

/-- Tasks are enqueued under ids of the crate. -/
def TaskIds.Enqueued (ids : TaskIds rows) (_ : System) : Op → Prop
  | .pushTasksOnConn _ batch => ∀ task ∈ batch, ids.valid task.id
  | _ => True

/-- The transaction commits and leaves the row under its id. -/
def Leaves (stop : BodyEnd Db Effect Error Outcome) (id : String)
    (row : JobRow) : Prop :=
  (∃ outcome, stop.outcome = .ok outcome) ∧ stop.view.jobs.get? id = some row

/-- The start of a returned task matches its row and leaves it so. -/
def StartLeaves (rows : TaskConversion) (system : System) (worker : String)
    (token : Option String) (task : Task) (id : String) (left : JobRow) :
    Prop :=
  ∃ claim, startClaim token worker false task.parts = .ok claim ∧
    ∀ env, (system.execute rows ⟨.startTask claim, env⟩).outcome =
        .ok (.started true) ∧
      (system.execute rows ⟨.startTask claim, env⟩).view.jobs.get? id =
        some left

/-- How many rows a queue holds. -/
def queueSize (db : Db) (queue : String) : Nat :=
  (db.jobs.rows.filter fun row => row.jobType = queue).length

theorem Reachable.valid_ids {ids : TaskIds rows} {system : System}
    (h : Reachable rows ids.Enqueued system) :
    ∀ row ∈ system.db.jobs.rows, ids.valid row.id := by
  refine h.row_invariant (P := fun row => ids.valid row.id) ?_
  intro earlier origin view clock now op before row hadmits hedge hbefore
  cases hedge with
  | enqueue htask => exact hadmits _ htask
  | pollClaim hclaims | notifyClaim hclaims _ | compatibilityClaim hclaims =>
      have hold := hbefore _ rfl
      rw [hclaims.writes]
      exact hold
  | start _ _ _ _ _ _ _ _ | lock _ _ _ _ | acknowledge _ _ _ _ _ _ _ _
  | undecodable _ _ | quarantine _ _ _ _ _ _ _ | recovery _ _ _ =>
      have hold := hbefore _ rfl
      exact hold

/-- An active row is not done. -/
theorem Reachable.active_not_done {admits : System → Op → Prop}
    {system : System} (h : Reachable rows admits system) :
    ∀ row ∈ system.db.jobs.rows, row.active = true → row.doneAt = none := by
  refine h.row_invariant
    (P := fun row => row.active = true → row.doneAt = none) ?_
  intro earlier origin view clock now op before row _ hedge hbefore hactive
  cases hedge with
  | enqueue _ => rfl
  | pollClaim hclaims | notifyClaim hclaims _ | compatibilityClaim hclaims =>
      rw [hclaims.writes]
  | @start _ old _ _ _ _ _ _ hstatus _ _ =>
      refine hbefore old rfl (old.active_iff.mpr ?_)
      rcases hstatus with hqueued | ⟨hrunning, _⟩
      · exact Or.inl hqueued
      · exact Or.inr hrunning
  | lock _ _ _ _ => rfl
  | acknowledge _ _ _ _ _ _ _ _ =>
      simp only [JobRow.active] at hactive
      split at hactive
      · cases hactive
      · split at hactive <;> cases hactive
  | undecodable _ _ | recovery _ _ _ =>
      simp only [JobRow.active] at hactive
      split at hactive <;> cases hactive
  | quarantine _ _ _ _ _ _ _ => cases hactive

section

variable {db : Db} {env : Env} {worker queue : String} {token : Option String}
  {row : JobRow}

theorem length_claimSelection_le (among : JobRow → Bool) :
    (claimSelection env db queue among).length ≤ queueSize db queue := by
  rw [claimSelection, List.length_insertionSort]
  apply (List.monotone_filter_right _ ?_).length_le
  intro other hother
  simp only [Bool.and_eq_true, dueForClaim] at hother
  exact hother.1.1.2

/-- A registered worker passes the check of its registration. -/
theorem runBody_registered {α : Type} {next : Unit → Tx α}
    {clock : Nat → Env} {n : Nat} {effects : List Effect}
    (h : (db.workers.get? (worker, queue)).any (tokenAccepted token) = true) :
    (requireWorker worker queue token >>= next).runBody sql clock n db effects =
      (next ()).runBody sql clock (n + 1) db effects := by
  obtain ⟨owner, howner, haccepted⟩ := (Option.any_eq_true _ _).mp h
  have hexec : sql.exec (.workerRegistration worker queue token) (clock n) db =
      .ok (.current, []) := by
    apply exec_of_plan_nil
    simp [Stmt.plan, howner, haccepted]
  unfold requireWorker
  rw [query_bind, Program.statement_bind, Program.runBody_statement hexec,
    List.append_nil]
  cases token with
  | none => rfl
  | some presented => rfl

/-- Rows that convert are all returned, and nothing is quarantined. -/
theorem claimedTasks_converted {claimed : List JobRow}
    (h : ∀ row ∈ claimed, ∃ task, rows.tryIntoTaskCompact row = .ok task) :
    ∃ tasks, claimedTasks rows claimed = .commit tasks ∧
      ∀ row ∈ claimed, ∃ task ∈ tasks, claimedTaskRow rows row = .ok task := by
  induction claimed with
  | nil => exact ⟨[], rfl, by simp⟩
  | cons row rest ih =>
      obtain ⟨task, htask⟩ := h row List.mem_cons_self
      obtain ⟨tasks, hrest, htasks⟩ := ih fun other hother =>
        h other (List.mem_cons_of_mem _ hother)
      refine ⟨{ task with parts := recordClaim task.parts } :: tasks, ?_, ?_⟩
      · simp only [claimedTasks, htask, hrest]
        rfl
      · intro other hother
        rcases List.mem_cons.mp hother with rfl | hother
        · exact ⟨_, List.mem_cons_self, by
            simp [claimedTaskRow, taskRow, htask]⟩
        · obtain ⟨found, hfound, hclaimed⟩ := htasks other hother
          exact ⟨found, List.mem_cons_of_mem _ hfound, hclaimed⟩

/-- The schema accepts every row a registered worker claims. -/
theorem exec_claim {stmt : Stmt} {result : stmt.Result} {edge : JobEdge}
    {selected : List JobRow} (hdb : db.Budgeted)
    (hregistered : (db.workers.get? (worker, queue)).any
      (tokenAccepted token) = true)
    (hselected : ∀ row ∈ selected, DueRow db env queue row)
    (hplan : stmt.plan env db = .ok (result,
      updateJobs edge (claimRow worker env.now) selected)) :
    stmt.exec env db = .ok (result,
      updateJobs edge (claimRow worker env.now) selected) := by
  apply exec_update hplan
  · intro row hrow
    have hstored := (hselected row hrow).stored
    have hstorable := hdb.storable row hstored
    have hbudget := hdb.rows row hstored
    refine rowViolation_eq_none ⟨hstorable.maxAttempts_pos,
      hstorable.maxAttempts_le, hstorable.priority_nonneg,
      hstorable.priority_le⟩ hbudget.attempts_nonneg hbudget.attempts_le ?_ ?_
    · intro _
      exact ⟨rfl, rfl⟩
    · intro hpending
      cases hpending
  · intro row hrow
    rw [ownerRegistered_iff]
    intro owner howner
    obtain ⟨found, hfound, _⟩ := (Option.any_eq_true _ _).mp hregistered
    cases howner
    exact ⟨found, (hselected row hrow).jobType ▸ hfound⟩

/-- A row outside the selection of an UPDATE stays. -/
theorem get?_unselected {stmt : Stmt} {edge : JobEdge}
    {rewrite : JobRow → JobRow} {selected : List JobRow}
    (h : Executed env db stmt (updateJobs edge rewrite selected))
    (hselected : ∀ other ∈ selected, other ∈ db.jobs.rows)
    (hrow : row ∈ db.jobs.rows) (hnot : row ∉ selected) :
    (db.apply (updateJobs edge rewrite selected)).jobs.get? row.id =
      some row := by
  rcases h.job_cases row.id with ⟨change, hmem, hkey, _⟩ | ⟨_, hsame⟩
  · obtain ⟨other, hother, heq⟩ := mem_updateJobs (mem_jobChanges.mp hmem)
    cases heq
    exact absurd (Db.row_unique (hselected other hother) hrow hkey ▸ hother)
      hnot
  · exact hsame.trans (Table.get?_of_mem hrow)

/-- What the three claims do to a row nobody else holds. -/
def claimedAs (worker queue : String) (now : Timestamp) (row : JobRow) :
    JobRow :=
  if dueForClaim queue now row then claimRow worker now row else row

theorem get?_claimed {stmt : Stmt} {result : stmt.Result} {edge : JobEdge}
    {selected : List JobRow}
    (hexec : stmt.exec env db = .ok (result,
      updateJobs edge (claimRow worker env.now) selected))
    (hselected : ∀ other ∈ selected, other ∈ db.jobs.rows)
    (hrow : row ∈ db.jobs.rows)
    (hiff : row ∈ selected ↔ dueForClaim queue env.now row = true) :
    (db.apply (updateJobs edge (claimRow worker env.now) selected)).jobs.get?
      row.id = some (claimedAs worker queue env.now row) := by
  unfold claimedAs
  by_cases hdue : dueForClaim queue env.now row = true
  · rw [if_pos hdue]
    exact (exec_executed hexec).get?_updated (hiff.mpr hdue)
  · rw [if_neg hdue]
    exact get?_unselected (exec_executed hexec) hselected hrow
      fun hmem => hdue (hiff.mp hmem)

/-- A claim of a registered worker whose rows all convert commits with the
tasks of the rows it took. -/
theorem runBody_claim {stmt : Stmt} {result : stmt.Result} {label : String}
    {changes : List Effect} {next : stmt.Result → Tx (List Task)}
    {tasks : List Task} {clock : Nat → Env}
    (hregistered : (db.workers.get? (worker, queue)).any
      (tokenAccepted token) = true)
    (hexec : stmt.exec (clock 1) db = .ok (result, changes))
    (hnext : next result = .commit tasks) :
    (do requireWorker worker queue token
        let claimed ← query label stmt
        next claimed : Tx (List Task)).runBody sql clock 0 db [] =
      ⟨db.apply changes, changes, .ok tasks⟩ := by
  rw [runBody_registered hregistered, query_bind,
    Program.runBody_statement (show sql.exec _ _ _ = _ from hexec), hnext]
  rfl

theorem lockRow_of_due (h : dueForClaim queue env.now row = true) :
    lockRow worker env.now row = startRow (claimRow worker env.now row) := by
  simp only [dueForClaim, Bool.and_eq_true] at h
  have hinactive : row.active = false := by
    rcases ((claimable_iff row).mp h.1.1).1 with hstatus | hstatus <;>
      simp [JobRow.active, hstatus]
  simp [lockRow, startRow, claimRow, hinactive]

theorem lockRow_of_owned (hactive : row.active = true)
    (howner : row.lockBy = some worker) (hlockAt : row.lockAt.isSome = true)
    (hdone : row.doneAt = none) :
    lockRow worker env.now row = startRow row := by
  simp [lockRow, startRow, hactive, ← howner, hlockAt, ← hdone]

end

section

variable {ids : TaskIds rows} {system : System} {env : Env}
  {worker queue : String} {token : Option String} {row : JobRow}

theorem Reachable.claimed_converts (h : Reachable rows ids.Enqueued system)
    {selected : List JobRow}
    (hselected : ∀ row ∈ selected, row ∈ system.db.jobs.rows) {now : Timestamp} :
    ∀ row ∈ claimedRows worker now selected,
      ∃ task, rows.tryIntoTaskCompact row = .ok task := by
  intro row hrow
  obtain ⟨old, hold, rfl⟩ :=
    List.mem_map.mp ((List.mem_insertionSort _).mp hrow)
  exact ids.converts _ (h.valid_ids old (hselected old hold))

theorem fetchNext_leaves (h : Reachable rows ids.Enqueued system)
    (hregistered : (system.db.workers.get? (worker, queue)).any
      (tokenAccepted token) = true)
    (hrow : row ∈ system.db.jobs.rows) (hunlocked : env.jobLocked row.id = false)
    {bufferSize : Nat} (hbuffer : queueSize system.db queue ≤ bufferSize)
    (hinteger : (queueSize system.db queue : Int) ≤ i32Max) :
    Leaves (system.execute rows
        ⟨.fetchNext worker queue bufferSize token, fun _ => env⟩) row.id
      (claimedAs worker queue env.now row) := by
  let due := claimSelection env system.db queue fun _ => true
  have hstored : ∀ other ∈ due, other ∈ system.db.jobs.rows :=
    fun other hother => (mem_claimSelection hother).1.stored
  have htake : due.take (clampI32 (max bufferSize 1)) = due := by
    apply List.take_of_length_le
    have hlength : due.length ≤ queueSize system.db queue :=
      length_claimSelection_le _
    simp only [clampI32, i32Max] at hinteger ⊢
    omega
  have hplan : (Stmt.fetchNext worker queue (clampI32 (max bufferSize 1))).plan
      env system.db = .ok (claimedRows worker env.now due,
        updateJobs .pollClaim (claimRow worker env.now) due) := by
    simp only [Stmt.plan]
    rw [htake]
  have hexec := exec_claim h.budgeted hregistered
    (fun other hother => (mem_claimSelection hother).1) hplan
  obtain ⟨tasks, hcommit, _⟩ :=
    claimedTasks_converted (h.claimed_converts hstored)
  have hran : system.execute rows
      ⟨.fetchNext worker queue bufferSize token, fun _ => env⟩ = _ :=
    Program.execute_map (runBody_claim hregistered hexec hcommit)
  rw [hran]
  refine ⟨⟨_, rfl⟩, get?_claimed hexec hstored hrow ?_⟩
  rw [mem_claimSelection_iff]
  simp [hrow, hunlocked]

/-- The same claim by its id, and the task of the row it returns. -/
theorem queueById_leaves (h : Reachable rows ids.Enqueued system)
    (hregistered : (system.db.workers.get? (worker, queue)).any
      (tokenAccepted token) = true)
    (hrow : row ∈ system.db.jobs.rows) (hunlocked : env.jobLocked row.id = false)
    {given : List String} (hgiven : row.id ∈ given) :
    Leaves (system.execute rows
        ⟨.queueById queue given worker token, fun _ => env⟩) row.id
      (claimedAs worker queue env.now row) ∧
    (dueForClaim queue env.now row = true → ∃ tasks, ∃ task ∈ tasks,
      (system.execute rows
        ⟨.queueById queue given worker token, fun _ => env⟩).outcome =
          .ok (.tasks tasks) ∧
      claimedTaskRow rows (claimRow worker env.now row) = .ok task) ∧
    (system.execute rows
      ⟨.queueById queue given worker token, fun _ => env⟩).view.workers =
        system.db.workers := by
  let due := claimSelection env system.db queue
    fun row => given.contains row.id
  have hstored : ∀ other ∈ due, other ∈ system.db.jobs.rows :=
    fun other hother => (mem_claimSelection hother).1.stored
  have hplan : (Stmt.queueById worker queue given).plan env system.db =
      .ok (claimedRows worker env.now due,
        updateJobs .notifyClaim (claimRow worker env.now) due) := rfl
  have hexec := exec_claim h.budgeted hregistered
    (fun other hother => (mem_claimSelection hother).1) hplan
  obtain ⟨tasks, hcommit, htasks⟩ :=
    claimedTasks_converted (h.claimed_converts hstored)
  have hran : system.execute rows
      ⟨.queueById queue given worker token, fun _ => env⟩ = _ :=
    Program.execute_map (runBody_claim hregistered hexec hcommit)
  have hiff : row ∈ due ↔ dueForClaim queue env.now row = true := by
    rw [mem_claimSelection_iff]
    simp [hrow, hunlocked, hgiven]
  rw [hran]
  refine ⟨⟨⟨_, rfl⟩, get?_claimed hexec hstored hrow hiff⟩, ?_, ?_⟩
  · intro hdue
    obtain ⟨task, htask, hclaimed⟩ := htasks (claimRow worker env.now row)
      ((List.mem_insertionSort _).mpr (List.mem_map_of_mem (hiff.mpr hdue)))
    exact ⟨tasks, task, htask, rfl, hclaimed⟩
  · simp only [Db.apply_workers, workerChanges_updateJobs,
      Table.applyChanges_nil]

theorem getJobs_leaves (h : Reachable rows ids.Enqueued system)
    (hregistered : (system.db.workers.get? (worker, queue)).any
      (tokenAccepted token) = true)
    (hrow : row ∈ system.db.jobs.rows) (hunlocked : env.jobLocked row.id = false)
    {count : Nat} (hcount : queueSize system.db queue ≤ count) :
    Leaves (system.execute rows
        ⟨.getJobs worker queue (some count), fun _ => env⟩) row.id
      (claimedAs worker queue env.now row) := by
  let due := claimSelection env system.db queue fun _ => true
  have hstored : ∀ other ∈ due, other ∈ system.db.jobs.rows :=
    fun other hother => (mem_claimSelection hother).1.stored
  have htake : due.take count = due :=
    List.take_of_length_le ((length_claimSelection_le _).trans hcount)
  have hplan : (Stmt.getJobs worker queue (some count)).plan env system.db =
      .ok (due.map (claimRow worker env.now),
        updateJobs .compatibilityClaim (claimRow worker env.now) due) := by
    simp only [Stmt.plan, Option.getD_some]
    rw [htake]
  have hexec := exec_claim h.budgeted hregistered
    (fun other hother => (mem_claimSelection hother).1) hplan
  have hbody : (getJobs worker queue (some count)).runBody sql (fun _ => env) 0
      system.db [] = ⟨system.db.apply
        (updateJobs .compatibilityClaim (claimRow worker env.now) due),
        updateJobs .compatibilityClaim (claimRow worker env.now) due,
        .ok (due.map (claimRow worker env.now))⟩ :=
    Program.runBody_statement (show sql.exec _ _ _ = _ from hexec)
  have hran : system.execute rows
      ⟨.getJobs worker queue (some count), fun _ => env⟩ = _ :=
    Program.execute_map hbody
  rw [hran]
  refine ⟨⟨_, rfl⟩, get?_claimed hexec hstored hrow ?_⟩
  rw [mem_claimSelection_iff]
  simp [hrow, hunlocked]

/-- A lock call reaches its statement: the registration is checked for the
queue of a task in its scope, and not at all for one outside. -/
theorem runBody_located {taskId : String} {scope : Option String}
    (hget : system.db.jobs.get? taskId = some row)
    (hregistered : (system.db.workers.get? (worker, row.jobType)).any
      (tokenAccepted token) = true) :
    ∃ n, (lockTaskWithToken rows taskId worker scope token).runBody sql
        (fun _ => env) 0 system.db [] =
      (query "locking task" (.lockTask worker taskId scope) >>=
        lockedTask rows taskId scope).runBody sql (fun _ => env) n system.db
          [] := by
  by_cases hscope : scope = none ∨ scope = some row.jobType
  · have hlocated : sql.exec (.taskQueue taskId scope) env system.db =
        .ok (some row.jobType, []) := by
      apply exec_of_plan_nil
      rcases hscope with rfl | rfl <;> simp [Stmt.plan, hget]
    refine ⟨2, ?_⟩
    unfold lockTaskWithToken
    rw [query_bind, Program.runBody_statement hlocated]
    exact runBody_registered hregistered
  · have hlocated : sql.exec (.taskQueue taskId scope) env system.db =
        .ok (none, []) := by
      apply exec_of_plan_nil
      simp only [not_or] at hscope
      simp [Stmt.plan, hget, Option.filter_some, hscope]
    refine ⟨1, ?_⟩
    unfold lockTaskWithToken
    rw [query_bind, Program.runBody_statement hlocated]
    rfl

/-- A lock takes a row of its scope where its guard holds. -/
theorem lock_executes (h : Reachable rows ids.Enqueued system)
    (hrow : row ∈ system.db.jobs.rows)
    (hregistered : (system.db.workers.get? (worker, row.jobType)).any
      (tokenAccepted token) = true) {scope : Option String}
    (hscope : scope = none ∨ scope = some row.jobType)
    (hlockable : lockable worker env.now row = true) :
    ∃ task, system.execute rows
        ⟨.lockTaskWithToken row.id worker scope token, fun _ => env⟩ =
      ⟨system.db.apply (updateJobs .lock (lockRow worker env.now) [row]),
        updateJobs .lock (lockRow worker env.now) [row],
        .ok (.tasks [task])⟩ := by
  have hget := Table.get?_of_mem hrow
  let keep : JobRow → Bool := fun other =>
    other.id = row.id && (scope.isNone || scope = some other.jobType) &&
      lockable worker env.now other
  have hkeep : keep row = true := by
    rcases hscope with rfl | rfl <;> simp [keep, hlockable]
  have honly : ∀ other ∈ system.db.jobs.rows, keep other = true →
      other.id = row.id := by
    intro other _ hkept
    simp only [keep, Bool.and_eq_true, decide_eq_true_eq] at hkept
    exact hkept.1.1
  have hstorable := h.budgeted.storable row hrow
  have hbudget := h.budgeted.rows row hrow
  have hexec : sql.exec (.lockTask worker row.id scope) env system.db =
      .ok ([lockRow worker env.now row],
        updateJobs .lock (lockRow worker env.now) [row]) := by
    refine exec_one hget hkeep ?_ honly ?_ ?_
    · change Except.ok (_, _) = _
      rw [Table.filter_of_get? hget keep honly, if_pos hkeep]
      rfl
    · refine rowViolation_eq_none ⟨hstorable.maxAttempts_pos,
        hstorable.maxAttempts_le, hstorable.priority_nonneg,
        hstorable.priority_le⟩ hbudget.attempts_nonneg hbudget.attempts_le
        ?_ ?_
      · intro _
        refine ⟨rfl, ?_⟩
        simp only [lockRow]
        split
        · rename_i hkept
          simp only [Bool.and_eq_true] at hkept
          exact hkept.2
        · rfl
      · intro hpending
        cases hpending
    · intro owner howner
      obtain ⟨found, hfound, _⟩ := (Option.any_eq_true _ _).mp hregistered
      cases howner
      exact ⟨found, hfound⟩
  obtain ⟨task, htask⟩ := ids.converts (lockRow worker env.now row)
    (h.valid_ids row hrow)
  have hlocked : lockedTask rows row.id scope [lockRow worker env.now row] =
      .commit { task with parts := recordClaim task.parts } := by
    simp only [lockedTask, claimedTaskRow, taskRow, htask]
    rfl
  obtain ⟨n, hlocated⟩ := runBody_located hget hregistered
  refine ⟨{ task with parts := recordClaim task.parts },
    Program.execute_map (hlocated.trans ?_)⟩
  rw [query_bind, Program.runBody_statement hexec, hlocked]
  rfl

/-- A lock of a row outside its scope or its guard finds nothing. -/
theorem lock_refuses {taskId : String}
    (hget : system.db.jobs.get? taskId = some row)
    (hregistered : (system.db.workers.get? (worker, row.jobType)).any
      (tokenAccepted token) = true) {scope : Option String}
    (hnot : ¬ ((scope = none ∨ scope = some row.jobType) ∧
      lockable worker env.now row = true)) :
    system.execute rows
        ⟨.lockTaskWithToken taskId worker scope token, fun _ => env⟩ =
      ⟨system.db, [], .error (Error.ofTaskNotFound "locking task" taskId scope
        (lockTaskHint scope))⟩ := by
  let keep : JobRow → Bool := fun other =>
    other.id = taskId && (scope.isNone || scope = some other.jobType) &&
      lockable worker env.now other
  have hunkept : keep row = false := by
    simp only [keep, Table.key_of_get? hget]
    simp only [not_and_or, not_or] at hnot
    rcases hnot with ⟨hsome, hother⟩ | hguard
    · simp [hsome, hother]
    · simp [hguard]
  have honly : ∀ other ∈ system.db.jobs.rows, keep other = true →
      other.id = taskId := by
    intro other _ hkept
    simp only [keep, Bool.and_eq_true, decide_eq_true_eq] at hkept
    exact hkept.1.1
  have hexec : sql.exec (.lockTask worker taskId scope) env system.db =
      .ok ([], []) := by
    apply exec_of_plan_nil
    change Except.ok (_, _) = _
    rw [Table.filter_of_get? hget keep honly, hunkept]
    rfl
  obtain ⟨n, hlocated⟩ := runBody_located hget hregistered
  have hbody : (program rows
      (.lockTaskWithToken taskId worker scope token)).runBody sql
        (fun _ => env) 0 system.db [] = ⟨system.db, [],
          .error (Error.ofTaskNotFound "locking task" taskId scope
            (lockTaskHint scope))⟩ := by
    rw [program, Program.runBody_map, hlocated, query_bind,
      Program.runBody_statement hexec]
    rfl
  simp only [System.execute, Program.execute, hbody]

/-- The start of the claim that owns a stored row. -/
theorem claim_starts (h : Reachable rows ids.Enqueued system)
    (hrow : row ∈ system.db.jobs.rows) (hqueued : row.status = .queued)
    (howner : row.lockBy = some worker)
    (hregistered : (system.db.workers.get? (worker, row.jobType)).any
      (tokenAccepted token) = true) {task : Task}
    (htask : claimedTaskRow rows row = .ok task) :
    StartLeaves rows system worker token task row.id (startRow row) := by
  have hholds : Holds system.db worker row.jobType token := by
    intro presented htoken
    obtain ⟨owner, hget, haccepted⟩ := (Option.any_eq_true _ _).mp hregistered
    subst htoken
    exact ⟨owner, hget, by simpa [tokenAccepted] using haccepted⟩
  have hheld : ClaimHeld system.db worker token false task row :=
    ⟨hrow, claimedTaskRow_ok htask, hqueued, howner, hholds⟩
  have hstanding := hheld.standing h
  obtain ⟨claim, hclaim, hmatch, htoken⟩ :=
    hstanding.claim_ok task.parts.attempt
  refine ⟨claim, hclaim, ?_⟩
  intro clock
  have hexecuted := exec_executed
    (hstanding.exec_startTask (clock 0) hmatch htoken)
  rw [hstanding.start_executes clock hmatch htoken]
  exact ⟨rfl, hexecuted.get?_updated (List.mem_singleton.mpr rfl)⟩

end

theorem lockable_eq_or {worker : String} {now : Timestamp} {row : JobRow} :
    lockable worker now row = true ↔ row.runAt ≤ now ∧
      (claimable row = true ∨
        (row.active = true ∧ row.lockBy = some worker)) := by
  rw [lockable_iff, claimable_iff, JobRow.active_iff]

/-- What the claim paths make of one row of the queue, called by one worker at
one instant. -/
structure ClaimPathsAgree (rows : TaskConversion) (system : System)
    (env : Env) (worker queue : String) (token : Option String) (row : JobRow)
    (bufferSize count : Nat) (given : List String) (scope : Option String) :
    Prop where
  /-- the three claims share their condition and the row they leave -/
  polled : Leaves (system.execute rows
      ⟨.fetchNext worker queue bufferSize token, fun _ => env⟩) row.id
    (claimedAs worker queue env.now row)
  notified : Leaves (system.execute rows
      ⟨.queueById queue given worker token, fun _ => env⟩) row.id
    (claimedAs worker queue env.now row)
  compatible : Leaves (system.execute rows
      ⟨.getJobs worker queue (some count), fun _ => env⟩) row.id
    (claimedAs worker queue env.now row)
  /-- a lock of such a row is a claim by its id and the start of that claim -/
  lockedFree : (scope = none ∨ scope = some queue) →
    dueForClaim queue env.now row = true →
    ∃ tasks task left, (system.execute rows
        ⟨.queueById queue given worker token, fun _ => env⟩).outcome =
          .ok (.tasks tasks) ∧
      task ∈ tasks ∧ task.parts.taskId = some row.id ∧
      StartLeaves rows (system.step rows
        ⟨.queueById queue given worker token, fun _ => env⟩) worker token task
          row.id left ∧
      Leaves (system.execute rows
        ⟨.lockTaskWithToken row.id worker scope token, fun _ => env⟩) row.id
          left
  /-- a lock of the worker's own claim is its start -/
  lockedQueued : (scope = none ∨ scope = some queue) → row.runAt ≤ env.now →
    row.status = .queued → row.lockBy = some worker →
    ∃ task left, claimedTaskRow rows row = .ok task ∧
      StartLeaves rows system worker token task row.id left ∧
      Leaves (system.execute rows
        ⟨.lockTaskWithToken row.id worker scope token, fun _ => env⟩) row.id
          left
  lockedRunning : (scope = none ∨ scope = some queue) → row.runAt ≤ env.now →
    row.status = .running → row.lockBy = some worker →
    (∃ outcome, (system.execute rows ⟨.lockTaskWithToken row.id worker scope
        token, fun _ => env⟩).outcome = .ok outcome) ∧
      (system.execute rows ⟨.lockTaskWithToken row.id worker scope token,
        fun _ => env⟩).view = system.db
  refused : ¬ ((scope = none ∨ scope = some queue) ∧ row.runAt ≤ env.now ∧
      (claimable row = true ∨
        (row.active = true ∧ row.lockBy = some worker))) →
    (system.execute rows ⟨.lockTaskWithToken row.id worker scope token,
        fun _ => env⟩).view = system.db ∧
      (system.execute rows ⟨.lockTaskWithToken row.id worker scope token,
        fun _ => env⟩).outcome = .error (Error.ofTaskNotFound "locking task"
          row.id scope (lockTaskHint scope))

/-- In every reachable state, at every instant and for every registered
worker, the claim paths agree on every row of the worker's queue. -/
theorem claim_paths_agree (ids : TaskIds rows) {system : System}
    (h : Reachable rows ids.Enqueued system) {worker queue : String}
    {token : Option String}
    (hregistered : (system.db.workers.get? (worker, queue)).any
      (tokenAccepted token) = true)
    (env : Env) {row : JobRow} (hrow : row ∈ system.db.jobs.rows)
    (hqueue : row.jobType = queue) (hunlocked : env.jobLocked row.id = false)
    {bufferSize count : Nat}
    (hbuffer : queueSize system.db queue ≤ bufferSize)
    (hcount : queueSize system.db queue ≤ count)
    (hinteger : (count : Int) ≤ i32Max) {given : List String}
    (hgiven : row.id ∈ given) (scope : Option String) :
    ClaimPathsAgree rows system env worker queue token row bufferSize count
      given scope := by
  have hfits : (queueSize system.db queue : Int) ≤ i32Max := by omega
  obtain ⟨hnotified, hreturned, hworkers⟩ :=
    queueById_leaves h hregistered hrow hunlocked hgiven
  subst hqueue
  have hget := Table.get?_of_mem hrow
  have hlocks (hscope : scope = none ∨ scope = some row.jobType)
      (hlockable : lockable worker env.now row = true) :
      Leaves (system.execute rows ⟨.lockTaskWithToken row.id worker scope
        token, fun _ => env⟩) row.id (lockRow worker env.now row) := by
    obtain ⟨task, hran⟩ := lock_executes h hrow hregistered hscope hlockable
    rw [hran]
    refine ⟨⟨_, rfl⟩, ?_⟩
    rw [Db.apply_jobs, jobChanges_updateJobs]
    simp [updateChanges, Table.applyChange, Table.get?_put, lockRow]
  have howned (hactive : row.active = true)
      (howner : row.lockBy = some worker) :
      lockRow worker env.now row = startRow row :=
    lockRow_of_owned hactive howner
      (lockAt_isSome_of_accepted (h.accepted_rows row hrow) hactive)
      (h.active_not_done row hrow hactive)
  refine ⟨fetchNext_leaves h hregistered hrow hunlocked hbuffer hfits,
    hnotified, getJobs_leaves h hregistered hrow hunlocked hcount,
    ?_, ?_, ?_, ?_⟩
  · intro hscope hdue
    obtain ⟨tasks, task, htask, houtcome, hclaimed⟩ := hreturned hdue
    have hlockable : lockable worker env.now row = true := by
      simp only [dueForClaim, Bool.and_eq_true, decide_eq_true_eq] at hdue
      exact lockable_eq_or.mpr ⟨hdue.1.2, Or.inl hdue.1.1⟩
    have hstored := hnotified.2
    rw [claimedAs, if_pos hdue] at hstored
    have hnext : Reachable rows ids.Enqueued (system.step rows
        ⟨.queueById row.jobType given worker token, fun _ => env⟩) :=
      .step h _ trivial
    refine ⟨tasks, task, startRow (claimRow worker env.now row), houtcome,
      htask, (claimedTaskRow_ok hclaimed).copies.taskId, ?_,
      lockRow_of_due hdue ▸ hlocks hscope hlockable⟩
    refine claim_starts hnext (Table.mem_of_get? hstored) rfl rfl ?_ hclaimed
    rw [System.step_db, hworkers]
    exact hregistered
  · intro hscope hdue hqueued howner
    have hactive := row.active_iff.mpr (Or.inl hqueued)
    have hlockable := lockable_eq_or.mpr ⟨hdue, Or.inr ⟨hactive, howner⟩⟩
    obtain ⟨task, htask⟩ := ids.converts row (h.valid_ids row hrow)
    have hclaimed : claimedTaskRow rows row =
        .ok { task with parts := recordClaim task.parts } := by
      simp only [claimedTaskRow, taskRow, htask]
    exact ⟨_, startRow row, hclaimed,
      claim_starts h hrow hqueued howner hregistered hclaimed,
      howned hactive howner ▸ hlocks hscope hlockable⟩
  · intro hscope hdue hrunning howner
    have hactive := row.active_iff.mpr (Or.inr hrunning)
    have hlockable := lockable_eq_or.mpr ⟨hdue, Or.inr ⟨hactive, howner⟩⟩
    obtain ⟨task, hran⟩ := lock_executes h hrow hregistered hscope hlockable
    have hsame : lockRow worker env.now row = row := by
      rw [howned hactive howner, startRow, ← hrunning]
    rw [hran]
    refine ⟨⟨_, rfl⟩, ?_⟩
    change Db.mk (system.db.jobs.put (lockRow worker env.now row)) _ = _
    rw [hsame, Table.put_of_get? hget]
  · intro hnot
    rw [lock_refuses hget hregistered]
    · exact ⟨rfl, rfl⟩
    · rw [lockable_eq_or]
      exact hnot

/-- A registered worker finds one due task in its queue. -/
theorem claim_paths_agree_due :
    let id := "01ARZ3NDEKTSV4RRFFQ69G5FAV"
    let task : NewJob := ⟨id, [], 2, 0, 0, .obj [], none⟩
    let ids : TaskIds .copying := ⟨(· = id), fun _ _ => ⟨_, rfl⟩⟩
    let system := [
      (⟨.registerWorker "worker" "queue" storageName "" "token" 30,
        quietEnv⟩ : Invocation),
      ⟨.pushTasksOnConn "queue" [task], quietEnv⟩].foldl
        (System.step TaskConversion.copying) .initial
    Reachable .copying ids.Enqueued system ∧
      dueForClaim "queue" (quietEnv 0).now (task.row "queue") = true ∧
      ClaimPathsAgree .copying system (quietEnv 0) "worker" "queue"
        (some "token") (task.row "queue") 10 5 [id] (some "queue") := by
  intro id task ids system
  have hreachable : Reachable .copying ids.Enqueued system := by
    refine .step (.step .initial _ trivial) _ ?_
    intro other hother
    cases List.mem_singleton.mp hother
    rfl
  have hstored : task.row "queue" ∈ system.db.jobs.rows :=
    List.mem_singleton.mpr rfl
  refine ⟨hreachable, by decide, ?_⟩
  exact claim_paths_agree ids hreachable (by decide +kernel) (quietEnv 0)
    hstored rfl rfl (by decide +kernel) (by decide +kernel) (by decide)
    List.mem_cons_self _

end ApalisPostgres
