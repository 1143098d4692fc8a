/-
What an operation has established when it issues a statement.  A claim has
seen its registration, a quarantined row was claimed by the same transaction,
and a registration changes hands only after the claims of the old token were
recovered.  Every body of the crate keeps this discipline, whatever its
statements observe.
-/
import ApalisPostgres.Transitions

namespace ApalisPostgres

open RowStore

/-- The presented token, if any, owns the registration. -/
def Holds (view : Db) (worker queue : String) (token : Option String) : Prop :=
  ∀ presented, token = some presented →
    ∃ row, view.workers.get? (worker, queue) = some row ∧
      row.leaseToken = some presented

/-- No claim of the name is active in the queue. -/
def Unowned (view : Db) (worker queue : String) : Prop :=
  ∀ row ∈ view.jobs.rows, row.jobType = queue → row.active = true →
    row.lockBy ≠ some worker

/-- A row this transaction claimed and may still quarantine. -/
structure FreshClaim (view : Db) (worker queue : String) (row : JobRow) :
    Prop where
  stored : row ∈ view.jobs.rows
  status : row.status = .queued
  lockBy : row.lockBy = some worker
  jobType : row.jobType = queue

/-- Statements that write nothing. -/
def Stmt.readOnly : Stmt → Bool
  | .workerRegistration .. | .taskQueue .. | .lockForRelease ..
  | .lockOrphanedWorkers .. | .tryAdvisoryLock .. | .checkRegistration ..
  | .lockPrunable .. => true
  | _ => false

/-- The statements an operation issues, with what it knows of the view. -/
inductive Issued (view : Db) : Op → Stmt → Prop where
  | read {op : Op} {stmt : Stmt} (hread : stmt.readOnly = true) :
      Issued view op stmt
  | insertJobs {queue : String} {batch : List NewJob} :
      Issued view (.pushTasksOnConn queue batch) (.insertJobs queue batch)
  | fetchNext {worker queue : String} {bufferSize : Nat}
      {token : Option String} (hholds : Holds view worker queue token) :
      Issued view (.fetchNext worker queue bufferSize token)
        (.fetchNext worker queue (clampI32 (max bufferSize 1)))
  | quarantineFetched {worker queue : String} {bufferSize : Nat}
      {token : Option String} {row : JobRow} {result : Json}
      (hfresh : FreshClaim view worker queue row) :
      Issued view (.fetchNext worker queue bufferSize token)
        (.quarantine row.id result)
  | queueById {queue worker : String} {ids : List String}
      {token : Option String} (hholds : Holds view worker queue token) :
      Issued view (.queueById queue ids worker token)
        (.queueById worker queue ids)
  | quarantineNotified {queue worker : String} {ids : List String}
      {token : Option String} {row : JobRow} {result : Json}
      (hfresh : FreshClaim view worker queue row) (hid : row.id ∈ ids) :
      Issued view (.queueById queue ids worker token)
        (.quarantine row.id result)
  | getJobs {worker queue : String} {count : Option Nat} :
      Issued view (.getJobs worker queue count) (.getJobs worker queue count)
  | startTask {claim : StartClaim} :
      Issued view (.startTask claim) (.startTask claim)
  | lockTask {taskId worker : String} {queue token : Option String}
      (hholds : ∀ row ∈ view.jobs.rows, row.id = taskId →
        (queue = none ∨ queue = some row.jobType) →
        Holds view worker row.jobType token) :
      Issued view (.lockTaskWithToken taskId worker queue token)
        (.lockTask worker taskId queue)
  | ackTask {token : Option String} {res : HandlerResult} {parts : Parts}
      {update : AckTaskUpdate} (hupdate : update.Acknowledges token res parts)
      (hholds : Holds view update.workerId update.queue token) :
      Issued view (.acknowledge token res parts) (.ackTask update)
  | failUndecodableTask {taskId worker : String} {lockAt attempts : Int}
      {error : String} {token : Option String}
      (hholds : ∀ row ∈ view.jobs.rows, row.id = taskId →
        Holds view worker row.jobType token) :
      Issued view
        (.failUndecodableTask taskId worker lockAt attempts error token)
        (.failUndecodableTask taskId worker
          (errResult (truncateErrorPayload error)) lockAt attempts)
  | recoverReleased {queue worker token : String}
      (hholds : Holds view worker queue (some token)) :
      Issued view (.releaseWorker queue worker token)
        (.recoverOwned queue [worker] .release)
  | markReleased {queue worker token : String}
      (hholds : Holds view worker queue (some token))
      (hunowned : Unowned view worker queue) :
      Issued view (.releaseWorker queue worker token)
        (.markReleased worker queue)
  | recoverStale {queue : String} {staleAfter : Duration}
      {workers : List String} :
      Issued view (.reenqueueOrphaned queue staleAfter)
        (.recoverOwned queue workers .staleSweep)
  | recoverTaken {worker queue storage layers token : String}
      {staleAfter : Duration} :
      Issued view (.registerWorker worker queue storage layers token staleAfter)
        (.recoverOwned queue [worker] .takeover)
  | register {worker queue storage layers token : String}
      {staleAfter : Duration}
      (hincumbent : ∀ row, view.workers.get? (worker, queue) = some row →
        row.leaseToken = some token ∨ Unowned view worker queue) :
      Issued view (.registerWorker worker queue storage layers token staleAfter)
        (.upsertRegistration worker queue storage layers token)
  | keepAlive {worker queue token : String} :
      Issued view (.keepAlive worker queue token) (.keepAlive worker queue token)
  | registerWorkerAdmin {worker queue : String} :
      Issued view (.registerWorkerAdmin worker queue)
        (.registerWorkerAdmin worker queue)
  | deleteUnreferenced {queue : String} {staleFor : Duration} {limit : Nat}
      {ids : List String} :
      Issued view (.pruneWorkersBatch queue staleFor limit)
        (.deleteUnreferenced queue ids)
  | purgeTerminal {queue : String} {cutoff : Timestamp} {limit : Nat} :
      Issued view (.purgeTerminalBatch queue cutoff limit)
        (.purgeTerminal queue cutoff limit)

/-- A claim transaction of the worker that may take the row. -/
inductive ClaimsFor (worker queue id : String) : Op → Prop where
  | fetched {bufferSize : Nat} {token : Option String} :
      ClaimsFor worker queue id (.fetchNext worker queue bufferSize token)
  | notified {ids : List String} {token : Option String} (hid : id ∈ ids) :
      ClaimsFor worker queue id (.queueById queue ids worker token)

/-- Only a claim transaction quarantines, and only what it owns. -/
theorem Issued.quarantine_inv {view : Db} {op : Op} {id : String}
    {result : Json} (h : Issued view op (.quarantine id result)) :
    ∃ worker queue row, FreshClaim view worker queue row ∧ row.id = id ∧
      ClaimsFor worker queue id op := by
  generalize hstmt : Stmt.quarantine id result = stmt at h
  cases h with
  | read hread =>
      subst hstmt
      simp [Stmt.readOnly] at hread
  | quarantineFetched hfresh =>
      cases hstmt
      exact ⟨_, _, _, hfresh, rfl, .fetched⟩
  | quarantineNotified hfresh hid =>
      cases hstmt
      exact ⟨_, _, _, hfresh, rfl, .notified hid⟩
  | _ => cases hstmt

theorem readOnly_jobStep {env : Env} {view : Db} {stmt : Stmt}
    (hread : stmt.readOnly = true) (change : JobChange) :
    ¬ JobStep env view stmt change := by
  intro hstep
  cases hstep <;> simp [Stmt.readOnly] at hread

theorem readOnly_workerStep {env : Env} {view : Db} {stmt : Stmt}
    (hread : stmt.readOnly = true) (change : WorkerChange) :
    ¬ WorkerStep env view stmt change := by
  intro hstep
  cases hstep <;> simp [Stmt.readOnly] at hread

theorem Executed.readOnly {env : Env} {view : Db} {stmt : Stmt}
    {effects : List Effect} (h : Executed env view stmt effects)
    (hread : stmt.readOnly = true) : effects = [] := by
  apply List.eq_nil_iff_forall_not_mem.mpr
  intro effect hmem
  have hstep := h.steps effect hmem
  cases effect with
  | job change => exact readOnly_jobStep hread change hstep
  | worker change => exact readOnly_workerStep hread change hstep

theorem readOnly_exec {env : Env} {view : Db} {stmt : Stmt}
    {result : stmt.Result} {effects : List Effect}
    (hread : stmt.readOnly = true)
    (h : stmt.exec env view = .ok (result, effects)) : effects = [] :=
  (exec_executed h).readOnly hread

theorem issues_query {α : Type} {Q : Db → Stmt → Prop} {operation : String}
    {stmt : Stmt} {next : stmt.Result → Tx α} {post : α → Db → Prop}
    {view : Db} (hissued : Q view stmt)
    (hnext : ∀ env result changes, stmt.exec env view = .ok (result, changes) →
      (next result).Issues sql Q post (view.apply changes)) :
    (query operation stmt >>= next).Issues sql Q post view :=
  ⟨hissued, hnext⟩

/-- Issue a statement that writes nothing and continue in the same view. -/
theorem issues_read {α : Type} {op : Op} {operation : String} {stmt : Stmt}
    {next : stmt.Result → Tx α} {post : α → Db → Prop} {view : Db}
    (hread : stmt.readOnly = true)
    (hnext : ∀ env result, stmt.plan env view = .ok (result, []) →
      (next result).Issues sql (fun view stmt => Issued view op stmt) post
        view) :
    (query operation stmt >>= next).Issues sql
      (fun view stmt => Issued view op stmt) post view := by
  apply issues_query (.read hread)
  intro env result changes hexec
  have hnil : changes = [] := readOnly_exec hread hexec
  subst hnil
  exact hnext env result (exec_ok hexec).1

theorem plan_workerRegistration {env : Env} {view : Db}
    {worker queue : String} {token : Option String}
    {registration : Registration}
    (h : (Stmt.workerRegistration worker queue token).plan env view =
      .ok (registration, [])) (hcurrent : registration = .current) :
    Holds view worker queue token := by
  intro presented htoken
  subst hcurrent htoken
  cases hget : view.workers.get? (worker, queue) with
  | none => simp [Stmt.plan, hget] at h
  | some row =>
      refine ⟨row, rfl, ?_⟩
      by_cases haccepted : tokenAccepted (some presented) row = true
      · simpa [tokenAccepted] using haccepted
      · simp [Stmt.plan, hget, haccepted] at h

variable {op : Op}

theorem lockCurrentWorker_issues {view : Db} (worker queue : String)
    (token : Option String) :
    (lockCurrentWorker worker queue token).Issues sql
      (fun view stmt => Issued view op stmt)
      (fun current after => view = after ∧
        (current = true → Holds view worker queue token)) view := by
  apply issues_read rfl
  intro env registration hplan
  refine ⟨rfl, ?_⟩
  intro hcurrent
  exact plan_workerRegistration hplan (by simpa using hcurrent)

theorem requireWorker_issues {view : Db} (worker queue : String)
    (token : Option String) :
    (requireWorker worker queue token).Issues sql
      (fun view stmt => Issued view op stmt)
      (fun _ after => view = after ∧ Holds view worker queue token) view := by
  apply issues_read rfl
  intro env registration hplan
  cases token with
  | none => exact ⟨rfl, fun presented hnone => by cases hnone⟩
  | some presented =>
      cases hregistration : registration with
      | absent => trivial
      | replaced => trivial
      | current =>
          exact ⟨rfl, plan_workerRegistration hplan hregistration⟩

/-- An UPDATE leaves every row it selected rewritten under its id. -/
theorem Executed.get?_updated {env : Env} {view : Db} {stmt : Stmt}
    {edge : JobEdge} {rewrite : JobRow → JobRow} {selected : List JobRow}
    (h : Executed env view stmt (updateJobs edge rewrite selected))
    {old : JobRow} (hold : old ∈ selected) :
    (view.apply (updateJobs edge rewrite selected)).jobs.get? old.id =
      some (rewrite old) := by
  have hchange : (⟨old.id, edge, some old, some (rewrite old)⟩ : JobChange) ∈
      jobChanges (updateJobs edge rewrite selected) := by
    rw [jobChanges_updateJobs]
    exact mem_updateChanges.mpr ⟨old, hold, rfl⟩
  exact h.get?_of_mem hchange

/-- The rows a claim statement returns are the rows it left. -/
theorem claimedRows_fresh {env : Env} {view : Db} {stmt : Stmt}
    {edge : JobEdge} {worker queue : String} {selected : List JobRow}
    (h : Executed env view stmt
      (updateJobs edge (claimRow worker env.now) selected))
    (hqueue : ∀ row ∈ selected, row.jobType = queue) :
    ∀ row ∈ claimedRows worker env.now selected,
      FreshClaim
        (view.apply (updateJobs edge (claimRow worker env.now) selected))
        worker queue row := by
  intro row hrow
  obtain ⟨old, hold, rfl⟩ :=
    List.mem_map.mp ((List.mem_insertionSort _).mp hrow)
  exact ⟨Table.mem_of_get? (h.get?_updated hold), rfl, rfl, hqueue old hold⟩

theorem claimedRows_ids_nodup {view : Db} {worker : String} {now : Timestamp}
    {selected : List JobRow} (hsub : selected.Subperm view.jobs.rows) :
    ((claimedRows worker now selected).map JobRow.id).Nodup := by
  have hperm : (claimedRows worker now selected).Perm
      (selected.map (claimRow worker now)) := List.perm_insertionSort _ _
  have hids : (selected.map (claimRow worker now)).map JobRow.id =
      selected.map JobRow.id := by
    rw [List.map_map]
    rfl
  rw [(hperm.map JobRow.id).nodup_iff, hids]
  exact view.jobs.keys_nodup_of_subperm hsub

theorem FreshClaim.of_quarantine {env : Env} {view : Db} {id : String}
    {result : Json} {effects : List Effect} {worker queue : String}
    {row : JobRow} (h : Executed env view (.quarantine id result) effects)
    (hne : row.id ≠ id) (hfresh : FreshClaim view worker queue row) :
    FreshClaim (view.apply effects) worker queue row := by
  refine ⟨?_, hfresh.status, hfresh.lockBy, hfresh.jobType⟩
  have hget := Table.get?_of_mem hfresh.stored
  rcases h.job_cases row.id with ⟨change, hmem, hkey, _⟩ | ⟨_, hsame⟩
  · have hstep := h.jobStep hmem
    cases hstep with
    | quarantine hrow => exact absurd hkey.symm hne
  · exact Table.mem_of_get? (hsame.trans hget)

theorem Holds.none (view : Db) (worker queue : String) :
    Holds view worker queue none := by
  intro presented hnone
  cases hnone

theorem Holds.of_workers_eq {view after : Db} {worker queue : String}
    {token : Option String} (h : Holds view worker queue token)
    (heq : after.workers = view.workers) : Holds after worker queue token := by
  intro presented htoken
  rw [heq]
  exact h presented htoken

/-- Every returned task carries the epoch of a row of the view. -/
def TasksClaimed (tasks : List Task) (view : Db) : Prop :=
  ∀ task ∈ tasks, ∃ row ∈ view.jobs.rows, task.Claimed row

def Outcome.Claimed (view : Db) : Outcome → Prop
  | .tasks claimed => TasksClaimed claimed view
  | _ => True

/-- The claim a returned task stands for: its row is stored and owned by the
worker, under the token it presented. -/
structure ClaimHeld (view : Db) (worker : String) (token : Option String)
    (running : Bool) (task : Task) (row : JobRow) : Prop where
  stored : row ∈ view.jobs.rows
  claimed : task.Claimed row
  status : row.status = if running then .running else .queued
  lockBy : row.lockBy = some worker
  current : Holds view worker row.jobType token

/-- Every returned task stands for a claim of the worker. -/
def TasksHeld (worker : String) (token : Option String) (running : Bool)
    (tasks : List Task) (view : Db) : Prop :=
  ∀ task ∈ tasks, ∃ row, ClaimHeld view worker token running task row

theorem TasksHeld.claimed {worker : String} {token : Option String}
    {running : Bool} {tasks : List Task} {view : Db}
    (h : TasksHeld worker token running tasks view) :
    TasksClaimed tasks view := by
  intro task htask
  obtain ⟨row, hheld⟩ := h task htask
  exact ⟨row, hheld.stored, hheld.claimed⟩

/-- A malformed row is quarantined only while the transaction still owns the
claim it just made; the rows that are returned stay as they were claimed. -/
theorem claimedTasks_issues {rows : TaskConversion} {worker queue : String}
    {token : Option String} {claimed : List JobRow} {view : Db}
    (hholds : Holds view worker queue token)
    (hfresh : ∀ row ∈ claimed, FreshClaim view worker queue row)
    (hnodup : (claimed.map JobRow.id).Nodup)
    (hissued : ∀ view row result, row ∈ claimed →
      FreshClaim view worker queue row →
      Issued view op (.quarantine row.id result)) :
    (claimedTasks rows claimed).Issues sql
      (fun view stmt => Issued view op stmt)
      (fun tasks after => TasksHeld worker token false tasks after ∧
        Holds after worker queue token ∧
        ∀ row, FreshClaim view worker queue row →
          row.id ∉ claimed.map JobRow.id → row ∈ after.jobs.rows) view := by
  induction claimed generalizing view with
  | nil =>
      refine ⟨?_, hholds, fun row hrow _ => hrow.stored⟩
      intro task htask
      cases htask
  | cons row rest ih =>
      rw [List.map_cons, List.nodup_cons] at hnodup
      have hrest : ∀ other ∈ rest, FreshClaim view worker queue other :=
        fun other hother => hfresh other (List.mem_cons_of_mem _ hother)
      have hissuedRest : ∀ view other result, other ∈ rest →
          FreshClaim view worker queue other →
          Issued view op (.quarantine other.id result) :=
        fun view other result hother =>
          hissued view other result (List.mem_cons_of_mem _ hother)
      unfold claimedTasks
      cases hconvert : rows.tryIntoTaskCompact row with
      | ok task =>
          apply Program.issues_bind
          apply (ih hholds hrest hnodup.2 hissuedRest).mono
          rintro tasks after ⟨hclaimed, hcurrent, hkept⟩
          refine ⟨?_, hcurrent, ?_⟩
          · intro other hother
            rcases List.mem_cons.mp hother with rfl | hother
            · have hrow := hfresh row List.mem_cons_self
              have hok : claimedTaskRow rows row =
                  .ok { task with parts := recordClaim task.parts } := by
                simp [claimedTaskRow, taskRow, hconvert]
              exact ⟨row, hkept row hrow hnodup.1, claimedTaskRow_ok hok,
                hrow.status, hrow.lockBy, hrow.jobType ▸ hcurrent⟩
            · exact hclaimed other hother
          · intro other hother hnot
            rw [List.map_cons, List.mem_cons, not_or] at hnot
            exact hkept other hother hnot.2
      | error message =>
          apply issues_query (hissued view row _ List.mem_cons_self
            (hfresh row List.mem_cons_self))
          intro env count changes hexec
          have hkeep : ∀ other, FreshClaim view worker queue other →
              other.id ≠ row.id →
              FreshClaim (view.apply changes) worker queue other :=
            fun other hother hne =>
              hother.of_quarantine (exec_executed hexec) hne
          have hrest' : ∀ other ∈ rest,
              FreshClaim (view.apply changes) worker queue other := by
            intro other hother
            apply hkeep other (hrest other hother)
            intro heq
            exact hnodup.1 (heq ▸ List.mem_map_of_mem hother)
          have hcurrent : Holds (view.apply changes) worker queue token := by
            apply hholds.of_workers_eq
            apply (exec_executed hexec).workers_eq
            intro change hstep
            cases hstep
          apply (ih hcurrent hrest' hnodup.2 hissuedRest).mono
          rintro tasks after ⟨hclaimed, hcurrent, hkept⟩
          refine ⟨hclaimed, hcurrent, ?_⟩
          intro other hother hnot
          rw [List.map_cons, List.mem_cons, not_or] at hnot
          exact hkept other (hkeep other hother hnot.1) hnot.2

/-- A takeover or a release leaves no active claim of the name. -/
theorem recoverOwned_unowned {env : Env} {view : Db} {worker queue : String}
    {reason : Recovery} {count : Nat} {effects : List Effect}
    (hreason : reason ≠ .staleSweep)
    (h : (Stmt.recoverOwned queue [worker] reason).exec env view =
      .ok (count, effects)) :
    Unowned (view.apply effects) worker queue := by
  have hexecuted := exec_executed h
  intro row hrow hqueue hactive howner
  rcases hexecuted.row_cases hrow with ⟨change, hmem, hafter⟩ | ⟨hold, hnot⟩
  · cases hexecuted.jobStep hmem with
    | recovery hstored _ _ _ _ =>
        cases hafter
        simp [recoverRow] at howner
  · -- an owned active row of the view was selected, so it was rewritten
    have hplan := (exec_ok h).1
    simp only [Stmt.plan, Except.ok.injEq, Prod.mk.injEq] at hplan
    obtain ⟨_, rfl⟩ := hplan
    apply hnot
    rw [jobChanges_updateJobs, updateChanges_keys]
    apply List.mem_map_of_mem
    have howned : row ∈ view.jobs.rows.filter fun row =>
        row.jobType = queue && row.active &&
          (row.lockBy.any fun owner => [worker].contains owner) := by
      simp [hold, hqueue, hactive, howner]
    cases reason with
    | staleSweep => exact absurd rfl hreason
    | takeover | release => exact (List.mem_insertionSort _).mpr howned

theorem recoverOwned_workers_eq {env : Env} {view : Db} {queue : String}
    {workers : List String} {reason : Recovery} {count : Nat}
    {effects : List Effect}
    (h : (Stmt.recoverOwned queue workers reason).exec env view =
      .ok (count, effects)) :
    (view.apply effects).workers = view.workers := by
  apply (exec_executed h).workers_eq
  intro change hstep
  cases hstep

section

variable {rows : TaskConversion} {view : Db}

theorem fetchNext_issues (worker queue : String) (bufferSize : Nat)
    (token : Option String) :
    (fetchNext rows worker queue bufferSize token).Issues sql
      (fun view stmt =>
        Issued view (.fetchNext worker queue bufferSize token) stmt)
      (TasksHeld worker token false) view := by
  apply Program.issues_bind
  apply (requireWorker_issues worker queue token).mono
  rintro _ _ ⟨rfl, hholds⟩
  apply issues_query (.fetchNext hholds)
  intro env claimed changes hexec
  have hexecuted := exec_executed hexec
  have hplan := (exec_ok hexec).1
  simp only [Stmt.plan, Except.ok.injEq, Prod.mk.injEq] at hplan
  obtain ⟨rfl, rfl⟩ := hplan
  have hdue : ∀ row ∈ (claimSelection env view queue fun _ => true).take
      (clampI32 (max bufferSize 1)), row.jobType = queue :=
    fun row hrow => (mem_claimSelection (List.mem_of_mem_take hrow)).1.jobType
  have hcurrent := hholds.of_workers_eq (hexecuted.workers_eq (by
    intro change hstep
    cases hstep))
  refine (claimedTasks_issues hcurrent (claimedRows_fresh hexecuted hdue)
    (claimedRows_ids_nodup ((List.take_sublist _ _).subperm.trans
      (claimSelection_subperm env view queue fun _ => true))) ?_).mono
    fun _ _ hclaimed => hclaimed.1
  intro after row result _ hfresh
  exact .quarantineFetched hfresh

theorem queueById_issues (queue : String) (ids : List String)
    (worker : String) (token : Option String) :
    (queueById rows queue ids worker token).Issues sql
      (fun view stmt => Issued view (.queueById queue ids worker token) stmt)
      (TasksHeld worker token false) view := by
  apply Program.issues_bind
  apply (requireWorker_issues worker queue token).mono
  rintro _ _ ⟨rfl, hholds⟩
  apply issues_query (.queueById hholds)
  intro env claimed changes hexec
  have hexecuted := exec_executed hexec
  have hplan := (exec_ok hexec).1
  simp only [Stmt.plan, Except.ok.injEq, Prod.mk.injEq] at hplan
  obtain ⟨rfl, rfl⟩ := hplan
  have hcurrent := hholds.of_workers_eq (hexecuted.workers_eq (by
    intro change hstep
    cases hstep))
  refine (claimedTasks_issues hcurrent (claimedRows_fresh hexecuted
    fun row hrow => (mem_claimSelection hrow).1.jobType)
    (claimedRows_ids_nodup (claimSelection_subperm env view queue _)) ?_).mono
    fun _ _ hclaimed => hclaimed.1
  intro after row result hrow hfresh
  obtain ⟨old, hold, rfl⟩ :=
    List.mem_map.mp ((List.mem_insertionSort _).mp hrow)
  exact .quarantineNotified hfresh
    (List.contains_iff_mem.mp (mem_claimSelection hold).2)

theorem locked_stored {env : Env} {view : Db} {worker taskId : String}
    {queue : Option String} {locked : List JobRow} {effects : List Effect}
    (h : (Stmt.lockTask worker taskId queue).exec env view =
      .ok (locked, effects)) {row : JobRow} (hrow : row ∈ locked) :
    row ∈ (view.apply effects).jobs.rows := by
  have hexecuted := exec_executed h
  have hplan := (exec_ok h).1
  simp only [Stmt.plan, Except.ok.injEq, Prod.mk.injEq] at hplan
  obtain ⟨rfl, rfl⟩ := hplan
  obtain ⟨old, hold, rfl⟩ := List.mem_map.mp hrow
  exact Table.mem_of_get? (hexecuted.get?_updated hold)

theorem lockTaskWithToken_issues (taskId worker : String)
    (queue token : Option String) :
    (lockTaskWithToken rows taskId worker queue token).Issues sql
      (fun view stmt =>
        Issued view (.lockTaskWithToken taskId worker queue token) stmt)
      (fun task after => TasksHeld worker token true [task] after ∧
        task.parts.taskId = some taskId) view := by
  apply issues_read rfl
  intro env located hplan
  have hlocated : (requireLocatedWorker worker token located).Issues sql
      (fun view stmt =>
        Issued view (.lockTaskWithToken taskId worker queue token) stmt)
      (fun _ after => view = after ∧ ∀ found, located = some found →
        Holds view worker found token) view := by
    cases located with
    | none => exact ⟨rfl, fun found hnone => by cases hnone⟩
    | some found =>
        apply (requireWorker_issues worker found token).mono
        rintro _ _ ⟨rfl, hholds⟩
        refine ⟨rfl, ?_⟩
        intro other heq
        cases heq
        exact hholds
  apply Program.issues_bind
  apply hlocated.mono
  rintro _ _ ⟨rfl, hholds⟩
  have hcurrent : ∀ row ∈ view.jobs.rows, row.id = taskId →
      (queue = none ∨ queue = some row.jobType) →
      Holds view worker row.jobType token := by
    -- the row the lock can match is the row the lookup found
    intro row hrow hid hqueue
    subst hid
    apply hholds
    simp only [Stmt.plan, Except.ok.injEq, Prod.mk.injEq, and_true] at hplan
    rw [← hplan, Table.get?_of_mem hrow]
    rcases hqueue with rfl | rfl <;> simp
  apply issues_query (.lockTask hcurrent)
  intro env' locked changes hexec
  cases hlocked : locked with
  | nil => trivial
  | cons row rest =>
      simp only [lockedTask]
      cases hclaimed : claimedTaskRow rows row with
      | error error => trivial
      | ok task =>
          have hrow : row ∈ locked := hlocked ▸ List.mem_cons_self
          have hstored := locked_stored hexec hrow
          have hkept := (exec_executed hexec).workers_eq (by
            intro change hstep
            cases hstep)
          have hlock := (exec_ok hexec).1
          simp only [Stmt.plan, Except.ok.injEq, Prod.mk.injEq] at hlock
          rw [← hlock.1] at hrow
          obtain ⟨old, hold, rfl⟩ := List.mem_map.mp hrow
          obtain ⟨hmem, hmatch⟩ := List.mem_filter.mp hold
          simp only [Bool.and_eq_true, Bool.or_eq_true, decide_eq_true_eq,
            Option.isNone_iff_eq_none] at hmatch
          have hclaim := claimedTaskRow_ok hclaimed
          refine ⟨?_, hclaim.copies.taskId.trans (congrArg some hmatch.1.1)⟩
          intro other hother
          cases List.mem_singleton.mp hother
          exact ⟨_, hstored, hclaim, rfl, rfl,
            (hcurrent old hmem hmatch.1.1 hmatch.1.2).of_workers_eq hkept⟩

theorem ackTask_issues {token : Option String} {res : HandlerResult}
    {parts : Parts} {update : AckTaskUpdate}
    (hupdate : update.Acknowledges token res parts) :
    (ackTask update).Issues sql
      (fun view stmt => Issued view (.acknowledge token res parts) stmt)
      (fun _ _ => True) view := by
  have hwrite : ∀ view, Holds view update.workerId update.queue token →
      (query "acknowledging task" (.ackTask update) >>= fun count =>
        if count = 0 then
          .rollback (.staleAcknowledgement update.taskId update.queue
            update.workerId)
        else (pure () : Tx Unit)).Issues sql
      (fun view stmt => Issued view (.acknowledge token res parts) stmt)
      (fun _ _ => True) view := by
    intro view hholds
    apply issues_query (.ackTask hupdate hholds)
    intro env count changes _
    split <;> trivial
  unfold ackTask
  rw [hupdate.leaseToken]
  cases token with
  | none => exact hwrite view (Holds.none _ _ _)
  | some presented =>
      apply Program.issues_bind
      apply (lockCurrentWorker_issues _ _ _).mono
      rintro current _ ⟨rfl, hholds⟩
      cases current with
      | false => trivial
      | true => exact hwrite _ (hholds rfl)

theorem failUndecodableTask_issues (taskId worker : String)
    (lockAt attempts : Int) (error : String) (token : Option String) :
    (failUndecodableTask taskId worker lockAt attempts error token).Issues sql
      (fun view stmt => Issued view
        (.failUndecodableTask taskId worker lockAt attempts error token) stmt)
      (fun _ _ => True) view := by
  cases token with
  | none =>
      refine ⟨.failUndecodableTask ?_, fun _ _ _ _ => trivial⟩
      intro row _ _
      exact Holds.none _ _ _
  | some presented =>
      apply issues_read rfl
      intro env located hplan
      cases located with
      | none => trivial
      | some queue =>
          apply Program.issues_bind
          apply (lockCurrentWorker_issues _ _ _).mono
          rintro current _ ⟨rfl, hholds⟩
          cases current with
          | false => trivial
          | true =>
              refine ⟨.failUndecodableTask ?_, fun _ _ _ _ => trivial⟩
              intro row hrow hid
              subst hid
              simp only [Stmt.plan, Except.ok.injEq, Prod.mk.injEq, and_true,
                Table.get?_of_mem hrow] at hplan
              simp only [Option.isNone_none, Bool.true_or,
                Option.filter_some, ↓reduceIte, Option.map_some,
                Option.some.injEq] at hplan
              subst hplan
              exact hholds rfl

/-- The registration carries no token. -/
def TokenFree (view : Db) (worker queue : String) : Prop :=
  ∃ row, view.workers.get? (worker, queue) = some row ∧ row.leaseToken = none

theorem markReleased_tokenFree {env : Env} {worker queue token : String}
    {count : Nat} {effects : List Effect}
    (hholds : Holds view worker queue (some token))
    (h : (Stmt.markReleased worker queue).exec env view =
      .ok (count, effects)) :
    TokenFree (view.apply effects) worker queue := by
  obtain ⟨row, hget, _⟩ := hholds token rfl
  have hplan := (exec_ok h).1
  simp only [Stmt.plan, hget, Except.ok.injEq, Prod.mk.injEq] at hplan
  obtain ⟨_, rfl⟩ := hplan
  have hkey : (releasedRow row).key = (worker, queue) :=
    (Table.key_of_get? hget :)
  refine ⟨releasedRow row, ?_, rfl⟩
  rw [← hkey]
  exact (exec_executed h).get?_worker_of_mem List.mem_cons_self

theorem upsertRegistration_holds {env : Env}
    {worker queue storage layers token : String} {count : Nat}
    {effects : List Effect}
    (h : (Stmt.upsertRegistration worker queue storage layers token).exec env
      view = .ok (count, effects)) :
    Holds (view.apply effects) worker queue (some token) := by
  intro presented htoken
  cases htoken
  have hplan := (exec_ok h).1
  simp only [Stmt.plan, Except.ok.injEq, Prod.mk.injEq] at hplan
  obtain ⟨_, rfl⟩ := hplan
  have hmem := (exec_executed h).get?_worker_of_mem List.mem_cons_self
  have hstep : WorkerStep env view
      (.upsertRegistration worker queue storage layers token) _ :=
    WorkerStep.register
  rw [hstep.reads.key_eq _ rfl] at hmem
  refine ⟨_, hmem, ?_⟩
  cases view.workers.get? (worker, queue) <;> rfl

theorem releaseWorker_issues (queue worker token : String) :
    (releaseWorker queue worker token).Issues sql
      (fun view stmt => Issued view (.releaseWorker queue worker token) stmt)
      (fun _ after => TokenFree after worker queue) view := by
  apply issues_read rfl
  intro env owned hplan
  cases owned with
  | false => trivial
  | true =>
      have hholds : Holds view worker queue (some token) := by
        intro presented htoken
        cases htoken
        simpa [Stmt.plan, Option.any_eq_true] using hplan
      refine ⟨.recoverReleased hholds, ?_⟩
      intro env' recovered changes hexec
      have hkept := hholds.of_workers_eq (recoverOwned_workers_eq hexec)
      refine ⟨.markReleased hkept (recoverOwned_unowned (by decide) hexec), ?_⟩
      intro env'' count changes' hexec'
      exact markReleased_tokenFree hkept hexec'

theorem registerWorker_issues (worker queue storage layers token : String)
    (staleAfter : Duration) :
    (registerWorker worker queue storage layers token staleAfter).Issues sql
      (fun view stmt => Issued view
        (.registerWorker worker queue storage layers token staleAfter) stmt)
      (fun _ after => Holds after worker queue (some token)) view := by
  have hrow : ∀ view, (∀ row, view.workers.get? (worker, queue) = some row →
        row.leaseToken = some token ∨ Unowned view worker queue) →
      (registerRow worker queue storage layers token).Issues sql
      (fun view stmt => Issued view
        (.registerWorker worker queue storage layers token staleAfter) stmt)
      (fun _ after => Holds after worker queue (some token)) view := by
    intro view hincumbent
    refine ⟨.register hincumbent, ?_⟩
    intro env count changes hexec
    exact upsertRegistration_holds hexec
  apply issues_read rfl
  intro env acquired _
  cases acquired with
  | false => trivial
  | true =>
      apply issues_read rfl
      intro env' existing hplan
      simp only [Stmt.plan, Except.ok.injEq, Prod.mk.injEq, and_true] at hplan
      cases hget : view.workers.get? (worker, queue) with
      | none =>
          rw [hget] at hplan
          subst hplan
          apply hrow
          intro row hsome
          rw [hget] at hsome
          cases hsome
      | some row =>
          rw [hget] at hplan
          subst hplan
          simp only [Option.map_some, registerOver]
          split
          · split
            · refine ⟨.recoverTaken, ?_⟩
              intro env'' recovered changes hexec
              apply hrow
              intro _ _
              exact Or.inr (recoverOwned_unowned (by decide) hexec)
            · rename_i hlost
              apply hrow
              intro found hfound
              rw [hget] at hfound
              cases hfound
              left
              by_contra hne
              exact hlost (by simp [hne])
          · trivial

/-- Every operation issues its statements under the discipline. -/
theorem program_issues (op : Op) :
    (program rows op).Issues sql (fun view stmt => Issued view op stmt)
      (fun value after => value.Claimed after) view := by
  cases op with
  | pushTasksOnConn queue batch =>
      apply Program.issues_bind
      unfold pushTasksOnConn
      split
      · trivial
      · apply issues_query .insertJobs
        intro env inserted changes _
        split <;> trivial
  | fetchNext worker queue bufferSize token =>
      exact Program.issues_bind ((fetchNext_issues worker queue bufferSize
        token).mono fun _ _ hheld => hheld.claimed)
  | queueById queue ids worker token =>
      exact Program.issues_bind ((queueById_issues queue ids worker
        token).mono fun _ _ hheld => hheld.claimed)
  | getJobs worker queue count => exact ⟨.getJobs, fun _ _ _ _ => trivial⟩
  | startTask claim => exact ⟨.startTask, fun _ _ _ _ => trivial⟩
  | lockTaskWithToken taskId worker queue token =>
      exact Program.issues_bind
        ((lockTaskWithToken_issues taskId worker queue token).mono
          fun _ _ hheld => hheld.1.claimed)
  | acknowledge token res parts =>
      apply Program.issues_bind
      unfold acknowledge
      cases hupdate : ackUpdate token res parts with
      | error error => trivial
      | ok update => exact ackTask_issues (ackUpdate_ok hupdate)
  | failUndecodableTask taskId worker lockAt attempts error token =>
      exact Program.issues_bind
        (failUndecodableTask_issues taskId worker lockAt attempts error token)
  | releaseWorker queue worker token =>
      exact Program.issues_bind ((releaseWorker_issues queue worker token).mono
        fun _ _ _ => trivial)
  | reenqueueOrphaned queue staleAfter =>
      apply Program.issues_bind
      apply issues_read rfl
      intro env workers _
      unfold recoverOwned
      split
      · trivial
      · exact ⟨.recoverStale, fun _ _ _ _ => trivial⟩
  | registerWorker worker queue storage layers token staleAfter =>
      exact Program.issues_bind
        ((registerWorker_issues worker queue storage layers token
          staleAfter).mono fun _ _ _ => trivial)
  | keepAlive worker queue token =>
      apply Program.issues_bind
      apply issues_query .keepAlive
      intro env count changes _
      split <;> trivial
  | registerWorkerAdmin worker queue =>
      exact ⟨.registerWorkerAdmin, fun _ _ _ _ => trivial⟩
  | pruneWorkersBatch queue staleFor limit =>
      apply Program.issues_bind
      apply issues_read rfl
      intro env candidates _
      split
      · trivial
      · exact ⟨.deleteUnreferenced, fun _ _ _ _ => trivial⟩
  | purgeTerminalBatch queue cutoff limit =>
      exact ⟨.purgeTerminal, fun _ _ _ _ => trivial⟩

/-- What a committed operation has settled about the registration it changed. -/
def Op.Settled (after : Db) : Op → Prop
  | .registerWorker worker queue _ _ token _ =>
      Holds after worker queue (some token)
  | .releaseWorker queue worker _ => TokenFree after worker queue
  | _ => True

theorem program_settles (op : Op) :
    (program rows op).Issues sql (fun view stmt => Issued view op stmt)
      (fun value after => value.Claimed after ∧ op.Settled after) view := by
  have hclaimed : (program rows op).Issues sql
      (fun view stmt => Issued view op stmt)
      (fun value after => value.Claimed after) view := program_issues op
  cases op with
  | registerWorker worker queue storage layers token staleAfter =>
      exact Program.issues_bind
        ((registerWorker_issues worker queue storage layers token
          staleAfter).mono fun _ _ hsettled => ⟨trivial, hsettled⟩)
  | releaseWorker queue worker token =>
      exact Program.issues_bind ((releaseWorker_issues queue worker token).mono
        fun _ _ hsettled => ⟨trivial, hsettled⟩)
  | _ => exact hclaimed.mono fun _ _ hvalue => ⟨hvalue, trivial⟩

/-- An error the crate raises itself, not the driver. -/
def Error.Own (error : Error) : Prop :=
  ∀ operation fault, error ≠ .database operation fault

theorem requireWorker_refuses (worker queue : String)
    (token : Option String) :
    (requireWorker worker queue token).Refuses Error.Own := by
  refine Program.refuses_bind (fun _ => trivial) ?_
  intro registration
  cases token with
  | none => trivial
  | some presented =>
      cases registration with
      | absent => simp [Program.Refuses, Error.Own]
      | replaced => simp [Program.Refuses, Error.Own]
      | current => trivial

theorem claimedTasks_refuses (claimed : List JobRow) :
    (claimedTasks rows claimed).Refuses Error.Own := by
  induction claimed with
  | nil => trivial
  | cons row rest ih =>
      unfold claimedTasks
      cases rows.tryIntoTaskCompact row with
      | ok task => exact Program.refuses_bind ih fun _ => trivial
      | error message => exact fun _ => ih

theorem ackTask_refuses (update : AckTaskUpdate) :
    (ackTask update).Refuses Error.Own := by
  have hwrite : ∀ count : Nat, (if count = 0 then
      .rollback (.staleAcknowledgement update.taskId update.queue
        update.workerId)
      else (pure () : Tx Unit)).Refuses Error.Own := by
    intro count
    split
    · simp [Program.Refuses, Error.Own]
    · trivial
  simp only [ackTask]
  split
  · refine Program.refuses_bind (fun _ => trivial) ?_
    intro current
    cases current with
    | false => simp [Program.Refuses, Error.Own]
    | true => exact Program.refuses_bind (fun _ => trivial) hwrite
  · exact Program.refuses_bind (fun _ => trivial) hwrite

/-- Every error a body rolls back with is the crate's own. -/
theorem program_refuses (op : Op) : (program rows op).Refuses Error.Own := by
  cases op with
  | pushTasksOnConn queue batch =>
      refine Program.refuses_bind ?_ fun _ => trivial
      unfold pushTasksOnConn
      split
      · trivial
      · refine Program.refuses_bind (fun _ => trivial) ?_
        intro inserted
        split
        · simp [Program.Refuses, Error.Own]
        · trivial
  | fetchNext worker queue bufferSize token =>
      refine Program.refuses_bind ?_ fun _ => trivial
      exact Program.refuses_bind (requireWorker_refuses worker queue token)
        fun _ claimed => claimedTasks_refuses claimed
  | queueById queue ids worker token =>
      refine Program.refuses_bind ?_ fun _ => trivial
      exact Program.refuses_bind (requireWorker_refuses worker queue token)
        fun _ claimed => claimedTasks_refuses claimed
  | lockTaskWithToken taskId worker queue token =>
      refine Program.refuses_bind ?_ fun _ => trivial
      refine Program.refuses_bind (fun _ => trivial) ?_
      intro located
      refine Program.refuses_bind ?_ ?_
      · cases located with
        | none => trivial
        | some found => exact requireWorker_refuses worker found token
      · intro _
        refine Program.refuses_bind (fun _ => trivial) ?_
        intro locked
        cases locked with
        | nil => simp [lockedTask, Program.Refuses, Error.Own,
            Error.ofTaskNotFound]
        | cons row rest =>
            simp only [lockedTask, claimedTaskRow, taskRow]
            cases rows.tryIntoTaskCompact row <;>
              simp [Program.Refuses, Error.Own]
  | acknowledge token res parts =>
      refine Program.refuses_bind ?_ fun _ => trivial
      unfold acknowledge
      cases hupdate : ackUpdate token res parts with
      | error error => exact ackUpdate_error_ne_database hupdate
      | ok update => exact ackTask_refuses update
  | failUndecodableTask taskId worker lockAt attempts error token =>
      refine Program.refuses_bind ?_ fun _ => trivial
      cases token with
      | none => exact fun _ => trivial
      | some presented =>
          refine Program.refuses_bind (fun _ => trivial) ?_
          intro located
          cases located with
          | none => trivial
          | some queue =>
              refine Program.refuses_bind (fun _ => trivial) ?_
              intro current
              cases current with
              | false => trivial
              | true => exact fun _ => trivial
  | releaseWorker queue worker token =>
      refine Program.refuses_bind ?_ fun _ => trivial
      refine Program.refuses_bind (fun _ => trivial) ?_
      intro owned
      cases owned with
      | false => simp [Program.Refuses, Error.Own]
      | true => exact fun _ _ => trivial
  | reenqueueOrphaned queue staleAfter =>
      refine Program.refuses_bind ?_ fun _ => trivial
      refine Program.refuses_bind (fun _ => trivial) ?_
      intro workers
      unfold recoverOwned
      split
      · trivial
      · exact fun _ => trivial
  | registerWorker worker queue storage layers token staleAfter =>
      refine Program.refuses_bind ?_ fun _ => trivial
      refine Program.refuses_bind (fun _ => trivial) ?_
      intro acquired
      cases acquired with
      | false => simp [Program.Refuses, Error.Own]
      | true =>
          refine Program.refuses_bind (fun _ => trivial) ?_
          intro existing
          cases existing with
          | none => exact fun _ => trivial
          | some decision =>
              simp only [registerOver]
              split
              · split
                · exact fun _ _ => trivial
                · exact fun _ => trivial
              · simp [Program.Refuses, Error.Own]
  | keepAlive worker queue token =>
      refine Program.refuses_bind ?_ fun _ => trivial
      refine Program.refuses_bind (fun _ => trivial) ?_
      intro count
      split
      · simp [Program.Refuses, Error.Own]
      · trivial
  | pruneWorkersBatch queue staleFor limit =>
      refine Program.refuses_bind ?_ fun _ => trivial
      refine Program.refuses_bind (fun _ => trivial) ?_
      intro candidates
      split
      · trivial
      · exact fun _ => trivial
  | getJobs _ _ _ | startTask _ | registerWorkerAdmin _ _
  | purgeTerminalBatch _ _ _ => exact fun _ => trivial

/-- The invariant rule for one transaction: what every statement issued under
the discipline preserves holds of what the transaction committed, and an
error of the driver is the error of one of these statements. -/
theorem System.execute_ensures (rows : TaskConversion) (system : System)
    (invocation : Invocation)
    {P : Db → List Effect → Prop} (hinit : P system.db [])
    (hstep : ∀ stmt env view effects changes,
      Issued view invocation.op stmt → P view effects →
      Executed env view stmt changes →
      P (view.apply changes) (effects ++ changes)) :
    P (system.execute rows invocation).view
        (system.execute rows invocation).effects ∧
      match (system.execute rows invocation).outcome with
      | .ok value => value.Claimed (system.execute rows invocation).view ∧
          invocation.op.Settled (system.execute rows invocation).view
      | .error error => ∀ operation fault, error = .database operation fault →
          ∃ stmt env view effects, Issued view invocation.op stmt ∧
            P view effects ∧ stmt.exec env view = .error fault := by
  have hissues : (program rows invocation.op).Issues sql
      (fun view stmt => Issued view invocation.op stmt)
      (fun value after => value.Claimed after ∧ invocation.op.Settled after)
      system.db :=
    program_settles invocation.op
  have hensures := hissues.ensures (P := P)
    (R := fun error => ∀ operation fault, error = .database operation fault →
      ∃ stmt env view effects, Issued view invocation.op stmt ∧
        P view effects ∧ stmt.exec env view = .error fault)
    ((program_refuses invocation.op).mono fun error hne operation fault heq =>
      absurd heq (hne operation fault))
    (fun stmt env view effects result changes hissued hP hexec =>
      hstep stmt env view effects changes hissued hP (exec_executed hexec))
    (by
      intro label stmt env view effects fault hissued hP hexec operation
        other heq
      cases heq
      exact ⟨stmt, env, view, effects, hissued, hP, hexec⟩)
    hinit
  have hstop := hensures.execute invocation.env
  unfold System.execute
  rcases hexec : (program rows invocation.op).execute sql invocation.env
    system.db with ⟨view, effects, outcome⟩
  rw [hexec] at hstop
  cases outcome with
  | ok value => exact ⟨hstop.2, hstop.1⟩
  | error error =>
      obtain ⟨hview, heffects, hrefused⟩ := hstop
      subst hview heffects
      exact ⟨hinit, hrefused⟩

end

end ApalisPostgres
