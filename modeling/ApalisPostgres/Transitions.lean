/-
What one statement can do.  Every row an executed statement writes is one of
the steps below: it was read from the view under its guard, it is rewritten
as the statement says, and the schema accepted it.  The invariants of whole
runs are proved against these steps and never unfold a statement again.
-/
import ApalisPostgres.Operations

namespace ApalisPostgres

open RowStore

/-- A row taken by a claim: free, due and of the queue. -/
structure DueRow (view : Db) (env : Env) (queue : String) (row : JobRow) :
    Prop where
  stored : row ∈ view.jobs.rows
  claimable : claimable row = true
  due : row.runAt ≤ env.now
  jobType : row.jobType = queue

/-- What a statement may do to one row of `apalis.jobs`. -/
inductive JobStep (env : Env) (view : Db) : Stmt → JobChange → Prop where
  | enqueue {queue : String} {batch : List NewJob} {task : NewJob}
      (htask : task ∈ batch) (hfresh : view.jobs.get? task.id = none) :
      JobStep env view (.insertJobs queue batch)
        ⟨task.id, .enqueue, none, some (task.row queue)⟩
  | pollClaim {worker queue : String} {limit : Nat} {row : JobRow}
      (hdue : DueRow view env queue row) :
      JobStep env view (.fetchNext worker queue limit)
        ⟨row.id, .pollClaim, some row, some (claimRow worker env.now row)⟩
  | notifyClaim {worker queue : String} {ids : List String} {row : JobRow}
      (hdue : DueRow view env queue row) (hid : row.id ∈ ids) :
      JobStep env view (.queueById worker queue ids)
        ⟨row.id, .notifyClaim, some row, some (claimRow worker env.now row)⟩
  | compatibilityClaim {worker queue : String} {count : Option Nat}
      {row : JobRow} (hdue : DueRow view env queue row) :
      JobStep env view (.getJobs worker queue count)
        ⟨row.id, .compatibilityClaim, some row,
          some (claimRow worker env.now row)⟩
  | quarantine {result : Json} {row : JobRow} (hrow : row ∈ view.jobs.rows) :
      JobStep env view (.quarantine row.id result)
        ⟨row.id, .quarantine, some row,
          some (quarantineRow env.now result row)⟩
  | lock {worker : String} {queue : Option String} {row : JobRow}
      (hrow : row ∈ view.jobs.rows)
      (hqueue : queue = none ∨ queue = some row.jobType)
      (hlockable : lockable worker env.now row = true) :
      JobStep env view (.lockTask worker row.id queue)
        ⟨row.id, .lock, some row, some (lockRow worker env.now row)⟩
  | undecodable {id worker : String} {result : Json} {lockAt attempts : Int}
      {row : JobRow} (hrow : row ∈ view.jobs.rows)
      (hepoch : epochMatches id worker lockAt attempts row = true) :
      JobStep env view (.failUndecodableTask id worker result lockAt attempts)
        ⟨row.id, .undecodable, some row,
          some (undecodableRow env.now result row)⟩
  | start {claim : StartClaim} {row : JobRow} {owner : WorkerRow}
      (hrow : row ∈ view.jobs.rows) (hstart : startable claim row = true)
      (howner : view.workers.get? (claim.workerId, claim.queue) = some owner)
      (htoken : tokenAccepted claim.leaseToken owner = true) :
      JobStep env view (.startTask claim)
        ⟨row.id, .start, some row, some (startRow row)⟩
  | acknowledge {update : AckTaskUpdate} {row : JobRow}
      (hrow : row ∈ view.jobs.rows)
      (hepoch : acknowledgeable update row = true) :
      JobStep env view (.ackTask update)
        ⟨row.id, .acknowledge, some row, some (ackRow env.now update row)⟩
  | recovery {queue worker : String} {workers : List String}
      {reason : Recovery} {row : JobRow} (hrow : row ∈ view.jobs.rows)
      (hqueue : row.jobType = queue) (hactive : row.active = true)
      (howner : row.lockBy = some worker) (hworker : worker ∈ workers) :
      JobStep env view (.recoverOwned queue workers reason)
        ⟨row.id, .recovery reason, some row,
          some (recoverRow env.now reason row)⟩
  | purge {queue : String} {cutoff : Timestamp} {limit : Nat} {row : JobRow}
      (hrow : row ∈ view.jobs.rows) (hqueue : row.jobType = queue)
      (hterminal : terminal row = true)
      (hold : completedBefore cutoff row = true) :
      JobStep env view (.purgeTerminal queue cutoff limit)
        ⟨row.id, .purge, some row, none⟩

/-- What a statement may do to one row of `apalis.workers`. -/
inductive WorkerStep (env : Env) (view : Db) : Stmt → WorkerChange → Prop where
  | register {worker queue storage layers token : String} :
      WorkerStep env view (.upsertRegistration worker queue storage layers token)
        ⟨(worker, queue), .register, view.workers.get? (worker, queue),
          some (registeredRow env.now worker queue storage layers token
            (view.workers.get? (worker, queue)))⟩
  | heartbeat {worker queue token : String} {row : WorkerRow}
      (hrow : view.workers.get? (worker, queue) = some row)
      (htoken : row.leaseToken = some token) :
      WorkerStep env view (.keepAlive worker queue token)
        ⟨(worker, queue), .heartbeat, some row, some (renewedRow env.now row)⟩
  | release {worker queue : String} {row : WorkerRow}
      (hrow : view.workers.get? (worker, queue) = some row) :
      WorkerStep env view (.markReleased worker queue)
        ⟨(worker, queue), .release, some row, some (releasedRow row)⟩
  | admin {worker queue : String} :
      WorkerStep env view (.registerWorkerAdmin worker queue)
        ⟨(worker, queue), .admin, view.workers.get? (worker, queue),
          some (adminRow env.now worker queue
            (view.workers.get? (worker, queue)))⟩
  | prune {queue : String} {ids : List String} {row : WorkerRow}
      (hrow : row ∈ view.workers.rows) (hqueue : row.workerType = queue)
      (hid : row.id ∈ ids) (hfree : referenced view row.key = false) :
      WorkerStep env view (.deleteUnreferenced queue ids)
        ⟨row.key, .prune, some row, none⟩

theorem JobStep.reads {env : Env} {view : Db} {stmt : Stmt}
    {change : JobChange} (h : JobStep env view stmt change) :
    change.Reads view.jobs := by
  cases h with
  | enqueue _ hfresh =>
      exact ⟨hfresh.symm, fun _ hafter => by cases hafter; rfl⟩
  | pollClaim hdue | notifyClaim hdue _ | compatibilityClaim hdue =>
      exact ⟨(Table.get?_of_mem hdue.stored).symm,
        fun _ hafter => by cases hafter; rfl⟩
  | quarantine hrow | lock hrow _ _ | undecodable hrow _ | start hrow _ _ _
  | acknowledge hrow _ | recovery hrow _ _ _ _ =>
      exact ⟨(Table.get?_of_mem hrow).symm,
        fun _ hafter => by cases hafter; rfl⟩
  | purge hrow _ _ _ =>
      exact ⟨(Table.get?_of_mem hrow).symm, fun _ hafter => by cases hafter⟩

theorem WorkerStep.reads {env : Env} {view : Db} {stmt : Stmt}
    {change : WorkerChange} (h : WorkerStep env view stmt change) :
    change.Reads view.workers := by
  cases h with
  | @register worker queue storage layers token =>
      refine ⟨rfl, ?_⟩
      intro row hafter
      cases hafter
      cases hget : view.workers.get? (worker, queue) with
      | none => rfl
      | some old =>
          have hkey := Table.key_of_get? hget
          exact hkey
  | heartbeat hrow _ =>
      refine ⟨hrow.symm, ?_⟩
      intro row hafter
      cases hafter
      have hkey := Table.key_of_get? hrow
      exact hkey
  | release hrow =>
      refine ⟨hrow.symm, ?_⟩
      intro row hafter
      cases hafter
      have hkey := Table.key_of_get? hrow
      exact hkey
  | @admin worker queue =>
      refine ⟨rfl, ?_⟩
      intro row hafter
      cases hafter
      cases hget : view.workers.get? (worker, queue) with
      | none => rfl
      | some old =>
          have hkey := Table.key_of_get? hget
          exact hkey
  | prune hrow _ _ _ =>
      exact ⟨(Table.get?_of_mem hrow).symm, fun _ hafter => by cases hafter⟩

theorem mem_claimSelection {env : Env} {db : Db} {queue : String}
    {among : JobRow → Bool} {row : JobRow}
    (h : row ∈ claimSelection env db queue among) :
    DueRow db env queue row ∧ among row = true := by
  simp only [claimSelection, List.mem_insertionSort, List.mem_filter,
    Bool.and_eq_true, dueForClaim, decide_eq_true_eq] at h
  obtain ⟨hstored, ⟨⟨⟨hclaimable, hdue⟩, hqueue⟩, hamong⟩, _⟩ := h
  exact ⟨⟨hstored, hclaimable, hdue, hqueue⟩, hamong⟩

theorem mem_claimSelection_iff {env : Env} {db : Db} {queue : String}
    {among : JobRow → Bool} {row : JobRow} :
    row ∈ claimSelection env db queue among ↔
      row ∈ db.jobs.rows ∧ dueForClaim queue env.now row = true ∧
        among row = true ∧ env.jobLocked row.id = false := by
  simp only [claimSelection, List.mem_insertionSort, List.mem_filter,
    Bool.and_eq_true, Bool.not_eq_true']
  tauto

theorem claimSelection_subperm (env : Env) (db : Db) (queue : String)
    (among : JobRow → Bool) :
    (claimSelection env db queue among).Subperm db.jobs.rows :=
  (List.perm_insertionSort _ _).subperm.trans List.filter_sublist.subperm

theorem mem_recoverySelection {env : Env} {db : Db} {queue : String}
    {workers : List String} {reason : Recovery} {row : JobRow}
    (h : row ∈ recoverySelection env db queue workers reason) :
    row ∈ db.jobs.rows ∧ row.jobType = queue ∧ row.active = true ∧
      ∃ worker ∈ workers, row.lockBy = some worker := by
  have howned : row ∈ db.jobs.rows.filter fun row =>
      row.jobType = queue && row.active &&
        (row.lockBy.any fun owner => workers.contains owner) := by
    cases reason with
    | staleSweep =>
        have hsorted := List.mem_of_mem_take h
        rw [List.mem_insertionSort] at hsorted
        exact (List.mem_filter.mp hsorted).1
    | takeover | release => exact (List.mem_insertionSort _).mp h
  simp only [List.mem_filter, Bool.and_eq_true, decide_eq_true_eq,
    Option.any_eq_true, List.contains_iff_mem] at howned
  obtain ⟨hstored, ⟨hqueue, hactive⟩, worker, howner, hworker⟩ := howned
  exact ⟨hstored, hqueue, hactive, worker, hworker, howner⟩

theorem recoverySelection_subperm (env : Env) (db : Db) (queue : String)
    (workers : List String) (reason : Recovery) :
    (recoverySelection env db queue workers reason).Subperm db.jobs.rows := by
  cases reason with
  | staleSweep =>
      exact ((List.take_sublist _ _).subperm.trans
        (List.perm_insertionSort _ _).subperm).trans
          (List.filter_sublist.subperm.trans List.filter_sublist.subperm)
  | takeover | release =>
      exact (List.perm_insertionSort _ _).subperm.trans
        List.filter_sublist.subperm

theorem mem_purgeSelection {env : Env} {db : Db} {queue : String}
    {cutoff : Timestamp} {limit : Nat} {row : JobRow}
    (h : row ∈ purgeSelection env db queue cutoff limit) :
    row ∈ db.jobs.rows ∧ row.jobType = queue ∧ terminal row = true ∧
      completedBefore cutoff row = true := by
  have hrow := List.mem_of_mem_take h
  simp only [List.mem_filter, Bool.and_eq_true, decide_eq_true_eq] at hrow
  exact ⟨hrow.1, hrow.2.1.1.1, hrow.2.1.1.2, hrow.2.1.2⟩

theorem insertedRows_ok {queue : String} {jobs : JobTable}
    {batch : List NewJob} {inserted : List JobRow}
    (h : insertedRows queue jobs batch = .ok inserted) :
    (∀ row ∈ inserted, ∃ task ∈ batch, row = task.row queue ∧
      jobs.get? task.id = none) ∧ (inserted.map JobRow.id).Nodup := by
  induction batch generalizing jobs inserted with
  | nil =>
      simp only [insertedRows, Except.ok.injEq] at h
      subst h
      simp
  | cons task rest ih =>
      unfold insertedRows at h
      split at h
      · cases h
      split at h
      · obtain ⟨hrows, hnodup⟩ := ih h
        refine ⟨?_, hnodup⟩
        intro row hrow
        obtain ⟨other, hother, hfact⟩ := hrows row hrow
        exact ⟨other, List.mem_cons_of_mem _ hother, hfact⟩
      · split at h
        · simp at h
        · rename_i hfresh
          cases hrest : insertedRows queue (jobs.put (task.row queue)) rest with
          | error fault => simp [hrest, bind, Except.bind] at h
          | ok tail =>
              simp only [hrest, bind, Except.bind, pure, Except.pure,
                Except.ok.injEq] at h
              subst h
              obtain ⟨hrows, hnodup⟩ := ih hrest
              simp only [Bool.not_eq_true, Option.isSome_eq_false_iff,
                Option.isNone_iff_eq_none] at hfresh
              have hlater : ∀ row ∈ tail, ∃ other ∈ rest,
                  row = other.row queue ∧ other.id ≠ task.id ∧
                    jobs.get? other.id = none := by
                intro row hrow
                obtain ⟨other, hother, heq, hget⟩ := hrows row hrow
                rw [Table.get?_put] at hget
                split at hget
                · simp at hget
                · rename_i hne
                  exact ⟨other, hother, heq, Ne.symm hne, hget⟩
              constructor
              · intro row hrow
                rcases List.mem_cons.mp hrow with rfl | hrow
                · exact ⟨task, List.mem_cons_self, rfl, hfresh⟩
                · obtain ⟨other, hother, heq, _, hget⟩ := hlater row hrow
                  exact ⟨other, List.mem_cons_of_mem _ hother, heq, hget⟩
              · rw [List.map_cons, List.nodup_cons]
                refine ⟨?_, hnodup⟩
                intro hmem
                obtain ⟨row, hrow, hid⟩ := List.mem_map.mp hmem
                obtain ⟨other, _, rfl, hne, _⟩ := hlater row hrow
                exact hne hid

theorem exec_ok {stmt : Stmt} {env : Env} {view : Db} {result : stmt.Result}
    {effects : List Effect} (h : stmt.exec env view = .ok (result, effects)) :
    stmt.plan env view = .ok (result, effects) ∧
      ∀ effect ∈ effects,
        effectViolation (view.apply effects) effect = none := by
  unfold Stmt.exec at h
  cases hplan : stmt.plan env view with
  | error fault => simp [hplan, bind, Except.bind] at h
  | ok planned =>
      simp only [hplan, bind, Except.bind] at h
      split at h
      · simp [throw, throwThe, MonadExceptOf.throw] at h
      · rename_i hnone
        simp only [pure, Except.pure, Except.ok.injEq] at h
        subst h
        exact ⟨rfl, List.findSome?_eq_none_iff.mp hnone⟩

theorem exec_of_plan_nil {stmt : Stmt} {env : Env} {db : Db}
    {result : stmt.Result} (h : stmt.plan env db = .ok (result, [])) :
    stmt.exec env db = .ok (result, []) := by
  simp [Stmt.exec, h, bind, Except.bind, pure, Except.pure]

theorem mem_jobChanges {effects : List Effect} {change : JobChange} :
    change ∈ jobChanges effects ↔ Effect.job change ∈ effects := by
  simp only [jobChanges, List.mem_filterMap]
  constructor
  · rintro ⟨effect, hmem, heq⟩
    cases effect with
    | job other =>
        cases heq
        exact hmem
    | worker other => simp [Effect.jobChange?] at heq
  · intro hmem
    exact ⟨_, hmem, rfl⟩

theorem mem_workerChanges {effects : List Effect} {change : WorkerChange} :
    change ∈ workerChanges effects ↔ Effect.worker change ∈ effects := by
  simp only [workerChanges, List.mem_filterMap]
  constructor
  · rintro ⟨effect, hmem, heq⟩
    cases effect with
    | job other => simp [Effect.workerChange?] at heq
    | worker other =>
        cases heq
        exact hmem
  · intro hmem
    exact ⟨_, hmem, rfl⟩

theorem mem_updateJobs {edge : JobEdge} {rewrite : JobRow → JobRow}
    {selected : List JobRow} {effect : Effect}
    (h : effect ∈ updateJobs edge rewrite selected) :
    ∃ row ∈ selected,
      effect = .job ⟨row.id, edge, some row, some (rewrite row)⟩ := by
  obtain ⟨change, hchange, rfl⟩ := List.mem_map.mp h
  obtain ⟨row, hrow, rfl⟩ := mem_updateChanges.mp hchange
  exact ⟨row, hrow, rfl⟩

/-- One written row, of either table, follows the statement's step. -/
def EffectStep (env : Env) (view : Db) (stmt : Stmt) : Effect → Prop
  | .job change => JobStep env view stmt change
  | .worker change => WorkerStep env view stmt change

/-- Inversion of a statement: everything it writes is one of its steps. -/
theorem plan_step {stmt : Stmt} {env : Env} {view : Db} {result : stmt.Result}
    {effects : List Effect} (h : stmt.plan env view = .ok (result, effects)) :
    ∀ effect ∈ effects, EffectStep env view stmt effect := by
  intro effect hmem
  cases stmt with
  | insertJobs queue batch =>
      cases hins : insertedRows queue view.jobs batch with
      | error fault => simp [Stmt.plan, hins, bind, Except.bind] at h
      | ok inserted =>
          simp only [Stmt.plan, hins, bind, Except.bind, pure, Except.pure,
            Except.ok.injEq, Prod.mk.injEq] at h
          obtain ⟨_, rfl⟩ := h
          obtain ⟨row, hrow, rfl⟩ := List.mem_map.mp hmem
          obtain ⟨task, htask, rfl, hfresh⟩ := (insertedRows_ok hins).1 row hrow
          exact JobStep.enqueue htask hfresh
  | workerRegistration _ _ _ | taskQueue _ _ | lockForRelease _ _ _
  | lockOrphanedWorkers _ _ _ | tryAdvisoryLock _ _ | checkRegistration _ _ _ _
  | lockPrunable _ _ _ =>
      simp only [Stmt.plan, Except.ok.injEq, Prod.mk.injEq] at h
      obtain ⟨_, rfl⟩ := h
      simp at hmem
  | fetchNext worker queue limit =>
      simp only [Stmt.plan, Except.ok.injEq, Prod.mk.injEq] at h
      obtain ⟨_, rfl⟩ := h
      obtain ⟨row, hrow, rfl⟩ := mem_updateJobs hmem
      exact JobStep.pollClaim (mem_claimSelection (List.mem_of_mem_take hrow)).1
  | queueById worker queue ids =>
      simp only [Stmt.plan, Except.ok.injEq, Prod.mk.injEq] at h
      obtain ⟨_, rfl⟩ := h
      obtain ⟨row, hrow, rfl⟩ := mem_updateJobs hmem
      obtain ⟨hdue, hid⟩ := mem_claimSelection hrow
      exact JobStep.notifyClaim hdue (List.contains_iff_mem.mp hid)
  | getJobs worker queue count =>
      simp only [Stmt.plan, Except.ok.injEq, Prod.mk.injEq] at h
      obtain ⟨_, rfl⟩ := h
      obtain ⟨row, hrow, rfl⟩ := mem_updateJobs hmem
      exact JobStep.compatibilityClaim
        (mem_claimSelection (List.mem_of_mem_take hrow)).1
  | quarantine id payload =>
      simp only [Stmt.plan, Except.ok.injEq, Prod.mk.injEq] at h
      obtain ⟨_, rfl⟩ := h
      obtain ⟨row, hrow, rfl⟩ := mem_updateJobs hmem
      simp only [List.mem_filter, decide_eq_true_eq] at hrow
      obtain ⟨hstored, rfl⟩ := hrow
      exact JobStep.quarantine hstored
  | lockTask worker id queue =>
      simp only [Stmt.plan, Except.ok.injEq, Prod.mk.injEq] at h
      obtain ⟨_, rfl⟩ := h
      obtain ⟨row, hrow, rfl⟩ := mem_updateJobs hmem
      simp only [List.mem_filter, Bool.and_eq_true, decide_eq_true_eq,
        Bool.or_eq_true, Option.isNone_iff_eq_none] at hrow
      obtain ⟨hstored, ⟨rfl, hqueue⟩, hlockable⟩ := hrow
      exact JobStep.lock hstored hqueue hlockable
  | failUndecodableTask id worker payload lockAt attempts =>
      simp only [Stmt.plan, Except.ok.injEq, Prod.mk.injEq] at h
      obtain ⟨_, rfl⟩ := h
      obtain ⟨row, hrow, rfl⟩ := mem_updateJobs hmem
      obtain ⟨hstored, hepoch⟩ := List.mem_filter.mp hrow
      exact JobStep.undecodable hstored hepoch
  | startTask claim =>
      simp only [Stmt.plan, Except.ok.injEq, Prod.mk.injEq] at h
      obtain ⟨_, rfl⟩ := h
      obtain ⟨row, hrow, rfl⟩ := mem_updateJobs hmem
      simp only [List.mem_filter, Bool.and_eq_true, Option.any_eq_true] at hrow
      obtain ⟨hstored, ⟨owner, howner, htoken⟩, hstart⟩ := hrow
      exact JobStep.start hstored hstart howner htoken
  | ackTask update =>
      simp only [Stmt.plan, Except.ok.injEq, Prod.mk.injEq] at h
      obtain ⟨_, rfl⟩ := h
      obtain ⟨row, hrow, rfl⟩ := mem_updateJobs hmem
      obtain ⟨hstored, hepoch⟩ := List.mem_filter.mp hrow
      exact JobStep.acknowledge hstored hepoch
  | recoverOwned queue workers reason =>
      simp only [Stmt.plan, Except.ok.injEq, Prod.mk.injEq] at h
      obtain ⟨_, rfl⟩ := h
      obtain ⟨row, hrow, rfl⟩ := mem_updateJobs hmem
      obtain ⟨hstored, hqueue, hactive, worker, hworker, howner⟩ :=
        mem_recoverySelection hrow
      exact JobStep.recovery hstored hqueue hactive howner hworker
  | markReleased worker queue =>
      cases hget : view.workers.get? (worker, queue) with
      | none =>
          simp only [Stmt.plan, hget, Except.ok.injEq, Prod.mk.injEq] at h
          obtain ⟨_, rfl⟩ := h
          simp at hmem
      | some row =>
          simp only [Stmt.plan, hget, Except.ok.injEq, Prod.mk.injEq] at h
          obtain ⟨_, rfl⟩ := h
          simp only [putWorker, List.mem_singleton] at hmem
          subst hmem
          have hkey : (releasedRow row).key = (worker, queue) :=
            (Table.key_of_get? hget :)
          rw [hkey]
          exact WorkerStep.release hget
  | upsertRegistration worker queue storage layers token =>
      simp only [Stmt.plan, Except.ok.injEq, Prod.mk.injEq] at h
      obtain ⟨_, rfl⟩ := h
      simp only [putWorker, List.mem_singleton] at hmem
      subst hmem
      have hstep : WorkerStep env view
          (.upsertRegistration worker queue storage layers token) _ :=
        WorkerStep.register
      rw [hstep.reads.key_eq _ rfl]
      exact hstep
  | keepAlive worker queue token =>
      cases hget : view.workers.get? (worker, queue) with
      | none =>
          simp only [Stmt.plan, hget, Except.ok.injEq, Prod.mk.injEq] at h
          obtain ⟨_, rfl⟩ := h
          simp at hmem
      | some row =>
          simp only [Stmt.plan, hget] at h
          split at h
          · rename_i htoken
            simp only [Except.ok.injEq, Prod.mk.injEq] at h
            obtain ⟨_, rfl⟩ := h
            simp only [putWorker, List.mem_singleton] at hmem
            subst hmem
            have hkey : (renewedRow env.now row).key = (worker, queue) :=
              (Table.key_of_get? hget :)
            rw [hkey]
            exact WorkerStep.heartbeat hget htoken
          · simp only [Except.ok.injEq, Prod.mk.injEq] at h
            obtain ⟨_, rfl⟩ := h
            simp at hmem
  | registerWorkerAdmin worker queue =>
      simp only [Stmt.plan, Except.ok.injEq, Prod.mk.injEq] at h
      obtain ⟨_, rfl⟩ := h
      simp only [putWorker, List.mem_singleton] at hmem
      subst hmem
      have hstep : WorkerStep env view (.registerWorkerAdmin worker queue) _ :=
        WorkerStep.admin
      rw [hstep.reads.key_eq _ rfl]
      exact hstep
  | deleteUnreferenced queue ids =>
      simp only [Stmt.plan, Except.ok.injEq, Prod.mk.injEq] at h
      obtain ⟨_, rfl⟩ := h
      obtain ⟨row, hrow, rfl⟩ := List.mem_map.mp hmem
      simp only [unreferencedSelection, List.mem_filter, Bool.and_eq_true,
        decide_eq_true_eq, List.contains_iff_mem] at hrow
      obtain ⟨hstored, ⟨hqueue, hid⟩, hfree⟩ := hrow
      exact WorkerStep.prune hstored hqueue hid (by simpa using hfree)
  | purgeTerminal queue cutoff limit =>
      simp only [Stmt.plan, Except.ok.injEq, Prod.mk.injEq] at h
      obtain ⟨_, rfl⟩ := h
      obtain ⟨row, hrow, rfl⟩ := List.mem_map.mp hmem
      obtain ⟨hstored, hqueue, hterminal, hold⟩ := mem_purgeSelection hrow
      exact JobStep.purge hstored hqueue hterminal hold

@[simp] theorem jobChanges_updateJobs (edge : JobEdge)
    (rewrite : JobRow → JobRow) (selected : List JobRow) :
    jobChanges (updateJobs edge rewrite selected) =
      updateChanges JobRow.id edge rewrite selected :=
  jobChanges_map_job _

@[simp] theorem workerChanges_updateJobs (edge : JobEdge)
    (rewrite : JobRow → JobRow) (selected : List JobRow) :
    workerChanges (updateJobs edge rewrite selected) = [] :=
  workerChanges_map_job _

@[simp] theorem jobChanges_putWorker (edge : WorkerEdge)
    (old : Option WorkerRow) (row : WorkerRow) :
    jobChanges (putWorker edge old row) = [] := rfl

@[simp] theorem workerChanges_putWorker (edge : WorkerEdge)
    (old : Option WorkerRow) (row : WorkerRow) :
    workerChanges (putWorker edge old row) =
      [⟨row.key, edge, old, some row⟩] := rfl

theorem deleteJobs_eq (selected : List JobRow) :
    deleteJobs selected = (selected.map fun row =>
      (⟨row.id, .purge, some row, none⟩ : JobChange)).map Effect.job := by
  simp [deleteJobs]

theorem updateJobs_keys_nodup {view : Db} (edge : JobEdge)
    (rewrite : JobRow → JobRow) {selected : List JobRow}
    (hsub : selected.Subperm view.jobs.rows) :
    ((jobChanges (updateJobs edge rewrite selected)).map
      RowChange.key).Nodup := by
  rw [jobChanges_updateJobs, updateChanges_keys]
  exact view.jobs.keys_nodup_of_subperm hsub

/-- No statement writes a job row twice. -/
theorem plan_jobKeys {stmt : Stmt} {env : Env} {view : Db}
    {result : stmt.Result} {effects : List Effect}
    (h : stmt.plan env view = .ok (result, effects)) :
    ((jobChanges effects).map RowChange.key).Nodup := by
  have hfilter : ∀ among : JobRow → Bool,
      (view.jobs.rows.filter among).Subperm view.jobs.rows :=
    fun among => List.filter_sublist.subperm
  have htake : ∀ (limit : Nat) (selected : List JobRow),
      selected.Subperm view.jobs.rows →
      (selected.take limit).Subperm view.jobs.rows :=
    fun limit selected hsub => (List.take_sublist _ _).subperm.trans hsub
  cases stmt with
  | insertJobs queue batch =>
      cases hins : insertedRows queue view.jobs batch with
      | error fault => simp [Stmt.plan, hins, bind, Except.bind] at h
      | ok inserted =>
          simp only [Stmt.plan, hins, bind, Except.bind, pure, Except.pure,
            Except.ok.injEq, Prod.mk.injEq] at h
          obtain ⟨_, rfl⟩ := h
          have hkeys := (insertedRows_ok hins).2
          simpa [jobChanges, List.filterMap_map, Function.comp_def,
            Effect.jobChange?] using hkeys
  | workerRegistration _ _ _ | taskQueue _ _ | lockForRelease _ _ _
  | lockOrphanedWorkers _ _ _ | tryAdvisoryLock _ _ | checkRegistration _ _ _ _
  | lockPrunable _ _ _ =>
      simp only [Stmt.plan, Except.ok.injEq, Prod.mk.injEq] at h
      obtain ⟨_, rfl⟩ := h
      simp
  | fetchNext worker queue limit =>
      simp only [Stmt.plan, Except.ok.injEq, Prod.mk.injEq] at h
      obtain ⟨_, rfl⟩ := h
      exact updateJobs_keys_nodup _ _
        (htake _ _ (claimSelection_subperm _ _ _ _))
  | queueById worker queue ids =>
      simp only [Stmt.plan, Except.ok.injEq, Prod.mk.injEq] at h
      obtain ⟨_, rfl⟩ := h
      exact updateJobs_keys_nodup _ _ (claimSelection_subperm _ _ _ _)
  | getJobs worker queue count =>
      simp only [Stmt.plan, Except.ok.injEq, Prod.mk.injEq] at h
      obtain ⟨_, rfl⟩ := h
      exact updateJobs_keys_nodup _ _
        (htake _ _ (claimSelection_subperm _ _ _ _))
  | quarantine _ _ | lockTask _ _ _ | failUndecodableTask _ _ _ _ _
  | startTask _ | ackTask _ =>
      simp only [Stmt.plan, Except.ok.injEq, Prod.mk.injEq] at h
      obtain ⟨_, rfl⟩ := h
      exact updateJobs_keys_nodup _ _ (hfilter _)
  | recoverOwned queue workers reason =>
      simp only [Stmt.plan, Except.ok.injEq, Prod.mk.injEq] at h
      obtain ⟨_, rfl⟩ := h
      exact updateJobs_keys_nodup _ _ (recoverySelection_subperm _ _ _ _ _)
  | markReleased worker queue =>
      simp only [Stmt.plan] at h
      split at h <;> cases h <;> simp
  | upsertRegistration _ _ _ _ _ | registerWorkerAdmin _ _ =>
      simp only [Stmt.plan, Except.ok.injEq, Prod.mk.injEq] at h
      obtain ⟨_, rfl⟩ := h
      simp
  | keepAlive worker queue token =>
      simp only [Stmt.plan] at h
      split at h
      · cases h
        simp
      · split at h <;> cases h <;>
          simp
  | deleteUnreferenced queue ids =>
      simp only [Stmt.plan, Except.ok.injEq, Prod.mk.injEq] at h
      obtain ⟨_, rfl⟩ := h
      simp [jobChanges, List.filterMap_map, Function.comp_def,
        Effect.jobChange?]
  | purgeTerminal queue cutoff limit =>
      simp only [Stmt.plan, Except.ok.injEq, Prod.mk.injEq] at h
      obtain ⟨_, rfl⟩ := h
      have hkeys := view.jobs.keys_nodup_of_subperm
        (htake limit _ (hfilter fun row => row.jobType = queue &&
          terminal row && completedBefore cutoff row &&
            !env.jobLocked row.id))
      rw [deleteJobs_eq, jobChanges_map_job, List.map_map]
      exact hkeys

/-- No statement writes a registration twice. -/
theorem plan_workerKeys {stmt : Stmt} {env : Env} {view : Db}
    {result : stmt.Result} {effects : List Effect}
    (h : stmt.plan env view = .ok (result, effects)) :
    ((workerChanges effects).map RowChange.key).Nodup := by
  cases stmt with
  | insertJobs queue batch =>
      cases hins : insertedRows queue view.jobs batch with
      | error fault => simp [Stmt.plan, hins, bind, Except.bind] at h
      | ok inserted =>
          simp only [Stmt.plan, hins, bind, Except.bind, pure, Except.pure,
            Except.ok.injEq, Prod.mk.injEq] at h
          obtain ⟨_, rfl⟩ := h
          simp [workerChanges, List.filterMap_map, Function.comp_def,
            Effect.workerChange?]
  | workerRegistration _ _ _ | taskQueue _ _ | lockForRelease _ _ _
  | lockOrphanedWorkers _ _ _ | tryAdvisoryLock _ _ | checkRegistration _ _ _ _
  | lockPrunable _ _ _ | fetchNext _ _ _ | queueById _ _ _ | getJobs _ _ _
  | quarantine _ _ | lockTask _ _ _ | failUndecodableTask _ _ _ _ _
  | startTask _ | ackTask _ | recoverOwned _ _ _ =>
      simp only [Stmt.plan, Except.ok.injEq, Prod.mk.injEq] at h
      obtain ⟨_, rfl⟩ := h
      simp
  | markReleased worker queue =>
      simp only [Stmt.plan] at h
      split at h <;> cases h <;> simp
  | upsertRegistration _ _ _ _ _ | registerWorkerAdmin _ _ =>
      simp only [Stmt.plan, Except.ok.injEq, Prod.mk.injEq] at h
      obtain ⟨_, rfl⟩ := h
      simp
  | keepAlive worker queue token =>
      simp only [Stmt.plan] at h
      split at h
      · cases h
        simp
      · split at h <;> cases h <;>
          simp
  | deleteUnreferenced queue ids =>
      simp only [Stmt.plan, Except.ok.injEq, Prod.mk.injEq] at h
      obtain ⟨_, rfl⟩ := h
      have hkeys := view.workers.keys_nodup_of_subperm
        (List.filter_sublist (p := fun row : WorkerRow =>
          row.workerType = queue && ids.contains row.id &&
            !referenced view row.key)).subperm
      simpa [unreferencedSelection, workerChanges, List.filterMap_map,
        Function.comp_def, Effect.workerChange?] using hkeys
  | purgeTerminal queue cutoff limit =>
      simp only [Stmt.plan, Except.ok.injEq, Prod.mk.injEq] at h
      obtain ⟨_, rfl⟩ := h
      rw [deleteJobs_eq, workerChanges_map_job]
      exact List.nodup_nil

/-- What is known of a statement that succeeded: every written row is one of
its steps, no row is written twice, and the schema accepted them all. -/
structure Executed (env : Env) (view : Db) (stmt : Stmt)
    (effects : List Effect) : Prop where
  steps : ∀ effect ∈ effects, EffectStep env view stmt effect
  jobKeys : ((jobChanges effects).map RowChange.key).Nodup
  workerKeys : ((workerChanges effects).map RowChange.key).Nodup
  accepted : ∀ effect ∈ effects,
    effectViolation (view.apply effects) effect = none

theorem exec_executed {stmt : Stmt} {env : Env} {view : Db}
    {result : stmt.Result} {effects : List Effect}
    (h : stmt.exec env view = .ok (result, effects)) :
    Executed env view stmt effects :=
  ⟨plan_step (exec_ok h).1, plan_jobKeys (exec_ok h).1,
    plan_workerKeys (exec_ok h).1, (exec_ok h).2⟩

section

variable {env : Env} {view : Db} {stmt : Stmt} {effects : List Effect}

theorem Executed.jobStep (h : Executed env view stmt effects)
    {change : JobChange} (hmem : change ∈ jobChanges effects) :
    JobStep env view stmt change :=
  h.steps _ (mem_jobChanges.mp hmem)

theorem Executed.workerStep (h : Executed env view stmt effects)
    {change : WorkerChange} (hmem : change ∈ workerChanges effects) :
    WorkerStep env view stmt change :=
  h.steps _ (mem_workerChanges.mp hmem)

theorem Executed.job_cases (h : Executed env view stmt effects) (id : String) :
    (∃ change ∈ jobChanges effects, change.key = id ∧
        (view.apply effects).jobs.get? id = change.after) ∨
      (id ∉ (jobChanges effects).map RowChange.key ∧
        (view.apply effects).jobs.get? id = view.jobs.get? id) := by
  rw [Db.apply_jobs]
  apply view.jobs.get?_applyChanges_cases _ h.jobKeys
  intro change hmem row hafter
  exact (h.jobStep hmem).reads.key_eq row hafter

/-- The registration under a key is what a step of the statement left, or
untouched. -/
theorem Executed.worker_cases (h : Executed env view stmt effects)
    (key : String × String) :
    (∃ change ∈ workerChanges effects, change.key = key ∧
        (view.apply effects).workers.get? key = change.after) ∨
      (key ∉ (workerChanges effects).map RowChange.key ∧
        (view.apply effects).workers.get? key = view.workers.get? key) := by
  rw [Db.apply_workers]
  apply view.workers.get?_applyChanges_cases _ h.workerKeys
  intro change hmem row hafter
  exact (h.workerStep hmem).reads.key_eq row hafter

theorem Executed.get?_of_mem (h : Executed env view stmt effects)
    {change : JobChange} (hmem : change ∈ jobChanges effects) :
    (view.apply effects).jobs.get? change.key = change.after := by
  rw [Db.apply_jobs]
  apply view.jobs.get?_applyChanges_of_mem _ h.jobKeys hmem
  intro other hother row hafter
  exact (h.jobStep hother).reads.key_eq row hafter

theorem Executed.get?_worker_of_mem (h : Executed env view stmt effects)
    {change : WorkerChange} (hmem : change ∈ workerChanges effects) :
    (view.apply effects).workers.get? change.key = change.after := by
  rw [Db.apply_workers]
  apply view.workers.get?_applyChanges_of_mem _ h.workerKeys hmem
  intro other hother row hafter
  exact (h.workerStep hother).reads.key_eq row hafter

theorem Executed.row_cases (h : Executed env view stmt effects)
    {row : JobRow} (hrow : row ∈ (view.apply effects).jobs.rows) :
    (∃ change ∈ jobChanges effects, change.after = some row) ∨
      (row ∈ view.jobs.rows ∧
        row.id ∉ (jobChanges effects).map RowChange.key) := by
  have hget := Table.get?_of_mem hrow
  rcases h.job_cases row.id with ⟨change, hmem, _, hafter⟩ | ⟨hnot, hsame⟩
  · exact Or.inl ⟨change, hmem, hafter.symm.trans hget⟩
  · exact Or.inr ⟨Table.mem_of_get? (hsame.symm.trans hget), hnot⟩

theorem Db.apply_workers_eq {db : Db}
    (h : ∀ change, Effect.worker change ∉ effects) :
    (db.apply effects).workers = db.workers := by
  have hnil : workerChanges effects = [] := by
    apply List.eq_nil_iff_forall_not_mem.mpr
    intro change hmem
    exact h change (mem_workerChanges.mp hmem)
  rw [Db.apply_workers, hnil]
  rfl

theorem Db.apply_jobs_eq {db : Db}
    (h : ∀ change, Effect.job change ∉ effects) :
    (db.apply effects).jobs = db.jobs := by
  have hnil : jobChanges effects = [] := by
    apply List.eq_nil_iff_forall_not_mem.mpr
    intro change hmem
    exact h change (mem_jobChanges.mp hmem)
  rw [Db.apply_jobs, hnil]
  rfl

theorem Executed.workers_eq (h : Executed env view stmt effects)
    (hno : ∀ change, ¬ WorkerStep env view stmt change) :
    (view.apply effects).workers = view.workers :=
  Db.apply_workers_eq fun change hmem => hno change (h.steps _ hmem)

/-- The schema's word on a row that a statement wrote. -/
theorem Executed.row_accepted (h : Executed env view stmt effects)
    {change : JobChange} (hmem : change ∈ jobChanges effects) {row : JobRow}
    (hafter : change.after = some row) :
    rowViolation row = none ∧
      ownerRegistered (view.apply effects) row = true := by
  have haccepted := h.accepted _ (mem_jobChanges.mp hmem)
  simp only [effectViolation, hafter] at haccepted
  cases hrow : rowViolation row with
  | some violated => simp [hrow] at haccepted
  | none =>
      simp only [hrow] at haccepted
      split at haccepted
      · rename_i howner
        exact ⟨rfl, howner⟩
      · simp at haccepted

end

/-- The rows a statement leaves that rewrites a selection in place. -/
theorem get?_updated {stmt : Stmt} {env : Env} {db : Db}
    {result : stmt.Result} {edge : JobEdge} {rewrite : JobRow → JobRow}
    {keep : JobRow → Bool} {effects : List Effect}
    (hexec : stmt.exec env db = .ok (result, effects))
    (heffects : effects = updateJobs edge rewrite (db.jobs.rows.filter keep))
    (id : String) :
    (db.apply effects).jobs.get? id =
      (db.jobs.get? id).map fun row => if keep row then rewrite row else row := by
  have hexecuted := exec_executed hexec
  rcases hexecuted.job_cases id with
    ⟨change, hmem, rfl, hafter⟩ | ⟨hnot, hsame⟩
  · rw [mem_jobChanges, heffects] at hmem
    obtain ⟨row, hrow, heq⟩ := mem_updateJobs hmem
    obtain ⟨hstored, hkept⟩ := List.mem_filter.mp hrow
    cases heq
    rw [hafter, Table.get?_of_mem hstored]
    simp [hkept]
  · rw [hsame]
    cases hget : db.jobs.get? id with
    | none => rfl
    | some row =>
        have hstored := Table.mem_of_get? hget
        have hid := Table.key_of_get? hget
        have hunkept : keep row = false := by
          by_contra hkept
          refine hnot (List.mem_map.mpr ⟨⟨row.id, edge, some row,
            some (rewrite row)⟩, ?_, hid⟩)
          rw [mem_jobChanges, heffects]
          exact List.mem_map_of_mem (mem_updateChanges.mpr ⟨row,
            List.mem_filter.mpr ⟨hstored, by simpa using hkept⟩, rfl⟩)
        simp [hunkept]

theorem Db.row_unique {db : Db} {first second : JobRow}
    (hfirst : first ∈ db.jobs.rows) (hsecond : second ∈ db.jobs.rows)
    (hid : first.id = second.id) : first = second := by
  have hget := Table.get?_of_mem hfirst
  rw [hid, Table.get?_of_mem hsecond] at hget
  exact (Option.some.inj hget).symm

theorem claimable_iff (row : JobRow) :
    claimable row = true ↔
      (row.status = .pending ∨ row.status = .failed) ∧
        row.attempts < row.maxAttempts := by
  simp [claimable]

theorem epochMatches_iff {id worker : String} {lockAt attempts : Int}
    {row : JobRow} :
    epochMatches id worker lockAt attempts row = true ↔
      row.id = id ∧ row.active = true ∧ row.lockBy = some worker ∧
        row.lockAt = some (toTimestamp lockAt) ∧ row.attempts = attempts := by
  simp only [epochMatches, Bool.and_eq_true, decide_eq_true_eq]
  tauto

theorem acknowledgeable_iff {update : AckTaskUpdate} {row : JobRow} :
    acknowledgeable update row = true ↔
      row.jobType = update.queue ∧ row.id = update.taskId ∧
        row.active = true ∧ row.lockBy = some update.workerId ∧
        row.lockAt = some (toTimestamp update.lockAt) ∧
        row.attempts = update.startedAttempts := by
  simp only [acknowledgeable, Bool.and_eq_true, decide_eq_true_eq,
    epochMatches_iff]

/-- The facts of a matched start. -/
structure Startable (claim : StartClaim) (row : JobRow) : Prop where
  id : row.id = claim.taskId
  jobType : row.jobType = claim.queue
  lockBy : row.lockBy = some claim.workerId
  lockAt : row.lockAt = some (toTimestamp claim.lockAt)
  attempts : claim.attempts = none ∨ claim.attempts = some row.attempts
  status : row.status = .queued ∨
    (claim.restart = true ∧ row.status = .running)

theorem startable_iff {claim : StartClaim} {row : JobRow} :
    startable claim row = true ↔ Startable claim row := by
  simp only [startable, Bool.and_eq_true, Bool.or_eq_true, decide_eq_true_eq,
    Option.isNone_iff_eq_none]
  constructor
  · rintro ⟨⟨⟨⟨⟨hid, hqueue⟩, howner⟩, hlockAt⟩, hattempts⟩, hstatus⟩
    exact ⟨hid, hqueue, howner, hlockAt, hattempts, hstatus⟩
  · rintro ⟨hid, hqueue, howner, hlockAt, hattempts, hstatus⟩
    exact ⟨⟨⟨⟨⟨hid, hqueue⟩, howner⟩, hlockAt⟩, hattempts⟩, hstatus⟩

theorem Startable.active {claim : StartClaim} {row : JobRow}
    (h : Startable claim row) : row.active = true := by
  rcases h.status with hqueued | ⟨_, hrunning⟩
  · simp [JobRow.active, hqueued]
  · simp [JobRow.active, hrunning]

@[simp] theorem claimRow_active (worker : String) (now : Timestamp)
    (row : JobRow) : (claimRow worker now row).active = true := rfl

@[simp] theorem lockRow_active (worker : String) (now : Timestamp)
    (row : JobRow) : (lockRow worker now row).active = true := rfl

@[simp] theorem startRow_active (row : JobRow) :
    (startRow row).active = true := rfl

@[simp] theorem quarantineRow_active (now : Timestamp) (result : Json)
    (row : JobRow) : (quarantineRow now result row).active = false := rfl

@[simp] theorem undecodableRow_active (now : Timestamp) (result : Json)
    (row : JobRow) : (undecodableRow now result row).active = false := by
  simp only [undecodableRow, JobRow.active]
  split <;> rfl

@[simp] theorem recoverRow_active (now : Timestamp) (reason : Recovery)
    (row : JobRow) : (recoverRow now reason row).active = false := by
  simp only [recoverRow, JobRow.active]
  split <;> rfl

theorem ackRow_active {now : Timestamp} {update : AckTaskUpdate}
    {row : JobRow} {token : Option String} {res : HandlerResult}
    {parts : Parts} (h : update.Acknowledges token res parts) :
    (ackRow now update row).active = false := by
  simp only [ackRow, JobRow.active, h.status, calculateStatus]
  split
  · rfl
  · split <;> rfl

end ApalisPostgres
