/-
The histories of rows when sessions interleave.  In the order of the commits
every job row and every registration has one history: each write replaced what
the commits before it had left, so no update is lost.
-/
import ApalisPostgres.CommitOrder
import ApalisPostgres.JobWrites
import ApalisPostgres.AttemptAccounting

namespace ApalisPostgres

open RowStore

variable {rows : TaskConversion}

/-- The job rows, each under the lock of its id. -/
def jobCells : Cells rowLocks String (Option JobRow) where
  read id db := db.jobs.get? id
  writes id item := id ∈ (jobChanges item.changes).map RowChange.key
  guards id lock := lock = (.job id, .update)
  clash := by
    rintro id first second rfl rfl
    exact clash_job id
  guarded := by
    intro id item hwrites
    obtain ⟨change, hchange, rfl⟩ := List.mem_map.mp hwrites
    refine ⟨_, ?_, rfl⟩
    apply List.mem_append_right
    exact List.mem_flatMap.mpr
      ⟨_, mem_jobChanges.mp hchange, List.mem_cons_self⟩
  kept := by
    intro id item db hkept
    change (db.apply item.changes).jobs.get? id = db.jobs.get? id
    rw [Db.apply_jobs]
    apply db.jobs.get?_applyChanges_of_not_mem _ hkept
    intro change hchange row hafter
    exact ((exec_executed item.executed).jobStep hchange).reads.key_eq row
      hafter
  congr := by
    intro id item first second hsame
    change (first.apply item.changes).jobs.get? id =
      (second.apply item.changes).jobs.get? id
    rw [Db.apply_jobs, Db.apply_jobs]
    apply Table.get?_applyChanges_congr _ hsame
    intro change hchange row hafter
    exact ((exec_executed item.executed).jobStep hchange).reads.key_eq row
      hafter

/-- The registrations, each under the locks of its writers. -/
def registrationCells :
    Cells rowLocks (String × String) (Option WorkerRow) where
  read key db := db.workers.get? key
  writes key item := key ∈ (workerChanges item.changes).map RowChange.key
  guards := WriteLock
  clash _ _ _ := clash_of_writeLock
  guarded := by
    intro key item hwrites
    obtain ⟨change, hchange, rfl⟩ := List.mem_map.mp hwrites
    exact writeLock_of_change hchange
  kept := by
    intro key item db hkept
    change (db.apply item.changes).workers.get? key = db.workers.get? key
    rw [Db.apply_workers]
    apply db.workers.get?_applyChanges_of_not_mem _ hkept
    intro change hchange row hafter
    exact ((exec_executed item.executed).workerStep hchange).reads.key_eq row
      hafter
  congr := by
    intro key item first second hsame
    change (first.apply item.changes).workers.get? key =
      (second.apply item.changes).workers.get? key
    rw [Db.apply_workers, Db.apply_workers]
    apply Table.get?_applyChanges_congr _ hsame
    intro change hchange row hafter
    exact ((exec_executed item.executed).workerStep hchange).reads.key_eq row
      hafter

/-- No update is lost, in any interleaving: there is one order of the committed
transactions in which the database is what they wrote, and in which every
committed write of a job row or of a registration replaced exactly what the
statements before it had left there. -/
theorem row_writes_serial {server : PgServer}
    (h : (pgServer rows).Reachable server) :
    ∃ order, server.CommitOrder .empty order ∧
      ∀ before item after,
        server.statements order = before ++ item :: after →
        (∀ change ∈ jobChanges item.changes, change.before =
          (Db.empty.apply (written before)).jobs.get? change.key) ∧
        ∀ change ∈ workerChanges item.changes, change.before =
          (Db.empty.apply (written before)).workers.get? change.key := by
  obtain ⟨order, horder, hserial⟩ := Server.reachable_commitOrder h
  refine ⟨order, horder, ?_⟩
  intro before item after hsplit
  have hexecuted := exec_executed item.executed
  constructor
  · intro change hchange
    rw [(hexecuted.jobStep hchange).reads.before_eq]
    exact hserial jobCells before item after change.key hsplit
      (List.mem_map_of_mem hchange)
  · intro change hchange
    rw [(hexecuted.workerStep hchange).reads.before_eq]
    exact hserial registrationCells before item after change.key hsplit
      (List.mem_map_of_mem hchange)

/-- A heartbeat begins after a fetch and commits between the two statements of
the fetch; the claimed task is then acknowledged as failed. -/
def overtakenEvents : List PgEvent :=
  let env : Env := quietEnv 0
  [ .begin (.registerWorker "worker" "queue" storageName "" "token" 30),
    .statement 0 env, .statement 0 env, .statement 0 env, .finish 0,
    .begin (.pushTasksOnConn "queue" [sampleTask]),
    .statement 1 env, .finish 1,
    .begin (.fetchNext "worker" "queue" 10 (some "token")),
    .statement 2 env,
    .begin (.keepAlive "worker" "queue" "token"),
    .statement 3 env, .finish 3,
    .statement 2 env, .finish 2,
    .begin (.acknowledge (some "token") (.err "failed")
      ⟨some sampleId, ⟨2, some 1, some "worker", some "queue"⟩, 1, none⟩),
    .statement 4 env, .statement 4 env, .finish 4 ]

def overtaken : PgServer :=
  ((pgServer .copying).run idleServer overtakenEvents).getD idleServer

theorem overtaken_reachable : (pgServer .copying).Reachable overtaken :=
  ⟨idleServer, rfl, Machine.follows_of_run overtakenEvents
    (Machine.run_eq_getD idleServer (by decide +kernel))⟩

theorem row_writes_serial_overtaken :
    (overtaken.sessions.map fun session => session.stage.isCommitted) =
        [true, true, true, true, true] ∧
      ∃ order, overtaken.CommitOrder .empty order ∧
        ∀ before item after,
          overtaken.statements order = before ++ item :: after →
          (∀ change ∈ jobChanges item.changes, change.before =
            (Db.empty.apply (written before)).jobs.get? change.key) ∧
          ∀ change ∈ workerChanges item.changes, change.before =
            (Db.empty.apply (written before)).workers.get? change.key :=
  ⟨by decide +kernel, row_writes_serial overtaken_reachable⟩

end ApalisPostgres
